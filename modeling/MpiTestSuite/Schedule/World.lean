import MpiTestSuite.Schedule.Main

/-!
# The processes of `MPI_COMM_WORLD`

All processes are started with the same options and go through the same iterations. What one of them
knows that another need not know is what MPI tells it about the communicators: the group it belongs
to, its rank there, and the group that it exchanges messages with (`World`). Admission depends on it
through the size of a communicator alone (`commsize_lt_one_iff`).
-/

namespace MpiTestSuite

variable {p : ℕ}

/-- What MPI tells the processes of `MPI_COMM_WORLD` about the communicators. -/
structure World (p : ℕ) where
  /-- What is the same for all processes. -/
  base : Setting
  /-- The group that a process belongs to, by rank. -/
  group : ℤ → Fin p → List (Fin p)
  /-- The group that it sends messages to: its own, or the other group of an inter-communicator. -/
  peers : ℤ → Fin p → List (Fin p)
  mem_group : ∀ c q, group c q ≠ [] → q ∈ group c q
  nodup : ∀ c q, (peers c q).Nodup
  of_mem_peers : ∀ c q, ∀ r ∈ peers c q,
    peers c r = group c q ∧ group c r = peers c q ∧ q ∈ group c q
  peers_of_intra : ∀ c q, tstCommGetcommclass base.comms c &&& tstMpiIntraComm ≠ 0 →
    peers c q = group c q

namespace World

variable (w : World p)

/-- What the process `q` knows. -/
def setting (q : Fin p) : Setting :=
  { w.base with mpiCommSize := fun c ↦ (w.group c q).length }

/-- `MPI_Comm_rank`. -/
def commRank (c : ℤ) (q : Fin p) : ℕ := (w.group c q).idxOf q

/-- `MPI_Comm_size` or, for an inter-communicator, `MPI_Comm_remote_size`. -/
def commSize (c : ℤ) (q : Fin p) : ℕ :=
  if tstCommGetcommclass w.base.comms c &&& tstMpiIntraComm ≠ 0 then (w.group c q).length
  else (w.peers c q).length

theorem commSize_eq (c : ℤ) (q : Fin p) : w.commSize c q = (w.peers c q).length := by
  rw [commSize]
  split_ifs with hintra
  · rw [w.peers_of_intra c q hintra]
  · rfl

/-- `tst_test_check_run`, as the process `q` evaluates it. -/
def admits (q : Fin p) (env : Env) : Bool :=
  tstTestCheckRun (w.setting q) env.test env.comm env.type

theorem commsize_lt_one_iff (c : ℤ) (q : Fin p) :
    tstCommGetcommsize w.base.comms (w.setting q).mpiCommSize c < 1 ↔
      c < 0 ∨ (w.base.comms.slot c.toNat).isNull = true ∨ w.group c q = [] := by
  rw [tstCommGetcommsize]
  split_ifs with hneg hnull
  · simp [hneg]
  · simp [hnull]
  · have hcast : (w.setting q).mpiCommSize c.toNat = (w.group c q).length := by
      simp only [setting, Int.toNat_of_nonneg (not_lt.mp hneg)]
    rw [hcast, ← List.length_eq_zero_iff]
    simp only [hneg, hnull, false_or, Bool.false_eq_true]
    omega

variable {w} {c : ℤ} {q : Fin p}

/-- Rank zero is the first of its group. -/
theorem head?_of_commRank_eq_zero (hq : q ∈ w.group c q) (h : w.commRank c q = 0) :
    (w.group c q).head? = some q := by
  have hlt := List.idxOf_lt_length_of_mem hq
  have hget := List.getElem_idxOf hlt
  rw [commRank] at h
  simp only [h] at hget hlt
  rw [List.head?_eq_getElem?, List.getElem?_eq_getElem hlt, hget]

theorem commRank_eq_zero_of_head? (h : (w.group c q).head? = some q) :
    w.commRank c q = 0 := by
  obtain ⟨l, hl⟩ := List.head?_eq_some_iff.mp h
  rw [commRank, hl, List.idxOf_cons_self]

end World

end MpiTestSuite
