import MpiTestSuite.Threaded.Parties

/-!
# The ring of persistent requests

In `"Threaded ring persistent"` every thread of every process, the master too, makes a persistent
send to the next rank and a persistent receive from the rank before, starts both and waits for them.
The tags are meant to lead from thread to thread. But `tst_comm_getcomm` gives every thread a
communicator of its own, on which only threads with the same number can meet, and the tag that the
status is compared with is the number of the thread, not the tag of its request.

On a communicator like `MPI_COMM_SELF` there are no partners. On every other one the master, whose
number is `-1`, compares the tag with one that it has not asked for.
-/

open MpiTestSuite.Runs MpiTestSuite.Runs.Threads

namespace MpiTestSuite

namespace Threaded

/-! ## The test -/

/-- The arguments of `MPI_Send_init` or `MPI_Recv_init`. -/
structure PersistentRequest where
  partner : Option ℕ
  key : Key
  deriving DecidableEq, Repr

def persistentPlace : Flags → ℕ → ℕ → Except Stop P2P.RingPlace :=
  threadedPlace "tst_threaded_ring_persistent cannot run with this kind of communicator" false

/-- `thread_tag_to` in `tst_threaded_ring_persistent_init`. -/
def persistentTagTo (tag : ℤ) (numThreads thread : ℕ) : ℤ :=
  tag + (tstThreadGetNum (List.range numThreads) thread + 1).tmod numThreads

/-- `thread_tag_from` in `tst_threaded_ring_persistent_init`. -/
def persistentTagFrom (tag : ℤ) (numThreads thread : ℕ) : ℤ :=
  tag + (tstThreadGetNum (List.range numThreads) thread + numThreads - 1).tmod numThreads

/-- `tst_threaded_ring_persistent_init`: `req_buffer[0]` and `req_buffer[1]`. -/
def tstThreadedRingPersistentInit (commClass : Flags) (commSize numThreads : ℕ) (tag : ℤ)
    (commRank thread : ℕ) : Except Stop (PersistentRequest × PersistentRequest) := do
  let place ← persistentPlace commClass commRank commSize
  let comm := tstCommGetcomm (List.range numThreads) thread
  return (⟨place.sendTo, comm, persistentTagTo tag numThreads thread⟩,
    ⟨place.recvFrom, comm, persistentTagFrom tag numThreads thread⟩)

/-- The calls of `tst_threaded_ring_persistent_run`: `MPI_Start` for both requests, and
`MPI_Waitall`. -/
def tstThreadedRingPersistentRun (thread : ℕ) (packet : P2P.Packet)
    (requests : PersistentRequest × PersistentRequest) : Calls :=
  [.send (thread, 0) false requests.1.partner requests.1.key packet,
    .recv (thread, 1) requests.2.partner requests.2.key, .wait [(thread, 0), (thread, 1)]]

/-- `thread_tag` in `tst_threaded_ring_persistent_run`. -/
def persistentTag (tag : ℤ) (numThreads thread : ℕ) : ℤ :=
  tag + tstThreadGetNum (List.range numThreads) thread

/-- `tst_threaded_ring_persistent_run` after the calls: the environments that
`tst_test_recordfailure` is called with. A request that is `MPI_REQUEST_NULL` is `none`. -/
def tstThreadedRingPersistentCheck (cfg : Config) (t : TypeSlot) (env : Env) (mode : TstMode)
    (commClass : Flags) (commSize numThreads commRank thread : ℕ) (arrival : Option P2P.Arrival)
    (requests : Option PersistentRequest × Option PersistentRequest) :
    Except Stop (List Env) := do
  let place ← persistentPlace commClass commRank commSize
  if arrival.map P2P.Arrival.source ≠ place.recvFrom then .error (.error "Error in status")
  let calls ← match place.recvFrom, arrival with
    | some source, some a =>
      if a.tag ≠ persistentTag env.tag numThreads thread then .error (.error "Error in status")
      else a.check cfg t env mode "Error in count" source
    | _, _ => .ok []
  if requests.1.isNone ∨ requests.2.isNone then .error (.error "Error in request")
  return calls

/-- The program of all threads. -/
def persistentProgram (commClass : Flags) (p n : ℕ) (tag : ℤ) (packet : ℕ → P2P.Packet) :
    ℕ × ℕ → Calls :=
  partyProgram p n fun r u ↦ do
    let requests ← tstThreadedRingPersistentInit commClass p n tag r u
    return tstThreadedRingPersistentRun u (packet r) requests

/-! ## What the test promises -/

/-- What the test promises of a state that is reached with `p` ranks and `n` workers each. -/
structure PersistentWorks (cfg : Config) (t : TypeSlot) (env : Env) (mode : TstMode)
    (commClass : Flags) (p n : ℕ) (packet : ℕ → P2P.Packet)
    (s : State ℕ ℕ Slot Key P2P.Packet) : Prop where
  /-- Every receive that names a rank has one send, which some thread of that rank starts. -/
  matched : ∀ q < p, ∀ u < n + 1, ∀ j r k,
    .recv j (some r) k ∈ persistentProgram commClass p n env.tag packet (q, u) →
    ∃! b : ℕ × Instr ℕ Slot Key P2P.Packet,
      b.2 ∈ persistentProgram commClass p n env.tag packet (r, b.1) ∧
        (true, q, k) ∈ b.2.envelope?
  /-- The source and the tag that its status is compared with are those of the send. -/
  checked : ∀ q < p, ∀ u < n + 1, ∀ j r k,
    .recv j (some r) k ∈ persistentProgram commClass p n env.tag packet (q, u) →
    (persistentPlace commClass q p).map P2P.RingPlace.recvFrom = .ok (some r) ∧
      persistentTag env.tag n u = k.2
  /-- As long as a thread has something left to do, there is a step. -/
  noDeadlock : ∀ x, s.todo x ≠ [] → ∃ s', Step s s'
  /-- A thread that is through finds nothing wrong, its requests still being there. -/
  quiet : ∀ r < p, ∀ u < n + 1, s.todo (r, u) = [] → ∀ requests,
    tstThreadedRingPersistentInit commClass p n env.tag r u = .ok requests →
    tstThreadedRingPersistentCheck cfg t env mode commClass p n r u (arrivalAt s r (u, 1))
      (some requests.1, some requests.2) = .ok []

section

variable {commClass : Flags} {p n : ℕ} {tag : ℤ} {packet : ℕ → P2P.Packet}

/-! ## Without partners -/

section

variable (hself : commClass &&& tstMpiCommSelf ≠ 0)

include hself

theorem persistentProgram_self (x : ℕ × ℕ) : persistentProgram commClass p n tag packet x
    = if x.1 < p ∧ x.2 < n + 1 then
        tstThreadedRingPersistentRun x.2 (packet x.1)
          (⟨none, tstCommGetcomm (List.range n) x.2, persistentTagTo tag n x.2⟩,
            ⟨none, tstCommGetcomm (List.range n) x.2, persistentTagFrom tag n x.2⟩)
      else [] := by
  rw [persistentProgram, partyProgram, tstThreadedRingPersistentInit, persistentPlace,
    threadedPlace_self hself]
  rfl

theorem mem_persistentProgram_self {x : ℕ × ℕ} {a : Instr ℕ Slot Key P2P.Packet} :
    a ∈ persistentProgram commClass p n tag packet x ↔ (x.1 < p ∧ x.2 < n + 1) ∧
      (a = .send (x.2, 0) false none
          (tstCommGetcomm (List.range n) x.2, persistentTagTo tag n x.2) (packet x.1) ∨
        a = .recv (x.2, 1) none
          (tstCommGetcomm (List.range n) x.2, persistentTagFrom tag n x.2) ∨
        a = .wait [(x.2, 0), (x.2, 1)]) := by
  rw [persistentProgram_self hself]
  split_ifs with hx
  · simp [tstThreadedRingPersistentRun, hx]
  · exact iff_of_false List.not_mem_nil fun h ↦ hx h.1

/-- The requests end on their own. -/
theorem local_persistentProgram (x : ℕ × ℕ) (a : Instr ℕ Slot Key P2P.Packet)
    (ha : a ∈ persistentProgram commClass p n tag packet x) : a.envelope? = none := by
  obtain ⟨-, rfl | rfl | rfl⟩ := (mem_persistentProgram_self hself).mp ha <;> rfl

theorem served_persistentProgram_self :
    Served (persistentProgram commClass p n tag packet) := by
  refine served_of_local (local_persistentProgram hself) (fun r t u a ha b hb i hi hj ↦ ?_)
    (fun x slots hwait i hi ↦ ?_) fun x k hawait ↦ ?_
  · obtain ⟨-, rfl | rfl | rfl⟩ := (mem_persistentProgram_self hself).mp ha
    · obtain rfl := Option.some_inj.mp hi
      obtain ⟨-, rfl | rfl | rfl⟩ := (mem_persistentProgram_self hself).mp hb
      · obtain rfl : u = t := (Prod.mk.inj (Option.some_inj.mp hj)).1
        exact ⟨rfl, rfl⟩
      · cases hj
      · cases hj
    · obtain rfl := Option.some_inj.mp hi
      obtain ⟨-, rfl | rfl | rfl⟩ := (mem_persistentProgram_self hself).mp hb
      · cases hj
      · obtain rfl : u = t := (Prod.mk.inj (Option.some_inj.mp hj)).1
        exact ⟨rfl, rfl⟩
      · cases hj
    · cases hi
  · obtain ⟨hx, h | h | h⟩ := (mem_persistentProgram_self hself).mp hwait
    · cases h
    · cases h
    · obtain rfl := Instr.wait.inj h
      rcases List.mem_pair.mp hi with rfl | rfl
      · exact ⟨x.2, _, (mem_persistentProgram_self hself).mpr ⟨hx, .inl rfl⟩, rfl⟩
      · exact ⟨x.2, _, (mem_persistentProgram_self hself).mpr ⟨hx, .inr (.inl rfl)⟩, rfl⟩
  · obtain ⟨-, h | h | h⟩ := (mem_persistentProgram_self hself).mp hawait <;> cases h

end

/-- The requests are started before they are waited for. -/
def persistentLevel (_ : ℕ × ℕ) : Instr ℕ Slot Key P2P.Packet → ℕ
  | .wait _ => 1
  | _ => 0

theorem leveled_persistentProgram_self (hself : commClass &&& tstMpiCommSelf ≠ 0) :
    Conditions.Leveled (Condition.waits (persistentProgram commClass p n tag packet))
      (Condition.needs (persistentProgram commClass p n tag packet)) persistentLevel
      (persistentProgram commClass p n tag packet) := by
  refine leveled_of_local (local_persistentProgram hself) (fun x ↦ ?_)
    (fun r t u slots hwait i hi a ha hslot ↦ ?_) fun r t u k hawait ↦ ?_
  · rw [persistentProgram_self hself]
    split_ifs with hx
    · simp [tstThreadedRingPersistentRun, persistentLevel]
    · exact .nil
  · obtain ⟨-, rfl | rfl | rfl⟩ := (mem_persistentProgram_self hself).mp ha
    · exact Nat.one_pos
    · exact Nat.one_pos
    · cases hslot
  · obtain ⟨-, h | h | h⟩ := (mem_persistentProgram_self hself).mp hawait <;> cases h

/-- What there is to be checked without a partner. -/
theorem persistentCheck_self {cfg : Config} {t : TypeSlot} {env : Env} (mode : TstMode)
    (hself : commClass &&& tstMpiCommSelf ≠ 0) (r u : ℕ)
    (requests : PersistentRequest × PersistentRequest) :
    tstThreadedRingPersistentCheck cfg t env mode commClass p n r u none
      (some requests.1, some requests.2) = .ok [] := by
  rw [tstThreadedRingPersistentCheck, persistentPlace, threadedPlace_self hself]
  rfl

theorem persistentWorks_self {cfg : Config} {t : TypeSlot} {env : Env} {mode : TstMode}
    {s : State ℕ ℕ Slot Key P2P.Packet} (hself : commClass &&& tstMpiCommSelf ≠ 0)
    (h : Reachable (persistentProgram commClass p n env.tag packet) s) :
    PersistentWorks cfg t env mode commClass p n packet s := by
  have hrecv : ∀ {q u j r k}, .recv j (some r) k
      ∉ persistentProgram commClass p n env.tag packet (q, u) := by
    intro q u j r k hmem
    cases local_persistentProgram hself _ _ hmem
  refine ⟨fun q _ u _ j r k hmem ↦ absurd hmem hrecv, fun q _ u _ j r k hmem ↦ absurd hmem hrecv,
    fun x ↦ h.genuine.exists_step (served_persistentProgram_self hself)
      (leveled_persistentProgram_self hself), fun r _ u _ _ requests _ ↦ ?_⟩
  have hnone : arrivalAt s r (u, 1) = none := by
    have hnothing := h.genuine.delivered_eq_nil (local_persistentProgram hself)
    rw [arrivalAt, State.got, Delivery.got, hnothing]
    rfl
  rw [hnone]
  exact persistentCheck_self mode hself r u requests

/-! ## With partners -/

/-- The master receives a message of worker `n - 2`, or of worker zero if there is only one, and
takes it for one of a worker `-1`. -/
theorem persistentTag_master (tag : ℤ) (n : ℕ) :
    persistentTag tag n n ≠ persistentTagFrom tag n n := by
  rw [persistentTag, persistentTagFrom, tstThreadGetNum_range, if_neg (lt_irrefl n)]
  intro h
  have hnum : (-1 : ℤ) = (-1 + (n : ℤ) - 1).tmod n := by linarith
  rcases n with - | - | n
  · norm_num at hnum
  · norm_num at hnum
  · have hnonneg := Int.tmod_nonneg ((n + 1 + 1 : ℕ) : ℤ)
      (show (0 : ℤ) ≤ -1 + ((n + 1 + 1 : ℕ) : ℤ) - 1 by omega)
    omega

/-- On any other communicator the master is wrong. -/
theorem not_persistentWorks {cfg : Config} {t : TypeSlot} {env : Env} {mode : TstMode}
    {s : State ℕ ℕ Slot Key P2P.Packet} (hself : commClass &&& tstMpiCommSelf = 0)
    (hintra : commClass &&& tstMpiIntraComm ≠ 0) (hp : 0 < p) :
    ¬PersistentWorks cfg t env mode commClass p n packet s := by
  intro hworks
  have hplace := @threadedPlace_intra
    "tst_threaded_ring_persistent cannot run with this kind of communicator" false commClass hself
    hintra 0 p
  rw [if_pos (.inl rfl)] at hplace
  have hrecv : .recv (n, 1) (some ((0 + p - 1) % p))
      (tstCommGetcomm (List.range n) n, persistentTagFrom env.tag n n)
      ∈ persistentProgram commClass p n env.tag packet (0, n) := by
    rw [persistentProgram, partyProgram, if_pos ⟨hp, Nat.lt_succ_self n⟩,
      tstThreadedRingPersistentInit, persistentPlace, hplace]
    exact List.mem_cons_of_mem _ List.mem_cons_self
  exact persistentTag_master env.tag n
    (hworks.checked 0 hp n (Nat.lt_succ_self n) _ _ _ hrecv).2

end

/-- **The ring of persistent requests.** With any number of ranks and workers the test does what it
promises, in every state that is reached, exactly if the arrays fit and the communicator is like
`MPI_COMM_SELF`. -/
theorem persistent_ring_works_iff (cfg : Config) (t : TypeSlot) (ht : t ∈ initTypes cfg)
    (hnull : t.datatype ≠ .null) (env : Env) (mode : TstMode) (row : Test)
    (hrow : tstTest cfg env.test = some row)
    (hname : row.functions = some "tst_threaded_ring_persistent") (commClass : Flags)
    (hadmitted : commClass &&& row.runWithComm ≠ 0) (p : ℕ) (hp : 1 ≤ p) (n : ℕ) (_ : 1 ≤ n) :
    (∃ sendBuffer : ℕ → Memory,
      (∀ r < p, P2P.sendArray cfg t env r = some (.values t env (sendBuffer r))) ∧
      ∀ s, Reachable (persistentProgram commClass p n env.tag
          fun r ↦ .values t env (sendBuffer r)) s →
        PersistentWorks cfg t env mode commClass p n (fun r ↦ .values t env (sendBuffer r)) s) ↔
      ArrayFits t env.valuesNum ∧ commClass &&& tstMpiCommSelf ≠ 0 := by
  rw [runWithComm_threaded hrow (by simp [threadedFunctions]) hname] at hadmitted
  constructor
  · rintro ⟨sendBuffer, hsend, hworks⟩
    refine ⟨(P2P.exists_sendArray_iff ht hnull).mp ⟨_, hsend 0 hp⟩, fun hself ↦ ?_⟩
    exact not_persistentWorks hself (intra_of_admitted hadmitted hself) hp (hworks _ .refl)
  · rintro ⟨hfits, hself⟩
    obtain ⟨sendBuffer, -, hsend⟩ :=
      P2P.exists_sendArrays ht hnull hfits fun r : ℕ ↦ (r : ℤ)
    exact ⟨sendBuffer, fun r _ ↦ hsend r, fun s h ↦ persistentWorks_self hself h⟩

/-- Two ranks with three workers each. -/
theorem persistent_ring_works_iff_two :
    let cfg : Config := ⟨2, true, true, true, true, true, true, true, true⟩
    let env : Env := ⟨107, 0, 6, 3, 0⟩
    (∃ sendBuffer : ℕ → Memory,
      (∀ r < (2 : ℕ), P2P.sendArray cfg (slotMpi2 6) env r
        = some (.values (slotMpi2 6) env (sendBuffer r))) ∧
      ∀ s, Reachable (persistentProgram tstMpiIntraComm 2 3 0
          fun r ↦ .values (slotMpi2 6) env (sendBuffer r)) s →
        PersistentWorks cfg (slotMpi2 6) env .strict tstMpiIntraComm 2 3
          (fun r ↦ .values (slotMpi2 6) env (sendBuffer r)) s) ↔
      ArrayFits (slotMpi2 6) 3 ∧ tstMpiIntraComm &&& tstMpiCommSelf ≠ 0 :=
  persistent_ring_works_iff ⟨2, true, true, true, true, true, true, true, true⟩ (slotMpi2 6)
    (by decide +kernel) (by decide +kernel) ⟨107, 0, 6, 3, 0⟩ .strict _ rfl rfl tstMpiIntraComm
    (by decide) 2 (by decide) 3 (by decide)

/-- Two ranks with three workers each are not what the test promises. -/
theorem persistent_ring_fails : ¬∀ (commClass : Flags),
    commClass &&& (tstMpiCommSelf ||| tstMpiIntraComm) ≠ 0 → ∀ p : ℕ, 1 ≤ p → ∀ n : ℕ, 1 ≤ n →
    ∀ sendBuffer : ℕ → Memory,
      (∀ r < p, P2P.sendArray ⟨2, true, true, true, true, true, true, true, true⟩
        (slotMpi2 6) ⟨107, 0, 6, 3, 0⟩ r
          = some (.values (slotMpi2 6) ⟨107, 0, 6, 3, 0⟩ (sendBuffer r))) →
      ∀ s, Reachable (persistentProgram commClass p n 0
          fun r ↦ .values (slotMpi2 6) ⟨107, 0, 6, 3, 0⟩ (sendBuffer r)) s →
        PersistentWorks ⟨2, true, true, true, true, true, true, true, true⟩ (slotMpi2 6)
          ⟨107, 0, 6, 3, 0⟩ .strict commClass p n
          (fun r ↦ .values (slotMpi2 6) ⟨107, 0, 6, 3, 0⟩ (sendBuffer r)) s := by
  intro h
  have hmem : slotMpi2 6 ∈ initTypes ⟨2, true, true, true, true, true, true, true, true⟩ := by
    decide +kernel
  have hfits : ArrayFits (slotMpi2 6) (⟨107, 0, 6, 3, 0⟩ : Env).valuesNum := by decide +kernel
  obtain ⟨sendBuffer, -, hsend⟩ :=
    P2P.exists_sendArrays hmem (by decide +kernel) hfits fun r : ℕ ↦ (r : ℤ)
  have hworks := h tstMpiIntraComm (by decide) 2 (by decide) 3 (by decide) sendBuffer
    (fun r _ ↦ hsend r) _ .refl
  exact not_persistentWorks (by decide) (by decide) (by decide) hworks

end Threaded

end MpiTestSuite
