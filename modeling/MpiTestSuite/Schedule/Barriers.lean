import Mathlib.Data.List.FinRange
import Mathlib.Data.List.GetD
import MpiTestSuite.Schedule.World

/-!
# The barriers of the schedule

Around a test that asks for it, `main` calls `MPI_Barrier (MPI_COMM_WORLD)`. Whether it does is
decided by each process on its own, from the size of the communicator among other things, and that
is not the same for all: halves have different sizes when their number is odd, an inter-communicator
has its local size, and how many processes share memory depends on the machine.

What saves the suite is that no test that asks for a barrier asks for more than one process
(`minCommSize_of_sync`), and that every process is in a group of its own of every communicator but
`MPI_COMM_NULL`. All processes go through the same barriers then (`syncedRuns_eq`).

With threads compiled in there is one barrier for each run, not two. The second call is preceded by
an `else` whose block is left to the preprocessor, so that it belongs to the condition that there be
no threads (`iterationBarriers`).
-/

open MpiTestSuite.CString

namespace MpiTestSuite

variable {p : ℕ}

/-! ## The groups of the registered communicators -/

/-- How a communicator divides the processes. -/
inductive Division
  /-- `MPI_COMM_NULL`. -/
  | null
  /-- All processes in one group. -/
  | world
  /-- Each on its own. -/
  | self
  /-- `MPI_Comm_split (MPI_COMM_WORLD, world_rank >= world_size / 2, ..)`. -/
  | halves
  /-- `MPI_Comm_split (MPI_COMM_WORLD, world_rank % 2, ..)`. -/
  | parity
  /-- `MPI_Comm_split_type (MPI_COMM_WORLD, MPI_COMM_TYPE_SHARED, ..)`. -/
  | nodes
  deriving DecidableEq, Repr

namespace Division

/-- What the processes of a group have in common, where `node` is the machine they run on. -/
def color (node : Fin p → ℕ) : Division → Fin p → ℕ
  | self, q => q
  | halves, q => if p / 2 ≤ q.val then 1 else 0
  | parity, q => q.val % 2
  | nodes, q => node q
  | _, _ => 0

/-- The group of a process. -/
def group (node : Fin p → ℕ) (d : Division) (q : Fin p) : List (Fin p) :=
  if d = null then [] else (List.finRange p).filter fun r ↦ d.color node r = d.color node q

/-- The processes outside of the group of a process. -/
def others (node : Fin p → ℕ) (d : Division) (q : Fin p) : List (Fin p) :=
  if d = null then [] else (List.finRange p).filter fun r ↦ d.color node r ≠ d.color node q

variable {node : Fin p → ℕ} {d : Division}

theorem mem_group {q r : Fin p} :
    r ∈ d.group node q ↔ d ≠ null ∧ d.color node r = d.color node q := by
  rw [group]
  split_ifs with hnull <;> simp [hnull]

theorem group_eq_nil_iff {q : Fin p} : d.group node q = [] ↔ d = null := by
  constructor
  · intro hnil
    by_contra hnull
    exact List.not_mem_nil (hnil ▸ mem_group.mpr ⟨hnull, rfl⟩)
  · rintro rfl
    rfl

theorem group_congr {q r : Fin p} (h : d.color node r = d.color node q) :
    d.group node r = d.group node q := by
  rw [group, group, h]

/-- Of two halves, what is not in the one is in the other. -/
theorem others_eq_group {q r : Fin p} (h : halves.color node r ≠ halves.color node q) :
    halves.others node r = halves.group node q := by
  rw [others, group, if_neg nofun, if_neg nofun]
  refine List.filter_congr fun s _ ↦ ?_
  rw [decide_eq_decide]
  simp only [color] at h ⊢
  split_ifs at h ⊢ <;> simp_all

end Division

/-- The division that each communicator of `tst_comms_register` makes, in the order in which they
are registered. -/
def tstCommsDivisions (cfg : Config) (worldSize : ℕ) : List Division :=
  [.world, .null, .self, .world, .world, .halves]
    ++ (if 1 < worldSize then [.world, .world] else [])
    ++ [.parity, .world]
    ++ (if 1 < worldSize then [.halves, .world] else [])
    ++ if 3 ≤ cfg.mpiVersion then [.nodes] else []

/-- The division that a slot of the table of communicators makes. -/
def divisionAt (cfg : Config) (worldSize : ℕ) (c : ℤ) : Division :=
  if c < 0 then .null else (tstCommsDivisions cfg worldSize).getD c.toNat .null

/-- The registered communicators that are null are those without processes. -/
theorem divisions_null (cfg : Config) (worldSize : ℕ) :
    (tstCommsRegister cfg worldSize).registered.map Comm.isNull
      = (tstCommsDivisions cfg worldSize).map fun d ↦ decide (d = .null) := by
  unfold tstCommsRegister registerIfSeveral tstCommsDivisions tstCommRegister commNum
  split_ifs <;> rfl

/-- The inter-communicator is made of halves. -/
theorem division_inter (cfg : Config) (worldSize : ℕ) :
    ∀ c ∈ (tstCommsRegister cfg worldSize).registered.zip (tstCommsDivisions cfg worldSize),
      c.1.commClass = tstMpiInterComm → c.2 = .halves := by
  unfold tstCommsRegister registerIfSeveral tstCommsDivisions tstCommRegister commNum
  split_ifs <;> decide +kernel

theorem length_divisions (cfg : Config) (worldSize : ℕ) :
    (tstCommsDivisions cfg worldSize).length = (tstCommsRegister cfg worldSize).num := by
  have hlength := congrArg List.length (divisions_null cfg worldSize)
  rw [List.length_map, List.length_map] at hlength
  exact hlength.symm

theorem divisionAt_inter {cfg : Config} {worldSize : ℕ} {c : ℤ}
    (h : tstCommGetcommclass (tstCommsRegister cfg worldSize) c = tstMpiInterComm) :
    divisionAt cfg worldSize c = .halves := by
  rw [tstCommGetcommclass] at h
  split_ifs at h with hneg
  · cases h
  by_cases hlt : c.toNat < (tstCommsRegister cfg worldSize).num
  · have hdiv : c.toNat < (tstCommsDivisions cfg worldSize).length :=
      hlt.trans_eq (length_divisions cfg worldSize).symm
    rw [CommTable.slot, List.getElem?_eq_getElem hlt, Option.getD_some] at h
    rw [divisionAt, if_neg hneg, List.getD_eq_getElem _ _ hdiv]
    refine division_inter cfg worldSize (_, _) ?_ h
    have hzip : c.toNat < ((tstCommsRegister cfg worldSize).registered.zip
        (tstCommsDivisions cfg worldSize)).length := by
      rw [List.length_zip]
      exact lt_min hlt hdiv
    exact List.mem_iff_getElem.mpr ⟨_, hzip, List.getElem_zip⟩
  · rw [slot_of_num_le (not_lt.mp hlt)] at h
    cases h

/-- What MPI tells the processes about the communicators that `tst_comms_register` makes. Every
group is in the order of `MPI_COMM_WORLD` here, the reversed one too: no barrier depends on ranks.
-/
def registeredWorld (cfg : Config) (mode : TstMode) (tagUb : ℤ) (node : Fin p → ℕ) : World p where
  base := ⟨cfg, tstCommsRegister cfg p, mode, fun _ ↦ 0, tagUb⟩
  group c q := (divisionAt cfg p c).group node q
  peers c q :=
    if tstCommGetcommclass (tstCommsRegister cfg p) c = tstMpiInterComm then
      (divisionAt cfg p c).others node q
    else (divisionAt cfg p c).group node q
  mem_group c q h := Division.mem_group.mpr ⟨mt Division.group_eq_nil_iff.mpr h, rfl⟩
  nodup c q := by
    have hfilter : ∀ f : Fin p → Bool, ((List.finRange p).filter f).Nodup :=
      fun f ↦ (List.nodup_finRange p).filter f
    unfold Division.others Division.group
    split_ifs
    exacts [List.nodup_nil, hfilter _, List.nodup_nil, hfilter _]
  of_mem_peers c q r hr := by
    split_ifs at hr ⊢ with hinter
    · rw [divisionAt_inter hinter] at hr ⊢
      rw [Division.others, if_neg nofun, List.mem_filter, decide_eq_true_iff] at hr
      exact ⟨Division.others_eq_group hr.2, (Division.others_eq_group hr.2.symm).symm,
        Division.mem_group.mpr ⟨nofun, rfl⟩⟩
    · obtain ⟨hnull, hcolor⟩ := Division.mem_group.mp hr
      exact ⟨Division.group_congr hcolor, Division.group_congr hcolor,
        Division.mem_group.mpr ⟨hnull, rfl⟩⟩
  peers_of_intra c q h := by
    split_ifs with hinter
    · rw [hinter] at h
      exact absurd rfl h
    · rfl

/-! ## Admission of the tests that ask for a barrier -/

/-- No test that asks for a barrier asks for more than one process. -/
theorem minCommSize_of_sync {cfg : Config} {test : ℤ} {row : Test}
    (hrow : tstTest cfg test = some row) (hsync : row.needsSync = true) : row.minCommSize = 1 := by
  rcases tstTest_induction cfg (P := fun row ↦ decide (row.needsSync = true → row.minCommSize = 1))
    (by simp only [List.forall_mem_cons]; exact ⟨rfl, rfl, rfl, rfl, rfl, rfl, nofun⟩) hrow
    with rfl | h
  · cases hsync
  · exact of_decide_eq_true h hsync

/-- Processes that are both, or neither, in a group admit the same combinations with such a test. -/
theorem World.checkRun_eq (w : World p) {test : ℤ} (hsync : tstTestCheckSync w.base.cfg test = true)
    {comm : ℤ} {q r : Fin p} (hgroup : w.group comm q = [] ↔ w.group comm r = []) (type : ℤ) :
    tstTestCheckRun (w.setting q) test comm type
      = tstTestCheckRun (w.setting r) test comm type := by
  cases hrow : tstTest w.base.cfg test with
  | none =>
    have hnot : ∀ s : Fin p, tstTestCheckRun (w.setting s) test comm type = false := fun s ↦ by
      rw [tstTestCheckRun, show tstTest (w.setting s).cfg test = none from hrow]
    rw [hnot, hnot]
  | some row =>
    rw [tstTestCheckSync, hrow] at hsync
    rw [Bool.eq_iff_iff, tstTestCheckRun_iff (w.setting q) hrow,
      tstTestCheckRun_iff (w.setting r) hrow, minCommSize_of_sync hrow hsync]
    refine and_congr_right fun _ ↦ not_congr ?_
    exact (w.commsize_lt_one_iff comm q).trans ((or_congr_right (or_congr_right hgroup)).trans
      (w.commsize_lt_one_iff comm r).symm)

section

variable (cfg : Config) (mode : TstMode) (tagUb : ℤ) (node : Fin p → ℕ)

/-- **Admission.** All processes admit the same combinations with tests that ask for a barrier. -/
theorem checkRun_eq {test : ℤ} (hsync : tstTestCheckSync cfg test = true) (comm type : ℤ)
    (q r : Fin p) :
    tstTestCheckRun ((registeredWorld cfg mode tagUb node).setting q) test comm type
      = tstTestCheckRun ((registeredWorld cfg mode tagUb node).setting r) test comm type :=
  (registeredWorld cfg mode tagUb node).checkRun_eq hsync
    (Division.group_eq_nil_iff.trans Division.group_eq_nil_iff.symm) type

end

/-! ## The barriers -/

/-- A call of `MPI_Barrier (MPI_COMM_WORLD)` in the loops of `main`. -/
inductive Barrier
  | before (env : Env)
  | after (env : Env)
  deriving DecidableEq

/-- The number of threads that `main` goes on with, where `multiple` says that MPI provides
`MPI_THREAD_MULTIPLE`; `none` where it calls `MPI_Abort`. -/
def numThreads (cfg : Config) (multiple : Bool) (numThreadsArg : ℤ) : Option ℕ :=
  if 0 < numThreadsArg then
    if cfg.haveMpi2Threads ∧ multiple then some numThreadsArg.toNat else none
  else if cfg.haveMpi2Threads then none
  else some 0

/-- The barriers around a run. With `HAVE_MPI2_THREADS` the second one is in the `else` of the
condition that there be threads. -/
def iterationBarriers (cfg : Config) (threads : ℕ) (env : Env) : List Barrier :=
  (if tstTestCheckSync cfg env.test then [.before env] else [])
    ++ if cfg.haveMpi2Threads ∧ 0 < threads then []
      else if tstTestCheckSync cfg env.test then [.after env] else []

section

variable (w : Setting) (a : Arguments) (multiple : Bool) (numThreadsArg : ℤ)

/-- The runs in the loops of `main` for given options; none if it does not get there. -/
def executedOf : List Env :=
  match selections w.cfg w.comms a, numThreads w.cfg multiple numThreadsArg with
  | .ok sel, some _ => executed w sel
  | _, _ => []

/-- The barriers that a process calls in the loops of `main`. -/
def barriers : List Barrier :=
  match numThreads w.cfg multiple numThreadsArg with
  | some threads =>
    (executedOf w a multiple numThreadsArg).flatMap (iterationBarriers w.cfg threads)
  | none => []

/-- The runs of tests that ask for a barrier. -/
def syncedRuns : List Env :=
  (executedOf w a multiple numThreadsArg).filter fun env ↦ tstTestCheckSync w.cfg env.test

end

section

variable (w : World p) (a : Arguments) (multiple : Bool) (numThreadsArg : ℤ)

/-- All processes call the same barriers, which are two for each run of a test that asks for it: one
before and one after. -/
def BarrierAgreement : Prop :=
  (∀ q r, barriers (w.setting q) a multiple numThreadsArg
    = barriers (w.setting r) a multiple numThreadsArg) ∧
  ∀ q, barriers (w.setting q) a multiple numThreadsArg
      = (syncedRuns (w.setting q) a multiple numThreadsArg).flatMap fun env ↦
        [.before env, .after env]

end

theorem flatMap_iterationBarriers (cfg : Config) (threads : ℕ) (envs : List Env) :
    envs.flatMap (iterationBarriers cfg threads)
      = (envs.filter fun env ↦ tstTestCheckSync cfg env.test).flatMap fun env ↦
        if cfg.haveMpi2Threads ∧ 0 < threads then [.before env] else [.before env, .after env] := by
  induction envs with
  | nil => rfl
  | cons env envs ih =>
    rw [List.flatMap_cons, ih, List.filter_cons, iterationBarriers]
    by_cases hsync : tstTestCheckSync cfg env.test = true
    · rw [if_pos hsync, if_pos hsync, if_pos hsync, List.flatMap_cons]
      split_ifs <;> rfl
    · rw [if_neg hsync, if_neg hsync, if_neg hsync, ite_self]
      rfl

/-- The barriers of a process are those of its runs of tests that ask for them. -/
theorem barriers_eq_flatMap (w : Setting) (a : Arguments) (multiple : Bool) (numThreadsArg : ℤ) :
    barriers w a multiple numThreadsArg
      = (syncedRuns w a multiple numThreadsArg).flatMap fun env ↦
        if w.cfg.haveMpi2Threads then [.before env] else [.before env, .after env] := by
  rw [barriers, syncedRuns]
  cases hthreads : numThreads w.cfg multiple numThreadsArg with
  | none =>
    have hnone : executedOf w a multiple numThreadsArg = [] := by
      rw [executedOf, hthreads]
      split <;> simp_all
    rw [hnone]
    rfl
  | some threads =>
    have hpos : w.cfg.haveMpi2Threads = true → 0 < threads := by
      intro hhave
      rw [numThreads] at hthreads
      split_ifs at hthreads with hpos
      cases hthreads
      omega
    refine (flatMap_iterationBarriers w.cfg threads _).trans (List.flatMap_congr fun env _ ↦ ?_)
    by_cases hhave : w.cfg.haveMpi2Threads = true
    · rw [if_pos ⟨hhave, hpos hhave⟩, if_pos hhave]
    · rw [if_neg fun h ↦ hhave h.1, if_neg hhave]

section

variable (cfg : Config) (mode : TstMode) (tagUb : ℤ) (node : Fin p → ℕ) (a : Arguments)
  (multiple : Bool) (numThreadsArg : ℤ)

/-- All processes run the same combinations with tests that ask for a barrier. -/
theorem syncedRuns_eq (q r : Fin p) :
    syncedRuns ((registeredWorld cfg mode tagUb node).setting q) a multiple numThreadsArg
      = syncedRuns ((registeredWorld cfg mode tagUb node).setting r) a multiple numThreadsArg := by
  have hruns : ∀ sel,
      (executed ((registeredWorld cfg mode tagUb node).setting q) sel).filter
          (fun env ↦ tstTestCheckSync cfg env.test)
        = (executed ((registeredWorld cfg mode tagUb node).setting r) sel).filter
          (fun env ↦ tstTestCheckSync cfg env.test) := by
    intro sel
    rw [executed_eq_filter, executed_eq_filter, List.filter_filter, List.filter_filter]
    refine List.filter_congr fun env _ ↦ ?_
    cases hsync : tstTestCheckSync cfg env.test with
    | false => rfl
    | true => rw [checkRun_eq cfg mode tagUb node hsync env.comm env.type q r]
  unfold syncedRuns executedOf
  change List.filter _ (match selections cfg (tstCommsRegister cfg p) a,
      numThreads cfg multiple numThreadsArg with
    | .ok sel, some _ => executed _ sel
    | _, _ => []) = List.filter _ (match selections cfg (tstCommsRegister cfg p) a,
      numThreads cfg multiple numThreadsArg with
    | .ok sel, some _ => executed _ sel
    | _, _ => [])
  split
  · exact hruns _
  · rfl

/-- **The barriers.** For every number of processes, every distribution of them over machines and
all options: all processes admit the same combinations with tests that ask for a barrier, and they
go through the same barriers. These are two for each run, unless threads are compiled in and
something is run that asks for them. -/
theorem world_barriers :
    (∀ (q r : Fin p) (test comm type : ℤ), tstTestCheckSync cfg test = true →
      tstTestCheckRun ((registeredWorld cfg mode tagUb node).setting q) test comm type
        = tstTestCheckRun ((registeredWorld cfg mode tagUb node).setting r) test comm type) ∧
    (∀ q r : Fin p,
      barriers ((registeredWorld cfg mode tagUb node).setting q) a multiple numThreadsArg
        = barriers ((registeredWorld cfg mode tagUb node).setting r) a multiple numThreadsArg) ∧
    (BarrierAgreement (registeredWorld cfg mode tagUb node) a multiple numThreadsArg ↔
      cfg.haveMpi2Threads = false ∨ ∀ q : Fin p,
        syncedRuns ((registeredWorld cfg mode tagUb node).setting q) a multiple numThreadsArg
          = []) := by
  have hsame : ∀ q r : Fin p,
      barriers ((registeredWorld cfg mode tagUb node).setting q) a multiple numThreadsArg
        = barriers ((registeredWorld cfg mode tagUb node).setting r) a multiple numThreadsArg := by
    intro q r
    rw [barriers_eq_flatMap, barriers_eq_flatMap, syncedRuns_eq cfg mode tagUb node a _ _ q r]
    rfl
  refine ⟨fun q r test comm type hsync ↦ checkRun_eq cfg mode tagUb node hsync comm type q r, hsame,
    ?_⟩
  rw [BarrierAgreement, and_iff_right hsame]
  have hcfg : ∀ q : Fin p, ((registeredWorld cfg mode tagUb node).setting q).cfg = cfg :=
    fun _ ↦ rfl
  simp only [barriers_eq_flatMap, hcfg]
  cases hthreads : cfg.haveMpi2Threads with
  | false => simp
  | true =>
    simp only [if_true, Bool.true_eq_false, false_or]
    refine forall_congr' fun q ↦ ?_
    constructor
    · intro heq
      have hlength := congrArg List.length heq
      simp only [List.length_flatMap, List.length_cons, List.length_nil, List.map_const',
        List.sum_replicate_nat] at hlength
      exact List.eq_nil_of_length_eq_zero (by omega)
    · intro hnil
      rw [hnil]
      rfl

end

/-- `-t Status -c MPI_COMM_SELF -d MPI_CHAR -n 1` with one thread, on two processes. -/
theorem world_barriers_one_only :
    ¬∀ (cfg : Config) (p : ℕ) (mode : TstMode) (tagUb : ℤ) (node : Fin p → ℕ) (a : Arguments)
      (multiple : Bool) (numThreadsArg : ℤ),
      BarrierAgreement (registeredWorld cfg mode tagUb node) a multiple numThreadsArg := by
  intro h
  let cfg : Config := ⟨3, true, true, true, true, true, true, true, true⟩
  have hagree := (h cfg 2 .strict 32767 (fun _ ↦ 0)
    ⟨lit "Status", lit "MPI_COMM_SELF", lit "MPI_CHAR", lit "1"⟩ true 1).2 0
  revert hagree
  decide +kernel

end MpiTestSuite
