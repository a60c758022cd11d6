import MpiTestSuite.P2P.BackToBack
import MpiTestSuite.Report.Failures
import MpiTestSuite.Runs.Stages

/-!
# Runs of `main`

The loops of `main` without threads, on all processes at once: every process goes through all
iterations, runs what it admits, calls `MPI_Barrier (MPI_COMM_WORLD)` before and after a test that
asks for it, records what a test finds and returns whether anything was recorded.

If all that is admitted is a ring or an exchange that does without a barrier of its own, the
processes can only go wrong together. They are not kept together by much: only some of these tests
ask for barriers, and with the others each process goes on as soon as it has what it waits for. But
whoever waits for a barrier waits for processes that can go on (`exists_step_mainProgram`), there is
an end to it, and at the end all of them return `0`.
-/

open MpiTestSuite.CString MpiTestSuite.Runs MpiTestSuite.Runs.Requests

namespace MpiTestSuite

namespace P2P

variable {p : ℕ}

/-! ## The loops -/

/-- The iterations of `main`, if it gets there and goes on without threads. -/
def plainIterations (w : Setting) (a : Arguments) (multiple : Bool) (numThreadsArg : ℤ) :
    Option (List Env) :=
  match selections w.cfg w.comms a, numThreads w.cfg multiple numThreadsArg with
  | .ok sel, some 0 => some (iterations w sel)
  | _, _ => none

section

variable (w : World p) (envs : List Env) (packet : ℕ → Fin p → Packet)

/-- A process calls `MPI_Barrier` before and after an iteration. -/
def syncsAt (c : ℕ) (q : Fin p) : Bool :=
  match envs[c]? with
  | some env => w.admits q env && tstTestCheckSync w.base.cfg env.test
  | none => false

/-- What a process does in an iteration of `main`, with the barriers. -/
def iterationAt (c : ℕ) (q : Fin p) : List (Instr (Fin p) (ℤ × ℤ) Packet) :=
  fenced (syncsAt w envs c q) (syncsAt w envs c q) (exchangeAt w envs packet c q)

/-- What the processes do in all iterations. -/
def mainProgram : Fin p → List (Instr (Fin p) (ℤ × ℤ) Packet) :=
  plainSequence envs.length (iterationAt w envs packet)

variable (s : State (Fin p) (ℤ × ℤ) Packet) (checkBuffer : ℕ → ℕ → Memory) (q : Fin p)

/-- The environments that `tst_test_recordfailure` is called with in an iteration. -/
def recordsAt (c : ℕ) : Except Stop (List Env) :=
  match envs[c]? with
  | some env =>
    if w.admits q env then
      match plainTest? w.base.cfg env, (initTypes w.base.cfg)[env.type.toNat]? with
      | some test, some t =>
        if h : w.commRank env.comm q < (w.group env.comm q).length then
          test.run w t env (checkBuffer c) (packet c q) q h (arrivalAt w s env c q)
        else .error .outOfBounds
      | _, _ => .error .outOfBounds
    else .ok []
  | none => .ok []

/-- What `main` returns to the shell. -/
def mainReturn (contents : Vector Failure tstTestsNumFailedMax) : Except Stop ℕ := do
  let failed ← (List.range envs.length).foldlM (fun t c ↦ do
    let recorded ← recordsAt w envs packet s checkBuffer q c
    (recordfailures recorded t).mapError Prod.fst) (tstTestInit contents)
  return exitStatus failed

/-- What `main` promises. -/
structure MainEnds : Prop where
  /-- No run is longer than the programs allow. -/
  bounded : ∀ k d s, Counted Step Buffer k d (State.init (mainProgram w envs packet)) s →
    k ≤ ∑ q, (State.init (mainProgram w envs packet)).work q
  /-- If nothing can happen any more, all processes are through. -/
  through : ∀ s, Reachable (mainProgram w envs packet) s → (∀ s', ¬Step s s') →
    ∀ q, s.todo q = []
  /-- Who is through returns `0`. -/
  returns : ∀ s, Reachable (mainProgram w envs packet) s → ∀ q, s.todo q = [] →
    ∀ checkBuffer contents, mainReturn w envs packet s checkBuffer q contents = .ok 0

end

/-- What the registration promises of the groups. -/
structure Registered (w : World p) : Prop extends WellGrouped w where
  /-- Who gets `MPI_COMM_NULL` is not alone with that. -/
  shared : ∀ c q r, w.group c q = [] → w.group c r = []

theorem registered_registeredWorld (cfg : Config) (mode : TstMode) (tagUb : ℤ)
    (node : Fin p → ℕ) : Registered (registeredWorld cfg mode tagUb node) where
  toWellGrouped := wellGrouped_registeredWorld cfg mode tagUb node
  shared _ _ _ hnil := Division.group_eq_nil_iff.mpr (Division.group_eq_nil_iff.mp hnil)

/-! ## Barriers and what is between them -/

section

variable {w : World p} {envs : List Env} {packet : ℕ → Fin p → Packet}
  {s : State (Fin p) (ℤ × ℤ) Packet}

/-- All processes call `MPI_Barrier` around the same iterations. -/
theorem syncsAt_eq (hregistered : Registered w) (c : ℕ) (q r : Fin p) :
    syncsAt w envs c q = syncsAt w envs c r := by
  rw [syncsAt, syncsAt]
  cases envs[c]? with
  | none => rfl
  | some env =>
    show (w.admits q env && _) = (w.admits r env && _)
    cases hsync : tstTestCheckSync w.base.cfg env.test with
    | false => rw [Bool.and_false, Bool.and_false]
    | true =>
      rw [Bool.and_true, Bool.and_true]
      exact w.checkRun_eq hsync
        ⟨hregistered.shared env.comm q r, hregistered.shared env.comm r q⟩ env.type

/-- The barriers of all processes are those of any of them. -/
theorem mainProgram_eq (hregistered : Registered w) (q : Fin p) :
    mainProgram w envs packet = plainSequence envs.length fun c r ↦
      fenced (syncsAt w envs c q) (syncsAt w envs c q) (exchangeAt w envs packet c r) := by
  refine congrArg (plainSequence envs.length) (funext fun c ↦ funext fun r ↦ ?_)
  rw [iterationAt, syncsAt_eq hregistered c r q]

theorem noBarrier_exchangeAt (hgroups : WellGrouped w) (c : ℕ) (q : Fin p) :
    ∀ a ∈ exchangeAt w envs packet c q, a.isBarrier = false := by
  intro a ha
  obtain ⟨-, env, -, ha⟩ := mem_exchangeAt ha
  exact (part_exchange hgroups).noBarrier a ha

/-- Without its barriers, `main` is the exchanges back to back. -/
theorem withoutBarriers_mainProgram (hgroups : WellGrouped w) :
    (fun q ↦ withoutBarriers (mainProgram w envs packet q))
      = plainSequence envs.length (exchangeAt w envs packet) := by
  funext q
  rw [mainProgram, withoutBarriers_plainSequence]
  refine congrFun (congrArg (plainSequence envs.length) (funext fun c ↦ funext fun r ↦ ?_)) q
  exact withoutBarriers_fenced (noBarrier_exchangeAt hgroups c r)

/-- As long as a process has something left to do, there is a step. -/
theorem exists_step_mainProgram (hregistered : Registered w)
    (h : Reachable (mainProgram w envs packet) s) {q : Fin p} (hq : s.todo q ≠ []) :
    ∃ s', Step s s' := by
  rw [mainProgram_eq hregistered q] at h
  refine exists_step_fenced (M := p) (fun c _ ↦ leveled_exchangeAt hregistered.toWellGrouped c)
    (fun c _ r ↦ noBarrier_exchangeAt hregistered.toWellGrouped c r)
    (fun c _ r a ha m hm ↦ ?_) h hq
  obtain ⟨-, env, henv, ha⟩ := mem_exchangeAt ha
  rw [henv] at hm
  exact level_lt hregistered.toWellGrouped ha hm

/-! ## What is returned -/

/-- Nothing is recorded in an iteration whose messages have arrived. -/
theorem recordsAt_eq_nil
    (htypes : AllTyped w envs) (hback : BackToBack w envs packet s) {q : Fin p} (hq : s.todo q = [])
    (checkBuffer : ℕ → ℕ → Memory) (c : ℕ) :
    recordsAt w envs packet s checkBuffer q c = .ok [] := by
  have hlength : numTypes w.base.cfg ≤ (initTypes w.base.cfg).length := by
    rw [length_initTypes, numTypes_eq]
    split_ifs <;> decide
  rw [recordsAt]
  cases henv : envs[c]? with
  | none => rfl
  | some env =>
    by_cases hadmits : w.admits q env = true
    · have hmem := List.mem_of_getElem? henv
      obtain ⟨hlt, -⟩ := htypes env hmem q hadmits
      have htype : (initTypes w.base.cfg)[env.type.toNat]?
          = some ((initTypes w.base.cfg).get ⟨env.type.toNat, hlt.trans_le hlength⟩) :=
        List.getElem?_eq_getElem _
      obtain ⟨test, hrank, htest, hquiet⟩ :=
        hback.quiet c env henv _ htype q hadmits (hback.arrived q hq c)
      simp only [if_pos hadmits, htest, htype, dif_pos hrank]
      exact hquiet (checkBuffer c)
    · exact if_neg hadmits

/-- Who records nothing returns `0`. -/
theorem mainReturn_eq_zero {checkBuffer : ℕ → ℕ → Memory} {q : Fin p}
    (h : ∀ c, recordsAt w envs packet s checkBuffer q c = .ok [])
    (contents : Vector Failure tstTestsNumFailedMax) :
    mainReturn w envs packet s checkBuffer q contents = .ok 0 := by
  have hnothing : ∀ l : List ℕ, l.foldlM (fun t c ↦ do
      let recorded ← recordsAt w envs packet s checkBuffer q c
      (recordfailures recorded t).mapError Prod.fst) (tstTestInit contents)
        = .ok (tstTestInit contents) := by
    intro l
    induction l with
    | nil => rfl
    | cons c l ih => rw [foldlM_cons_ok (by rw [h c]; rfl), ih]
  rw [mainReturn, hnothing]
  rfl

end

/-- **Runs of `main`.** Whatever options without threads are given: if all that is admitted is a
ring or an exchange that does without a barrier of its own, and a datatype that there is, then
`main` comes through exactly if the sizes fit: no interleaving of the processes goes on forever or
stops before all processes are through, and each of them returns `0`. -/
theorem main_ends_iff (w : World p) (hregistered : Registered w) (hsize : FitsInt p)
    (a : Arguments) (multiple : Bool) (numThreadsArg : ℤ) (mpi : Env → Surroundings)
    (address : Fin p → ℤ) :
    ∀ envs ∈ plainIterations w.base a multiple numThreadsArg,
      (∀ env ∈ envs, ∀ q, w.admits q env = true → (plainTest? w.base.cfg env).isSome = true) →
      AllTyped w envs →
      ((∃ packet : ℕ → Fin p → Packet,
        Prepared w mpi address envs packet ∧ MainEnds w envs packet) ↔ AllFit w mpi envs) := by
  intro envs _ hplain htypes
  have hgroups := hregistered.toWellGrouped
  have hsome : ∀ env ∈ envs, ∀ q, w.admits q env = true →
      ∃ test, plainTest? w.base.cfg env = some test :=
    fun env henv q hq ↦ Option.isSome_iff_exists.mp (hplain env henv q hq)
  have hprepared : (∃ packet, Prepared w mpi address envs packet) ↔ AllFit w mpi envs :=
    exists_prepared_iff htypes
  rw [← hprepared]
  refine exists_congr fun packet ↦ and_iff_left_of_imp fun hpacket ↦
    ⟨fun k d s h ↦ ?_, fun s h hstuck q ↦ ?_, fun s h q hq checkBuffer contents ↦ ?_⟩
  · exact (Nat.le_add_right _ _).trans (le_of_counted h)
  · by_contra hne
    obtain ⟨s', hstep⟩ := exists_step_mainProgram hregistered h hne
    exact hstuck s' hstep
  · -- the same has been delivered in a run without the barriers
    have hunbarred := h.unbarred
    rw [withoutBarriers_mainProgram hgroups] at hunbarred
    have hback := backToBack_of_reachable hgroups hsome (hpacket.sound hgroups hsize htypes)
      hunbarred
    have hthrough : s.unbarred.todo q = [] := by
      show withoutBarriers (s.todo q) = []
      rw [hq]
      rfl
    exact mainReturn_eq_zero (recordsAt_eq_nil htypes hback hthrough checkBuffer) contents

/-- `-t "Ring Isend,Alltoall xIsend" -c "MPI_COMM_WORLD,Halved MPI_COMM_WORLD" -d MPI_INT -n 2` on
three processes. -/
theorem main_ends_iff_three :
    let cfg : Config := ⟨2, true, true, true, true, false, true, true, true⟩
    let w : World 3 := registeredWorld cfg .strict 32767 fun _ ↦ 0
    let a : Arguments := ⟨lit "Ring Isend,Alltoall xIsend",
      lit "MPI_COMM_WORLD,Halved MPI_COMM_WORLD", lit "MPI_INT", lit "2"⟩
    ∃ envs, plainIterations w.base a false 0 = some envs ∧
      ((∃ packet : ℕ → Fin 3 → Packet, Prepared w (fun _ ↦ ⟨0, 128, 8⟩) (fun _ ↦ 0) envs packet ∧
        MainEnds w envs packet) ↔ AllFit w (fun _ ↦ ⟨0, 128, 8⟩) envs) := by
  intro cfg w a
  have hall : (plainIterations w.base a false 0).any (fun envs ↦ decide (∀ env ∈ envs, ∀ q,
      w.admits q env = true → (plainTest? cfg env).isSome = true ∧
        env.type.toNat < numTypes cfg ∧ 0 ≤ env.type)) = true := by decide +kernel
  obtain ⟨envs, henvs, hall⟩ := (Option.any_eq_true _ _).mp hall
  have hadmitted := of_decide_eq_true hall
  exact ⟨envs, henvs, main_ends_iff w (registered_registeredWorld cfg .strict 32767 fun _ ↦ 0)
    (by decide) a false 0 (fun _ ↦ ⟨0, 128, 8⟩) (fun _ ↦ 0) envs henvs
    (fun env henv q hq ↦ (hadmitted env henv q hq).1)
    fun env henv q hq ↦ (hadmitted env henv q hq).2⟩

end P2P

end MpiTestSuite
