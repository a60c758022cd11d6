import MpiTestSuite.Threads.Command

/-!
# Outlines of the master's calls

The calls of the master are put together from two kinds of pieces. A piece that prepares a command
only writes, while every thread is parked: it has heard of the last command, so it does not look at
what is being written (`Setup.outline`). A piece that executes a command issues it, makes the call
of its own and waits (`outline_execute`).

The barrier is passed when as many threads have reported as `working` counted at the start. If that
is the number of threads that have a test, the threads then rest. If it is larger, the barrier is
never passed (`outline_execute_never`).
-/

open MpiTestSuite.Runs Relation

namespace MpiTestSuite

namespace Threads

variable {n : ℕ}

/-- The points of such an outline. -/
abbrev MasterPoint (cfg : Config) (Holds : State n → Prop) (A : State n → Prop) (i : Instr n)
    (B : State n → Prop) : Prop :=
  Point State.prog Interfere (fun s s' ↦ s.masterStep cfg = some s') Holds A i B

/-- The outlines of the master among the dispatcher threads. -/
abbrev MasterOutline (cfg : Config) (Holds : State n → Prop) (A : State n → Prop)
    (p : List (Instr n)) (B : State n → Prop) : Prop :=
  Outline State.prog Interfere (fun s s' ↦ s.masterStep cfg = some s') Holds A p B

theorem masterStep_nil {cfg : Config} {s s' : State n} (hprog : s.prog = []) :
    s.masterStep cfg ≠ some s' := by
  rw [State.masterStep, hprog]
  nofun

/-- What an outline says of a reachable state. -/
theorem MasterOutline.holds_of_reachable {cfg : Config} {Holds A C : State n → Prop}
    {p : List (Instr n)} (h : MasterOutline cfg Holds A p C)
    (hC : ∀ s, s.prog = [] → C s → Holds s)
    (hstable : ∀ s s', s.prog = [] → C s → Interfere s s' → C s') {s t : State n}
    (hprog : s.prog = p) (hs : A s) (hrun : Reachable cfg s t) :
    Holds t ∧ (t.prog = [] → C t) :=
  h.holds (fun _ _ hstep ↦ hstep.sameMaster.prog) (fun _ _ ↦ masterStep_nil) hC hstable hprog hs
    hrun

/-! ## Preparing a command -/

/-- Every thread rests and has heard of the last command. -/
structure Parked (ph : Phase n) (working : ℤ) (s : State n) : Prop extends
    Resting ph working s where
  parked : ∀ i, (s.worker i).localCmdCount = s.cmdCount

theorem Parked.interfere {ph : Phase n} {working : ℤ} {s s' : State n} (h : Parked ph working s)
    (hstep : Interfere s s') : Parked ph working s' := by
  obtain ⟨hresting, hcount⟩ := h.toResting.interfere hstep
  refine ⟨hresting, fun i ↦ ?_⟩
  rw [hcount, h.parked, hstep.sameMaster.cmdCount]

/-- The phase after thread `i` has been given something else. -/
def Phase.assign (ph : Phase n) (i : Fin n) (te : ThreadEnv) : Phase n :=
  { ph with threadEnv := Function.update ph.threadEnv i te }

@[simp] theorem Phase.assign_threadEnv_self (ph : Phase n) (i : Fin n) (te : ThreadEnv) :
    (ph.assign i te).threadEnv i = te := by
  simp [assign]

theorem Phase.assign_threadEnv_of_ne (ph : Phase n) {i j : Fin n} (te : ThreadEnv) (h : j ≠ i) :
    (ph.assign i te).threadEnv j = ph.threadEnv j := by
  simp [assign, h]

@[simp] theorem Phase.assign_assign (ph : Phase n) (i : Fin n) (te te' : ThreadEnv) :
    (ph.assign i te).assign i te' = ph.assign i te' := by
  simp [Phase.assign]

/-- What preparing a command does to the phase and to `working`. -/
inductive Setup : Phase n → ℤ → List (Instr n) → Phase n → ℤ → Prop
  | nil {ph : Phase n} {k : ℤ} : Setup ph k [] ph k
  | write {ph ph' : Phase n} {k k' : ℤ} {i : Fin n} {w : EnvWrite} {p : List (Instr n)} :
      Setup (ph.assign i (w.apply (ph.threadEnv i))) k p ph' k' →
      Setup ph k (.write i w :: p) ph' k'
  | check {ph ph' : Phase n} {k k' : ℤ} {i : Fin n} {p : List (Instr n)} :
      (ph.threadEnv i).tstInitFunc = none ∧ (ph.threadEnv i).tstRunFunc = none ∧
        (ph.threadEnv i).tstCleanupFunc = none →
      Setup ph k p ph' k' → Setup ph k (.checkUnassigned i :: p) ph' k'
  | zero {ph ph' : Phase n} {k k' : ℤ} {p : List (Instr n)} :
      Setup ph 0 p ph' k' → Setup ph k (.zeroWorking :: p) ph' k'
  | fill {ph ph' : Phase n} {k k' : ℤ} {p : List (Instr n)} :
      Setup ph n p ph' k' → Setup ph k (.fillWorking :: p) ph' k'
  | inc {ph ph' : Phase n} {k k' : ℤ} {p : List (Instr n)} :
      Setup ph (k + 1) p ph' k' → Setup ph k (.incWorking :: p) ph' k'

theorem Setup.append {ph ph' ph'' : Phase n} {k k' k'' : ℤ} {p q : List (Instr n)}
    (hp : Setup ph k p ph' k') (hq : Setup ph' k' q ph'' k'') : Setup ph k (p ++ q) ph'' k'' := by
  induction hp with
  | nil => exact hq
  | write _ ih => exact .write (ih hq)
  | check hi _ ih => exact .check hi (ih hq)
  | zero _ ih => exact .zero (ih hq)
  | fill _ ih => exact .fill (ih hq)
  | inc _ ih => exact .inc (ih hq)

/-- The writes that give a thread something else. -/
def writes (i : Fin n) (te : ThreadEnv) : List (Instr n) :=
  [.write i (.env te.env), .write i (.initFunc te.tstInitFunc), .write i (.runFunc te.tstRunFunc),
    .write i (.cleanupFunc te.tstCleanupFunc)]

theorem setup_writes (ph : Phase n) (k : ℤ) (i : Fin n) (te : ThreadEnv) :
    Setup ph k (writes i te) (ph.assign i te) k := by
  refine .write (.write (.write (.write ?_)))
  simp only [Phase.assign_threadEnv_self, Phase.assign_assign, EnvWrite.apply]
  exact .nil

/-- The writes of a loop over threads. -/
theorem setup_flatMap_writes (ph : Phase n) (k : ℤ) (te : Fin n → ThreadEnv) (is : List (Fin n)) :
    Setup ph k (is.flatMap fun i ↦ writes i (te i))
      { ph with threadEnv := fun i ↦ if i ∈ is then te i else ph.threadEnv i } k := by
  induction is generalizing ph with
  | nil => exact .nil
  | cons i is ih =>
    refine (setup_writes ph k i (te i)).append ?_
    have hrest := ih (ph.assign i (te i))
    have henv : (fun j ↦ if j ∈ i :: is then te j else ph.threadEnv j)
        = fun j ↦ if j ∈ is then te j else (ph.assign i (te i)).threadEnv j := by
      funext j
      by_cases hj : j ∈ is
      · rw [if_pos hj, if_pos (List.mem_cons_of_mem i hj)]
      · rcases eq_or_ne j i with rfl | hne
        · rw [if_neg hj, if_pos List.mem_cons_self, Phase.assign_threadEnv_self]
        · rw [if_neg hj, if_neg (List.not_mem_cons_of_ne_of_not_mem hne hj),
            ph.assign_threadEnv_of_ne _ hne]
    rw [henv]
    exact hrest

theorem setup_assignReset (ph : Phase n) (k : ℤ) :
    Setup ph k tstThreadAssignReset { ph with threadEnv := fun _ ↦ .zero } 0 := by
  have hwrites := setup_flatMap_writes ph k (fun _ ↦ .zero) (List.finRange n)
  simp only [List.mem_finRange, if_true] at hwrites
  exact hwrites.append (.zero .nil)

theorem setup_assignAll (cfg : Config) (ph : Phase n) (k : ℤ) (env : Env) :
    Setup ph k (tstThreadAssignAll cfg env)
      { ph with threadEnv := fun _ ↦ assignment cfg env } n := by
  have hwrites := setup_flatMap_writes ph k (fun _ ↦ assignment cfg env) (List.finRange n)
  simp only [List.mem_finRange, if_true] at hwrites
  exact hwrites.append (.fill .nil)

/-- Instructions that prepare a command or issue it, none of which ever blocks. -/
def Instr.Free : Instr n → Prop
  | .write _ _ | .checkUnassigned _ | .zeroWorking | .fillWorking | .incWorking | .issue _ _ => True
  | .call _ _ | .ret | .barrier | .join _ | .abort => False

/-- The master can move when its next instruction never blocks. -/
theorem not_stuck_of_free {cfg : Config} {s : State n} {i : Instr n} {rest : List (Instr n)}
    (hfree : i.Free) (hprog : s.prog = i :: rest) : ¬Stuck cfg s := by
  rintro ⟨-, hstuck⟩
  have hnone : s.masterStep cfg = none := by
    cases hs : s.masterStep cfg with
    | none => rfl
    | some s' => exact absurd (.master hs) (hstuck s')
  rw [State.masterStep, hprog] at hnone
  cases i with
  | checkUnassigned i =>
    simp only at hnone
    split_ifs at hnone
  | write | zeroWorking | fillWorking | incWorking | issue => cases hnone
  | call | ret | barrier | join | abort => exact hfree

/-- A write to the memory of a parked thread. -/
theorem Parked.write {ph : Phase n} {k : ℤ} {s : State n} (h : Parked ph k s) (i : Fin n)
    (te : ThreadEnv) (prog : List (Instr n)) :
    Parked (ph.assign i te) k { s with
      worker := Function.update s.worker i { s.worker i with threadEnv := te }, prog := prog } := by
  have hj : ∀ j, (Function.update s.worker i { s.worker i with threadEnv := te } j).threadEnv
        = (ph.assign i te).threadEnv j ∧
      (Function.update s.worker i { s.worker i with threadEnv := te } j).calls = ph.calls j ∧
      (Function.update s.worker i { s.worker i with threadEnv := te } j).Rests ∧
      (Function.update s.worker i { s.worker i with threadEnv := te } j).localCmdCount
        = s.cmdCount := by
    intro j
    rcases eq_or_ne j i with rfl | hne
    · rw [Function.update_self, Phase.assign_threadEnv_self]
      exact ⟨rfl, h.calls j, h.rests j, h.parked j⟩
    · rw [Function.update_of_ne hne, ph.assign_threadEnv_of_ne te hne]
      exact ⟨h.threadEnv j, h.calls j, h.rests j, h.parked j⟩
  exact ⟨⟨fun j ↦ (hj j).1, fun j ↦ (hj j).2.1, fun j ↦ (hj j).2.2.1, fun j _ ↦ (hj j).2.2.2,
    h.working, h.blocked, h.numThreads, h.masterCalls, h.issued⟩, fun j ↦ (hj j).2.2.2⟩

theorem Parked.setWorking {ph : Phase n} {k : ℤ} {s : State n} (h : Parked ph k s) (k' : ℤ)
    (prog : List (Instr n)) : Parked ph k' { s with working := k', prog := prog } :=
  ⟨⟨h.threadEnv, h.calls, h.rests, h.heard, rfl, h.blocked, h.numThreads, h.masterCalls, h.issued⟩,
    h.parked⟩

section

variable {cfg : Config} {Holds : State n → Prop}

/-- An instruction executed while all threads are parked. -/
theorem Parked.point {ph ph' : Phase n} {k k' : ℤ} {i : Instr n} (hfree : i.Free)
    (hk : 0 ≤ k)
    (hholds : ∀ te k s i rest, 0 ≤ k → Instr.Free i → s.prog = i :: rest →
      Resting { ph with threadEnv := te } k s → Holds s)
    (hnext : ∀ s s' rest, s.prog = i :: rest → Parked ph k s → s.masterStep cfg = some s' →
      s'.prog = rest ∧ Parked ph' k' s') :
    MasterPoint cfg Holds (Parked ph k) i (Parked ph' k') where
  holds s rest hprog h := hholds ph.threadEnv k s i rest hk hfree hprog h.toResting
  stable _ _ _ _ h hstep := h.interfere hstep
  next s s' rest hprog h hstep := Or.inl (hnext s s' rest hprog h hstep)

/-- **Preparing a command.** -/
theorem Setup.outline {ph ph' : Phase n} {k k' : ℤ} {p : List (Instr n)}
    (h : Setup ph k p ph' k') (hk : 0 ≤ k)
    (hholds : ∀ te k s i rest, 0 ≤ k → Instr.Free i → s.prog = i :: rest →
      Resting { ph with threadEnv := te } k s → Holds s) :
    MasterOutline cfg Holds (Parked ph k) p (Parked ph' k') := by
  induction h with
  | nil => exact .nil fun s hs ↦ hs
  | @write ph ph' k k' i w p _ ih =>
    refine .cons (fun s hs ↦ hs) (Parked.point trivial hk hholds fun s s' rest hprog hs hstep ↦ ?_)
      (ih hk hholds)
    rw [State.masterStep, hprog] at hstep
    cases hstep
    refine ⟨rfl, ?_⟩
    have hwrite := hs.write i (w.apply (ph.threadEnv i)) rest
    rwa [← hs.threadEnv i] at hwrite ⊢
  | @check ph ph' k k' i p hi _ ih =>
    refine .cons (fun s hs ↦ hs) (Parked.point trivial hk hholds fun s s' rest hprog hs hstep ↦ ?_)
      (ih hk hholds)
    rw [State.masterStep, hprog] at hstep
    simp only [hs.threadEnv i, hi, ne_eq, not_true_eq_false, or_self, if_false] at hstep
    cases hstep
    exact ⟨rfl, hs.working ▸ hs.setWorking s.working rest⟩
  | zero _ ih =>
    refine .cons (fun s hs ↦ hs) (Parked.point trivial hk hholds fun s s' rest hprog hs hstep ↦ ?_)
      (ih (le_refl 0) hholds)
    rw [State.masterStep, hprog] at hstep
    cases hstep
    exact ⟨rfl, hs.setWorking 0 rest⟩
  | fill _ ih =>
    refine .cons (fun s hs ↦ hs) (Parked.point trivial hk hholds fun s s' rest hprog hs hstep ↦ ?_)
      (ih (Int.natCast_nonneg n) hholds)
    rw [State.masterStep, hprog] at hstep
    cases hstep
    exact ⟨rfl, hs.numThreads ▸ hs.setWorking s.numThreads rest⟩
  | inc _ ih =>
    refine .cons (fun s hs ↦ hs) (Parked.point trivial hk hholds fun s s' rest hprog hs hstep ↦ ?_)
      (ih (by omega) hholds)
    rw [State.masterStep, hprog] at hstep
    cases hstep
    exact ⟨rfl, hs.working ▸ hs.setWorking (s.working + 1) rest⟩

/-! ## Executing a command -/

/-- The part of `tst_thread_execute_*` that is the same for all of them. -/
def execute (c : ThreadCmd) (reset : Bool) (env : Env) : List (Instr n) :=
  [.issue c reset, .call c env, .ret, .barrier]

theorem masterStep_issue {s s' : State n} {c : ThreadCmd} {reset : Bool} {rest : List (Instr n)}
    (hprog : s.prog = .issue c reset :: rest) (h : s.masterStep cfg = some s') :
    s' = { s with
      cmd := c
      cmdCount := s.cmdCount + 1
      working := if reset then s.numThreads else s.working
      worker := fun i ↦ (s.worker i).wake
      issued := s.issued + 1
      prog := rest } := by
  rw [State.masterStep, hprog] at h
  cases h
  rfl

/-- The call of the master is made if there is a function. -/
theorem masterStep_call {s s' : State n} {c : ThreadCmd} {env : Env} {f : String}
    {rest : List (Instr n)} (hf : (assignment cfg env).func c = some f)
    (hprog : s.prog = .call c env :: rest) (h : s.masterStep cfg = some s') :
    s' = { s with masterCalls := s.masterCalls ++ [⟨f, env⟩], prog := rest } := by
  have hrow : tstTest cfg env.test ≠ none := by
    intro hnone
    have hnofunc : ∀ suffix, testFunc cfg env suffix = none := fun suffix ↦ by
      rw [testFunc, hnone, Option.bind_none]
    cases c <;> simp [ThreadEnv.func, assignment, tstTestGetInitFunc, tstTestGetRunFunc,
      tstTestGetCleanupFunc, hnofunc] at hf
  rw [State.masterStep, hprog] at h
  simp only [if_neg hrow, hf] at h
  cases h
  rfl

/-- While a command is in progress the master has made its own call or not. -/
def Serving (ph : Phase n) (c : ThreadCmd) (working : ℤ) (masterCalls : List Call) (s : State n) :
    Prop := Busy ph c working s ∧ s.masterCalls = masterCalls

theorem Serving.interfere {ph : Phase n} {c : ThreadCmd} (hc : c.IsCall) {working : ℤ}
    {masterCalls : List Call} {s s' : State n} (h : Serving ph c working masterCalls s)
    (hstep : Interfere s s') : Serving ph c working masterCalls s' :=
  ⟨h.1.interfere hc hstep, hstep.sameMaster.masterCalls.trans h.2⟩

/-- The barrier is passed when `working` has been counted down, and otherwise puts the master to
sleep. -/
theorem masterStep_barrier {s s' : State n} {rest : List (Instr n)}
    (hprog : s.prog = .barrier :: rest) (h : s.masterStep cfg = some s') :
    s.blocked = false ∧ (s.working ≤ 0 ∧ s' = { s with prog := rest } ∨
      0 < s.working ∧ s' = { s with blocked := true }) := by
  rw [State.masterStep, hprog] at h
  simp only at h
  split_ifs at h with hblocked hworking
  · cases h
    exact ⟨Bool.eq_false_of_not_eq_true hblocked, Or.inr ⟨hworking, by rw [hprog]⟩⟩
  · cases h
    exact ⟨Bool.eq_false_of_not_eq_true hblocked, Or.inl ⟨by omega, rfl⟩⟩

/-- The fields that making a call or returning from it leaves alone. -/
theorem Busy.withProg {ph : Phase n} {c : ThreadCmd} {w : ℤ} {s : State n} (h : Busy ph c w s)
    (masterCalls : List Call) (prog : List (Instr n)) :
    Busy ph c w { s with masterCalls := masterCalls, prog := prog } :=
  ⟨h.threadEnv, h.serves, h.cmd, h.working, h.awake, h.numThreads, h.issued⟩

/-- A command up to the barrier. -/
theorem outline_until_barrier {ph : Phase n} {k w : ℤ} {c : ThreadCmd} (hc : c.IsCall)
    {reset : Bool} {env : Env} {f : String} (hf : (assignment cfg env).func c = some f)
    (hw : (if reset then (n : ℤ) else k) = w) {C : State n → Prop}
    (hresting : ∀ s rest, s.prog = .issue c reset :: rest → Resting ph k s → Holds s)
    (hcall : ∀ s rest, s.prog = .call c env :: rest → Serving ph c w ph.masterCalls s → Holds s)
    (hret : ∀ s rest, s.prog = .ret :: rest →
      Serving ph c w (ph.masterCalls ++ [⟨f, env⟩]) s → Holds s)
    (hbarrier : MasterOutline cfg Holds (Serving ph c w (ph.masterCalls ++ [⟨f, env⟩])) [.barrier]
      C) :
    MasterOutline cfg Holds (Resting ph k) (execute c reset env) C := by
  have hissue : MasterPoint cfg Holds (Resting ph k) (.issue c reset)
      (Serving ph c w ph.masterCalls) := by
    refine ⟨hresting, fun s s' rest _ hs hstep ↦ (hs.interfere hstep).1,
      fun s s' rest hprog hs hstep ↦ Or.inl ?_⟩
    rw [masterStep_issue hprog hstep]
    exact ⟨rfl, hw ▸ hs.issue c reset rest, hs.masterCalls⟩
  have hcalling : MasterPoint cfg Holds (Serving ph c w ph.masterCalls) (.call c env)
      (Serving ph c w (ph.masterCalls ++ [⟨f, env⟩])) := by
    refine ⟨hcall, fun s s' rest _ hs hstep ↦ hs.interfere hc hstep,
      fun s s' rest hprog hs hstep ↦ Or.inl ?_⟩
    rw [masterStep_call hf hprog hstep]
    exact ⟨rfl, hs.1.withProg _ rest, congrArg (· ++ [⟨f, env⟩]) hs.2⟩
  have hreturning : MasterPoint cfg Holds (Serving ph c w (ph.masterCalls ++ [⟨f, env⟩])) .ret
      (Serving ph c w (ph.masterCalls ++ [⟨f, env⟩])) := by
    refine ⟨hret, fun s s' rest _ hs hstep ↦ hs.interfere hc hstep,
      fun s s' rest hprog hs hstep ↦ Or.inl ?_⟩
    rw [State.masterStep, hprog] at hstep
    cases hstep
    exact ⟨rfl, hs.1.withProg _ rest, hs.2⟩
  exact .cons (fun s hs ↦ hs) hissue
    (.cons (fun s hs ↦ hs) hcalling (.cons (fun s hs ↦ hs) hreturning hbarrier))

/-- Going to sleep in the barrier. -/
theorem Serving.sleep {ph : Phase n} {c : ThreadCmd} {w : ℤ} {masterCalls : List Call}
    {s : State n} (h : Serving ph c w masterCalls s) (hworking : 0 < s.working) :
    Serving ph c w masterCalls { s with blocked := true } := by
  obtain ⟨⟨henv, hserves, hcmd, hsum, -, hnum, hissued⟩, hmaster⟩ := h
  exact ⟨⟨henv, hserves, hcmd, hsum, fun _ ↦ hworking, hnum, hissued⟩, hmaster⟩

/-- **Executing a command.** If `working` starts with the number of threads that have a test, the
barrier is passed, and then all of them have made the call. -/
theorem outline_execute {ph : Phase n} {k : ℤ} {c : ThreadCmd} (hc : c.IsCall)
    {reset : Bool} {env : Env} {f : String} (hf : (assignment cfg env).func c = some f)
    (hw : (if reset then (n : ℤ) else k) = ph.numAssigned)
    (hresting : ∀ s rest, s.prog = .issue c reset :: rest → Resting ph k s → Holds s)
    (hcall : ∀ s rest, s.prog = .call c env :: rest →
      Serving ph c ph.numAssigned ph.masterCalls s → Holds s)
    (hret : ∀ s rest, s.prog = .ret :: rest →
      Serving ph c ph.numAssigned (ph.masterCalls ++ [⟨f, env⟩]) s → Holds s)
    (hbarrier : ∀ s rest, s.prog = .barrier :: rest →
      Serving ph c ph.numAssigned (ph.masterCalls ++ [⟨f, env⟩]) s → Holds s) :
    MasterOutline cfg Holds (Resting ph k) (execute c reset env)
      (Resting (ph.next c ⟨f, env⟩) 0) := by
  refine outline_until_barrier hc hf hw hresting hcall hret
    (.cons (fun s hs ↦ hs) ⟨hbarrier, ?_, ?_⟩ (.nil fun s hs ↦ hs))
  · exact fun s s' rest _ hs hstep ↦ hs.interfere hc hstep
  · intro s s' rest hprog hs hstep
    have hle := hs.1.sum_reported_le
    have hsum := hs.1.working
    rcases masterStep_barrier hprog hstep with ⟨hblocked, ⟨hworking, rfl⟩ | ⟨hworking, rfl⟩⟩
    · -- nobody is missing
      have hzero : s.working = 0 := by omega
      have hall : ∑ i, (s.worker i).reported s.cmdCount = ph.numAssigned := by omega
      obtain ⟨h1, h2, h3, h4, h5, h6, h7, h8, h9⟩ := hs.1.resting hall hblocked hs.2
      exact Or.inl ⟨rfl, h1, h2, h3, h4, hzero, h6, h7, h8, h9⟩
    · exact Or.inr ⟨hprog, hs.sleep hworking⟩

/-- If `working` starts with a larger number, the barrier is never passed. -/
theorem outline_execute_never {ph : Phase n} {k w : ℤ} {c : ThreadCmd} (hc : c.IsCall)
    {reset : Bool} {env : Env} {f : String} (hf : (assignment cfg env).func c = some f)
    (hw : (if reset then (n : ℤ) else k) = w) (hlt : ph.numAssigned < w)
    (hholds : ∀ s, s.prog ≠ [] → Holds s) :
    MasterOutline cfg Holds (Resting ph k) (execute c reset env) fun _ ↦ False := by
  have hprog : ∀ (s : State n) i rest, s.prog = i :: rest → Holds s := fun s i rest hprog ↦
    hholds s (by rw [hprog]; exact List.cons_ne_nil i rest)
  refine outline_until_barrier hc hf hw (fun s rest h _ ↦ hprog s _ rest h)
    (fun s rest h _ ↦ hprog s _ rest h) (fun s rest h _ ↦ hprog s _ rest h)
    (.cons (fun s hs ↦ hs) ⟨fun s rest h _ ↦ hprog s _ rest h, ?_, ?_⟩ (.nil fun s hs ↦ hs))
  · exact fun s s' rest _ hs hstep ↦ hs.interfere hc hstep
  · intro s s' rest hprog hs hstep
    have hle := hs.1.sum_reported_le
    have hsum := hs.1.working
    rcases masterStep_barrier hprog hstep with ⟨-, ⟨hworking, -⟩ | ⟨hworking, rfl⟩⟩
    · omega
    · exact Or.inr ⟨hprog, hs.sleep hworking⟩

end

end Threads

end MpiTestSuite
