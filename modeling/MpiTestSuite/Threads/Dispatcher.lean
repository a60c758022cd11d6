import Mathlib.Algebra.BigOperators.Fin
import Mathlib.Algebra.Order.BigOperators.Group.Finset
import MpiTestSuite.Runs.Outline
import MpiTestSuite.Schedule.Main

/-!
# The thread framework

`n` dispatcher threads wait for commands of the master. A command is a word `cmd` and a number
`cmd_count`; a thread that finds the number changed, and all three of its function pointers set,
takes the command, calls the function and reports in `worker_done`, which counts `working` down. The
master issues a command, calls the function itself and waits in `worker_barrier` until `working` is
no longer positive.

## What is atomic

A section that holds a mutex is one step; so is each single write the master makes to the memory of
a thread without holding one. Between these steps any thread may run. The function of a test begins
and ends in separate steps. `cmd_count` is an `int` that may wrap around, hence a word of 32 bits.

A condition variable is a set of sleepers. `pthread_cond_broadcast` wakes all of them, the
`pthread_cond_signal` on `working_cond` wakes the master, and a sleeper may wake up at any time
without either (`Wakeup`). Who is awake checks its condition again.

## Termination

Apart from such spurious wakeups every run ends: `measure` decreases with every step, and a wakeup
adds at most one to it (`run_bounded`). A run can therefore only fail to complete by ending in a
state in which nobody can move while the master has still something to do (`Stuck`).
-/

open MpiTestSuite.Runs Relation

namespace MpiTestSuite

namespace Threads

/-! ## Threads -/

/-- `tst_thread_cmd_t`. -/
inductive ThreadCmd
  | null
  | init
  | run
  | cleanup
  | finalize
  deriving DecidableEq, Repr

/-- What the master writes in `struct tst_thread_env_t`; a function is known by its name. -/
structure ThreadEnv where
  env : Env
  tstInitFunc : Option String
  tstRunFunc : Option String
  tstCleanupFunc : Option String
  deriving DecidableEq, Repr

/-- Memory filled with zeros. -/
def ThreadEnv.zero : ThreadEnv := ⟨⟨0, 0, 0, 0, 0⟩, none, none, none⟩

/-- The function a command asks for. -/
def ThreadEnv.func (te : ThreadEnv) : ThreadCmd → Option String
  | .init => te.tstInitFunc
  | .run => te.tstRunFunc
  | .cleanup => te.tstCleanupFunc
  | .null | .finalize => none

/-- None of the three pointers is `NULL`. -/
def ThreadEnv.Assigned (te : ThreadEnv) : Prop :=
  te.tstInitFunc ≠ none ∧ te.tstRunFunc ≠ none ∧ te.tstCleanupFunc ≠ none

instance : DecidablePred ThreadEnv.Assigned := fun te ↦ by
  unfold ThreadEnv.Assigned
  infer_instance

/-- Where a dispatcher thread is. -/
inductive Pc
  /-- It is about to look whether there is a command. -/
  | check
  /-- It sleeps on `cmd_cond`. -/
  | waiting
  /-- It has taken a command. -/
  | taken
  /-- It is in the function of a test. -/
  | calling
  /-- It is about to report in `worker_done`. -/
  | finishing
  /-- It has left the loop. -/
  | exited
  /-- It has ended the process, by `ERROR` or by a call through `NULL`. -/
  | failed
  deriving DecidableEq, Repr

/-- A call of the function of a test. -/
structure Call where
  func : String
  env : Env
  deriving DecidableEq, Repr

/-- A dispatcher thread, with the calls it has made so far. -/
structure Worker where
  threadEnv : ThreadEnv
  pc : Pc
  localCmd : ThreadCmd
  localCmdCount : BitVec 32
  calls : List Call
  deriving DecidableEq, Repr

namespace Worker

/-- Call a function of the test, if there is one. -/
def call (w : Worker) : Option String → Worker
  | some f => { w with pc := .calling, calls := w.calls ++ [⟨f, w.threadEnv.env⟩] }
  | none => { w with pc := .failed }

/-- The next step of `tst_thread_dispatcher`, given `cmd` and `cmd_count`, and whether it is
`worker_done`. -/
def next (cmd : ThreadCmd) (cmdCount : BitVec 32) (w : Worker) : Option (Worker × Bool) :=
  match w.pc with
  | .check =>
    if w.localCmdCount = cmdCount ∨ ¬w.threadEnv.Assigned then
      some ({ w with pc := .waiting }, false)
    else some ({ w with pc := .taken, localCmd := cmd, localCmdCount := cmdCount }, false)
  | .waiting => none
  | .taken =>
    match w.localCmd with
    | .init => some (w.call w.threadEnv.tstInitFunc, false)
    | .run => some (w.call w.threadEnv.tstRunFunc, false)
    | .cleanup => some (w.call w.threadEnv.tstCleanupFunc, false)
    | .finalize => some ({ w with pc := .finishing }, false)
    | .null => some ({ w with pc := .failed }, false)
  | .calling => some ({ w with pc := .finishing }, false)
  | .finishing =>
    some ({ w with pc := if w.localCmd = .finalize then .exited else .check }, true)
  | .exited => none
  | .failed => none

/-- Woken up, if it sleeps. -/
def wake (w : Worker) : Worker := if w.pc = .waiting then { w with pc := .check } else w

/-- The number of functions it has returned from and reported. -/
def finished (w : Worker) : ℕ :=
  w.calls.length - if w.pc = .calling ∨ w.pc = .finishing then 1 else 0

end Worker

/-! ## The master -/

/-- A write to `struct tst_thread_env_t`. -/
inductive EnvWrite
  | env (e : Env)
  | initFunc (f : Option String)
  | runFunc (f : Option String)
  | cleanupFunc (f : Option String)

def EnvWrite.apply : EnvWrite → ThreadEnv → ThreadEnv
  | .env e, te => { te with env := e }
  | .initFunc f, te => { te with tstInitFunc := f }
  | .runFunc f, te => { te with tstRunFunc := f }
  | .cleanupFunc f, te => { te with tstCleanupFunc := f }

/-- The steps of the master. -/
inductive Instr (n : ℕ)
  /-- A write to the memory of a thread. -/
  | write (i : Fin n) (w : EnvWrite)
  /-- The check of `tst_thread_assign_one` that the thread is not assigned yet. -/
  | checkUnassigned (i : Fin n)
  /-- `working = 0`, under `working_mutex`. -/
  | zeroWorking
  /-- `working = num_threads`, under `working_mutex`. -/
  | fillWorking
  /-- `working++`, under `working_mutex`. -/
  | incWorking
  /-- The section under `cmd_mutex`; two of the commands set `working = num_threads` in it. -/
  | issue (cmd : ThreadCmd) (reset : Bool)
  /-- Call a function of the test. -/
  | call (cmd : ThreadCmd) (env : Env)
  /-- Return from it. -/
  | ret
  /-- `worker_barrier`. -/
  | barrier
  /-- `pthread_join`. -/
  | join (i : Fin n)
  /-- The process has ended. -/
  | abort

variable {n : ℕ}

section

variable (cfg : Config)

/-- A function of a test, by the part of its name in front of the last word. -/
def testFunc (env : Env) (suffix : String) : Option String :=
  (tstTest cfg env.test).bind fun row ↦ row.functions.map (· ++ suffix)

/-- `tst_test_get_init_func`. -/
def tstTestGetInitFunc (env : Env) : Option String := testFunc cfg env "_init"

/-- `tst_test_get_run_func`. -/
def tstTestGetRunFunc (env : Env) : Option String := testFunc cfg env "_run"

/-- `tst_test_get_cleanup_func`. -/
def tstTestGetCleanupFunc (env : Env) : Option String := testFunc cfg env "_cleanup"

/-- What a thread holds that has been assigned a test. -/
def assignment (env : Env) : ThreadEnv where
  env := env
  tstInitFunc := tstTestGetInitFunc cfg env
  tstRunFunc := tstTestGetRunFunc cfg env
  tstCleanupFunc := tstTestGetCleanupFunc cfg env

/-- Write an assignment field by field. -/
def assignWrites (i : Fin n) (env : Env) : List (Instr n) :=
  [.write i (.env env), .write i (.initFunc (tstTestGetInitFunc cfg env)),
    .write i (.runFunc (tstTestGetRunFunc cfg env)),
    .write i (.cleanupFunc (tstTestGetCleanupFunc cfg env))]

/-- `tst_thread_assign_reset`. -/
def tstThreadAssignReset : List (Instr n) :=
  (List.finRange n).flatMap (fun i ↦ [.write i (.env ThreadEnv.zero.env), .write i (.initFunc none),
    .write i (.runFunc none), .write i (.cleanupFunc none)]) ++ [.zeroWorking]

/-- `tst_thread_assign_all`. -/
def tstThreadAssignAll (env : Env) : List (Instr n) :=
  (List.finRange n).flatMap (fun i ↦ assignWrites cfg i env) ++ [.fillWorking]

/-- `tst_thread_assign_one`. The number of the thread is in range. -/
def tstThreadAssignOne (env : Env) (i : Fin n) : List (Instr n) :=
  .checkUnassigned i :: (assignWrites cfg i env ++ [.incWorking])

end

/-- `tst_thread_execute_init`. -/
def tstThreadExecuteInit (env : Env) : List (Instr n) :=
  [.issue .init false, .call .init env, .ret, .barrier]

/-- `tst_thread_execute_run`. -/
def tstThreadExecuteRun (env : Env) : List (Instr n) :=
  [.issue .run true, .call .run env, .ret, .barrier]

/-- `tst_thread_execute_cleanup`. -/
def tstThreadExecuteCleanup (env : Env) : List (Instr n) :=
  [.issue .cleanup true, .call .cleanup env, .ret, .barrier]

/-- `tst_thread_cleanup`. Behind the joins it frees the identifiers and the environment of the first
thread, which nobody looks at any more. There is a first thread, as `main` gives up without any. -/
def tstThreadCleanup : List (Instr n) :=
  .issue .finalize false :: (List.finRange n).map .join

/-! ## States -/

/-- The state of the framework. -/
structure State (n : ℕ) where
  cmd : ThreadCmd
  cmdCount : BitVec 32
  working : ℤ
  numThreads : ℤ
  worker : Fin n → Worker
  /-- What the master still has to do. -/
  prog : List (Instr n)
  /-- The master sleeps on `working_cond`. -/
  blocked : Bool
  /-- The calls the master has made so far. -/
  masterCalls : List Call
  /-- The number of commands issued so far. -/
  issued : ℕ

/-- The state after `tst_thread_init (n, &thread_env)`. -/
def State.init (n : ℕ) : State n where
  cmd := .null
  cmdCount := 0
  working := 0
  numThreads := n
  worker := fun _ ↦ ⟨.zero, .check, .null, 0, []⟩
  prog := []
  blocked := false
  masterCalls := []
  issued := 0

namespace State

/-- `worker_done`. -/
def workerDone (s : State n) : State n :=
  { s with
    working := s.working - 1
    blocked := if s.working - 1 = 0 then false else s.blocked }

/-- The next step of thread `i`. -/
def workerStep (s : State n) (i : Fin n) : Option (State n) :=
  ((s.worker i).next s.cmd s.cmdCount).map fun (w, done) ↦
    let s := { s with worker := Function.update s.worker i w }
    if done then s.workerDone else s

/-- The next step of the master. -/
def masterStep (cfg : Config) (s : State n) : Option (State n) :=
  match s.prog with
  | [] => none
  | .write i write :: prog =>
    let w := s.worker i
    let w := { w with threadEnv := write.apply w.threadEnv }
    some { s with worker := Function.update s.worker i w, prog := prog }
  | .checkUnassigned i :: prog =>
    let te := (s.worker i).threadEnv
    if te.tstInitFunc ≠ none ∨ te.tstRunFunc ≠ none ∨ te.tstCleanupFunc ≠ none then
      some { s with prog := [.abort] }
    else some { s with prog := prog }
  | .zeroWorking :: prog => some { s with working := 0, prog := prog }
  | .fillWorking :: prog => some { s with working := s.numThreads, prog := prog }
  | .incWorking :: prog => some { s with working := s.working + 1, prog := prog }
  | .issue cmd reset :: prog =>
    some { s with
      cmd := cmd
      cmdCount := s.cmdCount + 1
      working := if reset then s.numThreads else s.working
      worker := fun i ↦ (s.worker i).wake
      issued := s.issued + 1
      prog := prog }
  | .call cmd env :: prog =>
    -- without such a test `CHECK_ARG` returns at once
    if tstTest cfg env.test = none then some { s with prog := prog }
    else
      match (assignment cfg env).func cmd with
      | some f => some { s with masterCalls := s.masterCalls ++ [⟨f, env⟩], prog := prog }
      | none => some { s with prog := [.abort] }
  | .ret :: prog => some { s with prog := prog }
  | .barrier :: prog =>
    -- it sleeps until it is woken, and then looks at `working` again
    if s.blocked then none
    else if 0 < s.working then some { s with blocked := true }
    else some { s with prog := prog }
  | .join i :: prog => if (s.worker i).pc = .exited then some { s with prog := prog } else none
  | .abort :: _ => none

end State

/-- A step of the program. -/
inductive Step (cfg : Config) (s s' : State n) : Prop
  | worker (i : Fin n) : s.workerStep i = some s' → Step cfg s s'
  | master : s.masterStep cfg = some s' → Step cfg s s'

/-- A sleeper wakes up for no reason. -/
inductive Wakeup (s : State n) : State n → Prop
  | worker (i : Fin n) : (s.worker i).pc = .waiting →
      Wakeup s { s with worker := Function.update s.worker i (s.worker i).wake }
  | master : s.blocked = true → Wakeup s { s with blocked := false }

/-- What the master does not do itself. -/
def Interfere (s s' : State n) : Prop := (∃ i, s.workerStep i = some s') ∨ Wakeup s s'

/-- The states that some interleaving leads to. -/
def Reachable (cfg : Config) : State n → State n → Prop :=
  ReflTransGen fun s s' ↦ Interfere s s' ∨ s.masterStep cfg = some s'

/-- The master is not done, and nothing moves unless a sleeper wakes up for no reason. -/
def Stuck (cfg : Config) (s : State n) : Prop := s.prog ≠ [] ∧ ∀ s', ¬Step cfg s s'

/-- The master begins with a call to the framework. -/
def State.start (s : State n) (prog : List (Instr n)) : State n := { s with prog := prog }

/-! ## What a thread can do -/

/-- The steps of a dispatcher thread, by kind. -/
inductive Worker.Move (cmd : ThreadCmd) (cmdCount : BitVec 32) (w : Worker) : Worker → Bool → Prop
  | sleep : w.pc = .check → (w.localCmdCount = cmdCount ∨ ¬w.threadEnv.Assigned) →
      Move cmd cmdCount w { w with pc := .waiting } false
  | take : w.pc = .check → w.localCmdCount ≠ cmdCount → w.threadEnv.Assigned →
      Move cmd cmdCount w { w with pc := .taken, localCmd := cmd, localCmdCount := cmdCount } false
  | call (f : String) : w.pc = .taken → w.threadEnv.func w.localCmd = some f →
      Move cmd cmdCount w
        { w with pc := .calling, calls := w.calls ++ [⟨f, w.threadEnv.env⟩] } false
  | crash : w.pc = .taken → w.localCmd ≠ .finalize → w.threadEnv.func w.localCmd = none →
      Move cmd cmdCount w { w with pc := .failed } false
  | leave : w.pc = .taken → w.localCmd = .finalize →
      Move cmd cmdCount w { w with pc := .finishing } false
  | ret : w.pc = .calling → Move cmd cmdCount w { w with pc := .finishing } false
  | report : w.pc = .finishing →
      Move cmd cmdCount w { w with pc := if w.localCmd = .finalize then .exited else .check } true

theorem Worker.move_call {cmd : ThreadCmd} {cmdCount : BitVec 32} {w : Worker}
    (hpc : w.pc = .taken) (hcmd : w.localCmd ≠ .finalize) :
    w.Move cmd cmdCount (w.call (w.threadEnv.func w.localCmd)) false := by
  cases hf : w.threadEnv.func w.localCmd with
  | some f => exact .call f hpc hf
  | none => exact .crash hpc hcmd hf

theorem Worker.move_of_next {cmd : ThreadCmd} {cmdCount : BitVec 32} {w w' : Worker} {done : Bool}
    (h : w.next cmd cmdCount = some (w', done)) : w.Move cmd cmdCount w' done := by
  obtain ⟨te, pc, localCmd, localCmdCount, calls⟩ := w
  cases pc with
  | check =>
    simp only [next] at h
    split_ifs at h with hwait
    · cases h
      exact .sleep rfl hwait
    · cases h
      rw [not_or, not_not] at hwait
      exact .take rfl hwait.1 hwait.2
  | taken =>
    cases localCmd with
    | null =>
      cases h
      exact .crash rfl nofun rfl
    | finalize =>
      cases h
      exact .leave rfl rfl
    | init | run | cleanup =>
      cases h
      exact move_call rfl nofun
  | calling =>
    cases h
    exact .ret rfl
  | finishing =>
    cases h
    exact .report rfl
  | waiting | exited | failed => cases h

/-- A thread that is awake and has not ended can move. -/
theorem Worker.next_ne_none {w : Worker} (cmd : ThreadCmd) (cmdCount : BitVec 32)
    (h : w.pc ≠ .waiting ∧ w.pc ≠ .exited ∧ w.pc ≠ .failed) : w.next cmd cmdCount ≠ none := by
  unfold next
  cases hpc : w.pc with
  | check =>
    simp only
    split_ifs <;> nofun
  | taken => cases w.localCmd <;> nofun
  | calling | finishing => nofun
  | waiting => exact absurd hpc h.1
  | exited => exact absurd hpc h.2.1
  | failed => exact absurd hpc h.2.2

/-- A step of a thread changes nothing but the thread, and `worker_done` counts it. -/
theorem workerStep_cases {s s' : State n} {i : Fin n} (h : s.workerStep i = some s') :
    ∃ w done, (s.worker i).Move s.cmd s.cmdCount w done ∧
      s' = (if done then { s with worker := Function.update s.worker i w }.workerDone
        else { s with worker := Function.update s.worker i w }) := by
  obtain ⟨⟨w, done⟩, hnext, rfl⟩ := Option.map_eq_some_iff.mp h
  exact ⟨w, done, Worker.move_of_next hnext, rfl⟩

theorem exists_workerStep {s : State n} {i : Fin n}
    (h : (s.worker i).pc ≠ .waiting ∧ (s.worker i).pc ≠ .exited ∧ (s.worker i).pc ≠ .failed) :
    ∃ s', s.workerStep i = some s' := by
  obtain ⟨p, hp⟩ := Option.ne_none_iff_exists'.mp
    (Worker.next_ne_none s.cmd s.cmdCount h)
  exact ⟨_, by rw [State.workerStep, hp]; rfl⟩

theorem Worker.wake_of_waiting {w : Worker} (h : w.pc = .waiting) :
    w.wake = { w with pc := .check } := if_pos h

theorem Worker.wake_of_ne {w : Worker} (h : w.pc ≠ .waiting) : w.wake = w := if_neg h

/-! ## What the master can do -/

/-- The steps of the master, by what becomes of its next instruction. -/
inductive State.MasterMove (s : State n) : State n → Prop
  | write (i : Fin n) (w : EnvWrite) (rest : List (Instr n)) : s.prog = .write i w :: rest →
      MasterMove s { s with
        worker := Function.update s.worker i
          { s.worker i with threadEnv := w.apply (s.worker i).threadEnv }
        prog := rest }
  | set (instr : Instr n) (working : ℤ) (rest : List (Instr n)) : s.prog = instr :: rest →
      (working = 0 ∨ working = s.numThreads ∨ instr = .incWorking) →
      MasterMove s { s with working := working, prog := rest }
  | issue (cmd : ThreadCmd) (reset : Bool) (rest : List (Instr n)) :
      s.prog = .issue cmd reset :: rest →
      MasterMove s { s with
        cmd := cmd
        cmdCount := s.cmdCount + 1
        working := if reset then s.numThreads else s.working
        worker := fun i ↦ (s.worker i).wake
        issued := s.issued + 1
        prog := rest }
  | call (cmd : ThreadCmd) (env : Env) (f : String) (rest : List (Instr n)) :
      s.prog = .call cmd env :: rest →
      MasterMove s { s with masterCalls := s.masterCalls ++ [⟨f, env⟩], prog := rest }
  | sleep (rest : List (Instr n)) : s.prog = .barrier :: rest → s.blocked = false →
      MasterMove s { s with blocked := true }
  | fail (instr : Instr n) (rest : List (Instr n)) : s.prog = instr :: rest → instr ≠ .abort →
      MasterMove s { s with prog := [.abort] }
  | skip (instr : Instr n) (rest : List (Instr n)) : s.prog = instr :: rest →
      MasterMove s { s with prog := rest }

theorem State.masterMove_of_masterStep {cfg : Config} {s s' : State n}
    (h : s.masterStep cfg = some s') : s.MasterMove s' := by
  unfold masterStep at h
  cases hprog : s.prog with
  | nil =>
    rw [hprog] at h
    cases h
  | cons instr rest =>
    rw [hprog] at h
    cases instr with
    | write i w =>
      cases h
      exact .write i w rest hprog
    | checkUnassigned i =>
      simp only at h
      split_ifs at h
      · cases h
        exact .fail _ rest hprog nofun
      · cases h
        exact .skip _ rest hprog
    | zeroWorking =>
      cases h
      exact .set _ _ rest hprog (Or.inl rfl)
    | fillWorking =>
      cases h
      exact .set _ _ rest hprog (Or.inr (Or.inl rfl))
    | incWorking =>
      cases h
      exact .set _ _ rest hprog (Or.inr (Or.inr rfl))
    | issue cmd reset =>
      cases h
      exact .issue cmd reset rest hprog
    | call cmd env =>
      simp only at h
      split_ifs at h
      · cases h
        exact .skip _ rest hprog
      · cases hf : (assignment cfg env).func cmd with
        | some f =>
          rw [hf] at h
          cases h
          exact .call cmd env f rest hprog
        | none =>
          rw [hf] at h
          cases h
          exact .fail _ rest hprog nofun
    | ret =>
      cases h
      exact .skip _ rest hprog
    | barrier =>
      simp only at h
      split_ifs at h with hblocked
      · cases h
        rw [← hprog]
        exact .sleep rest hprog (Bool.eq_false_iff.mpr hblocked)
      · cases h
        exact .skip _ rest hprog
    | join i =>
      simp only at h
      split_ifs at h
      cases h
      exact .skip _ rest hprog
    | abort => cases h

/-! ## Termination -/

/-- How much a thread may still do without hearing of another command. -/
def Worker.energy (cmdCount : BitVec 32) (w : Worker) : ℕ :=
  (match w.pc with
    | .check => 1
    | .taken => 5
    | .calling => 4
    | .finishing => 3
    | .waiting | .exited | .failed => 0)
  + if w.localCmdCount = cmdCount then 0 else 5

/-- How much an instruction of the master adds at most. -/
def Instr.weight : Instr n → ℕ
  | .issue _ _ => 6 * n + 2
  | .abort => 1
  | _ => 2

/-- What decreases with every step. -/
def State.measure (s : State n) : ℕ :=
  (s.prog.map Instr.weight).sum + (if s.blocked then 0 else 1)
    + ∑ i, (s.worker i).energy s.cmdCount

theorem Worker.Move.energy_lt {cmd : ThreadCmd} {cmdCount : BitVec 32} {w w' : Worker}
    {done : Bool} (h : w.Move cmd cmdCount w' done) :
    w'.energy cmdCount + (if done then 1 else 0) < w.energy cmdCount := by
  cases h with
  | take hpc hcount => simp [energy, hpc, hcount]
  | sleep hpc | call _ hpc | crash hpc | leave hpc | ret hpc => simp [energy, hpc]
  | report hpc =>
    simp only [energy, hpc]
    split_ifs <;> simp

theorem workerStep_measure {s s' : State n} {i : Fin n} (h : s.workerStep i = some s') :
    s'.measure < s.measure := by
  obtain ⟨w, done, hmove, rfl⟩ := workerStep_cases h
  have henergy := hmove.energy_lt
  have hsum := sum_update (fun _ ↦ Worker.energy s.cmdCount) s.worker i w
  cases done with
  | false =>
    simp only [State.measure, Bool.false_eq_true, if_false] at henergy ⊢
    omega
  | true =>
    -- `worker_done` may wake the master, which a thread pays for
    simp only [State.measure, State.workerDone, if_true] at henergy ⊢
    split_ifs <;> omega

theorem Worker.energy_wake (cmdCount : BitVec 32) (w : Worker) :
    w.wake.energy cmdCount ≤ w.energy cmdCount + 1 := by
  by_cases hpc : w.pc = .waiting
  · rw [wake_of_waiting hpc]
    simp [energy, hpc]
    omega
  · rw [wake_of_ne hpc]
    omega

theorem Worker.energy_le (cmdCount cmdCount' : BitVec 32) (w : Worker) :
    w.energy cmdCount' ≤ w.energy cmdCount + 5 := by
  unfold energy
  split_ifs <;> omega

/-- Issuing a command pays for what the threads may do about it. -/
theorem sum_energy_issue (s : State n) : ∑ i, (s.worker i).wake.energy (s.cmdCount + 1)
    ≤ ∑ i, (s.worker i).energy s.cmdCount + 6 * n := by
  calc ∑ i, (s.worker i).wake.energy (s.cmdCount + 1)
      ≤ ∑ i, ((s.worker i).energy s.cmdCount + 6) := Finset.sum_le_sum fun i _ ↦ by
        have hwake := Worker.energy_wake s.cmdCount (s.worker i)
        have hcount := Worker.energy_le s.cmdCount (s.cmdCount + 1) (s.worker i).wake
        omega
    _ = ∑ i, (s.worker i).energy s.cmdCount + 6 * n := by
        rw [Finset.sum_add_distrib, Finset.sum_const, Finset.card_univ, Fintype.card_fin,
          smul_eq_mul, mul_comm]

theorem Instr.weight_pos (instr : Instr n) : 0 < instr.weight := by
  cases instr <;> simp [weight]

theorem Instr.one_lt_weight {instr : Instr n} (h : instr ≠ .abort) : 1 < instr.weight := by
  cases instr <;> simp [weight] at h ⊢

theorem State.MasterMove.measure_lt {s s' : State n} (h : s.MasterMove s') :
    s'.measure < s.measure := by
  cases h with
  | write i w rest hprog =>
    -- a write changes neither where a thread is nor which command it has taken last
    have hsum := sum_update (fun _ ↦ Worker.energy s.cmdCount) s.worker i
      { s.worker i with threadEnv := w.apply (s.worker i).threadEnv }
    simp only [measure, hprog, List.map_cons, List.sum_cons, Instr.weight]
    simp only [Worker.energy] at hsum ⊢
    omega
  | issue cmd reset rest hprog =>
    have hsum := sum_energy_issue s
    simp only [measure, hprog, List.map_cons, List.sum_cons, Instr.weight]
    omega
  | sleep rest hprog hblocked => simp [measure, hblocked]
  | fail instr rest hprog hne =>
    have hweight := Instr.one_lt_weight hne
    simp only [measure, hprog, List.map_cons, List.map_nil, List.sum_cons, List.sum_nil]
    change 1 + 0 + _ + _ < _
    omega
  | set instr _ rest hprog | skip instr rest hprog =>
    have hweight := instr.weight_pos
    simp only [measure, hprog, List.map_cons, List.sum_cons]
    omega
  | call cmd env f rest hprog =>
    simp only [measure, hprog, List.map_cons, List.sum_cons, Instr.weight]
    omega

/-- Every step decreases the measure. -/
theorem Step.measure_lt {cfg : Config} {s s' : State n} (h : Step cfg s s') :
    s'.measure < s.measure := by
  rcases h with ⟨i, h⟩ | h
  · exact workerStep_measure h
  · exact (State.masterMove_of_masterStep h).measure_lt

theorem Wakeup.measure_le {s s' : State n} (h : Wakeup s s') : s'.measure ≤ s.measure + 1 := by
  rcases h with ⟨i, hpc⟩ | hblocked
  · have hsum := sum_update (fun _ ↦ Worker.energy s.cmdCount) s.worker i (s.worker i).wake
    have hwake := Worker.energy_wake s.cmdCount (s.worker i)
    simp only [State.measure]
    omega
  · simp only [State.measure]
    split_ifs <;> omega

/-- **Bounded runs.** With `d` spurious wakeups a run has at most `s.measure + d` steps. -/
theorem run_bounded {cfg : Config} {k d : ℕ} {s t : State n}
    (h : Counted (Step cfg) Wakeup k d s t) : k ≤ s.measure + d := by
  have hle := Counted.le State.measure (fun _ _ hstep ↦ Step.measure_lt hstep)
    (fun _ _ hwake ↦ Wakeup.measure_le hwake) h
  omega

/-- A run without spurious wakeups ends, with the master done or everybody stuck. -/
theorem exists_done_or_stuck (cfg : Config) (s : State n) :
    ∃ t, ReflTransGen (Step cfg) s t ∧ (t.prog = [] ∨ Stuck cfg t) := by
  obtain ⟨t, hst, ht⟩ := exists_final State.measure (fun _ _ hstep ↦ Step.measure_lt hstep) s
  by_cases hprog : t.prog = []
  · exact ⟨t, hst, Or.inl hprog⟩
  · exact ⟨t, hst, Or.inr ⟨hprog, ht⟩⟩

theorem Step.reachable {cfg : Config} {s t : State n} (h : ReflTransGen (Step cfg) s t) :
    Reachable cfg s t := by
  refine ReflTransGen.mono (fun u v huv ↦ ?_) s t h
  rcases huv with ⟨i, huv⟩ | huv
  · exact Or.inl (Or.inl ⟨i, huv⟩)
  · exact Or.inr huv

end Threads

end MpiTestSuite
