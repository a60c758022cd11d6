import MpiTestSuite.Threads.Master

/-!
# Shutting down

`tst_thread_cleanup` issues a last command and joins the threads. A thread takes the command under
the same condition as any other: its three pointers must be set. A thread without a test therefore
never ends, and the master never gets past its join. A thread that ends reports in `worker_done`,
although nothing has set `working` for this command. And `num_threads` keeps its value, so that
`tst_thread_init` cannot be called again.

`shutdown` separates the three. The joins return if and only if every thread hears of the last
command; `working` stays nonnegative, provided the threads that have a test have heard of the
command before, if and only if it is at least the number of these threads; and all that is asked of
a shutdown holds if and only if there are no threads.

## Histories

Any of the other functions may have been called before, in any order and with any interleaving
(`History`). In particular a thread may have missed commands while it had no test. Given a test, it
takes the last of the commands it has missed.
-/

open MpiTestSuite.Runs Relation

namespace MpiTestSuite

namespace Threads

variable {n : ℕ}

/-! ## Histories -/

/-- The calls that may come before the shutdown. -/
inductive ApiCall (n : ℕ)
  | assignReset
  | assignAll (env : Env)
  | assignOne (env : Env) (i : Fin n)
  | executeInit (env : Env)
  | executeRun (env : Env)
  | executeCleanup (env : Env)

def ApiCall.prog (cfg : Config) : ApiCall n → List (Instr n)
  | assignReset => tstThreadAssignReset
  | assignAll env => tstThreadAssignAll cfg env
  | assignOne env i => tstThreadAssignOne cfg env i
  | executeInit env => tstThreadExecuteInit env
  | executeRun env => tstThreadExecuteRun env
  | executeCleanup env => tstThreadExecuteCleanup env

/-- The states that calls after `tst_thread_init` lead to. -/
inductive History (cfg : Config) : State n → Prop
  | init : History cfg (State.init n)
  | step {s s' : State n} : History cfg s → Interfere s s' ∨ s.masterStep cfg = some s' →
      History cfg s'
  | call {s : State n} : History cfg s → s.prog = [] → (c : ApiCall n) →
      History cfg (s.start (c.prog cfg))

/-- What all histories have in common. -/
structure Sane (s : State n) : Prop where
  numThreads : s.numThreads = n
  /-- The command that a thread has missed asks for a function. -/
  missed : ∀ i, (s.worker i).localCmdCount ≠ s.cmdCount → s.cmd.IsCall
  issues : ∀ c reset, Instr.issue c reset ∈ s.prog → c.IsCall
  blocked : s.blocked = true → ∃ rest, s.prog = .barrier :: rest
  empty : n = 0 → s.working = 0 ∧ Instr.incWorking ∉ s.prog

theorem Sane.interfere {s s' : State n} (h : Sane s) (hstep : Interfere s s') : Sane s' := by
  have hmaster := hstep.sameMaster
  -- the number a thread has heard last only changes to the present one
  have hcount : ∀ i, (s'.worker i).localCmdCount = (s.worker i).localCmdCount ∨
      (s'.worker i).localCmdCount = s.cmdCount := by
    refine hstep.forall_worker (P := fun i w ↦ w.localCmdCount = (s.worker i).localCmdCount ∨
      w.localCmdCount = s.cmdCount) (fun i w w' done hw hmove ↦ ?_)
      (fun i w hw ↦ w.wake_localCmdCount.symm ▸ hw) fun i ↦ Or.inl rfl
    cases hmove with
    | take => exact Or.inr rfl
    | _ => exact hw
  refine ⟨hmaster.numThreads.trans h.numThreads, fun i hi ↦ ?_, ?_, fun hb ↦ ?_, fun hn ↦ ?_⟩
  · rw [hmaster.cmdCount] at hi
    rw [hmaster.cmd]
    rcases hcount i with heq | heq
    · exact h.missed i (heq ▸ hi)
    · exact absurd heq hi
  · rw [hmaster.prog]
    exact h.issues
  · rw [hmaster.prog]
    refine h.blocked ?_
    rcases hstep with ⟨i, hstep⟩ | ⟨i, -⟩ | -
    · obtain ⟨w, done, -, rfl⟩ := workerStep_cases hstep
      cases done with
      | false => exact hb
      | true =>
        simp only [if_true, State.workerDone] at hb
        split_ifs at hb
        exact hb
    · exact hb
    · cases hb
  · subst hn
    rw [hmaster.prog]
    rcases hstep with ⟨i, -⟩ | ⟨i, -⟩ | -
    · exact i.elim0
    · exact i.elim0
    · exact h.empty rfl

/-- What a step of the master leaves alone, by the field it may change. -/
structure MasterFrame (s s' : State n) : Prop where
  numThreads : s'.numThreads = s.numThreads
  prog : ∀ instr ∈ s'.prog, instr ∈ s.prog ∨ instr = .abort
  cmd : (s'.cmd = s.cmd ∧ s'.cmdCount = s.cmdCount ∧
      ∀ i, (s'.worker i).localCmdCount = (s.worker i).localCmdCount) ∨
    ∃ reset, Instr.issue s'.cmd reset ∈ s.prog
  blocked : s'.blocked = s.blocked ∨ ∃ rest, s'.prog = .barrier :: rest
  working : s'.working = s.working ∨ s'.working = 0 ∨ s'.working = s.numThreads ∨
    Instr.incWorking ∈ s.prog

theorem State.MasterMove.frame {s s' : State n} (h : s.MasterMove s') : MasterFrame s s' := by
  have hrest : ∀ {instr : Instr n} {rest : List (Instr n)}, s.prog = instr :: rest →
      ∀ instr' ∈ rest, instr' ∈ s.prog ∨ instr' = .abort := fun hprog _ hmem ↦
    Or.inl (hprog ▸ List.mem_cons_of_mem _ hmem)
  have hhead : ∀ {instr : Instr n} {rest : List (Instr n)}, s.prog = instr :: rest →
      instr ∈ s.prog := fun hprog ↦ hprog ▸ List.mem_cons_self
  cases h with
  | write i w rest hprog =>
    refine ⟨rfl, hrest hprog, Or.inl ⟨rfl, rfl, fun j ↦ ?_⟩, Or.inl rfl, Or.inl rfl⟩
    rcases eq_or_ne j i with rfl | hne
    · simp only [Function.update_self]
    · simp only [Function.update_of_ne hne]
  | set instr working rest hprog hworking =>
    refine ⟨rfl, hrest hprog, Or.inl ⟨rfl, rfl, fun _ ↦ rfl⟩, Or.inl rfl, Or.inr ?_⟩
    rcases hworking with hzero | hfill | rfl
    · exact Or.inl hzero
    · exact Or.inr (Or.inl hfill)
    · exact Or.inr (Or.inr (hhead hprog))
  | issue cmd reset rest hprog =>
    refine ⟨rfl, hrest hprog, Or.inr ⟨reset, hhead hprog⟩, Or.inl rfl, ?_⟩
    cases reset
    · exact Or.inl rfl
    · exact Or.inr (Or.inr (Or.inl rfl))
  | call cmd env f rest hprog =>
    exact ⟨rfl, hrest hprog, Or.inl ⟨rfl, rfl, fun _ ↦ rfl⟩, Or.inl rfl, Or.inl rfl⟩
  | sleep rest hprog =>
    exact ⟨rfl, fun _ hmem ↦ Or.inl hmem, Or.inl ⟨rfl, rfl, fun _ ↦ rfl⟩, Or.inr ⟨rest, hprog⟩,
      Or.inl rfl⟩
  | fail instr rest hprog =>
    exact ⟨rfl, fun _ hmem ↦ Or.inr (List.mem_singleton.mp hmem),
      Or.inl ⟨rfl, rfl, fun _ ↦ rfl⟩, Or.inl rfl, Or.inl rfl⟩
  | skip instr rest hprog =>
    exact ⟨rfl, hrest hprog, Or.inl ⟨rfl, rfl, fun _ ↦ rfl⟩, Or.inl rfl, Or.inl rfl⟩

theorem masterStep_frame {cfg : Config} {s s' : State n} (hstep : s.masterStep cfg = some s') :
    MasterFrame s s' :=
  (State.masterMove_of_masterStep hstep).frame

theorem Sane.masterStep {cfg : Config} {s s' : State n} (h : Sane s)
    (hstep : s.masterStep cfg = some s') : Sane s' := by
  have hframe := masterStep_frame hstep
  refine ⟨hframe.numThreads.trans h.numThreads, fun i hi ↦ ?_, fun c reset hmem ↦ ?_, fun hb ↦ ?_,
    fun hn ↦ ?_⟩
  · rcases hframe.cmd with ⟨hcmd, hcount, hlocal⟩ | ⟨reset, hmem⟩
    · rw [hcount, hlocal] at hi
      rw [hcmd]
      exact h.missed i hi
    · exact h.issues _ reset hmem
  · rcases hframe.prog _ hmem with hmem | habort
    · exact h.issues c reset hmem
    · cases habort
  · rcases hframe.blocked with hsame | hrest
    · -- asleep the master does not move
      obtain ⟨rest, hprog⟩ := h.blocked (hsame ▸ hb)
      have hawake := (masterStep_barrier hprog hstep).1
      rw [hsame, hawake] at hb
      cases hb
    · exact hrest
  · obtain ⟨hworking, hinc⟩ := h.empty hn
    refine ⟨?_, fun hmem ↦ ?_⟩
    · rcases hframe.working with heq | heq | heq | hmem
      · rw [heq, hworking]
      · exact heq
      · rw [heq, h.numThreads, hn]
        rfl
      · exact absurd hmem hinc
    · rcases hframe.prog _ hmem with hmem | habort
      · exact hinc hmem
      · cases habort

theorem ApiCall.isCall_of_issue {cfg : Config} {a : ApiCall n} {c : ThreadCmd} {reset : Bool}
    (h : Instr.issue c reset ∈ a.prog cfg) : c.IsCall := by
  cases a <;> simp [prog, tstThreadAssignReset, tstThreadAssignAll, tstThreadAssignOne,
    assignWrites, tstThreadExecuteInit, tstThreadExecuteRun, tstThreadExecuteCleanup] at h <;>
    simp [ThreadCmd.IsCall, h]

theorem ApiCall.incWorking_notMem {cfg : Config} (a : ApiCall n) (hn : n = 0) :
    Instr.incWorking ∉ a.prog cfg := by
  cases a with
  | assignOne env i =>
    subst hn
    exact i.elim0
  | _ => simp [prog, tstThreadAssignReset, tstThreadAssignAll, assignWrites,
      tstThreadExecuteInit, tstThreadExecuteRun, tstThreadExecuteCleanup]

theorem History.sane {cfg : Config} {s : State n} (h : History cfg s) : Sane s := by
  induction h with
  | init => exact ⟨rfl, fun _ hi ↦ absurd rfl hi, nofun, nofun, fun _ ↦ ⟨rfl, nofun⟩⟩
  | step _ hstep ih =>
    rcases hstep with hstep | hstep
    · exact ih.interfere hstep
    · exact ih.masterStep hstep
  | @call s _ hprog a ih =>
    refine ⟨ih.numThreads, ih.missed, fun c reset hmem ↦ a.isCall_of_issue hmem, fun hb ↦ ?_,
      fun hn ↦ ⟨(ih.empty hn).1, a.incWorking_notMem hn⟩⟩
    obtain ⟨rest, hrest⟩ := ih.blocked hb
    rw [hprog] at hrest
    cases hrest

/-! ## A thread and the last command -/

namespace Worker

/-- The condition under which a thread takes a command. -/
def Hears (cmdCount : BitVec 32) (w : Worker) : Prop :=
  w.localCmdCount ≠ cmdCount ∧ w.threadEnv.Assigned

/-- The thread has been told to end. -/
def Leaves (cmdCount : BitVec 32) (w : Worker) : Prop :=
  w.pc = .check ∧ w.Hears cmdCount ∨
    w.localCmdCount = cmdCount ∧ w.localCmd = .finalize ∧
      (w.pc = .taken ∨ w.pc = .finishing ∨ w.pc = .exited)

/-- The thread is still executing a command that it had missed. -/
def Late (cmdCount : BitVec 32) (w : Worker) : Prop :=
  (w.pc = .taken ∨ w.pc = .calling ∨ w.pc = .finishing) ∧ w.localCmd.IsCall ∧ w.Hears cmdCount

/-- `1` if the thread has ended. -/
def ended (w : Worker) : ℕ := if w.pc = .exited then 1 else 0

theorem IsCall_ne_finalize {c : ThreadCmd} (hc : c.IsCall) : c ≠ .finalize := by
  rcases hc with rfl | rfl | rfl <;> nofun

/-- A thread that leaves reports once, when it ends. -/
theorem Leaves.move {cmdCount : BitVec 32} {w w' : Worker} {done : Bool}
    (h : w.Leaves cmdCount) (hmove : w.Move .finalize cmdCount w' done) :
    w'.Leaves cmdCount ∧ w'.ended = w.ended + if done then 1 else 0 := by
  rcases h with ⟨hpc, hcount, ha⟩ | ⟨hcount, hcmd, hpc⟩
  · obtain ⟨rfl, ⟨-, hwait⟩ | ⟨rfl, -, -⟩⟩ := hmove.of_rests (Or.inl hpc)
    · exact absurd hwait (not_or.mpr ⟨hcount, not_not.mpr ha⟩)
    · exact ⟨Or.inr ⟨rfl, rfl, Or.inl rfl⟩, by simp [ended, hpc]⟩
  · cases hmove with
    | sleep hpc' | take hpc' | ret hpc' => simp [hpc'] at hpc
    | call g _ hg =>
      rw [hcmd] at hg
      cases hg
    | crash _ hne => exact absurd hcmd hne
    | leave hpc' => exact ⟨Or.inr ⟨hcount, hcmd, Or.inr (Or.inl rfl)⟩, by simp [ended, hpc']⟩
    | report hpc' =>
      exact ⟨Or.inr ⟨hcount, hcmd, Or.inr (Or.inr (if_pos hcmd))⟩, by simp [ended, hpc', hcmd]⟩

/-- A thread that is late goes on with what it does, and then looks for the next command. -/
theorem Late.move {c : ThreadCmd} {cmdCount next : BitVec 32} {w w' : Worker} {done : Bool}
    (h : w.Late next) (hmove : w.Move c cmdCount w' done) :
    w'.Late next ∨ w'.pc = .check ∧ w'.Hears next := by
  obtain ⟨hpc, hcall, hhears⟩ := h
  cases hmove with
  | sleep hpc' | take hpc' => simp [hpc'] at hpc
  | call => exact Or.inl ⟨Or.inr (Or.inl rfl), hcall, hhears⟩
  | crash _ _ hnone =>
    -- the command that a thread has missed asks for a function, and the thread has a test
    obtain ⟨f, hf⟩ := hhears.2.exists_func hcall
    rw [hf] at hnone
    cases hnone
  | leave _ hcmd => exact absurd hcmd (IsCall_ne_finalize hcall)
  | ret => exact Or.inl ⟨Or.inr (Or.inr rfl), hcall, hhears⟩
  | report => exact Or.inr ⟨if_neg (IsCall_ne_finalize hcall), hhears⟩

/-- Before the last command is issued, a thread that will hear of it may take one it has missed. -/
theorem move_of_missed {c : ThreadCmd} {cmdCount next : BitVec 32} {w w' : Worker} {done : Bool}
    (hne : cmdCount ≠ next) (hmissed : w.localCmdCount ≠ cmdCount → c.IsCall)
    (h : w.Rests ∧ w.Hears next ∨ w.Late next) (hmove : w.Move c cmdCount w' done) :
    w'.Rests ∧ w'.Hears next ∨ w'.Late next := by
  rcases h with ⟨hrests, hhears⟩ | hlate
  · obtain ⟨-, ⟨rfl, -⟩ | ⟨rfl, hcount, -⟩⟩ := hmove.of_rests hrests
    · exact Or.inl ⟨Or.inr rfl, hhears⟩
    · exact Or.inr ⟨Or.inl rfl, hmissed hcount, hne, hhears.2⟩
  · rcases hlate.move hmove with hlate | ⟨hpc, hhears⟩
    · exact Or.inr hlate
    · exact Or.inl ⟨Or.inl hpc, hhears⟩

end Worker

/-! ## Threads that do not hear -/

section

variable {cfg : Config}

theorem masterStep_join {s s' : State n} {i : Fin n} {rest : List (Instr n)}
    (hprog : s.prog = .join i :: rest) (h : s.masterStep cfg = some s') :
    (s.worker i).pc = .exited ∧ s' = { s with prog := rest } := by
  rw [State.masterStep, hprog] at h
  simp only at h
  split_ifs at h with hpc
  cases h
  exact ⟨hpc, rfl⟩

/-- Thread `i` rests and does not hear of the last command. -/
def Deaf (i : Fin n) (s : State n) : Prop :=
  (s.worker i).Rests ∧ ¬(s.worker i).Hears s.cmdCount

theorem Deaf.interfere {i : Fin n} {s s' : State n} (h : Deaf i s) (hstep : Interfere s s') :
    Deaf i s' := by
  rw [Deaf, hstep.sameMaster.cmdCount]
  refine hstep.forall_worker (P := fun j w ↦ j = i → w.Rests ∧ ¬w.Hears s.cmdCount)
    (fun j w w' done hw hmove hj ↦ ?_) (fun j w hw hj ↦ ?_) (fun j hj ↦ hj ▸ h) i rfl
  · obtain ⟨hrests, hdeaf⟩ := hw hj
    obtain ⟨rfl, -⟩ := hmove.of_heard hrests fun ha ↦ by
      by_contra hne
      exact hdeaf ⟨hne, ha⟩
    exact ⟨Or.inr rfl, hdeaf⟩
  · obtain ⟨hrests, hdeaf⟩ := hw hj
    rw [Worker.Hears, Worker.wake_localCmdCount, Worker.wake_threadEnv]
    exact ⟨Or.inl hrests.wake_pc, hdeaf⟩

/-- The join of such a thread does not return. -/
theorem outline_join_never {i : Fin n} {is : List (Fin n)} (hi : i ∈ is) :
    MasterOutline cfg (fun s ↦ s.prog ≠ []) (Deaf i) (is.map .join) fun _ ↦ False := by
  induction is with
  | nil => cases hi
  | cons j is ih =>
    have hpoint : ∀ B : State n → Prop, (∀ s, Deaf i s → (s.worker j).pc = .exited →
        ∀ rest, B { s with prog := rest }) →
        MasterPoint cfg (fun s ↦ s.prog ≠ []) (Deaf i) (.join j) B := fun B hB ↦
      { holds := fun s rest hprog _ ↦ by
          rw [hprog]
          exact List.cons_ne_nil _ _
        stable := fun s s' rest _ hs hstep ↦ hs.interfere hstep
        next := fun s s' rest hprog hs hstep ↦ by
          obtain ⟨hpc, rfl⟩ := masterStep_join hprog hstep
          exact Or.inl ⟨rfl, hB s hs hpc rest⟩ }
    rcases eq_or_ne i j with rfl | hne
    · refine .cons (fun s hs ↦ hs) (hpoint (fun _ ↦ False) fun s hs hpc rest ↦ ?_) (.of_false _)
      rcases hs.1 with hrests | hrests <;> rw [hrests] at hpc <;> cases hpc
    · exact .cons (fun s hs ↦ hs) (hpoint (Deaf i) fun s hs _ rest ↦ hs)
        (ih ((List.mem_cons.mp hi).resolve_left hne))

/-- Issuing the last command. -/
def State.finalize (s : State n) : State n :=
  { s with
    cmd := .finalize
    cmdCount := s.cmdCount + 1
    worker := fun i ↦ (s.worker i).wake
    issued := s.issued + 1
    prog := (List.finRange n).map .join }

theorem masterStep_start (s : State n) :
    (s.start tstThreadCleanup).masterStep cfg = some s.finalize := rfl

/-- **Deaf threads.** If a thread does not hear of the last command, the master gets stuck. -/
theorem exists_stuck_of_deaf (cfg : Config) {s : State n} {i : Fin n} (hrests : (s.worker i).Rests)
    (hdeaf : ¬(s.worker i).Hears (s.cmdCount + 1)) :
    ∃ t, Reachable cfg (s.start tstThreadCleanup) t ∧ Stuck cfg t := by
  have hdeaf' : Deaf i s.finalize := by
    refine ⟨Or.inl hrests.wake_pc, ?_⟩
    change ¬(s.worker i).wake.Hears (s.cmdCount + 1)
    rwa [Worker.Hears, Worker.wake_localCmdCount, Worker.wake_threadEnv]
  have houtline : MasterOutline cfg (fun s ↦ s.prog ≠ []) (Deaf i) _ _ :=
    outline_join_never (List.mem_finRange i)
  obtain ⟨t, hst, ht⟩ := exists_done_or_stuck cfg s.finalize
  have hreach := Step.reachable hst
  have hprog := (MasterOutline.holds_of_reachable houtline (fun _ _ h ↦ h.elim)
    (fun _ _ _ h _ ↦ h) rfl hdeaf' hreach).1
  exact ⟨t, .head (Or.inr (masterStep_start s)) hreach, ht.resolve_left hprog⟩

/-! ## Threads that hear -/

/-- A loop of joins keeps what does not depend on the program. -/
theorem outline_joins {Holds A : State n → Prop} (is : List (Fin n))
    (hholds : ∀ s i rest, s.prog = .join i :: rest → A s → Holds s)
    (hstable : ∀ s s', A s → Interfere s s' → A s')
    (hprog : ∀ s rest, A s → A { s with prog := rest }) :
    MasterOutline cfg Holds A (is.map .join) A := by
  induction is with
  | nil => exact .nil fun s hs ↦ hs
  | cons i is ih =>
    refine .cons (fun s hs ↦ hs) ⟨fun s rest ↦ hholds s i rest, fun s s' _ _ ↦ hstable s s',
      fun s s' rest hi hs hstep ↦ Or.inl ?_⟩ ih
    obtain ⟨-, rfl⟩ := masterStep_join hi hstep
    exact ⟨rfl, hprog s rest hs⟩

/-- Before the last command is issued, every thread will hear of it. -/
structure Attentive (s : State n) : Prop where
  missed : ∀ i, (s.worker i).localCmdCount ≠ s.cmdCount → s.cmd.IsCall
  worker : ∀ i, (s.worker i).Rests ∧ (s.worker i).Hears (s.cmdCount + 1) ∨
    (s.worker i).Late (s.cmdCount + 1)

/-- Every thread ends, possibly after it has executed a command it had missed. -/
structure Ending (s : State n) : Prop where
  cmd : s.cmd = .finalize
  worker : ∀ i, (s.worker i).Leaves s.cmdCount ∨ (s.worker i).Late s.cmdCount

theorem Worker.Hears.wake {cmdCount : BitVec 32} {w : Worker} (h : w.Hears cmdCount) :
    w.wake.Hears cmdCount := by
  rwa [Hears, wake_localCmdCount, wake_threadEnv]

theorem Worker.Late.wake {cmdCount : BitVec 32} {w : Worker} (h : w.Late cmdCount) :
    w.wake = w := by
  refine wake_of_ne fun hpc ↦ ?_
  simp [Late, hpc] at h

theorem Worker.Leaves.wake {cmdCount : BitVec 32} {w : Worker} (h : w.Leaves cmdCount) :
    w.wake = w := by
  refine wake_of_ne fun hpc ↦ ?_
  simp [Leaves, hpc] at h

theorem Attentive.interfere {s s' : State n} (h : Attentive s) (hstep : Interfere s s') :
    Attentive s' := by
  have hworker : ∀ i, ((s'.worker i).localCmdCount ≠ s.cmdCount → s.cmd.IsCall) ∧
      ((s'.worker i).Rests ∧ (s'.worker i).Hears (s.cmdCount + 1) ∨
        (s'.worker i).Late (s.cmdCount + 1)) := by
    refine hstep.forall_worker (P := fun _ w ↦ (w.localCmdCount ≠ s.cmdCount → s.cmd.IsCall) ∧
      (w.Rests ∧ w.Hears (s.cmdCount + 1) ∨ w.Late (s.cmdCount + 1)))
      (fun i w w' done hw hmove ↦ ⟨?_, ?_⟩) (fun i w hw ↦ ?_) fun i ↦ ⟨h.missed i, h.worker i⟩
    · cases hmove with
      | take => exact fun hne ↦ absurd rfl hne
      | _ => exact hw.1
    · exact Worker.move_of_missed (ne_add_one s.cmdCount) hw.1 hw.2 hmove
    · rw [Worker.wake_localCmdCount]
      refine ⟨hw.1, ?_⟩
      rcases hw.2 with ⟨hrests, hhears⟩ | hlate
      · exact Or.inl ⟨Or.inl hrests.wake_pc, hhears.wake⟩
      · exact Or.inr (hlate.wake.symm ▸ hlate)
  have hmaster := hstep.sameMaster
  constructor
  · rw [hmaster.cmdCount, hmaster.cmd]
    exact fun i ↦ (hworker i).1
  · rw [hmaster.cmdCount]
    exact fun i ↦ (hworker i).2

theorem Attentive.finalize {s : State n} (h : Attentive s) (rest : List (Instr n)) :
    Ending { s with
      cmd := .finalize
      cmdCount := s.cmdCount + 1
      worker := fun i ↦ (s.worker i).wake
      issued := s.issued + 1
      prog := rest } := by
  refine ⟨rfl, fun i ↦ ?_⟩
  rcases h.worker i with ⟨hrests, hhears⟩ | hlate
  · exact Or.inl (Or.inl ⟨hrests.wake_pc, hhears.wake⟩)
  · have hwake : (s.worker i).wake.Late (s.cmdCount + 1) := by rwa [hlate.wake]
    exact Or.inr hwake

theorem Ending.interfere {s s' : State n} (h : Ending s) (hstep : Interfere s s') : Ending s' := by
  have hmaster := hstep.sameMaster
  refine ⟨hmaster.cmd.trans h.cmd, ?_⟩
  rw [hmaster.cmdCount]
  refine hstep.forall_worker (P := fun _ w ↦ w.Leaves s.cmdCount ∨ w.Late s.cmdCount)
    (fun i w w' done hw hmove ↦ ?_) (fun i w hw ↦ ?_) h.worker
  · rcases hw with hleaves | hlate
    · exact Or.inl (hleaves.move (h.cmd ▸ hmove)).1
    · rcases hlate.move hmove with hlate | hcheck
      · exact Or.inr hlate
      · exact Or.inl (Or.inl hcheck)
  · rcases hw with hleaves | hlate
    · exact Or.inl (hleaves.wake.symm ▸ hleaves)
    · exact Or.inr (hlate.wake.symm ▸ hlate)

/-- A thread that leaves and has not ended is awake. -/
theorem Worker.Leaves.awake {cmdCount : BitVec 32} {w : Worker} (h : w.Leaves cmdCount)
    (hpc : w.pc ≠ .exited) : w.pc ≠ .waiting ∧ w.pc ≠ .exited ∧ w.pc ≠ .failed := by
  rcases h with ⟨hcheck, -⟩ | ⟨-, -, htaken | hfinishing | hexited⟩
  · simp [hcheck]
  · simp [htaken]
  · simp [hfinishing]
  · exact absurd hexited hpc

theorem Worker.Late.awake {cmdCount : BitVec 32} {w : Worker} (h : w.Late cmdCount) :
    w.pc ≠ .waiting ∧ w.pc ≠ .exited ∧ w.pc ≠ .failed := by
  rcases h.1 with hpc | hpc | hpc <;> simp [hpc]

/-- While the master joins threads that end, somebody can move. -/
theorem Ending.not_stuck {s : State n} {i : Fin n} {rest : List (Instr n)} (h : Ending s)
    (hprog : s.prog = .join i :: rest) : ¬Stuck cfg s := by
  rintro ⟨-, hstuck⟩
  by_cases hpc : (s.worker i).pc = .exited
  · refine hstuck { s with prog := rest } (.master ?_)
    rw [State.masterStep, hprog]
    exact if_pos hpc
  · have hawake : (s.worker i).pc ≠ .waiting ∧ (s.worker i).pc ≠ .exited ∧
        (s.worker i).pc ≠ .failed := by
      rcases h.worker i with hleaves | hlate
      · exact hleaves.awake hpc
      · exact hlate.awake
    obtain ⟨s', hs'⟩ := exists_workerStep hawake
    exact hstuck s' (.worker i hs')

/-- **Attentive threads.** If every thread hears of the last command, the master is never stuck. -/
theorem not_stuck_of_attentive {s : State n} (h : Attentive s) {t : State n}
    (ht : Reachable cfg (s.start tstThreadCleanup) t) : ¬Stuck cfg t := by
  have hissue : MasterPoint cfg (fun s ↦ ¬Stuck cfg s) Attentive (.issue .finalize false)
      (Ending (n := n)) := by
    refine ⟨fun s rest hprog _ ↦
      not_stuck_of_free (i := .issue .finalize false) trivial hprog,
      fun s s' _ _ hs hstep ↦ hs.interfere hstep, fun s s' rest hprog hs hstep ↦ Or.inl ?_⟩
    rw [masterStep_issue hprog hstep]
    exact ⟨rfl, hs.finalize rest⟩
  have hjoins : MasterOutline cfg (fun s ↦ ¬Stuck cfg s) Ending ((List.finRange n).map .join)
      Ending :=
    outline_joins (List.finRange n) (fun s i rest hprog hs ↦ hs.not_stuck hprog)
      (fun s s' hs hstep ↦ hs.interfere hstep) fun s rest hs ↦ ⟨hs.cmd, hs.worker⟩
  have houtline : MasterOutline cfg (fun s ↦ ¬Stuck cfg s) Attentive tstThreadCleanup Ending :=
    .cons (fun s hs ↦ hs) hissue hjoins
  exact (MasterOutline.holds_of_reachable houtline (fun s hprog _ hstuck ↦ hstuck.1 hprog)
    (fun s s' _ hs hstep ↦ hs.interfere hstep) (s := s.start tstThreadCleanup) rfl
    ⟨h.missed, h.worker⟩ ht).1

/-! ## What the last command does to `working` -/

/-- After the last command has been issued to threads that had heard of the one before: those that
have a test end, the others rest. -/
structure Departing (te : Fin n → ThreadEnv) (working : ℤ) (s : State n) : Prop where
  cmd : s.cmd = .finalize
  worker : ∀ i, (s.worker i).threadEnv = te i ∧
    if (te i).Assigned then (s.worker i).Leaves s.cmdCount else (s.worker i).Rests
  working : s.working + ∑ i, (s.worker i).ended = working

/-- A thread that rests has not ended. -/
theorem Worker.Rests.ended_eq {w : Worker} (h : w.Rests) : w.ended = 0 := by
  rcases h with h | h <;> simp [ended, h]

theorem Worker.ended_wake {w : Worker} : w.wake.ended = w.ended := by
  unfold wake ended
  split_ifs <;> simp_all

/-- One thread of a departing framework. -/
theorem Departing.move {te : Fin n → ThreadEnv} {k : ℤ} {s : State n} (h : Departing te k s)
    {i : Fin n} {w w' : Worker} {done : Bool} (henv : w.threadEnv = te i)
    (hw : if (te i).Assigned then w.Leaves s.cmdCount else w.Rests)
    (hmove : w.Move s.cmd s.cmdCount w' done) :
    (if (te i).Assigned then w'.Leaves s.cmdCount else w'.Rests) ∧
      w'.ended = w.ended + if done then 1 else 0 := by
  by_cases ha : (te i).Assigned
  · simp only [if_pos ha] at hw ⊢
    exact hw.move (h.cmd ▸ hmove)
  · simp only [if_neg ha] at hw ⊢
    obtain ⟨rfl, rfl⟩ := hmove.of_heard hw fun ha' ↦ absurd (henv ▸ ha') ha
    have hrests : { w with pc := .waiting }.Rests := Or.inr rfl
    exact ⟨hrests, by rw [hw.ended_eq, hrests.ended_eq]; rfl⟩

theorem Departing.interfere {te : Fin n → ThreadEnv} {k : ℤ} {s s' : State n}
    (h : Departing te k s) (hstep : Interfere s s') : Departing te k s' := by
  have hmaster := hstep.sameMaster
  refine ⟨hmaster.cmd.trans h.cmd, ?_, ?_⟩
  · rw [hmaster.cmdCount]
    refine hstep.forall_worker (P := fun i w ↦ w.threadEnv = te i ∧
      if (te i).Assigned then w.Leaves s.cmdCount else w.Rests)
      (fun i w w' done hw hmove ↦ ⟨hmove.threadEnv_eq.trans hw.1, (h.move hw.1 hw.2 hmove).1⟩)
      (fun i w hw ↦ ⟨w.wake_threadEnv.trans hw.1, ?_⟩) h.worker
    by_cases ha : (te i).Assigned
    · simp only [if_pos ha] at hw ⊢
      rw [hw.2.wake]
      exact hw.2
    · simp only [if_neg ha] at hw ⊢
      exact Or.inl hw.2.wake_pc
  · have hworking := h.working
    have hsum := fun i w ↦ sum_update (fun _ ↦ Worker.ended) s.worker i w
    rcases hstep with ⟨i, hstep⟩ | ⟨i, -⟩ | -
    · obtain ⟨w, done, hmove, rfl⟩ := workerStep_cases hstep
      have hended := (h.move (h.worker i).1 (h.worker i).2 hmove).2
      have hsum := hsum i w
      cases done with
      | false =>
        simp only [Bool.false_eq_true, if_false, add_zero] at hended ⊢
        omega
      | true =>
        simp only [if_true, State.workerDone] at hended ⊢
        omega
    · have hsum := hsum i (s.worker i).wake
      have hended := (s.worker i).ended_wake
      simp only at hsum hended ⊢
      omega
    · exact hworking

/-- The number of threads that have a test. -/
def State.numAssigned (s : State n) : ℕ :=
  (Finset.univ.filter fun i ↦ (s.worker i).threadEnv.Assigned).card

/-- At most the threads that have a test have ended. -/
theorem Departing.sum_ended_le {te : Fin n → ThreadEnv} {k : ℤ} {s : State n}
    (h : Departing te k s) :
    ∑ i, (s.worker i).ended ≤ (Finset.univ.filter fun i ↦ (te i).Assigned).card := by
  rw [Finset.card_filter]
  refine Finset.sum_le_sum fun i _ ↦ ?_
  have hi := (h.worker i).2
  by_cases ha : (te i).Assigned
  · rw [if_pos ha, Worker.ended]
    split_ifs <;> simp
  · rw [if_neg ha] at hi ⊢
    exact le_of_eq hi.ended_eq

/-- When nothing moves, all of these have. -/
theorem Departing.sum_ended_eq {te : Fin n → ThreadEnv} {k : ℤ} {s : State n}
    (h : Departing te k s) (hfinal : ∀ s', ¬Step cfg s s') :
    ∑ i, (s.worker i).ended = (Finset.univ.filter fun i ↦ (te i).Assigned).card := by
  rw [Finset.card_filter]
  refine Finset.sum_congr rfl fun i _ ↦ ?_
  have hi := (h.worker i).2
  by_cases ha : (te i).Assigned
  · rw [if_pos ha] at hi ⊢
    by_contra hne
    have hpc : (s.worker i).pc ≠ .exited := fun hpc ↦ hne (if_pos hpc)
    obtain ⟨s', hs'⟩ := exists_workerStep (hi.awake hpc)
    exact hfinal s' (.worker i hs')
  · rw [if_neg ha] at hi ⊢
    exact hi.ended_eq

/-- The phase a state is in when its threads rest. -/
def State.phase (s : State n) : Phase n :=
  ⟨fun i ↦ (s.worker i).threadEnv, fun i ↦ (s.worker i).calls, s.masterCalls, s.issued⟩

theorem Resting.finalize {te : Fin n → ThreadEnv} {calls : Fin n → List Call}
    {masterCalls : List Call} {issued : ℕ} {k : ℤ} {s : State n}
    (h : Resting ⟨te, calls, masterCalls, issued⟩ k s) (rest : List (Instr n)) :
    Departing te k { s with
      cmd := .finalize
      cmdCount := s.cmdCount + 1
      worker := fun i ↦ (s.worker i).wake
      issued := s.issued + 1
      prog := rest } := by
  have hpc : ∀ i, (s.worker i).wake.pc = .check := fun i ↦ (h.rests i).wake_pc
  refine ⟨rfl, fun i ↦ ⟨(s.worker i).wake_threadEnv.trans (h.threadEnv i), ?_⟩, ?_⟩
  · by_cases ha : (te i).Assigned
    · rw [if_pos ha]
      have hhears : (s.worker i).Hears (s.cmdCount + 1) := by
        rw [Worker.Hears, h.heard i ha, h.threadEnv i]
        exact ⟨ne_add_one s.cmdCount, ha⟩
      exact Or.inl ⟨hpc i, hhears.wake⟩
    · rw [if_neg ha]
      exact Or.inl (hpc i)
  · have hzero : ∀ i, (s.worker i).wake.ended = 0 := fun i ↦ Worker.Rests.ended_eq (Or.inl (hpc i))
    simp only [Finset.sum_congr rfl fun i _ ↦ hzero i, Finset.sum_const_zero, Nat.cast_zero,
      add_zero]
    exact h.working

/-- **Counting below zero.** If the threads that have a test have heard of every command so far,
`working` stays nonnegative if and only if it is at least their number. -/
theorem working_nonneg_iff {s : State n} (h : Resting s.phase s.working s) :
    (∀ t, Reachable cfg (s.start tstThreadCleanup) t → 0 ≤ t.working) ↔
      (s.numAssigned : ℤ) ≤ s.working := by
  have hjoins : ∀ Holds : State n → Prop,
      (∀ t, Departing s.phase.threadEnv s.working t → Holds t) →
      MasterOutline cfg Holds (Departing s.phase.threadEnv s.working)
        ((List.finRange n).map .join) (Departing s.phase.threadEnv s.working) := fun Holds hholds ↦
    outline_joins (List.finRange n) (fun t _ _ _ ht ↦ hholds t ht)
      (fun t t' ht hstep ↦ ht.interfere hstep) fun t rest ht ↦ ⟨ht.cmd, ht.worker, ht.working⟩
  constructor
  · intro hall
    -- in a run that goes on until nothing moves, all threads with a test report
    obtain ⟨t, hst, hfinal⟩ := exists_final State.measure
      (fun u v (hstep : Step cfg u v) ↦ hstep.measure_lt) s.finalize
    have hreach := Step.reachable hst
    have hdeparting := (MasterOutline.holds_of_reachable (hjoins _ fun _ ht ↦ ht)
      (fun _ _ ht ↦ ht) (fun _ _ _ ht hstep ↦ ht.interfere hstep) rfl (h.finalize _) hreach).1
    have hnonneg := hall t (.head (Or.inr (masterStep_start s)) hreach)
    have hworking := hdeparting.working
    rw [hdeparting.sum_ended_eq hfinal] at hworking
    change ((Finset.univ.filter fun i ↦ (s.phase.threadEnv i).Assigned).card : ℤ) ≤ s.working
    omega
  · intro hle t ht
    have hdeparting : ∀ t, Departing s.phase.threadEnv s.working t → 0 ≤ t.working := by
      intro t ht
      have hworking := ht.working
      have hsum : ∑ i, (t.worker i).ended ≤ s.numAssigned := ht.sum_ended_le
      omega
    have hissue : MasterPoint cfg (fun t ↦ 0 ≤ t.working) (Resting s.phase s.working)
        (.issue .finalize false) (Departing s.phase.threadEnv s.working) := by
      refine ⟨fun t rest _ ht ↦ ?_, fun t t' _ _ ht hstep ↦ (ht.interfere hstep).1,
        fun t t' rest hprog ht hstep ↦ Or.inl ?_⟩
      · rw [ht.working]
        omega
      · rw [masterStep_issue hprog hstep]
        exact ⟨rfl, ht.finalize rest⟩
    have houtline : MasterOutline cfg (fun t ↦ 0 ≤ t.working) (Resting s.phase s.working)
        tstThreadCleanup (Departing s.phase.threadEnv s.working) :=
      .cons (fun t ht ↦ ht) hissue (hjoins _ hdeparting)
    exact (MasterOutline.holds_of_reachable houtline (fun t _ ht ↦ hdeparting t ht)
      (fun _ _ _ ht hstep ↦ ht.interfere hstep) (s := s.start tstThreadCleanup) rfl
      ⟨h.threadEnv, h.calls, h.rests, h.heard, h.working, h.blocked, h.numThreads, h.masterCalls,
        h.issued⟩ ht).1

end

/-! ## The shutdown -/

/-- What is asked of a shutdown. -/
structure ShutsDown (cfg : Config) (s : State n) : Prop where
  /-- Every join returns. -/
  notStuck : ∀ t, Reachable cfg (s.start tstThreadCleanup) t → ¬Stuck cfg t
  nonneg : ∀ t, Reachable cfg (s.start tstThreadCleanup) t → 0 ≤ t.working
  /-- Afterwards the assertion of `tst_thread_init` about `num_threads` holds. -/
  again : ∀ t, Reachable cfg (s.start tstThreadCleanup) t → t.prog = [] → t.numThreads = 0

theorem numThreads_of_reachable {cfg : Config} {s t : State n} (h : Reachable cfg s t) :
    t.numThreads = s.numThreads := by
  induction h with
  | refl => rfl
  | tail _ hstep ih =>
    rcases hstep with hstep | hstep
    · exact hstep.sameMaster.numThreads.trans ih
    · exact (masterStep_frame hstep).numThreads.trans ih

/-- In a quiet state after any history, the threads hear of the last command if they are told to. -/
theorem Sane.attentive {s : State n} (h : Sane s) (hrests : ∀ i, (s.worker i).Rests)
    (hhears : ∀ i, (s.worker i).Hears (s.cmdCount + 1)) : Attentive s :=
  ⟨h.missed, fun i ↦ Or.inl ⟨hrests i, hhears i⟩⟩

theorem Sane.resting {s : State n} (h : Sane s) (hprog : s.prog = [])
    (hrests : ∀ i, (s.worker i).Rests)
    (hheard : ∀ i, (s.worker i).threadEnv.Assigned → (s.worker i).localCmdCount = s.cmdCount) :
    Resting s.phase s.working s := by
  refine ⟨fun _ ↦ rfl, fun _ ↦ rfl, hrests, hheard, rfl, ?_, h.numThreads, rfl, rfl⟩
  refine Bool.eq_false_iff.mpr fun hb ↦ ?_
  obtain ⟨rest, hrest⟩ := h.blocked hb
  rw [hprog] at hrest
  cases hrest

/-- **The shutdown.** In a state after any history in which the master has nothing to do and every
thread rests: a shutdown does all that is asked of it if and only if there are no threads. Its joins
return if and only if every thread hears of the last command, and `working` does not become negative
if and only if it is at least the number of threads that have a test, where these have heard of the
commands before. -/
theorem shutdown (cfg : Config) {s : State n} (h : History cfg s) (hprog : s.prog = [])
    (hrests : ∀ i, (s.worker i).Rests) :
    (ShutsDown cfg s ↔ n = 0) ∧
      ((∀ t, Reachable cfg (s.start tstThreadCleanup) t → ¬Stuck cfg t) ↔
        ∀ i, (s.worker i).localCmdCount ≠ s.cmdCount + 1 ∧ (s.worker i).threadEnv.Assigned) ∧
      ((∀ i, (s.worker i).threadEnv.Assigned → (s.worker i).localCmdCount = s.cmdCount) →
        ((∀ t, Reachable cfg (s.start tstThreadCleanup) t → 0 ≤ t.working) ↔
          (s.numAssigned : ℤ) ≤ s.working)) := by
  have hsane := h.sane
  have hjoins : (∀ t, Reachable cfg (s.start tstThreadCleanup) t → ¬Stuck cfg t) ↔
      ∀ i, (s.worker i).Hears (s.cmdCount + 1) := by
    refine ⟨fun hall i ↦ ?_, fun hhears t ht ↦
      not_stuck_of_attentive (hsane.attentive hrests hhears) ht⟩
    by_contra hdeaf
    obtain ⟨t, ht, hstuck⟩ := exists_stuck_of_deaf cfg (hrests i) hdeaf
    exact hall t ht hstuck
  refine ⟨⟨fun hdown ↦ ?_, fun hn ↦ ?_⟩, hjoins, fun hheard ↦
    working_nonneg_iff (hsane.resting hprog hrests hheard)⟩
  · -- a shutdown that returns leaves `num_threads` as it is
    obtain ⟨t, hst, ht⟩ := exists_done_or_stuck cfg (s.start tstThreadCleanup)
    have hreach := Step.reachable hst
    have hnum := numThreads_of_reachable hreach
    rw [hdown.again t hreach (ht.resolve_right (hdown.notStuck t hreach))] at hnum
    have hn : s.numThreads = n := hsane.numThreads
    have hstart : (s.start tstThreadCleanup).numThreads = s.numThreads := rfl
    omega
  · have hheard : ∀ i, (s.worker i).threadEnv.Assigned →
        (s.worker i).localCmdCount = s.cmdCount := fun i ↦ absurd i.pos (by omega)
    refine ⟨hjoins.mpr fun i ↦ absurd i.pos (by omega),
      (working_nonneg_iff (hsane.resting hprog hrests hheard)).mpr ?_, fun t ht _ ↦ ?_⟩
    · subst hn
      rw [(hsane.empty rfl).1, State.numAssigned, Finset.univ_eq_empty, Finset.filter_empty,
        Finset.card_empty]
      exact le_refl _
    · rw [numThreads_of_reachable ht]
      change s.numThreads = 0
      rw [hsane.numThreads, hn]
      rfl

/-- Three threads right after `tst_thread_init`. -/
theorem shutdown_three :
    (ShutsDown fourProcesses.cfg (State.init 3) ↔ 3 = 0) ∧
      ((∀ t, Reachable fourProcesses.cfg ((State.init 3).start tstThreadCleanup) t →
          ¬Stuck fourProcesses.cfg t) ↔
        ∀ i, ((State.init 3).worker i).localCmdCount ≠ (State.init 3).cmdCount + 1 ∧
          ((State.init 3).worker i).threadEnv.Assigned) ∧
      ((∀ i, ((State.init 3).worker i).threadEnv.Assigned →
          ((State.init 3).worker i).localCmdCount = (State.init 3).cmdCount) →
        ((∀ t, Reachable fourProcesses.cfg ((State.init 3).start tstThreadCleanup) t →
            0 ≤ t.working) ↔
          ((State.init 3).numAssigned : ℤ) ≤ (State.init 3).working)) :=
  shutdown fourProcesses.cfg .init rfl fun _ ↦ Or.inl rfl

/-- Right after `tst_thread_init`, the shutdown of a single thread gets stuck. -/
theorem shutdown_gets_stuck :
    ¬∀ (cfg : Config) (n : ℕ) (s : State n), History cfg s → s.prog = [] →
      (∀ i, (s.worker i).Rests) → ShutsDown cfg s := by
  intro h
  have hdown := h fourProcesses.cfg 1 (State.init 1) .init rfl fun _ ↦ Or.inl rfl
  have hdeaf : ¬((State.init 1).worker 0).Hears ((State.init 1).cmdCount + 1) :=
    fun hhears ↦ hhears.2.1 rfl
  obtain ⟨t, ht, hstuck⟩ := exists_stuck_of_deaf fourProcesses.cfg (i := (0 : Fin 1))
    (Or.inl rfl) hdeaf
  exact hdown.notStuck t ht hstuck

end Threads

end MpiTestSuite
