import MpiTestSuite.Threads.Dispatcher

/-!
# One command

Between two commands every thread rests: it sleeps, or is about to look for a command that is not
there for it (`Resting`). A command that has been issued is in progress (`Busy`) until the master
passes the barrier. A thread without a test stays where it is. A thread with a test has not heard of
the command, has taken it, is in the function, has returned from it or has reported, and `working`
is what the master started with less the number of reports (`Busy.working`).

Both conditions survive whatever the threads do, and issuing a command leads from the first to the
second (`Resting.issue`). As long as some thread that has a test has not reported, one can move
(`Busy.exists_step`); once all of them have, they rest again and have made one more call each
(`Busy.resting`).
-/

open MpiTestSuite.Runs Relation

namespace MpiTestSuite

namespace Threads

variable {n : ℕ}

/-! ## A thread and one command -/

/-- The commands that ask for a function of a test. -/
def ThreadCmd.IsCall (c : ThreadCmd) : Prop := c = .init ∨ c = .run ∨ c = .cleanup

/-- The call a command asks for. -/
def ThreadEnv.callsOf (te : ThreadEnv) (c : ThreadCmd) : List Call :=
  ((te.func c).map fun f ↦ ⟨f, te.env⟩).toList

theorem ThreadEnv.Assigned.exists_func {te : ThreadEnv} (h : te.Assigned) {c : ThreadCmd}
    (hc : c.IsCall) : ∃ f, te.func c = some f := by
  obtain ⟨hinit, hrun, hcleanup⟩ := h
  rcases hc with rfl | rfl | rfl
  · exact Option.ne_none_iff_exists'.mp hinit
  · exact Option.ne_none_iff_exists'.mp hrun
  · exact Option.ne_none_iff_exists'.mp hcleanup

namespace Worker

/-- The thread looks for a command or sleeps. -/
def Rests (w : Worker) : Prop := w.pc = .check ∨ w.pc = .waiting

instance : DecidablePred Rests := fun w ↦ by
  unfold Rests
  infer_instance

/-- While command `c` is in progress, a thread that had made the calls `before` has done part of
what the command asks for; a thread without a test does nothing. -/
def Serves (c : ThreadCmd) (cmdCount : BitVec 32) (before : List Call) (w : Worker) : Prop :=
  if w.threadEnv.Assigned then
    match w.pc with
    | .check => if w.localCmdCount = cmdCount then w.calls = before ++ w.threadEnv.callsOf c
        else w.calls = before
    | .waiting => w.localCmdCount = cmdCount ∧ w.calls = before ++ w.threadEnv.callsOf c
    | .taken => w.localCmdCount = cmdCount ∧ w.localCmd = c ∧ w.calls = before
    | .calling | .finishing =>
      w.localCmdCount = cmdCount ∧ w.localCmd = c ∧ w.calls = before ++ w.threadEnv.callsOf c
    | .exited | .failed => False
  else w.Rests ∧ w.calls = before

/-- `1` if the thread has a test and has reported. -/
def reported (cmdCount : BitVec 32) (w : Worker) : ℕ :=
  if w.threadEnv.Assigned ∧ w.Rests ∧ w.localCmdCount = cmdCount then 1 else 0

theorem Move.threadEnv_eq {c : ThreadCmd} {cmdCount : BitVec 32} {w w' : Worker} {done : Bool}
    (h : w.Move c cmdCount w' done) : w'.threadEnv = w.threadEnv := by
  cases h <;> rfl

/-- A thread that rests falls asleep or takes a command. -/
theorem Move.of_rests {c : ThreadCmd} {cmdCount : BitVec 32} {w w' : Worker} {done : Bool}
    (h : w.Move c cmdCount w' done) (hrests : w.Rests) :
    done = false ∧
      (w' = { w with pc := .waiting } ∧ (w.localCmdCount = cmdCount ∨ ¬w.threadEnv.Assigned) ∨
        w' = { w with pc := .taken, localCmd := c, localCmdCount := cmdCount } ∧
          w.localCmdCount ≠ cmdCount ∧ w.threadEnv.Assigned) := by
  have hawake : ∀ {pc : Pc}, w.pc = pc → pc = .check ∨ pc = .waiting := fun hpc ↦ hpc ▸ hrests
  cases h with
  | sleep _ hwait => exact ⟨rfl, Or.inl ⟨rfl, hwait⟩⟩
  | take _ hcount ha => exact ⟨rfl, Or.inr ⟨rfl, hcount, ha⟩⟩
  | call _ hpc | crash hpc | leave hpc | ret hpc | report hpc =>
    rcases hawake hpc with hpc | hpc <;> cases hpc

/-- **One thread, one command.** Whatever the thread does is part of the command, and it reports in
`worker_done`. -/
theorem Serves.move {c : ThreadCmd} (hc : c.IsCall) {cmdCount : BitVec 32} {before : List Call}
    {w w' : Worker} {done : Bool} (h : w.Serves c cmdCount before)
    (hmove : w.Move c cmdCount w' done) :
    w'.Serves c cmdCount before ∧
      w'.reported cmdCount = w.reported cmdCount + if done then 1 else 0 := by
  have hfinal : c ≠ .finalize := by rcases hc with rfl | rfl | rfl <;> nofun
  by_cases ha : w.threadEnv.Assigned
  · rw [Serves, if_pos ha] at h
    obtain ⟨f, hf⟩ := ha.exists_func hc
    cases hmove with
    | sleep hpc hwait =>
      -- there is no command, so the thread has reported
      have hcount := hwait.resolve_right (not_not.mpr ha)
      simp only [hpc, if_pos hcount] at h
      simp [Serves, reported, Rests, ha, hpc, hcount, h]
    | take hpc hcount =>
      simp only [hpc, if_neg hcount] at h
      simp [Serves, reported, Rests, ha, hcount, h]
    | call g hpc hg =>
      simp only [hpc] at h
      rw [h.2.1, hf] at hg
      cases hg
      simp [Serves, reported, Rests, ha, hpc, h, ThreadEnv.callsOf, hf]
    | crash hpc _ hnone =>
      -- the pointers are set, and none of them can be called through `NULL`
      simp only [hpc] at h
      rw [h.2.1, hf] at hnone
      cases hnone
    | leave hpc hleave =>
      simp only [hpc] at h
      exact absurd (h.2.1.symm.trans hleave) hfinal
    | ret hpc =>
      simp only [hpc] at h
      simp [Serves, reported, Rests, ha, hpc, h]
    | report hpc =>
      simp only [hpc] at h
      simp [Serves, reported, Rests, ha, hpc, h, hfinal]
  · rw [Serves, if_neg ha] at h
    obtain ⟨hrests, hcalls⟩ := h
    obtain ⟨rfl, ⟨rfl, -⟩ | ⟨-, -, ha'⟩⟩ := hmove.of_rests hrests
    · simp [Serves, reported, Rests, ha, hcalls]
    · exact absurd ha' ha

theorem wake_threadEnv (w : Worker) : w.wake.threadEnv = w.threadEnv := by
  unfold wake
  split_ifs <;> rfl

theorem wake_calls (w : Worker) : w.wake.calls = w.calls := by
  unfold wake
  split_ifs <;> rfl

theorem wake_localCmdCount (w : Worker) : w.wake.localCmdCount = w.localCmdCount := by
  unfold wake
  split_ifs <;> rfl

theorem Rests.wake_pc {w : Worker} (h : w.Rests) : w.wake.pc = .check := by
  unfold wake
  split_ifs with hpc
  · rfl
  · exact h.resolve_right hpc

theorem Serves.wake {c : ThreadCmd} {cmdCount : BitVec 32} {before : List Call} {w : Worker}
    (h : w.Serves c cmdCount before) : w.wake.Serves c cmdCount before ∧
      w.wake.reported cmdCount = w.reported cmdCount := by
  by_cases hpc : w.pc = .waiting
  · rw [wake_of_waiting hpc]
    by_cases ha : w.threadEnv.Assigned
    · simp only [Serves, if_pos ha, hpc] at h
      simp [Serves, reported, Rests, ha, hpc, h]
    · simp only [Serves, if_neg ha] at h
      simp [Serves, reported, Rests, ha, h]
  · rw [wake_of_ne hpc]
    exact ⟨h, rfl⟩

end Worker

/-! ## What the other threads leave alone -/

/-- The part of a state that only the master writes. -/
structure SameMaster (s s' : State n) : Prop where
  cmd : s'.cmd = s.cmd
  cmdCount : s'.cmdCount = s.cmdCount
  numThreads : s'.numThreads = s.numThreads
  prog : s'.prog = s.prog
  masterCalls : s'.masterCalls = s.masterCalls
  issued : s'.issued = s.issued

theorem Interfere.sameMaster {s s' : State n} (h : Interfere s s') : SameMaster s s' := by
  rcases h with ⟨i, h⟩ | ⟨i, h⟩ | h
  · obtain ⟨w, done, -, rfl⟩ := workerStep_cases h
    cases done <;> exact ⟨rfl, rfl, rfl, rfl, rfl, rfl⟩
  · exact ⟨rfl, rfl, rfl, rfl, rfl, rfl⟩
  · exact ⟨rfl, rfl, rfl, rfl, rfl, rfl⟩

/-- What a step of a thread and a wakeup keep for every thread. -/
theorem Interfere.forall_worker {P : Fin n → Worker → Prop} {s s' : State n} (h : Interfere s s')
    (hmove : ∀ i w w' done, P i w → w.Move s.cmd s.cmdCount w' done → P i w')
    (hwake : ∀ i w, P i w → P i w.wake) (hs : ∀ i, P i (s.worker i)) : ∀ i, P i (s'.worker i) := by
  have hupdate : ∀ i w, P i w → ∀ j, P j (Function.update s.worker i w j) := by
    intro i w hw j
    rcases eq_or_ne j i with rfl | hne
    · rwa [Function.update_self]
    · rw [Function.update_of_ne hne]
      exact hs j
  rcases h with ⟨i, hstep⟩ | ⟨i, -⟩ | -
  · obtain ⟨w, done, hw, rfl⟩ := workerStep_cases hstep
    have hall := hupdate i w (hmove i _ w done (hs i) hw)
    cases done <;> exact hall
  · exact hupdate i _ (hwake i _ (hs i))
  · exact hs

/-! ## Threads between two commands -/

/-- What has happened up to some point between two commands. -/
structure Phase (n : ℕ) where
  threadEnv : Fin n → ThreadEnv
  calls : Fin n → List Call
  masterCalls : List Call
  issued : ℕ

/-- The number of threads that have a test. -/
def Phase.numAssigned (ph : Phase n) : ℕ := ∑ i, if (ph.threadEnv i).Assigned then 1 else 0

theorem Phase.numAssigned_of_all {ph : Phase n} (h : ∀ i, (ph.threadEnv i).Assigned) :
    ph.numAssigned = n := by
  rw [numAssigned, Finset.sum_congr rfl fun i _ ↦ if_pos (h i), Finset.sum_const, Finset.card_univ,
    Fintype.card_fin, smul_eq_mul, mul_one]

/-- What has happened after one more command. -/
def Phase.next (ph : Phase n) (c : ThreadCmd) (masterCall : Call) : Phase n where
  threadEnv := ph.threadEnv
  calls := fun i ↦ if (ph.threadEnv i).Assigned then ph.calls i ++ (ph.threadEnv i).callsOf c
    else ph.calls i
  masterCalls := ph.masterCalls ++ [masterCall]
  issued := ph.issued + 1

/-- No command is in progress. A thread that has not heard of the last one has no test. -/
structure Resting (ph : Phase n) (working : ℤ) (s : State n) : Prop where
  threadEnv : ∀ i, (s.worker i).threadEnv = ph.threadEnv i
  calls : ∀ i, (s.worker i).calls = ph.calls i
  rests : ∀ i, (s.worker i).Rests
  heard : ∀ i, (ph.threadEnv i).Assigned → (s.worker i).localCmdCount = s.cmdCount
  working : s.working = working
  blocked : s.blocked = false
  numThreads : s.numThreads = n
  masterCalls : s.masterCalls = ph.masterCalls
  issued : s.issued = ph.issued

/-- A resting thread only goes to sleep. -/
theorem Worker.Move.of_heard {c : ThreadCmd} {cmdCount : BitVec 32} {w w' : Worker} {done : Bool}
    (h : w.Move c cmdCount w' done) (hrests : w.Rests)
    (hheard : w.threadEnv.Assigned → w.localCmdCount = cmdCount) :
    w' = { w with pc := .waiting } ∧ done = false := by
  obtain ⟨rfl, ⟨rfl, -⟩ | ⟨-, hcount, ha⟩⟩ := h.of_rests hrests
  · exact ⟨rfl, rfl⟩
  · exact absurd (hheard ha) hcount

/-- While threads rest, nobody reports. -/
theorem Resting.frame {ph : Phase n} {working : ℤ} {s s' : State n} (h : Resting ph working s)
    (hstep : Interfere s s') : s'.working = s.working ∧ s'.blocked = false := by
  rcases hstep with ⟨i, hstep⟩ | ⟨i, -⟩ | -
  · obtain ⟨w, done, hmove, rfl⟩ := workerStep_cases hstep
    obtain ⟨-, rfl⟩ := hmove.of_heard (h.rests i) fun ha ↦ h.heard i (h.threadEnv i ▸ ha)
    exact ⟨rfl, h.blocked⟩
  · exact ⟨rfl, h.blocked⟩
  · exact ⟨rfl, rfl⟩

/-- Threads that rest go on resting. -/
theorem Resting.interfere {ph : Phase n} {working : ℤ} {s s' : State n} (h : Resting ph working s)
    (hstep : Interfere s s') : Resting ph working s' ∧
      ∀ i, (s'.worker i).localCmdCount = (s.worker i).localCmdCount := by
  have hworker : ∀ i, (s'.worker i).threadEnv = ph.threadEnv i ∧
      (s'.worker i).calls = ph.calls i ∧ (s'.worker i).Rests ∧
      (s'.worker i).localCmdCount = (s.worker i).localCmdCount := by
    refine hstep.forall_worker (P := fun i w ↦ w.threadEnv = ph.threadEnv i ∧
      w.calls = ph.calls i ∧ w.Rests ∧ w.localCmdCount = (s.worker i).localCmdCount)
      (fun i w w' done hw hmove ↦ ?_) (fun i w hw ↦ ?_)
      fun i ↦ ⟨h.threadEnv i, h.calls i, h.rests i, rfl⟩
    · obtain ⟨henv, hcalls, hrests, hcount⟩ := hw
      obtain ⟨rfl, -⟩ := hmove.of_heard hrests fun ha ↦ hcount.trans (h.heard i (henv ▸ ha))
      exact ⟨henv, hcalls, Or.inr rfl, hcount⟩
    · obtain ⟨henv, hcalls, hrests, hcount⟩ := hw
      exact ⟨w.wake_threadEnv.trans henv, w.wake_calls.trans hcalls, Or.inl hrests.wake_pc,
        w.wake_localCmdCount.trans hcount⟩
  have hmaster := hstep.sameMaster
  obtain ⟨hworking, hblocked⟩ := h.frame hstep
  refine ⟨⟨fun i ↦ (hworker i).1, fun i ↦ (hworker i).2.1, fun i ↦ (hworker i).2.2.1, fun i ha ↦ ?_,
    hworking.trans h.working, hblocked, hmaster.numThreads.trans h.numThreads,
    hmaster.masterCalls.trans h.masterCalls, hmaster.issued.trans h.issued⟩,
    fun i ↦ (hworker i).2.2.2⟩
  rw [(hworker i).2.2.2, hmaster.cmdCount]
  exact h.heard i ha

/-! ## Threads while a command is in progress -/

/-- Command `c` has been issued, with `working` threads to wait for. -/
structure Busy (ph : Phase n) (c : ThreadCmd) (working : ℤ) (s : State n) : Prop where
  threadEnv : ∀ i, (s.worker i).threadEnv = ph.threadEnv i
  serves : ∀ i, (s.worker i).Serves c s.cmdCount (ph.calls i)
  cmd : s.cmd = c
  /-- Every report has been counted. -/
  working : s.working + ∑ i, (s.worker i).reported s.cmdCount = working
  /-- The master sleeps only if there is something to wait for. -/
  awake : s.blocked = true → 0 < s.working
  numThreads : s.numThreads = n
  issued : s.issued = ph.issued + 1

/-- A report counts `working` down, and the last one wakes the master. -/
theorem Busy.counted {ph : Phase n} {c : ThreadCmd} (hc : c.IsCall) {working : ℤ}
    {s s' : State n} (h : Busy ph c working s) (hstep : Interfere s s') :
    s'.working + ∑ i, (s'.worker i).reported s'.cmdCount = working ∧
      (s'.blocked = true → 0 < s'.working) := by
  have hworking := h.working
  have hsum := fun i w ↦ sum_update (fun _ ↦ Worker.reported s.cmdCount) s.worker i w
  rcases hstep with ⟨i, hstep⟩ | ⟨i, -⟩ | -
  · obtain ⟨w, done, hmove, rfl⟩ := workerStep_cases hstep
    have hrep := ((h.serves i).move hc (h.cmd ▸ hmove)).2
    have hsum := hsum i w
    cases done with
    | false =>
      simp only [Bool.false_eq_true, if_false, add_zero] at hrep ⊢
      exact ⟨by omega, h.awake⟩
    | true =>
      simp only [if_true, State.workerDone] at hrep ⊢
      -- the report that brings `working` to zero wakes the master
      refine ⟨by omega, fun hb ↦ ?_⟩
      split_ifs at hb with hlast
      have := h.awake hb
      omega
  · have hsum := hsum i (s.worker i).wake
    have hrep := (h.serves i).wake.2
    simp only at hsum hrep ⊢
    exact ⟨by omega, h.awake⟩
  · exact ⟨hworking, fun hb ↦ absurd hb Bool.false_ne_true⟩

theorem Busy.interfere {ph : Phase n} {c : ThreadCmd} (hc : c.IsCall) {working : ℤ}
    {s s' : State n} (h : Busy ph c working s) (hstep : Interfere s s') :
    Busy ph c working s' := by
  have hworker : ∀ i, (s'.worker i).threadEnv = ph.threadEnv i ∧
      (s'.worker i).Serves c s.cmdCount (ph.calls i) := by
    refine hstep.forall_worker (P := fun i w ↦ w.threadEnv = ph.threadEnv i ∧
      w.Serves c s.cmdCount (ph.calls i)) (fun i w w' done hw hmove ↦ ?_) (fun i w hw ↦ ?_)
      fun i ↦ ⟨h.threadEnv i, h.serves i⟩
    · exact ⟨hmove.threadEnv_eq.trans hw.1, (hw.2.move hc (h.cmd ▸ hmove)).1⟩
    · exact ⟨w.wake_threadEnv.trans hw.1, hw.2.wake.1⟩
  have hmaster := hstep.sameMaster
  obtain ⟨hworking, hawake⟩ := h.counted hc hstep
  refine ⟨fun i ↦ (hworker i).1, fun i ↦ ?_, hmaster.cmd.trans h.cmd, hworking, hawake,
    hmaster.numThreads.trans h.numThreads, hmaster.issued.trans h.issued⟩
  rw [hmaster.cmdCount]
  exact (hworker i).2

/-- A thread that has not reported can move. -/
theorem Worker.Serves.awake {c : ThreadCmd} {cmdCount : BitVec 32} {before : List Call} {w : Worker}
    (h : w.Serves c cmdCount before) (ha : w.threadEnv.Assigned) (hrep : w.reported cmdCount = 0) :
    w.pc ≠ .waiting ∧ w.pc ≠ .exited ∧ w.pc ≠ .failed := by
  rw [Serves, if_pos ha] at h
  refine ⟨fun hpc ↦ ?_, fun hpc ↦ ?_, fun hpc ↦ ?_⟩
  · simp only [hpc] at h
    simp [reported, Rests, ha, hpc, h.1] at hrep
  · simp only [hpc] at h
  · simp only [hpc] at h

/-- **No deadlock.** While fewer threads have reported than have a test, some thread can move. -/
theorem Busy.exists_step {ph : Phase n} {c : ThreadCmd} {working : ℤ} {s : State n}
    (h : Busy ph c working s) (hlt : ∑ i, (s.worker i).reported s.cmdCount < ph.numAssigned) :
    ∃ i s', s.workerStep i = some s' := by
  obtain ⟨i, -, hi⟩ := Finset.exists_lt_of_sum_lt hlt
  have ha : (ph.threadEnv i).Assigned := by
    by_contra hna
    rw [if_neg hna] at hi
    exact absurd hi (Nat.not_lt_zero _)
  rw [if_pos ha, Nat.lt_one_iff] at hi
  exact ⟨i, exists_workerStep ((h.serves i).awake (h.threadEnv i ▸ ha) hi)⟩

/-- A thread reports at most once, and only if it has a test. -/
theorem Busy.sum_reported_le {ph : Phase n} {c : ThreadCmd} {working : ℤ} {s : State n}
    (h : Busy ph c working s) : ∑ i, (s.worker i).reported s.cmdCount ≤ ph.numAssigned := by
  refine Finset.sum_le_sum fun i _ ↦ ?_
  rw [Worker.reported, h.threadEnv i]
  split_ifs with hrep ha
  · exact le_refl 1
  · exact absurd hrep.1 ha
  · exact Nat.zero_le 1
  · exact le_refl 0

/-- Once every thread that has a test has reported, the threads rest. -/
theorem Busy.resting {ph : Phase n} {c : ThreadCmd} {working : ℤ} {s : State n}
    (h : Busy ph c working s) (hall : ∑ i, (s.worker i).reported s.cmdCount = ph.numAssigned)
    (hblocked : s.blocked = false) {masterCall : Call}
    (hmaster : s.masterCalls = ph.masterCalls ++ [masterCall]) :
    Resting (ph.next c masterCall) s.working s := by
  have hrep : ∀ i, (ph.threadEnv i).Assigned →
      (s.worker i).Rests ∧ (s.worker i).localCmdCount = s.cmdCount := by
    intro i ha
    by_contra hnot
    -- a report that is missing is missing in the sum
    have hlt : ∑ i, (s.worker i).reported s.cmdCount < ph.numAssigned := by
      refine Finset.sum_lt_sum (fun j _ ↦ ?_) ⟨i, Finset.mem_univ i, ?_⟩
      · rw [Worker.reported, h.threadEnv j]
        split_ifs with hj haj
        · exact le_refl 1
        · exact absurd hj.1 haj
        · exact Nat.zero_le 1
        · exact le_refl 0
      · rw [Worker.reported, if_neg fun hj ↦ hnot hj.2, if_pos ha]
        exact Nat.one_pos
    omega
  have hserves := h.serves
  refine ⟨h.threadEnv, fun i ↦ ?_, fun i ↦ ?_, fun i ha ↦ (hrep i ha).2, rfl, hblocked,
    h.numThreads, hmaster, h.issued⟩
  · by_cases ha : (ph.threadEnv i).Assigned
    · have hi := hserves i
      rw [Worker.Serves, h.threadEnv i, if_pos ha] at hi
      obtain ⟨hpc | hpc, hcount⟩ := hrep i ha
      · simpa [Phase.next, ha, hpc, hcount] using hi
      · simpa [Phase.next, ha, hpc, hcount] using hi
    · have hi := hserves i
      rw [Worker.Serves, h.threadEnv i, if_neg ha] at hi
      simpa [Phase.next, ha] using hi.2
  · by_cases ha : (ph.threadEnv i).Assigned
    · exact (hrep i ha).1
    · have hi := hserves i
      rw [Worker.Serves, h.threadEnv i, if_neg ha] at hi
      exact hi.1

/-- One more command is another number, even when the number wraps around. -/
theorem ne_add_one (c : BitVec 32) : c ≠ c + 1 :=
  fun heq ↦ absurd (BitVec.self_eq_add_right.mp heq) (by decide)

/-- Issuing a command wakes every thread, and no thread has heard of it. -/
theorem Resting.issue {ph : Phase n} {working : ℤ} {s : State n} (h : Resting ph working s)
    (c : ThreadCmd) (reset : Bool) (prog : List (Instr n)) :
    Busy ph c (if reset then n else working) { s with
      cmd := c
      cmdCount := s.cmdCount + 1
      working := if reset then s.numThreads else s.working
      worker := fun i ↦ (s.worker i).wake
      issued := s.issued + 1
      prog := prog } := by
  have hcount : ∀ i, (ph.threadEnv i).Assigned → (s.worker i).localCmdCount ≠ s.cmdCount + 1 := by
    intro i ha
    rw [h.heard i ha]
    exact ne_add_one s.cmdCount
  have hpc : ∀ i, (s.worker i).wake.pc = .check := fun i ↦ (h.rests i).wake_pc
  have henv : ∀ i, (s.worker i).wake.threadEnv = ph.threadEnv i := fun i ↦
    (Worker.wake_threadEnv _).trans (h.threadEnv i)
  have hcalls : ∀ i, (s.worker i).wake.calls = ph.calls i := fun i ↦
    (Worker.wake_calls _).trans (h.calls i)
  refine ⟨henv, fun i ↦ ?_, rfl, ?_, fun hb ↦ ?_, h.numThreads, ?_⟩
  · by_cases ha : (ph.threadEnv i).Assigned
    · rw [Worker.Serves, if_pos (by rwa [henv i])]
      simp only [hpc, Worker.wake_localCmdCount, if_neg (hcount i ha)]
      exact hcalls i
    · rw [Worker.Serves, if_neg (by rwa [henv i])]
      exact ⟨Or.inl (hpc i), hcalls i⟩
  · have hzero : ∀ i, (s.worker i).wake.reported (s.cmdCount + 1) = 0 := fun i ↦ by
      refine if_neg fun hrep ↦ ?_
      rw [Worker.wake_localCmdCount, henv i] at hrep
      exact hcount i hrep.1 hrep.2.2
    simp only [Finset.sum_congr rfl fun i _ ↦ hzero i, Finset.sum_const_zero, Nat.cast_zero,
      add_zero, h.numThreads, h.working]
  · rw [h.blocked] at hb
    cases hb
  · exact congrArg (· + 1) h.issued

end Threads

end MpiTestSuite
