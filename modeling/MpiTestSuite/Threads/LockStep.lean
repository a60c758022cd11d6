import MpiTestSuite.Threads.Master

/-!
# All threads in lock step

`main` gives every thread the same test and executes its three functions, one test after another.
Then the threads and the master go through the same list of calls in lock step (`lock_step`): nobody
begins a call before everybody has finished the one before, `working` is the number of threads that
have not reported yet, and at no time is everybody asleep.

That the three functions are there is a matter of the table. The row that ends it has none, but
`tst_test_check_run` admits no test with a class of communicators it cannot run with, and that row
can run with none.
-/

open MpiTestSuite.Runs Relation

namespace MpiTestSuite

namespace Threads

variable {n : ℕ}

/-! ## The functions of a test -/

/-- The last word of the name of a function. -/
def ThreadCmd.suffix : ThreadCmd → String
  | .init => "_init"
  | .run => "_run"
  | .cleanup => "_cleanup"
  | .null | .finalize => ""

/-- The calls a test consists of. -/
def testCalls (cfg : Config) (env : Env) : List Call :=
  (testName cfg env).elim [] fun name ↦
    [ThreadCmd.init, .run, .cleanup].map fun c ↦ ⟨name ++ c.suffix, env⟩

theorem func_assignment {cfg : Config} {env : Env} {name : String}
    (h : testName cfg env = some name) {c : ThreadCmd} (hc : c.IsCall) :
    (assignment cfg env).func c = some (name ++ c.suffix) := by
  have hfunc : ∀ suffix, testFunc cfg env suffix = some (name ++ suffix) := by
    intro suffix
    obtain ⟨row, hrow, hname⟩ := Option.bind_eq_some_iff.mp h
    rw [testFunc, hrow, Option.bind_some, hname, Option.map_some]
  rcases hc with rfl | rfl | rfl
  · exact hfunc "_init"
  · exact hfunc "_run"
  · exact hfunc "_cleanup"

theorem assigned_assignment {cfg : Config} {env : Env} {name : String}
    (h : testName cfg env = some name) : (assignment cfg env).Assigned := by
  have hne : ∀ c : ThreadCmd, c.IsCall → (assignment cfg env).func c ≠ none := fun c hc hnone ↦ by
    rw [func_assignment h hc] at hnone
    cases hnone
  exact ⟨hne .init (Or.inl rfl), hne .run (Or.inr (Or.inl rfl)), hne .cleanup (Or.inr (Or.inr rfl))⟩

theorem callsOf_assignment {cfg : Config} {env : Env} {name : String}
    (h : testName cfg env = some name) {c : ThreadCmd} (hc : c.IsCall) :
    (assignment cfg env).callsOf c = [⟨name ++ c.suffix, env⟩] := by
  rw [ThreadEnv.callsOf, func_assignment h hc]
  rfl

theorem testCalls_eq {cfg : Config} {env : Env} {name : String} (h : testName cfg env = some name) :
    testCalls cfg env
      = [⟨name ++ "_init", env⟩, ⟨name ++ "_run", env⟩, ⟨name ++ "_cleanup", env⟩] := by
  rw [testCalls, h]
  rfl

/-! ## Lock step -/

/-- The calls a party has begun; `none` is the master. -/
def State.callsOf (s : State n) : Option (Fin n) → List Call
  | none => s.masterCalls
  | some i => (s.worker i).calls

/-- The number of calls a party has finished, and reported in the case of a thread. -/
def State.finished (s : State n) : Option (Fin n) → ℕ
  | none =>
    match s.prog with
    | .ret :: _ => s.masterCalls.length - 1
    | _ => s.masterCalls.length
  | some i => (s.worker i).finished

/-- A command has been issued and the master has not passed the barrier. -/
def State.inCommand (s : State n) : Bool :=
  match s.prog with
  | .call _ _ :: _ | .ret :: _ | .barrier :: _ => true
  | _ => false

/-- What a state of a run in lock step satisfies, if every party is to make the calls `expected`. -/
structure LockStep (cfg : Config) (expected : List Call) (s : State n) : Prop where
  /-- Nobody leaves a call out, makes it twice or out of order. -/
  calls : ∀ p, s.callsOf p <+: expected
  /-- Nobody begins a call before everybody has finished the one before. -/
  together : ∀ p q, (s.callsOf p).length ≤ s.finished q + 1
  /-- The barrier returns only if everybody has finished the command. -/
  barrier : ∀ s', s.masterStep cfg = some s' → s.prog = .barrier :: s'.prog →
    ∀ p, s.finished p = s.issued
  /-- `working` is the number of threads that have not finished the command in progress. -/
  working : s.inCommand = true →
    s.working = (Finset.univ.filter fun i ↦ s.finished (some i) < s.issued).card
  nonneg : 0 ≤ s.working
  /-- The master does not sleep when everybody has finished. -/
  awake : s.blocked = true → ∃ i, s.finished (some i) < s.issued
  notStuck : ¬Stuck cfg s
  /-- When the master is done, everybody has made all calls. -/
  complete : s.prog = [] → ∀ p, s.callsOf p = expected

/-- A phase in which everybody has made the same calls. -/
def uniform (te : Fin n → ThreadEnv) (calls : List Call) : Phase n :=
  ⟨te, fun _ ↦ calls, calls, calls.length⟩

theorem Worker.Rests.finished_eq {w : Worker} (h : w.Rests) : w.finished = w.calls.length := by
  rcases h with h | h <;> simp [finished, h]

theorem inCommand_of_free {s : State n} {i : Instr n} {rest : List (Instr n)} (hfree : i.Free)
    (hprog : s.prog = i :: rest) : s.inCommand = false := by
  rw [State.inCommand, hprog]
  cases i with
  | call | ret | barrier => exact hfree.elim
  | _ => rfl

theorem finished_master_of_free {s : State n} {i : Instr n} {rest : List (Instr n)} (hfree : i.Free)
    (hprog : s.prog = i :: rest) : s.finished none = s.masterCalls.length := by
  rw [State.finished, hprog]
  cases i with
  | ret => exact hfree.elim
  | _ => rfl

/-- Between two commands. -/
theorem lockStep_of_resting {cfg : Config} {expected calls : List Call} {te : Fin n → ThreadEnv}
    {k : ℤ} {s : State n} (hcalls : calls <+: expected) (hk : 0 ≤ k)
    (h : Resting (uniform te calls) k s)
    (hprog : (∃ i rest, Instr.Free i ∧ s.prog = i :: rest) ∨ s.prog = [] ∧ calls = expected) :
    LockStep cfg expected s := by
  have hmaster : s.masterCalls = calls := h.masterCalls
  have hparty : ∀ p, s.callsOf p = calls := by
    rintro (_ | i)
    · exact hmaster
    · exact h.calls i
  have hfinished : ∀ p, s.finished p = calls.length := by
    rintro (_ | i)
    · rcases hprog with ⟨i, rest, hfree, hprog⟩ | ⟨hprog, -⟩
      · rw [finished_master_of_free hfree hprog, hmaster]
      · simp [State.finished, hprog, hmaster]
    · exact (h.rests i).finished_eq.trans (congrArg List.length (h.calls i))
  have hout : s.inCommand = false := by
    rcases hprog with ⟨i, rest, hfree, hprog⟩ | ⟨hprog, -⟩
    · exact inCommand_of_free hfree hprog
    · simp [State.inCommand, hprog]
  refine ⟨fun p ↦ (hparty p).symm ▸ hcalls, fun p q ↦ ?_, fun s' _ _ p ↦ ?_, fun hin ↦ ?_,
    h.working.symm ▸ hk, fun hb ↦ ?_, ?_, fun hnil p ↦ ?_⟩
  · rw [hparty, hfinished]
    exact Nat.le_succ _
  · rw [hfinished, h.issued]
    rfl
  · rw [hout] at hin
    cases hin
  · rw [h.blocked] at hb
    cases hb
  · rcases hprog with ⟨i, rest, hfree, hprog⟩ | ⟨hprog, -⟩
    · exact not_stuck_of_free hfree hprog
    · exact fun hstuck ↦ hstuck.1 hprog
  · rcases hprog with ⟨i, rest, -, hprog⟩ | ⟨-, hall⟩
    · rw [hprog] at hnil
      cases hnil
    · rw [hparty, hall]

/-- How far a thread is with a command. -/
theorem Worker.Serves.progress {c : ThreadCmd} {cmdCount : BitVec 32} {before : List Call}
    {w : Worker} (h : w.Serves c cmdCount before) (ha : w.threadEnv.Assigned) {call : Call}
    (hcall : w.threadEnv.callsOf c = [call]) :
    (w.calls = before ∨ w.calls = before ++ [call]) ∧
      before.length ≤ w.finished ∧ w.finished ≤ before.length + 1 ∧
      (if w.finished < before.length + 1 then 1 else 0) + w.reported cmdCount = 1 := by
  rw [Serves, if_pos ha, hcall] at h
  cases hpc : w.pc with
  | check =>
    simp only [hpc] at h
    split_ifs at h with hcount
    · simp [finished, reported, Rests, hpc, h, ha, hcount]
    · simp [finished, reported, Rests, hpc, h, hcount]
  | waiting | taken | calling | finishing =>
    simp only [hpc] at h
    simp [finished, reported, Rests, hpc, h, ha]
  | exited | failed => simp only [hpc] at h

/-- The master can move unless it sleeps in the barrier. -/
theorem exists_masterStep_of_inCommand (cfg : Config) {s : State n} (hin : s.inCommand = true)
    (hblocked : s.blocked = false) : ∃ s', s.masterStep cfg = some s' := by
  unfold State.masterStep
  unfold State.inCommand at hin
  split at hin
  · rename_i c env rest hprog
    simp only [hprog]
    split_ifs
    · exact ⟨_, rfl⟩
    · split <;> exact ⟨_, rfl⟩
  · rename_i rest hprog
    simp only [hprog]
    exact ⟨_, rfl⟩
  · rename_i rest hprog
    simp only [hprog, if_neg (Bool.eq_false_iff.mp hblocked)]
    split_ifs <;> exact ⟨_, rfl⟩
  · cases hin

/-- While a command is in progress for which `working` started with the number of threads that have
a test, somebody can move. -/
theorem Busy.not_stuck {cfg : Config} {ph : Phase n} {c : ThreadCmd} {s : State n}
    (h : Busy ph c ph.numAssigned s) (hin : s.inCommand = true) : ¬Stuck cfg s := by
  rintro ⟨-, hstuck⟩
  cases hblocked : s.blocked with
  | false =>
    obtain ⟨s', hs'⟩ := exists_masterStep_of_inCommand cfg hin hblocked
    exact hstuck s' (.master hs')
  | true =>
    -- the master waits for a thread, which is awake
    have hworking := h.working
    have hpos := h.awake hblocked
    obtain ⟨i, s', hs'⟩ := h.exists_step (by omega)
    exact hstuck s' (.worker i hs')

section

variable {calls masterCalls : List Call} {call : Call} {te : Fin n → ThreadEnv} {c : ThreadCmd}
  {s : State n}

theorem Busy.progress (h : Busy (uniform te calls) c (uniform te calls).numAssigned s)
    (ha : ∀ i, (te i).Assigned) (hcall : ∀ i, (te i).callsOf c = [call]) (i : Fin n) :
    ((s.worker i).calls = calls ∨ (s.worker i).calls = calls ++ [call]) ∧
      calls.length ≤ s.finished (some i) ∧ s.finished (some i) ≤ s.issued ∧
      (if s.finished (some i) < s.issued then 1 else 0) + (s.worker i).reported s.cmdCount = 1 := by
  have hissued : s.issued = calls.length + 1 := h.issued
  rw [hissued]
  exact (h.serves i).progress (by rw [h.threadEnv i]; exact ha i)
    (by rw [h.threadEnv i]; exact hcall i)

/-- `working` is the number of threads that have not finished. -/
theorem Busy.working_eq_card (h : Busy (uniform te calls) c (uniform te calls).numAssigned s)
    (ha : ∀ i, (te i).Assigned) (hcall : ∀ i, (te i).callsOf c = [call]) :
    s.working = (Finset.univ.filter fun i ↦ s.finished (some i) < s.issued).card := by
  have hcount : (Finset.univ.filter fun i ↦ s.finished (some i) < s.issued).card
      + ∑ i, (s.worker i).reported s.cmdCount = n := by
    rw [Finset.card_filter, ← Finset.sum_add_distrib,
      Finset.sum_congr rfl fun i _ ↦ (h.progress ha hcall i).2.2.2, Finset.sum_const,
      Finset.card_univ, Fintype.card_fin, smul_eq_mul, mul_one]
  have hworking := h.working
  rw [Phase.numAssigned_of_all ha] at hworking
  omega

/-- Where the master is while a command is in progress, and which calls it has made. -/
def AtCommand (c : ThreadCmd) (calls : List Call) (call : Call) (s : State n) : Prop :=
  (∃ env rest, s.prog = .call c env :: rest) ∧ s.masterCalls = calls ∨
    (∃ rest, s.prog = .ret :: rest) ∧ s.masterCalls = calls ++ [call] ∨
    (∃ rest, s.prog = .barrier :: rest) ∧ s.masterCalls = calls ++ [call]

theorem AtCommand.inCommand (h : AtCommand c calls call s) : s.inCommand = true := by
  rcases h with ⟨⟨env, rest, hprog⟩, -⟩ | ⟨⟨rest, hprog⟩, -⟩ | ⟨⟨rest, hprog⟩, -⟩ <;>
    rw [State.inCommand, hprog]

theorem AtCommand.progress (h : AtCommand c calls call s) :
    (s.masterCalls = calls ∨ s.masterCalls = calls ++ [call]) ∧
      calls.length ≤ s.finished none := by
  rcases h with ⟨⟨env, rest, hprog⟩, hcalls⟩ | ⟨⟨rest, hprog⟩, hcalls⟩ | ⟨⟨rest, hprog⟩, hcalls⟩
  · exact ⟨Or.inl hcalls, by simp [State.finished, hprog, hcalls]⟩
  · exact ⟨Or.inr hcalls, by simp [State.finished, hprog, hcalls]⟩
  · exact ⟨Or.inr hcalls, by simp [State.finished, hprog, hcalls]⟩

/-- The barrier returns only if everybody has finished. -/
theorem AtCommand.finished_of_barrier {cfg : Config} (h : AtCommand c calls call s)
    (hbusy : Busy (uniform te calls) c (uniform te calls).numAssigned s)
    (ha : ∀ i, (te i).Assigned) (hcall : ∀ i, (te i).callsOf c = [call]) {s' : State n}
    (hstep : s.masterStep cfg = some s') (hbarrier : s.prog = .barrier :: s'.prog)
    (p : Option (Fin n)) : s.finished p = s.issued := by
  rcases masterStep_barrier hbarrier hstep with ⟨-, ⟨hzero, -⟩ | ⟨-, rfl⟩⟩
  · have hset := hbusy.working_eq_card ha hcall
    have hempty : (Finset.univ.filter fun i ↦ s.finished (some i) < s.issued).card = 0 := by omega
    rw [Finset.card_eq_zero, Finset.filter_eq_empty_iff] at hempty
    rcases p with _ | i
    · have hissued : s.issued = calls.length + 1 := hbusy.issued
      rcases h with ⟨⟨env, rest, hprog⟩, -⟩ | ⟨⟨rest, hprog⟩, -⟩ | ⟨⟨rest, hprog⟩, hcalls⟩
      · rw [hprog] at hbarrier
        cases hbarrier
      · rw [hprog] at hbarrier
        cases hbarrier
      · simp [State.finished, hprog, hcalls, hissued]
    · have hge := hempty (Finset.mem_univ i)
      have hle := (hbusy.progress ha hcall i).2.2.1
      omega
  · -- going to sleep does not change the program
    exact absurd hbarrier.symm (List.cons_ne_self _ _)

/-- While a command is in progress. -/
theorem lockStep_of_serving {cfg : Config} {expected : List Call}
    (hcalls : calls ++ [call] <+: expected) (ha : ∀ i, (te i).Assigned)
    (hcall : ∀ i, (te i).callsOf c = [call])
    (h : Busy (uniform te calls) c (uniform te calls).numAssigned s)
    (hat : AtCommand c calls call s) : LockStep cfg expected s := by
  have hset := h.working_eq_card ha hcall
  -- everybody has made the calls, with or without the present one
  have hparty : ∀ p, s.callsOf p = calls ∨ s.callsOf p = calls ++ [call] := by
    rintro (_ | i)
    · exact hat.progress.1
    · exact (h.progress ha hcall i).1
  have hfinished : ∀ p, calls.length ≤ s.finished p := by
    rintro (_ | i)
    · exact hat.progress.2
    · exact (h.progress ha hcall i).2.1
  refine ⟨fun p ↦ ?_, fun p q ↦ ?_, fun s' hstep hbarrier ↦
    hat.finished_of_barrier h ha hcall hstep hbarrier, fun _ ↦ hset, by omega, fun hb ↦ ?_,
    h.not_stuck hat.inCommand, fun hnil ↦ ?_⟩
  · rcases hparty p with hp | hp <;> rw [hp]
    · exact (List.prefix_append calls [call]).trans hcalls
    · exact hcalls
  · have hq := hfinished q
    rcases hparty p with hp | hp <;> rw [hp]
    · omega
    · rw [List.length_append, List.length_singleton]
      omega
  · have hpos := h.awake hb
    rw [hset] at hpos
    obtain ⟨i, hi⟩ := Finset.card_pos.mp (by exact_mod_cast hpos)
    exact ⟨i, (Finset.mem_filter.mp hi).2⟩
  · have hin := hat.inCommand
    rw [State.inCommand, hnil] at hin
    cases hin

end

/-! ## The loop of `main` -/

/-- What `main` does with an admitted environment. -/
def dispatch (cfg : Config) (env : Env) : List (Instr n) :=
  tstThreadAssignAll cfg env ++ tstThreadExecuteInit env ++ tstThreadExecuteRun env
    ++ tstThreadExecuteCleanup env

/-- What `main` does with the admitted environments, one after another. -/
def mainLoop (cfg : Config) (envs : List Env) : List (Instr n) := envs.flatMap (dispatch cfg)

variable {cfg : Config} {expected calls : List Call} {env : Env} {name : String}

theorem next_uniform {te : Fin n → ThreadEnv} (ha : ∀ i, (te i).Assigned) {c : ThreadCmd}
    {call : Call} (hcall : ∀ i, (te i).callsOf c = [call]) :
    (uniform te calls).next c call = uniform te (calls ++ [call]) := by
  simp [Phase.next, uniform, ha, hcall]

/-- One command of a round. -/
theorem outline_command (hname : testName cfg env = some name) {c : ThreadCmd} (hc : c.IsCall)
    (reset : Bool) {k : ℤ} (hk : 0 ≤ k) (hw : (if reset then (n : ℤ) else k) = n)
    (hcalls : calls ++ [⟨name ++ c.suffix, env⟩] <+: expected) :
    MasterOutline (n := n) cfg (LockStep cfg expected)
      (Resting (uniform (fun _ ↦ assignment cfg env) calls) k) (execute c reset env)
      (Resting (uniform (fun _ ↦ assignment cfg env) (calls ++ [⟨name ++ c.suffix, env⟩])) 0) := by
  have ha : ∀ _ : Fin n, (assignment cfg env).Assigned := fun _ ↦ assigned_assignment hname
  have hcall : ∀ _ : Fin n, (assignment cfg env).callsOf c = [⟨name ++ c.suffix, env⟩] :=
    fun _ ↦ callsOf_assignment hname hc
  rw [← next_uniform ha hcall]
  refine outline_execute hc (func_assignment hname hc) ?_ ?_ ?_ ?_ ?_
  · rw [hw, Phase.numAssigned_of_all ha]
  · intro s rest hprog hs
    exact lockStep_of_resting ((List.prefix_append _ _).trans hcalls) hk hs
      (Or.inl ⟨.issue c reset, rest, trivial, hprog⟩)
  · intro s rest hprog hs
    exact lockStep_of_serving hcalls ha hcall hs.1 (Or.inl ⟨⟨env, rest, hprog⟩, hs.2⟩)
  · intro s rest hprog hs
    exact lockStep_of_serving hcalls ha hcall hs.1 (Or.inr (Or.inl ⟨⟨rest, hprog⟩, hs.2⟩))
  · intro s rest hprog hs
    exact lockStep_of_serving hcalls ha hcall hs.1 (Or.inr (Or.inr ⟨⟨rest, hprog⟩, hs.2⟩))

/-- What the threads hold after some rounds. -/
def held (n : ℕ) (cfg : Config) (done : List Env) : Fin n → ThreadEnv :=
  fun _ ↦ (done.getLast?.map (assignment cfg)).getD .zero

/-- One round. -/
theorem outline_dispatch (hname : testName cfg env = some name) (done : List Env)
    (hcalls : calls ++ testCalls cfg env <+: expected) :
    MasterOutline cfg (LockStep cfg expected) (Parked (uniform (held n cfg done) calls) 0)
      (dispatch cfg env)
      (Parked (uniform (held n cfg (done ++ [env])) (calls ++ testCalls cfg env)) 0) := by
  have hheld : held n cfg (done ++ [env]) = fun _ ↦ assignment cfg env := by
    funext i
    simp [held]
  have hsplit : calls ++ testCalls cfg env = calls ++ [⟨name ++ "_init", env⟩]
      ++ [⟨name ++ "_run", env⟩] ++ [⟨name ++ "_cleanup", env⟩] := by
    rw [testCalls_eq hname]
    simp
  have hstart : calls <+: expected := (List.prefix_append _ _).trans hcalls
  rw [hsplit] at hcalls ⊢
  have hrun := (List.prefix_append _ _).trans hcalls
  have hinit := (List.prefix_append _ _).trans hrun
  have hsetup : MasterOutline cfg (LockStep cfg expected) _ (tstThreadAssignAll cfg env) _ :=
    (setup_assignAll cfg (uniform (held n cfg done) calls) 0 env).outline (le_refl 0)
      fun te k s i rest hk hfree hprog hs ↦
        lockStep_of_resting hstart hk hs (Or.inl ⟨i, rest, hfree, hprog⟩)
  have hround := ((hsetup.append ((outline_command hname (Or.inl rfl) false
    (Int.natCast_nonneg n) rfl hinit).weaken fun s hs ↦ hs.toResting)).append
    (outline_command hname (Or.inr (Or.inl rfl)) true (le_refl 0) rfl hrun)).append
    (outline_command hname (Or.inr (Or.inr rfl)) true (le_refl 0) rfl hcalls)
  rw [hheld]
  have hend := hround.append (.nil fun s hs ↦
    (⟨hs, fun i ↦ hs.heard i (assigned_assignment hname)⟩ : Parked _ 0 s))
  rwa [List.append_nil] at hend

/-- The outline of the loop. -/
theorem outline_mainLoop (cfg : Config) (n : ℕ) (envs : List Env)
    (hname : ∀ env ∈ envs, ∃ name, testName cfg env = some name) :
    MasterOutline (n := n) cfg (LockStep cfg (envs.flatMap (testCalls cfg)))
      (Parked (uniform (held n cfg []) []) 0) (mainLoop cfg envs)
      (Parked (uniform (held n cfg envs) (envs.flatMap (testCalls cfg))) 0) := by
  refine Outline.flatMap
    (fun done ↦ Parked (uniform (held n cfg done) (done.flatMap (testCalls cfg))) 0)
    fun done env todo henvs ↦ ?_
  obtain ⟨name, hname⟩ := hname env (by rw [henvs]; simp)
  have hcalls : done.flatMap (testCalls cfg) ++ testCalls cfg env
      <+: envs.flatMap (testCalls cfg) :=
    ⟨todo.flatMap (testCalls cfg), by rw [henvs]; simp⟩
  have hround := outline_dispatch (n := n) hname done hcalls
  simpa using hround

theorem parked_init (cfg : Config) (n : ℕ) (p : List (Instr n)) :
    Parked (uniform (held n cfg []) []) 0 ((State.init n).start p) :=
  ⟨⟨fun _ ↦ rfl, fun _ ↦ rfl, fun _ ↦ Or.inl rfl, fun _ _ ↦ rfl, rfl, rfl, rfl, rfl, rfl⟩,
    fun _ ↦ rfl⟩

/-- Every state of the loop is in lock step, and at its end all threads are parked. -/
theorem mainLoop_holds (w : Setting) (n : ℕ) (envs : List Env)
    (hrun : ∀ env ∈ envs, tstTestCheckRun w env.test env.comm env.type = true) {t : State n}
    (h : Reachable w.cfg ((State.init n).start (mainLoop w.cfg envs)) t) :
    LockStep w.cfg (envs.flatMap (testCalls w.cfg)) t ∧ (t.prog = [] →
      Parked (uniform (held n w.cfg envs) (envs.flatMap (testCalls w.cfg))) 0 t) := by
  have houtline := outline_mainLoop w.cfg n envs fun env henv ↦ exists_testName w (hrun env henv)
  exact houtline.holds_of_reachable (fun s hnil hs ↦ lockStep_of_resting (List.prefix_refl _)
      (le_refl 0) hs.toResting (Or.inr ⟨hnil, rfl⟩))
    (fun s s' _ hs hstep ↦ hs.interfere hstep) rfl (parked_init w.cfg n _) h

/-- **Lock step.** Let any number of threads be given any list of admitted tests. In every
interleaving, with spurious wakeups at any time, the threads and the master make the calls of these
tests in lock step, and from every state that is reached the program goes on to the end. -/
theorem lock_step (w : Setting) (n : ℕ) (envs : List Env)
    (hrun : ∀ env ∈ envs, tstTestCheckRun w env.test env.comm env.type = true) {t : State n}
    (h : Reachable w.cfg ((State.init n).start (mainLoop w.cfg envs)) t) :
    LockStep w.cfg (envs.flatMap (testCalls w.cfg)) t ∧
      ∃ u, ReflTransGen (Step w.cfg) t u ∧ u.prog = [] ∧
        ∀ p, u.callsOf p = envs.flatMap (testCalls w.cfg) := by
  refine ⟨(mainLoop_holds w n envs hrun h).1, ?_⟩
  obtain ⟨u, htu, hu⟩ := exists_done_or_stuck w.cfg t
  have hlock := (mainLoop_holds w n envs hrun (h.trans (Step.reachable htu))).1
  have hdone := hu.resolve_right hlock.notStuck
  exact ⟨u, htu, hdone, hlock.complete hdone⟩

/-- Three threads and the test `"Ring"` on `MPI_COMM_WORLD` with two datatypes, at the start. -/
theorem lock_step_ring :
    let envs : List Env := [⟨4, 0, 6, 1000, 0⟩, ⟨4, 0, 7, 1000, 1⟩]
    LockStep fourProcesses.cfg (envs.flatMap (testCalls fourProcesses.cfg))
        ((State.init 3).start (mainLoop fourProcesses.cfg envs)) ∧
      ∃ u, ReflTransGen (Step fourProcesses.cfg)
          ((State.init 3).start (mainLoop fourProcesses.cfg envs)) u ∧ u.prog = [] ∧
        ∀ p, u.callsOf p = envs.flatMap (testCalls fourProcesses.cfg) :=
  lock_step fourProcesses 3 [⟨4, 0, 6, 1000, 0⟩, ⟨4, 0, 7, 1000, 1⟩] (by decide +kernel) .refl

end Threads

end MpiTestSuite
