import MpiTestSuite.Threads.LockStep

/-!
# Giving a test to some of the threads

`tst_thread_assign_one` counts `working` up by one, so that after a reset `working` is the number of
threads that have a test, and `tst_thread_execute_init` waits for just these. But
`tst_thread_execute_run` and `tst_thread_execute_cleanup` set `working` to the number of *all*
threads. Those without a test never look at the command, never report, and the master waits for
them. Hence the three calls work if and only if every thread has been given a test
(`partial_dispatch`).
-/

open MpiTestSuite.Runs Relation

namespace MpiTestSuite

namespace Threads

variable {n : ℕ}

/-! ## Giving tests to threads one by one -/

/-- The threads of a list have no test yet. -/
def Phase.Vacant (ph : Phase n) (is : List (Fin n)) : Prop :=
  ∀ i ∈ is, (ph.threadEnv i).tstInitFunc = none ∧ (ph.threadEnv i).tstRunFunc = none ∧
    (ph.threadEnv i).tstCleanupFunc = none

/-- What the threads hold after the tests of a list have been given out. -/
def givenOut (cfg : Config) (tests : List (Fin n × Env)) (te : Fin n → ThreadEnv) :
    Fin n → ThreadEnv :=
  fun i ↦ ((tests.lookup i).map (assignment cfg)).getD (te i)

theorem setup_assignOne (cfg : Config) {tests : List (Fin n × Env)}
    (hnodup : (tests.map Prod.fst).Nodup) (ph : Phase n) (k : ℤ)
    (hvacant : ph.Vacant (tests.map Prod.fst)) :
    Setup ph k (tests.flatMap fun p ↦ tstThreadAssignOne cfg p.2 p.1)
      { ph with threadEnv := givenOut cfg tests ph.threadEnv } (k + tests.length) := by
  induction tests generalizing ph k with
  | nil =>
    rw [List.length_nil, Nat.cast_zero, add_zero]
    exact .nil
  | cons p tests ih =>
    obtain ⟨j, env⟩ := p
    rw [List.map_cons, List.nodup_cons] at hnodup
    have hrest := ih hnodup.2 (ph.assign j (assignment cfg env)) (k + 1) fun i hi ↦ by
      have hne : i ≠ j := fun heq ↦ hnodup.1 (heq ▸ hi)
      rw [ph.assign_threadEnv_of_ne _ hne]
      exact hvacant i (List.mem_cons_of_mem j hi)
    have henv : givenOut cfg ((j, env) :: tests) ph.threadEnv
        = givenOut cfg tests (ph.assign j (assignment cfg env)).threadEnv := by
      funext i
      rcases eq_or_ne i j with rfl | hne
      · -- a thread occurs once
        have hnone : tests.lookup i = none := by
          rw [List.lookup_eq_none_iff]
          intro q hq
          rw [bne_iff_ne]
          exact fun heq ↦ hnodup.1 (List.mem_map.mpr ⟨q, hq, heq.symm⟩)
        simp [givenOut, hnone]
      · have hbeq : (i == j) = false := by simpa using hne
        simp [givenOut, List.lookup_cons, hbeq, ph.assign_threadEnv_of_ne _ hne]
    rw [List.length_cons, Nat.cast_add, Nat.cast_one, add_comm (tests.length : ℤ) 1, ← add_assoc,
      henv]
    exact .check (hvacant j List.mem_cons_self)
      (((setup_writes ph k j (assignment cfg env)).append (.inc .nil)).append hrest)

/-- A thread has a test if it is in the list. -/
theorem assigned_givenOut_iff {cfg : Config} {tests : List (Fin n × Env)}
    (hname : ∀ p ∈ tests, ∃ name, testName cfg p.2 = some name) (i : Fin n) :
    (givenOut cfg tests (fun _ ↦ .zero) i).Assigned ↔ i ∈ tests.map Prod.fst := by
  rw [givenOut]
  cases hlookup : tests.lookup i with
  | none =>
    refine iff_of_false (fun ha ↦ ha.1 rfl) fun hi ↦ ?_
    obtain ⟨p, hp, rfl⟩ := List.mem_map.mp hi
    have hne := List.lookup_eq_none_iff.mp hlookup p hp
    simp at hne
  | some env =>
    have hmem : (i, env) ∈ tests := by
      obtain ⟨l₁, l₂, rfl, -⟩ := List.lookup_eq_some_iff.mp hlookup
      simp
    obtain ⟨name, hname⟩ := hname (i, env) hmem
    exact iff_of_true (assigned_assignment hname) (List.mem_map_of_mem hmem)

/-- What a thread of the list holds. -/
theorem givenOut_of_mem {cfg : Config} {tests : List (Fin n × Env)}
    (hnodup : (tests.map Prod.fst).Nodup) {i : Fin n} {env : Env} (hmem : (i, env) ∈ tests)
    (te : Fin n → ThreadEnv) : givenOut cfg tests te i = assignment cfg env := by
  obtain ⟨l₁, l₂, rfl⟩ := List.append_of_mem hmem
  rw [List.map_append, List.nodup_append] at hnodup
  have hlookup : (l₁ ++ (i, env) :: l₂).lookup i = some env := by
    refine List.lookup_eq_some_iff.mpr ⟨l₁, l₂, rfl, fun p hp ↦ ?_⟩
    rw [bne_iff_ne]
    exact fun heq ↦ hnodup.2.2 p.1 (List.mem_map_of_mem hp) i (by simp) heq.symm
  rw [givenOut, hlookup]
  rfl

/-- The number of threads that have a test. -/
theorem numAssigned_givenOut {cfg : Config} {tests : List (Fin n × Env)}
    (hnodup : (tests.map Prod.fst).Nodup)
    (hname : ∀ p ∈ tests, ∃ name, testName cfg p.2 = some name) {ph : Phase n}
    (hph : ph.threadEnv = givenOut cfg tests fun _ ↦ .zero) : ph.numAssigned = tests.length := by
  have hmem : ∀ i, (ph.threadEnv i).Assigned ↔ i ∈ (tests.map Prod.fst).toFinset := fun i ↦ by
    rw [hph, assigned_givenOut_iff hname, List.mem_toFinset]
  rw [Phase.numAssigned, ← Finset.card_filter, Finset.filter_congr fun i _ ↦ hmem i,
    Finset.filter_mem_eq_inter, Finset.univ_inter, List.toFinset_card_of_nodup hnodup,
    List.length_map]

/-! ## The three commands -/

/-- The threads rest and have heard of the last command, as after `tst_thread_init` and after each
round of `main`. -/
structure State.Quiet (s : State n) : Prop where
  prog : s.prog = []
  blocked : s.blocked = false
  numThreads : s.numThreads = n
  working : 0 ≤ s.working
  rests : ∀ i, (s.worker i).Rests
  heard : ∀ i, (s.worker i).localCmdCount = s.cmdCount

theorem quiet_init (n : ℕ) : (State.init n).Quiet :=
  ⟨rfl, rfl, rfl, le_refl 0, fun _ ↦ Or.inl rfl, fun _ ↦ rfl⟩

/-- No thread has missed a command when `main` has gone through any number of rounds. -/
theorem quiet_of_mainLoop (w : Setting) {envs : List Env}
    (hrun : ∀ env ∈ envs, tstTestCheckRun w env.test env.comm env.type = true) {t : State n}
    (h : Reachable w.cfg ((State.init n).start (mainLoop w.cfg envs)) t) (hprog : t.prog = []) :
    t.Quiet := by
  have hparked := (mainLoop_holds w n envs hrun h).2 hprog
  exact ⟨hprog, hparked.blocked, hparked.numThreads, le_of_eq hparked.working.symm, hparked.rests,
    hparked.parked⟩

/-- Give tests to some threads and execute the three functions. -/
def partialDispatch (cfg : Config) (tests : List (Fin n × Env)) (env : Env) : List (Instr n) :=
  tstThreadAssignReset ++ (tests.flatMap fun p ↦ tstThreadAssignOne cfg p.2 p.1)
    ++ tstThreadExecuteInit env ++ tstThreadExecuteRun env ++ tstThreadExecuteCleanup env

/-- What a state of such a run, begun in the state `s`, is to satisfy. -/
structure InService (cfg : Config) (s : State n) (tests : List (Fin n × Env)) (t : State n) :
    Prop where
  notStuck : ¬Stuck cfg t
  /-- When the threads that have a test have finished the command, nobody is waited for. -/
  counted : t.inCommand = true →
    (∀ p ∈ tests, t.finished (some p.1) = (s.worker p.1).calls.length + (t.issued - s.issued)) →
      t.working = 0
  /-- A thread that has a test calls its functions once and in order. -/
  calls : ∀ p ∈ tests, (t.worker p.1).calls <+: (s.worker p.1).calls ++ testCalls cfg p.2
  complete : t.prog = [] →
    ∀ p ∈ tests, (t.worker p.1).calls = (s.worker p.1).calls ++ testCalls cfg p.2

/-- What has happened when the threads have executed some commands since the state `s`. -/
def stage (te : Fin n → ThreadEnv) (s : State n) (cs : List ThreadCmd) (masterCalls : List Call) :
    Phase n :=
  ⟨te, fun i ↦ (s.worker i).calls ++ cs.flatMap (te i).callsOf, masterCalls, s.issued + cs.length⟩

theorem next_stage {te : Fin n → ThreadEnv} (ha : ∀ i, (te i).Assigned) (s : State n)
    (cs : List ThreadCmd) (masterCalls : List Call) (c : ThreadCmd) (call : Call) :
    (stage te s cs masterCalls).next c call = stage te s (cs ++ [c]) (masterCalls ++ [call]) := by
  simp [Phase.next, stage, ha, add_assoc]

theorem parked_stage {s : State n} (h : s.Quiet) (p : List (Instr n)) :
    Parked (stage (fun i ↦ (s.worker i).threadEnv) s [] s.masterCalls) s.working (s.start p) :=
  ⟨⟨fun _ ↦ rfl, fun _ ↦ (List.append_nil _).symm, h.rests, fun i _ ↦ h.heard i, rfl, h.blocked,
    h.numThreads, rfl, rfl⟩, h.heard⟩

/-- Giving out the tests. -/
theorem setup_assignSome (cfg : Config) {tests : List (Fin n × Env)}
    (hnodup : (tests.map Prod.fst).Nodup) (te : Fin n → ThreadEnv) (s : State n)
    (masterCalls : List Call) (k : ℤ) :
    Setup (stage te s [] masterCalls) k
      (tstThreadAssignReset ++ tests.flatMap fun p ↦ tstThreadAssignOne cfg p.2 p.1)
      { stage te s [] masterCalls with threadEnv := givenOut cfg tests fun _ ↦ .zero }
      tests.length := by
  have hreset := setup_assignReset (stage te s [] masterCalls) k
  have hassign := setup_assignOne cfg hnodup
    { stage te s [] masterCalls with threadEnv := fun _ ↦ .zero } 0 fun _ _ ↦ ⟨rfl, rfl, rfl⟩
  rw [zero_add] at hassign
  exact hreset.append hassign

theorem testCalls_eq_flatMap {cfg : Config} {env : Env} {name : String}
    (h : testName cfg env = some name) :
    testCalls cfg env = [ThreadCmd.init, .run, .cleanup].flatMap (assignment cfg env).callsOf := by
  rw [testCalls_eq h, List.flatMap_cons, List.flatMap_cons, List.flatMap_cons,
    callsOf_assignment h (Or.inl rfl), callsOf_assignment h (Or.inr (Or.inl rfl)),
    callsOf_assignment h (Or.inr (Or.inr rfl))]
  rfl

/-! ### Tests for all threads -/

section

variable {cfg : Config} {s : State n} {tests : List (Fin n × Env)}

/-- Every thread has been given one of the tests. -/
structure AllGiven (cfg : Config) (tests : List (Fin n × Env)) (te : Fin n → ThreadEnv) : Prop where
  assigned : ∀ i, (te i).Assigned
  mem : ∀ i, i ∈ tests.map Prod.fst
  calls_eq : ∀ p ∈ tests,
    testCalls cfg p.2 = [ThreadCmd.init, .run, .cleanup].flatMap (te p.1).callsOf

theorem AllGiven.calls_prefix {te : Fin n → ThreadEnv} (h : AllGiven cfg tests te)
    {cs : List ThreadCmd} (hcs : cs <+: [ThreadCmd.init, .run, .cleanup]) {masterCalls : List Call}
    {p : Fin n × Env} (hp : p ∈ tests) :
    (stage te s cs masterCalls).calls p.1 <+: (s.worker p.1).calls ++ testCalls cfg p.2 := by
  obtain ⟨rest, hrest⟩ := hcs
  rw [h.calls_eq p hp, ← hrest, List.flatMap_append, ← List.append_assoc]
  exact List.prefix_append _ _

theorem inService_of_resting (te : Fin n → ThreadEnv) (cs : List ThreadCmd) {k : ℤ} {t : State n}
    {masterCalls : List Call}
    (hcalls : ∀ p ∈ tests, (stage te s cs masterCalls).calls p.1
      <+: (s.worker p.1).calls ++ testCalls cfg p.2)
    (h : Resting (stage te s cs masterCalls) k t) {i : Instr n} {rest : List (Instr n)}
    (hfree : i.Free) (hprog : t.prog = i :: rest) : InService cfg s tests t := by
  refine ⟨not_stuck_of_free hfree hprog, fun hin ↦ ?_, fun p hp ↦ ?_, fun hnil ↦ ?_⟩
  · rw [inCommand_of_free hfree hprog] at hin
    cases hin
  · rw [h.calls p.1]
    exact hcalls p hp
  · rw [hprog] at hnil
    cases hnil

theorem ThreadEnv.Assigned.callsOf_eq {te : ThreadEnv} (h : te.Assigned) {c : ThreadCmd}
    (hc : c.IsCall) : ∃ call, te.callsOf c = [call] := by
  obtain ⟨f, hf⟩ := h.exists_func hc
  exact ⟨⟨f, te.env⟩, by rw [callsOf, hf]; rfl⟩

theorem ThreadEnv.Assigned.length_calls {te : ThreadEnv} (h : te.Assigned) {cs : List ThreadCmd}
    (hcs : ∀ c ∈ cs, c.IsCall) : (cs.flatMap te.callsOf).length = cs.length := by
  induction cs with
  | nil => rfl
  | cons c cs ih =>
    obtain ⟨call, hcall⟩ := h.callsOf_eq (hcs c List.mem_cons_self)
    rw [List.flatMap_cons, hcall, List.length_append, ih fun d hd ↦
      hcs d (List.mem_cons_of_mem c hd), List.length_singleton, List.length_cons, Nat.add_comm]

/-- The commands of a test all ask for a function. -/
theorem isCall_of_prefix {cs : List ThreadCmd} (hcs : cs <+: [ThreadCmd.init, .run, .cleanup]) :
    ∀ c ∈ cs, c.IsCall := fun c hc ↦ by
  simpa [ThreadCmd.IsCall] using hcs.subset hc

theorem inService_of_busy {te : Fin n → ThreadEnv} (hte : AllGiven cfg tests te)
    {cs : List ThreadCmd} {c : ThreadCmd} (hcs : cs ++ [c] <+: [ThreadCmd.init, .run, .cleanup])
    {masterCalls : List Call} {t : State n}
    (h : Busy (stage te s cs masterCalls) c (stage te s cs masterCalls).numAssigned t)
    (hin : t.inCommand = true) : InService cfg s tests t := by
  have hcalls := isCall_of_prefix hcs
  have hc : c.IsCall := hcalls c (by simp)
  have ha : ∀ i, (t.worker i).threadEnv.Assigned := fun i ↦ by
    rw [h.threadEnv i]
    exact hte.assigned i
  have hissued : t.issued = s.issued + cs.length + 1 := h.issued
  have hlength : ∀ i, ((stage te s cs masterCalls).calls i).length
      = (s.worker i).calls.length + cs.length := fun i ↦ by
    rw [stage, List.length_append, (hte.assigned i).length_calls fun d hd ↦
      hcalls d (List.mem_append_left [c] hd)]
  refine ⟨h.not_stuck hin, fun _ hall ↦ ?_, fun p hp ↦ ?_, fun hnil ↦ ?_⟩
  · -- every thread has reported
    have hrep : ∀ i, (t.worker i).reported t.cmdCount = 1 := by
      intro i
      obtain ⟨call, hcall⟩ := (ha i).callsOf_eq hc
      obtain ⟨-, -, -, hprogress⟩ := (h.serves i).progress (ha i) hcall
      obtain ⟨p, hp, rfl⟩ := List.mem_map.mp (hte.mem i)
      have hfinished : (t.worker p.1).finished = _ := hall p hp
      have hi := hlength p.1
      rw [if_neg (by omega)] at hprogress
      omega
    have hworking := h.working
    rw [Phase.numAssigned_of_all hte.assigned, Finset.sum_congr rfl fun i _ ↦ hrep i,
      Finset.sum_const, Finset.card_univ, Fintype.card_fin, smul_eq_mul, mul_one] at hworking
    omega
  · obtain ⟨call, hcall⟩ := (ha p.1).callsOf_eq hc
    have hdone : (stage te s (cs ++ [c]) masterCalls).calls p.1
        <+: (s.worker p.1).calls ++ testCalls cfg p.2 := hte.calls_prefix hcs hp
    have hstage : (stage te s (cs ++ [c]) masterCalls).calls p.1
        = (stage te s cs masterCalls).calls p.1 ++ [call] := by
      rw [← hcall, h.threadEnv p.1]
      simp [stage]
    rw [hstage] at hdone
    rcases ((h.serves p.1).progress (ha p.1) hcall).1 with hp | hp <;> rw [hp]
    · exact (List.prefix_append _ _).trans hdone
    · exact hdone
  · rw [State.inCommand, hnil] at hin
    cases hin

/-- One of the three commands. -/
theorem outline_serve {te : Fin n → ThreadEnv} (hte : AllGiven cfg tests te) (cs : List ThreadCmd)
    {c : ThreadCmd} (hcs : cs ++ [c] <+: [ThreadCmd.init, .run, .cleanup]) {env : Env}
    {name : String} (hname : testName cfg env = some name) (reset : Bool) {k : ℤ}
    (hw : (if reset then (n : ℤ) else k) = n) (masterCalls : List Call) :
    MasterOutline cfg (InService cfg s tests) (Resting (stage te s cs masterCalls) k)
      (execute c reset env)
      (Resting (stage te s (cs ++ [c]) (masterCalls ++ [⟨name ++ c.suffix, env⟩])) 0) := by
  have hc : c.IsCall := isCall_of_prefix hcs c (by simp)
  have hnum : (stage te s cs masterCalls).numAssigned = n := Phase.numAssigned_of_all hte.assigned
  rw [← next_stage hte.assigned]
  refine outline_execute hc (func_assignment hname hc) (by rw [hw, hnum]) ?_ ?_ ?_ ?_
  · intro t rest hprog ht
    exact inService_of_resting te cs
      (fun p hp ↦ hte.calls_prefix ((List.prefix_append _ _).trans hcs) hp) ht
      (i := .issue c reset) trivial hprog
  · intro t rest hprog ht
    exact inService_of_busy hte hcs ht.1 (by rw [State.inCommand, hprog])
  · intro t rest hprog ht
    exact inService_of_busy hte hcs ht.1 (by rw [State.inCommand, hprog])
  · intro t rest hprog ht
    exact inService_of_busy hte hcs ht.1 (by rw [State.inCommand, hprog])

/-- After the three commands. -/
theorem inService_of_done {te : Fin n → ThreadEnv} (hte : AllGiven cfg tests te) {k : ℤ}
    {masterCalls : List Call} {t : State n}
    (h : Resting (stage te s [.init, .run, .cleanup] masterCalls) k t) (hprog : t.prog = []) :
    InService cfg s tests t := by
  have hcalls : ∀ p ∈ tests, (t.worker p.1).calls = (s.worker p.1).calls ++ testCalls cfg p.2 :=
    fun p hp ↦ (h.calls p.1).trans (by rw [hte.calls_eq p hp]; rfl)
  refine ⟨fun hstuck ↦ hstuck.1 hprog, fun hin ↦ ?_, fun p hp ↦ ?_, fun _ ↦ hcalls⟩
  · rw [State.inCommand, hprog] at hin
    cases hin
  · rw [hcalls p hp]

/-- If every thread has a test, the three commands are executed. -/
theorem inService_of_all {env : Env} (hs : s.Quiet) (hnodup : (tests.map Prod.fst).Nodup)
    (hname : ∀ p ∈ tests, ∃ name, testName cfg p.2 = some name) {name : String}
    (henv : testName cfg env = some name) (hall : ∀ i, i ∈ tests.map Prod.fst) {t : State n}
    (h : Reachable cfg (s.start (partialDispatch cfg tests env)) t) : InService cfg s tests t := by
  have hte : AllGiven cfg tests (givenOut cfg tests fun _ ↦ .zero) := by
    refine ⟨fun i ↦ (assigned_givenOut_iff hname i).mpr (hall i), hall, fun p hp ↦ ?_⟩
    obtain ⟨name, hname⟩ := hname p hp
    rw [givenOut_of_mem hnodup hp, testCalls_eq_flatMap hname]
  have hlength : (tests.length : ℤ) = n := by
    have hgiven : (stage (givenOut cfg tests fun _ ↦ .zero) s [] []).numAssigned = tests.length :=
      numAssigned_givenOut hnodup hname rfl
    rw [← hgiven, Phase.numAssigned_of_all hte.assigned]
  have hsetup : MasterOutline cfg (InService cfg s tests) _ _ _ :=
    (setup_assignSome cfg hnodup (fun i ↦ (s.worker i).threadEnv) s s.masterCalls s.working).outline
      hs.working fun te k t i rest _ hfree hprog ht ↦
        inService_of_resting te [] (fun p _ ↦ ⟨testCalls cfg p.2, by simp [stage]⟩) ht hfree hprog
  have houtline := ((hsetup.append ((outline_serve hte [] (c := .init) ⟨[.run, .cleanup], rfl⟩ henv
    false hlength s.masterCalls).weaken fun t ht ↦ ht.toResting)).append
    (outline_serve hte [.init] (c := .run) ⟨[.cleanup], rfl⟩ henv true rfl _)).append
    (outline_serve hte [.init, .run] (c := .cleanup) ⟨[], rfl⟩ henv true rfl _)
  exact (MasterOutline.holds_of_reachable houtline
    (fun t hprog ht ↦ inService_of_done hte ht hprog)
    (fun t t' _ ht hstep ↦ (ht.interfere hstep).1) rfl (parked_stage hs _) h).1

/-! ### A thread without a test -/

/-- If some thread has no test, the second command is never finished. -/
theorem exists_stuck_of_unassigned {env : Env} (hs : s.Quiet)
    (hnodup : (tests.map Prod.fst).Nodup)
    (hname : ∀ p ∈ tests, ∃ name, testName cfg p.2 = some name) {name : String}
    (henv : testName cfg env = some name) {i : Fin n} (hi : i ∉ tests.map Prod.fst) :
    ∃ t, Reachable cfg (s.start (partialDispatch cfg tests env)) t ∧ Stuck cfg t := by
  let ph : Phase n := stage (givenOut cfg tests fun _ ↦ .zero) s [] s.masterCalls
  have hnum : ph.numAssigned = tests.length := numAssigned_givenOut hnodup hname rfl
  have hlt : (tests.length : ℤ) < n := by
    have hcard := Finset.card_lt_univ_of_notMem (s := (tests.map Prod.fst).toFinset) (x := i)
      (by simpa using hi)
    rw [List.toFinset_card_of_nodup hnodup, List.length_map, Fintype.card_fin] at hcard
    exact_mod_cast hcard
  have hne : ∀ (t : State n) j rest, t.prog = j :: rest → t.prog ≠ [] := fun t j rest hprog ↦ by
    rw [hprog]
    exact List.cons_ne_nil j rest
  have hsetup : MasterOutline cfg (fun t : State n ↦ t.prog ≠ []) _ _ _ :=
    (setup_assignSome cfg hnodup (fun i ↦ (s.worker i).threadEnv) s s.masterCalls s.working).outline
      hs.working fun te k t i rest _ _ hprog _ ↦ hne t i rest hprog
  -- `working` counts the threads that have a test, so the first command is finished
  have hinit : MasterOutline cfg (fun t : State n ↦ t.prog ≠ []) (Resting ph tests.length)
      (execute .init false env) _ :=
    outline_execute (Or.inl rfl) (func_assignment henv (Or.inl rfl))
      (by rw [hnum]; rfl) (fun t rest hprog _ ↦ hne t _ rest hprog)
      (fun t rest hprog _ ↦ hne t _ rest hprog) (fun t rest hprog _ ↦ hne t _ rest hprog)
      (fun t rest hprog _ ↦ hne t _ rest hprog)
  -- the second one starts with the number of all threads
  have hrun : MasterOutline cfg (fun t : State n ↦ t.prog ≠ [])
      (Resting (ph.next .init ⟨name ++ ThreadCmd.init.suffix, env⟩) 0) (execute .run true env) _ :=
    outline_execute_never (Or.inr (Or.inl rfl)) (func_assignment henv (Or.inr (Or.inl rfl))) rfl
      (hnum ▸ hlt) fun t ht ↦ ht
  have houtline := ((hsetup.append (hinit.weaken fun t ht ↦ ht.toResting)).append hrun).append
    (Outline.of_false (C := fun _ ↦ False) (execute .cleanup true env))
  obtain ⟨t, hst, ht⟩ := exists_done_or_stuck cfg (s.start (partialDispatch cfg tests env))
  have hreach := Step.reachable hst
  refine ⟨t, hreach, ht.resolve_left ?_⟩
  exact (MasterOutline.holds_of_reachable houtline (fun t _ ht ↦ ht.elim) (fun t t' _ ht _ ↦ ht) rfl
    (parked_stage hs _) hreach).1

end

/-- **Partial assignment.** Begun when every thread rests, the three calls of the master work in
every interleaving if and only if every thread has been given a test. -/
theorem partial_dispatch (cfg : Config) {s : State n} (hs : s.Quiet) (tests : List (Fin n × Env))
    (hnodup : (tests.map Prod.fst).Nodup)
    (hname : ∀ p ∈ tests, ∃ name, testName cfg p.2 = some name) (env : Env)
    (henv : ∃ name, testName cfg env = some name) :
    (∀ t, Reachable cfg (s.start (partialDispatch cfg tests env)) t → InService cfg s tests t) ↔
      ∀ i, i ∈ tests.map Prod.fst := by
  obtain ⟨name, henv⟩ := henv
  refine ⟨fun h i ↦ ?_, fun hall t ht ↦ inService_of_all hs hnodup hname henv hall ht⟩
  by_contra hi
  obtain ⟨t, hreach, hstuck⟩ := exists_stuck_of_unassigned hs hnodup hname henv hi
  exact (h t hreach).notStuck hstuck

/-- Two threads, both of which are given the test `"Ring"`. -/
theorem partial_dispatch_both :
    (∀ t, Reachable fourProcesses.cfg ((State.init 2).start (partialDispatch fourProcesses.cfg
        [(0, ⟨4, 0, 6, 1000, 0⟩), (1, ⟨4, 0, 6, 1000, 0⟩)] ⟨4, 0, 6, 1000, 0⟩)) t →
      InService fourProcesses.cfg (State.init 2)
        [(0, ⟨4, 0, 6, 1000, 0⟩), (1, ⟨4, 0, 6, 1000, 0⟩)] t) ↔
      ∀ i : Fin 2, i ∈ [((0 : Fin 2), (⟨4, 0, 6, 1000, 0⟩ : Env)),
        (1, ⟨4, 0, 6, 1000, 0⟩)].map Prod.fst :=
  partial_dispatch fourProcesses.cfg (quiet_init 2)
    [(0, ⟨4, 0, 6, 1000, 0⟩), (1, ⟨4, 0, 6, 1000, 0⟩)] (by decide)
    (by
      have hname : testName fourProcesses.cfg ⟨4, 0, 6, 1000, 0⟩ = some "tst_p2p_simple_ring" := rfl
      simp [hname])
    ⟨4, 0, 6, 1000, 0⟩ ⟨"tst_p2p_simple_ring", rfl⟩

/-- One of two threads is given the test `"Ring"`: the master waits forever for the other one. -/
theorem partial_dispatch_gets_stuck :
    ¬∀ (cfg : Config) (n : ℕ) (s : State n) (tests : List (Fin n × Env)) (env : Env), s.Quiet →
      tests ≠ [] → (tests.map Prod.fst).Nodup →
      (∀ p ∈ tests, ∃ name, testName cfg p.2 = some name) →
      (∃ name, testName cfg env = some name) →
      ∀ t, Reachable cfg (s.start (partialDispatch cfg tests env)) t → InService cfg s tests t := by
  intro h
  have hname : testName fourProcesses.cfg ⟨4, 0, 6, 1000, 0⟩ = some "tst_p2p_simple_ring" := rfl
  have hnames : ∀ p ∈ [((0 : Fin 2), (⟨4, 0, 6, 1000, 0⟩ : Env))],
      ∃ name, testName fourProcesses.cfg p.2 = some name := by simp [hname]
  obtain ⟨t, hreach, hstuck⟩ := exists_stuck_of_unassigned (i := 1) (quiet_init 2) (by decide)
    hnames hname (by decide)
  exact (h fourProcesses.cfg 2 (State.init 2) [(0, ⟨4, 0, 6, 1000, 0⟩)] ⟨4, 0, 6, 1000, 0⟩
    (quiet_init 2) (List.cons_ne_nil _ _) (by decide) hnames ⟨_, hname⟩ t hreach).notStuck hstuck

end Threads

end MpiTestSuite
