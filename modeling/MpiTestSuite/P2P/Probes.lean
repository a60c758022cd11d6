import MpiTestSuite.P2P.ManyToOne
import MpiTestSuite.Runs.Cuts
import MpiTestSuite.Schedule.Barriers

/-!
# Probing for any message at all

In `"Many-to-one with MPI_Probe (MPI_ANY_SOURCE)"` and its twin with `MPI_Iprobe` rank zero probes
with `MPI_ANY_SOURCE` and `MPI_ANY_TAG`, and then receives just what it has found. Neither the tag
nor the test keeps its messages apart from those of other combinations with the same communicator;
whatever comes first is taken, and is an error if it is not of this combination.

What keeps them apart is that both tests are scheduled between two barriers. As every process comes
to the same barriers, this is enough, whatever the other tests do in front of them and behind, even
if processes give up there (`probes_apart`). With threads compiled in there is no barrier behind a
test.
-/

open MpiTestSuite.Runs MpiTestSuite.Runs.Network MpiTestSuite.CString Relation

namespace MpiTestSuite

namespace P2P

variable {p : ℕ}

/-! ## The tests -/

/-- All but the first of a group send to the first of their peers, which receives what it wants
from anybody, one message for each of its peers but itself. -/
def gather (w : World p) (env : Env) (wants : ℤ × ℤ → Bool)
    (accept : ℕ → Message (ℤ × ℤ) Payload → Bool) (q : Fin p) : Comms p :=
  let commSize := w.commSize env.comm q
  let commRank := w.commRank env.comm q
  if commRank = 0 then List.replicate (commSize - 1) (.recv none wants (accept commSize))
  else
    (w.peers env.comm q).head?.toList.map fun root ↦
      .send root (key w env) ⟨commRank, env.valuesNum⟩

/-- A test in which rank zero receives what it has probed. -/
structure ProbeTest where
  functions : String
  /-- The sources that are too low. -/
  tooLow : ℕ → Bool

/-- `tst_p2p_many_to_one_probe_anysource`. -/
def tstP2pManyToOneProbeAnysource : ProbeTest where
  functions := "tst_p2p_many_to_one_probe_anysource"
  tooLow source := source ≤ 0

/-- `tst_p2p_many_to_one_iprobe_anysource`. -/
def tstP2pManyToOneIprobeAnysource : ProbeTest where
  functions := "tst_p2p_many_to_one_iprobe_anysource"
  tooLow source := source = 0

def probeTests : List ProbeTest := [tstP2pManyToOneProbeAnysource, tstP2pManyToOneIprobeAnysource]

section

variable (w : World p) (env : Env)

/-- Whether the root goes on after it has probed a message and received it. The receive is for the
source and the tag that have been found, so that its status is not another one. -/
def ProbeTest.check (test : ProbeTest) (commSize : ℕ) (m : Message (ℤ × ℤ) Payload) : Bool :=
  !(test.tooLow m.payload.source || commSize ≤ m.payload.source
    || m.key.2 != tstHashValue w.base.tagUb env)
  && !(env.valuesNum < m.payload.count
    || w.base.mode == .strict && m.payload.count != env.valuesNum)

/-- The function `_run`. A probe finds any message with the communicator. -/
def ProbeTest.run (test : ProbeTest) (q : Fin p) : Comms p :=
  gather w env (·.1 == env.comm) (test.check w env) q

/-- The test of an environment, if it is one of these. -/
def probeTest? : Option ProbeTest :=
  (testName w.base.cfg env).bind fun name ↦ probeTests.find? (·.functions == name)

end

section

variable (w : World p) (other : Fin p → Env → Comms p)

/-- The communications of all tests but `"Many-to-one"`, where `other` are those of the others. -/
def withProbes (q : Fin p) (env : Env) : Comms p :=
  match probeTest? w env with
  | some test => test.run w env q
  | none => other q env

/-- What a process does in a combination, apart from barriers. -/
def communications (q : Fin p) (env : Env) : Comms p :=
  if IsManyToOne w env then tstP2pManyToOneRun w env q else withProbes w other q env

/-- What the other tests send in a combination they receive, and they call no barrier of
`MPI_COMM_WORLD`. -/
structure Contained (envs : List Env) : Prop where
  balanced : ∀ env ∈ envs, ¬IsManyToOne w env → probeTest? w env = none → ∀ q,
    ∑ r, (if w.admits r env then (other r env).countP (Instr.isSendTo q) else 0)
      = if w.admits q env then (other q env).countP Instr.isRecv else 0
  noBarrier : ∀ env ∈ envs, ¬IsManyToOne w env → probeTest? w env = none → ∀ q,
    w.admits q env = true → ∀ a ∈ other q env, a.isBarrier = false

end

/-! ## What is sent and received -/

section

variable {w : World p} {env : Env} {wants : ℤ × ℤ → Bool}
  {accept : ℕ → Message (ℤ × ℤ) Payload → Bool} {q r : Fin p}

theorem gather_of_root (h : w.commRank env.comm q = 0) : gather w env wants accept q
    = List.replicate (w.commSize env.comm q - 1)
      (.recv none wants (accept (w.commSize env.comm q))) :=
  if_pos h

theorem gather_of_sender (h : w.commRank env.comm q ≠ 0) : gather w env wants accept q
    = (w.peers env.comm q).head?.toList.map fun root ↦
      .send root (key w env) ⟨w.commRank env.comm q, env.valuesNum⟩ :=
  if_neg h

theorem mem_gather {a : Instr (Fin p) (ℤ × ℤ) Payload} (h : a ∈ gather w env wants accept q) :
    (w.commRank env.comm q = 0 ∧ a = .recv none wants (accept (w.commSize env.comm q))) ∨
      w.commRank env.comm q ≠ 0 ∧ ∃ root, (w.peers env.comm q).head? = some root ∧
        a = .send root (key w env) ⟨w.commRank env.comm q, env.valuesNum⟩ := by
  by_cases hrank : w.commRank env.comm q = 0
  · rw [gather_of_root hrank] at h
    exact .inl ⟨hrank, List.eq_of_mem_replicate h⟩
  · rw [gather_of_sender hrank] at h
    obtain ⟨root, hroot, rfl⟩ := List.mem_map.mp h
    exact .inr ⟨hrank, root, Option.mem_toList.mp hroot, rfl⟩

theorem countP_isSendTo_gather (q r : Fin p) :
    (gather w env wants accept r).countP (Instr.isSendTo q)
      = if w.commRank env.comm r ≠ 0 ∧ (w.peers env.comm r).head? = some q then 1 else 0 := by
  by_cases hrank : w.commRank env.comm r = 0
  · rw [gather_of_root hrank, if_neg fun h ↦ h.1 hrank, List.countP_replicate]
    rfl
  · rw [gather_of_sender hrank]
    cases hhead : (w.peers env.comm r).head? with
    | none => simp
    | some root => simp [Instr.isSendTo, hrank]

theorem countP_isRecv_gather (q : Fin p) :
    (gather w env wants accept q).countP Instr.isRecv
      = if w.commRank env.comm q = 0 then w.commSize env.comm q - 1 else 0 := by
  by_cases hrank : w.commRank env.comm q = 0
  · rw [gather_of_root hrank, if_pos hrank, List.countP_replicate]
    rfl
  · rw [gather_of_sender hrank, if_neg hrank, List.countP_eq_zero]
    intro a ha
    obtain ⟨root, -, rfl⟩ := List.mem_map.mp ha
    exact Bool.false_ne_true

/-- As many messages are sent to a process as it receives. -/
theorem balanced_gather (henv : AsksForOne w env) (q : Fin p) :
    ∑ r, (if w.admits r env then (gather w env wants accept r).countP (Instr.isSendTo q) else 0)
      = if w.admits q env then (gather w env wants accept q).countP Instr.isRecv else 0 := by
  simp only [countP_isSendTo_gather, countP_isRecv_gather]
  calc ∑ r, (if w.admits r env = true then
        if w.commRank env.comm r ≠ 0 ∧ (w.peers env.comm r).head? = some q then 1 else 0 else 0)
      = (Finset.univ.filter fun r ↦ Sends w env r q).card := by
        rw [Finset.card_filter]
        refine Finset.sum_congr rfl fun r _ ↦ ?_
        rw [← ite_and]
        exact if_congr Iff.rfl rfl rfl
    _ = if Receives w env q then w.commSize env.comm q - 1 else 0 := henv.card_sends q
    _ = _ := by
        rw [← ite_and]
        exact if_congr Iff.rfl rfl rfl

theorem noBarrier_gather {a : Instr (Fin p) (ℤ × ℤ) Payload}
    (h : a ∈ gather w env wants accept q) : a.isBarrier = false := by
  rcases mem_gather h with ⟨-, rfl⟩ | ⟨-, root, -, rfl⟩ <;> rfl

/-- The test `"Many-to-one"` differs in what its root wants and accepts. -/
theorem tstP2pManyToOneRun_eq (q : Fin p) : tstP2pManyToOneRun w env q
    = gather w env (· == key w env) (checkStatus w env) q :=
  rfl

end

/-! ## The schedule -/

section

variable {w : World p} {env : Env} {test : ProbeTest} {other : Fin p → Env → Comms p}
  {envs : List Env} {i : ℕ} {q r : Fin p}

/-- The rows of these tests ask for barriers. -/
theorem row_probe (cfg : Config) {k : ℤ} {row : Test} (hrow : tstTest cfg k = some row)
    (htest : test ∈ probeTests) (hname : row.functions = some test.functions) :
    row.needsSync = true := by
  have hnames : row.functions = some "tst_p2p_many_to_one_probe_anysource" ∨
      row.functions = some "tst_p2p_many_to_one_iprobe_anysource" := by
    simp only [probeTests, List.mem_cons, List.not_mem_nil, or_false] at htest
    rcases htest with rfl | rfl
    · exact .inl hname
    · exact .inr hname
  rcases tstTest_induction cfg
    (P := fun row ↦ decide (row.functions = some "tst_p2p_many_to_one_probe_anysource" ∨
      row.functions = some "tst_p2p_many_to_one_iprobe_anysource" → row.needsSync = true))
    (by simp only [List.forall_mem_cons]; exact ⟨rfl, rfl, rfl, rfl, rfl, rfl, nofun⟩) hrow
    with rfl | h
  · cases hname
  · exact of_decide_eq_true h hnames

theorem probe_row (h : probeTest? w env = some test) : test ∈ probeTests ∧
    ∃ row, tstTest w.base.cfg env.test = some row ∧ row.functions = some test.functions := by
  obtain ⟨name, hname, hfind⟩ := Option.bind_eq_some_iff.mp h
  obtain ⟨row, hrow, hfunctions⟩ := Option.bind_eq_some_iff.mp hname
  have heq : test.functions = name := by simpa using List.find?_some hfind
  exact ⟨List.mem_of_find?_eq_some hfind, row, hrow, heq ▸ hfunctions⟩

theorem checkSync_probe (h : probeTest? w env = some test) :
    tstTestCheckSync w.base.cfg env.test = true := by
  obtain ⟨htest, row, hrow, hname⟩ := probe_row h
  rw [tstTestCheckSync, hrow]
  exact row_probe w.base.cfg hrow htest hname

theorem asksForOne_probe (h : probeTest? w env = some test) : AsksForOne w env := by
  obtain ⟨htest, row, hrow, hname⟩ := probe_row h
  exact ⟨row, hrow, minCommSize_of_sync hrow (row_probe w.base.cfg hrow htest hname)⟩

theorem not_isManyToOne (h : probeTest? w env = some test) : ¬IsManyToOne w env := by
  intro hmany
  have hname : testName w.base.cfg env = some "tst_p2p_many_to_one" := hmany
  rw [probeTest?, hname] at h
  cases h

theorem communications_probe (other : Fin p → Env → Comms p) (h : probeTest? w env = some test)
    (q : Fin p) : communications w other q env = test.run w env q := by
  rw [communications, if_neg (not_isManyToOne h), withProbes, h]

/-- In every combination, a process is sent as many messages as it receives. -/
theorem balanced_communications (hother : Contained w other envs) (henv : env ∈ envs) (q : Fin p) :
    ∑ r, (if w.admits r env then (communications w other r env).countP (Instr.isSendTo q) else 0)
      = if w.admits q env then (communications w other q env).countP Instr.isRecv else 0 := by
  by_cases hmany : IsManyToOne w env
  · simp only [communications, if_pos hmany, tstP2pManyToOneRun_eq]
    exact balanced_gather hmany.asksForOne q
  · cases hprobe : probeTest? w env with
    | some test =>
      simp only [communications_probe other hprobe]
      exact balanced_gather (asksForOne_probe hprobe) q
    | none =>
      simp only [communications, if_neg hmany, withProbes, hprobe]
      exact hother.balanced env henv hmany hprobe q

theorem noBarrier_communications (hother : Contained w other envs) (henv : env ∈ envs)
    (hq : w.admits q env = true) : ∀ a ∈ communications w other q env, a.isBarrier = false := by
  intro a ha
  rw [communications] at ha
  split_ifs at ha with hmany
  · exact noBarrier_gather (tstP2pManyToOneRun_eq q ▸ ha)
  · rw [withProbes] at ha
    cases hprobe : probeTest? w env with
    | some test =>
      rw [hprobe] at ha
      exact noBarrier_gather ha
    | none =>
      rw [hprobe] at ha
      exact hother.noBarrier env henv hmany hprobe q hq a ha

/-- No communicator leaves out some of the processes only. -/
def Everywhere (w : World p) : Prop := ∀ c q r, w.group c q = [] ↔ w.group c r = []

/-- In every iteration everybody goes through equally many barriers. -/
theorem countP_isBarrier_schedule (hgroup : Everywhere w) (hother : Contained w other envs)
    (q r : Fin p) :
    (schedule w (withProbes w other) envs q).map (List.countP Instr.isBarrier)
      = (schedule w (withProbes w other) envs r).map (List.countP Instr.isBarrier) := by
  rw [schedule, schedule, List.map_map, List.map_map]
  refine List.map_congr_left fun env henv ↦ ?_
  have hruns : ∀ q, w.admits q env = true →
      (communications w other q env).countP Instr.isBarrier = 0 := fun q hq ↦
    List.countP_eq_zero.mpr fun a ha ↦ by simp [noBarrier_communications hother henv hq a ha]
  have hcount : ∀ q, w.admits q env = true →
      (runIteration w (withProbes w other) q env).countP Instr.isBarrier
        = if tstTestCheckSync w.base.cfg env.test then
            if w.base.cfg.haveMpi2Threads then 1 else 2
          else 0 := by
    intro q hq
    have hrun := hruns q hq
    rw [communications] at hrun
    simp only [runIteration, List.countP_append, hrun]
    cases tstTestCheckSync w.base.cfg env.test <;> cases w.base.cfg.haveMpi2Threads <;> rfl
  cases hsync : tstTestCheckSync w.base.cfg env.test with
  | true =>
    have hadmits : w.admits q env = w.admits r env :=
      w.checkRun_eq hsync (hgroup env.comm q r) env.type
    simp only [Function.comp_apply, ← hadmits]
    split_ifs with hq
    · rw [hcount q hq, hcount r (hadmits ▸ hq)]
    · rfl
  | false =>
    have hzero : ∀ q, (if w.admits q env then runIteration w (withProbes w other) q env
        else []).countP Instr.isBarrier = 0 := by
      intro q
      split_ifs with hq
      · rw [hcount q hq, hsync]
        rfl
      · rfl
    simp only [Function.comp_apply, hzero]

/-- The numbers of the iterations with one of these tests that are executed, and of those behind
them. -/
def probeCuts (w : World p) (envs : List Env) : Set ℕ :=
  {c | ∃ i env test, envs[i]? = some env ∧ probeTest? w env = some test ∧
    (∀ q, w.admits q env = true) ∧ (c = i ∨ c = i + 1)}

/-- The test is between two barriers. -/
theorem getElem?_schedule_probe (other : Fin p → Env → Comms p)
    (hthreads : w.base.cfg.haveMpi2Threads = false) (hi : envs[i]? = some env)
    (hprobe : probeTest? w env = some test) (hq : w.admits q env = true) :
    (schedule w (withProbes w other) envs q)[i]?
      = some (.barrier :: (test.run w env q ++ [.barrier])) := by
  have hrun := communications_probe other hprobe q
  rw [communications] at hrun
  rw [schedule, List.getElem?_map, hi, Option.map_some, if_pos hq, runIteration, hrun,
    checkSync_probe hprobe, hthreads]
  rfl

theorem countP_isBarrier_run (q : Fin p) : (test.run w env q).countP Instr.isBarrier = 0 :=
  List.countP_eq_zero.mpr fun a ha ↦ by simp [noBarrier_gather ha]

theorem fenced_schedule (hthreads : w.base.cfg.haveMpi2Threads = false) (hgroup : Everywhere w)
    (hother : Contained w other envs) :
    Fenced (schedule w (withProbes w other) envs) (probeCuts w envs) where
  balanced q i := by
    cases hi : envs[i]? with
    | none => simp [instrsAt_schedule, hi]
    | some env =>
      rw [Finset.sum_congr rfl fun r _ ↦ countP_instrsAt (P := Instr.isSendTo q) rfl hi r,
        countP_instrsAt (P := Instr.isRecv) rfl hi]
      exact balanced_communications hother (List.mem_of_getElem? hi) q
  cut c hc := by
    have hsame := countP_isBarrier_schedule hgroup hother
    obtain ⟨i, env, test, hi, hprobe, hadmits, hc⟩ := hc
    have hline := fun q ↦ getElem?_schedule_probe other hthreads hi hprobe (hadmits q)
    rcases hc with rfl | rfl
    · exact cut_of_line 0 hsame (fun q ↦ ⟨[], _, hline q, rfl, fun h ↦ absurd rfl h,
        fun _ ↦ le_rfl⟩) le_rfl (Nat.le_succ c)
    · refine cut_of_line 1 hsame (fun q ↦ ⟨.barrier :: test.run w env q, [], hline q, ?_,
        fun _ ↦ Nat.lt_succ_self i, fun h ↦ absurd rfl h⟩) (Nat.le_succ i) le_rfl
      rw [List.countP_cons_of_pos rfl, countP_isBarrier_run]

/-! ## Isolation -/

/-- A message of the combination that the root is in passes all checks. -/
theorem check_of_sends (hprobe : probeTest? w env = some test) (h : Sends w env r q)
    {m : Message (ℤ × ℤ) Payload} (hkey : m.key = key w env)
    (hpayload : m.payload = ⟨w.commRank env.comm r, env.valuesNum⟩) :
    test.check w env (w.commSize env.comm q) m = true := by
  obtain ⟨-, hmem⟩ := (asksForOne_probe hprobe).sends_iff.mp h
  obtain ⟨-, hgroup, -⟩ := w.of_mem_peers _ _ r (List.mem_of_mem_tail hmem)
  have hlt : w.commRank env.comm r < w.commSize env.comm q := by
    rw [World.commRank, w.commSize_eq, hgroup]
    exact List.idxOf_lt_length_of_mem (List.mem_of_mem_tail hmem)
  have hlow : test.tooLow (w.commRank env.comm r) = false := by
    have hpos : w.commRank env.comm r ≠ 0 := h.2.1
    have htest := (probe_row hprobe).1
    simp only [probeTests, List.mem_cons, List.not_mem_nil, or_false] at htest
    rcases htest with rfl | rfl
    · exact decide_eq_false fun hle ↦ hpos (Nat.le_zero.mp hle)
    · exact decide_eq_false hpos
  have htag : (key w env).2 = tstHashValue w.base.tagUb env := rfl
  simp [ProbeTest.check, hkey, hpayload, htag, hlow, hlt]

/-- Every combination of these tests is kept apart from all others, and there is no error in it. -/
structure Apart (w : World p) (envs : List Env) (s : State (Fin p) (ℤ × ℤ) Payload) : Prop where
  /-- Whatever is received in one was sent in it, and passes the checks. -/
  own : ∀ q, ∀ x ∈ s.log q, ∀ env ∈ envs[x.round]?, ∀ test ∈ probeTest? w env,
    x.message.round = x.round ∧ Sends w env x.source q ∧
      test.check w env (w.commSize env.comm q) x.message = true
  /-- Whatever was sent in one is received in no other. -/
  kept : ∀ q, ∀ x ∈ s.log q, ∀ env ∈ envs[x.message.round]?, (probeTest? w env).isSome →
    x.round = x.message.round
  /-- Who goes on, but not with a receive of one, has received one message of every sender in it. -/
  complete : ∀ i : ℕ, ∀ env ∈ envs[i]?, (probeTest? w env).isSome → ∀ r q, Sends w env r q →
    s.prog q ≠ [] → (∀ l ∈ s.prog q, l.1 = i → l.2.isRecv = false) →
    (s.log q).countP (fun x ↦ x.round = i ∧ x.source = r ∧ x.message.round = i) = 1

variable {s : State (Fin p) (ℤ × ℤ) Payload}

/-- What is sent or received in a combination of these tests is sent or received by all who have a
part in it. -/
theorem mem_run_of_mem_instrsAt_probe {a : Instr (Fin p) (ℤ × ℤ) Payload}
    (ha : a ∈ instrsAt (schedule w (withProbes w other) envs) q i) (hbarrier : a.isBarrier = false)
    (hi : envs[i]? = some env) (hprobe : probeTest? w env = some test) :
    w.admits q env = true ∧ a ∈ test.run w env q := by
  obtain ⟨env', hi', hadmits, rfl | hmem⟩ := mem_instrsAt ha
  · cases hbarrier
  · cases hi.symm.trans hi'
    exact ⟨hadmits, communications_probe other hprobe q ▸ hmem⟩

/-- **Probes.** Without threads, in every run of every schedule, each combination of the tests that
probe for any message is kept apart from all others, and every message that is found there passes
the checks. -/
theorem probes_apart (w : World p) (hthreads : w.base.cfg.haveMpi2Threads = false)
    (hgroup : Everywhere w) (other : Fin p → Env → Comms p) (envs : List Env)
    (hother : Contained w other envs)
    (h : ReflTransGen Next (State.init (schedule w (withProbes w other) envs)) s) :
    Apart w envs s := by
  have hfenced := fenced_schedule hthreads hgroup hother
  obtain ⟨done, ahead, hkept⟩ := Kept.run hfenced h
  -- who executes such a combination is not alone
  have hcuts : ∀ {i env test q}, envs[i]? = some env → probeTest? w env = some test →
      w.admits q env = true → i ∈ probeCuts w envs ∧ i + 1 ∈ probeCuts w envs := by
    intro i env test q hi hprobe hq
    have hall : ∀ r, w.admits r env = true := fun r ↦
      (w.checkRun_eq (checkSync_probe hprobe) (hgroup env.comm r q) env.type).trans hq
    exact ⟨⟨i, env, test, hi, hprobe, hall, .inl rfl⟩, ⟨i, env, test, hi, hprobe, hall, .inr rfl⟩⟩
  refine ⟨fun q x hx env hi test hprobe ↦ ?_, fun q x hx env hi hprobe ↦ ?_,
    fun i env hi hprobe r q hsends hgoes hnone ↦ ?_⟩
  · obtain ⟨hsend, source, wants, accept, hrecv, -⟩ := hkept.logged q x hx
    obtain ⟨hq, -⟩ := mem_run_of_mem_instrsAt_probe (hkept.mem_instrsAt hrecv) rfl hi hprobe
    have hround : x.message.round = x.round :=
      (hkept.round_eq_iff (hcuts hi hprobe hq).1 (hcuts hi hprobe hq).2 hx).mp rfl
    rw [hround] at hsend
    obtain ⟨hr, hrun⟩ := mem_run_of_mem_instrsAt_probe (hkept.mem_instrsAt hsend) rfl hi hprobe
    rcases mem_gather hrun with ⟨-, hrun⟩ | ⟨hrank, root, hroot, hrun⟩
    · cases hrun
    · obtain ⟨rfl, hkey, hpayload⟩ := Instr.send.inj hrun
      exact ⟨hround, ⟨hr, hrank, hroot⟩, check_of_sends hprobe ⟨hr, hrank, hroot⟩ hkey hpayload⟩
  · obtain ⟨test, hprobe⟩ := Option.isSome_iff_exists.mp hprobe
    obtain ⟨hsend, -⟩ := hkept.logged q x hx
    obtain ⟨hr, -⟩ := mem_run_of_mem_instrsAt_probe (hkept.mem_instrsAt hsend) rfl hi hprobe
    exact (hkept.round_eq_iff (hcuts hi hprobe hr).1 (hcuts hi hprobe hr).2 hx).mpr rfl
  · obtain ⟨test, hprobe⟩ := Option.isSome_iff_exists.mp hprobe
    obtain ⟨hi₁, hi₂⟩ := hcuts hi hprobe hsends.1
    have hahead : s.prog q = ahead q := (hkept.goesOn q).resolve_right hgoes
    have hcount := hkept.countP_log hfenced hi₁ hi₂ (hahead ▸ hnone) r
    rw [countP_instrsAt rfl hi, if_pos hsends.1] at hcount
    change _ = (communications w other r env).countP _ at hcount
    rw [communications_probe other hprobe, ProbeTest.run, countP_isSendTo_gather, if_pos hsends.2]
      at hcount
    rw [← hcount]
    refine List.countP_congr fun x hx ↦ ?_
    have hround := hkept.round_eq_iff hi₁ hi₂ hx
    simp only [decide_eq_true_eq, Bool.and_eq_true]
    tauto

end

/-! ## Three processes -/

/-- Three processes on one machine, without threads. -/
def threeWithoutThreads : World 3 :=
  registeredWorld ⟨3, true, true, true, true, false, true, true, true⟩ .strict 32767 fun _ ↦ 0

theorem everywhere_threeWithoutThreads : Everywhere threeWithoutThreads := fun _ _ _ ↦
  Division.group_eq_nil_iff.trans Division.group_eq_nil_iff.symm

/-- The iterations with `-t "Many-to-one with MPI_Probe (MPI_ANY_SOURCE)" -c MPI_COMM_WORLD
-d MPI_INT -n 2,1`. -/
def probeIterations : List Env := iterationsOf threeWithoutThreads.base
  ⟨lit "Many-to-one with MPI_Probe (MPI_ANY_SOURCE)", lit "MPI_COMM_WORLD", lit "MPI_INT",
    lit "2,1"⟩

/-- All leave the first barrier, the root receives the message of process 2 before that of process
1, all leave the second barrier, and two of them are in the third. -/
theorem probes_apart_three : ∃ s,
    (State.init (schedule threeWithoutThreads (withProbes threeWithoutThreads fun _ _ ↦ [])
        probeIterations)).moves (fun _ _ ↦ true)
      ([0, 1, 2, 0, 1, 2, 1, 2].map .advance ++ [.receive 0 2, .receive 0 1]
        ++ [0, 1, 2, 1, 2, 0, 1, 2].map .advance) = some s ∧
      Apart threeWithoutThreads probeIterations s := by
  have hsome : ((State.init (schedule threeWithoutThreads (withProbes threeWithoutThreads
        fun _ _ ↦ []) probeIterations)).moves (fun _ _ ↦ true)
      ([0, 1, 2, 0, 1, 2, 1, 2].map .advance ++ [.receive 0 2, .receive 0 1]
        ++ [0, 1, 2, 1, 2, 0, 1, 2].map .advance)).isSome = true := by decide +kernel
  obtain ⟨s, hs⟩ := Option.isSome_iff_exists.mp hsome
  refine ⟨s, hs, probes_apart threeWithoutThreads rfl everywhere_threeWithoutThreads (fun _ _ ↦ [])
    probeIterations ⟨fun _ _ _ _ _ ↦ ?_, fun _ _ _ _ _ _ _ ha ↦ absurd ha List.not_mem_nil⟩
    (reflTransGen_of_moves (fun s v s' _ hstep ↦ ⟨v, hstep⟩) hs)⟩
  simp only [List.countP_nil, ite_self, Finset.sum_const_zero]

end P2P

end MpiTestSuite
