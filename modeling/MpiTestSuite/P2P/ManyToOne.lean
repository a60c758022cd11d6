import MpiTestSuite.Runs.Progress
import MpiTestSuite.Schedule.World

/-!
# Many to one

In the test `"Many-to-one"` everybody with a rank other than zero sends one message to rank zero,
which receives as many messages with `MPI_ANY_SOURCE`. The test is scheduled without a barrier, and
what should keep a combination apart from the others is the tag, which is computed from the test,
the communicator and the datatype, but not from the number of values.

## The model

The processes of `MPI_COMM_WORLD` go through the iterations of `main` (`schedule`). What the other
tests send and receive is a parameter. Messages are matched by communicator and tag; a send does not
wait for the message to be received, which leaves it to the system how far one process gets ahead of
another.

## Senders and receivers

In every combination the peers of a root, all but the first, send to it (`AsksForOne.sends_iff`),
and that is how many messages it receives (`balanced_schedule`).
-/

open MpiTestSuite.Runs MpiTestSuite.Runs.Network

namespace MpiTestSuite

namespace P2P

variable {p : ℕ}

/-! ## The test -/

/-- `tst_hash_value`. -/
def tstHashValue (tagUb : ℤ) (env : Env) : ℤ :=
  (env.comm * 65521 + env.type * 32749 + env.test).tmod tagUb

/-- What a receiver learns about a message besides its communicator and tag. -/
structure Payload where
  source : ℕ
  /-- The number of values. -/
  count : ℤ

/-- Communications of the processes. Messages are matched by communicator and tag. -/
abbrev Comms (p : ℕ) := List (Instr (Fin p) (ℤ × ℤ) Payload)

variable (w : World p)

/-- What messages of this combination are matched by. -/
def key (env : Env) : ℤ × ℤ := (env.comm, tstHashValue w.base.tagUb env)

/-- Whether `tst_p2p_many_to_one_run` goes on after `MPI_Recv`, which must not find more values than
the buffer can hold. -/
def checkStatus (env : Env) (commSize : ℕ) (m : Message (ℤ × ℤ) Payload) : Bool :=
  !(env.valuesNum < m.payload.count
    || m.key.2 != tstHashValue w.base.tagUb env || m.payload.source ≤ 0
    || (commSize : ℤ) - 1 < m.payload.source
    || w.base.mode == .strict && m.payload.count != env.valuesNum)

/-- `tst_p2p_many_to_one_run`. -/
def tstP2pManyToOneRun (env : Env) (q : Fin p) : Comms p :=
  let commSize := w.commSize env.comm q
  let commRank := w.commRank env.comm q
  if commRank = 0 then
    List.replicate (commSize - 1) (.recv none (· == key w env) (checkStatus w env commSize))
  else
    (w.peers env.comm q).head?.toList.map fun root ↦
      .send root (key w env) ⟨commRank, env.valuesNum⟩

/-! ## The schedule -/

/-- The environment is one of the test `"Many-to-one"`. -/
def IsManyToOne (env : Env) : Prop := testName w.base.cfg env = some "tst_p2p_many_to_one"

instance : DecidablePred (IsManyToOne w) := fun _ ↦ inferInstanceAs (Decidable (_ = _))

variable (other : Fin p → Env → Comms p)

/-- The communications of the process `q` in an iteration it does not skip, where `other` are those
of the other tests. With threads compiled in, the second barrier is in an `else` that is not
reached. -/
def runIteration (q : Fin p) (env : Env) : Comms p :=
  let sync := tstTestCheckSync w.base.cfg env.test
  let run := if IsManyToOne w env then tstP2pManyToOneRun w env q else other q env
  (if sync then [.barrier] else []) ++ run
    ++ if !w.base.cfg.haveMpi2Threads && sync then [.barrier] else []

/-- The communications of each process in each of the iterations. -/
def schedule (envs : List Env) (q : Fin p) : List (Comms p) :=
  envs.map fun env ↦ if w.admits q env then runIteration w other q env else []

/-! ## Who takes part -/

/-- The process `r` sends to `q`. -/
def Sends (env : Env) (r q : Fin p) : Prop :=
  w.admits r env = true ∧ w.commRank env.comm r ≠ 0 ∧ (w.peers env.comm r).head? = some q

/-- The process `q` receives. -/
def Receives (env : Env) (q : Fin p) : Prop :=
  w.admits q env = true ∧ w.commRank env.comm q = 0

instance (env : Env) (r q : Fin p) : Decidable (Sends w env r q) :=
  inferInstanceAs (Decidable (_ ∧ _))

instance (env : Env) (q : Fin p) : Decidable (Receives w env q) :=
  inferInstanceAs (Decidable (_ ∧ _))

/-- The row of the test asks for one process and for no barrier. -/
theorem row_manyToOne (cfg : Config) {i : ℤ} {row : Test} (hrow : tstTest cfg i = some row)
    (hname : row.functions = some "tst_p2p_many_to_one") :
    row.minCommSize = 1 ∧ row.needsSync = false := by
  rcases tstTest_induction cfg
    (P := fun row ↦ decide (row.functions = some "tst_p2p_many_to_one" →
      row.minCommSize = 1 ∧ row.needsSync = false))
    (by simp only [List.forall_mem_cons]; exact ⟨rfl, rfl, rfl, rfl, rfl, rfl, nofun⟩) hrow
    with rfl | h
  · cases hname
  · exact of_decide_eq_true h hname

/-- The test of the environment asks for one process. -/
def AsksForOne (env : Env) : Prop :=
  ∃ row, tstTest w.base.cfg env.test = some row ∧ row.minCommSize = 1

section

variable {w} {env : Env} {q r : Fin p}

theorem IsManyToOne.asksForOne (henv : IsManyToOne w env) : AsksForOne w env := by
  obtain ⟨row, hrow, hname⟩ := Option.bind_eq_some_iff.mp henv
  exact ⟨row, hrow, (row_manyToOne w.base.cfg hrow hname).1⟩

/-- Apart from the number of processes, a process looks at nothing of its own. -/
theorem AsksForOne.admits_iff (henv : AsksForOne w env) : ∃ P : Prop, ∀ q, w.admits q env = true ↔
    P ∧ ¬tstCommGetcommsize w.base.comms (w.setting q).mpiCommSize env.comm < 1 := by
  obtain ⟨row, hrow, hmin⟩ := henv
  refine ⟨¬row.mode.toInt < w.base.mode.toInt
    ∧ tstCommGetcommclass w.base.comms env.comm &&& row.runWithComm ≠ 0
    ∧ tstTypeGettypeclass w.base.cfg env.type &&& row.runWithType ≠ 0, fun q ↦ ?_⟩
  have hiff : tstTestCheckRun (w.setting q) env.test env.comm env.type = true ↔ _ :=
    tstTestCheckRun_iff (w.setting q) hrow
  rwa [hmin] at hiff

/-- All members of a communicator agree on whether the test runs with it. -/
theorem AsksForOne.admits_of_mem (henv : AsksForOne w env) (h : w.admits q env = true)
    (hr : r ∈ w.group env.comm r) : w.admits r env = true := by
  obtain ⟨P, hP⟩ := henv.admits_iff
  obtain ⟨hcommon, hsize⟩ := (hP q).mp h
  rw [w.commsize_lt_one_iff, not_or, not_or] at hsize
  refine (hP r).mpr ⟨hcommon, ?_⟩
  rw [w.commsize_lt_one_iff, not_or, not_or]
  exact ⟨hsize.1, hsize.2.1, List.ne_nil_of_mem hr⟩

/-- **Senders.** The messages of a combination to one receiver come from all its peers but the
first. -/
theorem AsksForOne.sends_iff (henv : AsksForOne w env) :
    Sends w env r q ↔ Receives w env q ∧ r ∈ (w.peers env.comm q).tail := by
  constructor
  · rintro ⟨hr, hrank, hhead⟩
    have hq : q ∈ w.peers env.comm r := List.mem_of_head? hhead
    obtain ⟨hpeers, hgroup, hmem⟩ := w.of_mem_peers _ _ q hq
    have hself : q ∈ w.group env.comm q := hgroup ▸ hq
    refine ⟨⟨henv.admits_of_mem hr hself, World.commRank_eq_zero_of_head? (hgroup ▸ hhead)⟩, ?_⟩
    rw [hpeers]
    obtain ⟨x, l, hl⟩ := List.exists_cons_of_ne_nil (List.ne_nil_of_mem hmem)
    rw [hl] at hmem ⊢
    refine (List.mem_cons.mp hmem).resolve_left fun heq ↦ hrank ?_
    exact World.commRank_eq_zero_of_head? (by rw [hl, heq]; rfl)
  · rintro ⟨⟨hq, hrank⟩, hr⟩
    have hmem : r ∈ w.peers env.comm q := List.mem_of_mem_tail hr
    obtain ⟨hpeers, hgroup, hself⟩ := w.of_mem_peers _ _ r hmem
    have hrself : r ∈ w.group env.comm r := hgroup ▸ hmem
    refine ⟨henv.admits_of_mem hq hrself, fun hzero ↦ ?_, ?_⟩
    · -- the first peer does not occur among the others
      obtain ⟨l, hl⟩ := List.head?_eq_some_iff.mp (World.head?_of_commRank_eq_zero hrself hzero)
      have hnodup := w.nodup env.comm q
      rw [hgroup] at hl
      rw [hl] at hr hnodup
      exact (List.nodup_cons.mp hnodup).1 hr
    · rw [hpeers]
      exact World.head?_of_commRank_eq_zero hself hrank

/-- As many messages are sent to a process as it receives. -/
theorem AsksForOne.card_sends (henv : AsksForOne w env) (q : Fin p) :
    (Finset.univ.filter fun r ↦ Sends w env r q).card
      = if Receives w env q then w.commSize env.comm q - 1 else 0 := by
  split_ifs with hq
  · have hset : (Finset.univ.filter fun r ↦ Sends w env r q)
        = (w.peers env.comm q).tail.toFinset := by
      ext r
      simp [henv.sends_iff, hq]
    rw [hset, List.toFinset_card_of_nodup (w.nodup env.comm q).tail, List.length_tail,
      w.commSize_eq]
  · rw [Finset.card_eq_zero, Finset.filter_eq_empty_iff]
    exact fun r _ hr ↦ hq (henv.sends_iff.mp hr).1

/-! ## The messages of the schedule -/

theorem run_of_root (h : w.commRank env.comm q = 0) : tstP2pManyToOneRun w env q
    = List.replicate (w.commSize env.comm q - 1)
      (.recv none (· == key w env) (checkStatus w env (w.commSize env.comm q))) :=
  if_pos h

theorem run_of_sender (h : w.commRank env.comm q ≠ 0) : tstP2pManyToOneRun w env q
    = (w.peers env.comm q).head?.toList.map fun root ↦
      .send root (key w env) ⟨w.commRank env.comm q, env.valuesNum⟩ :=
  if_neg h

/-- A root only receives, and a sender only sends. -/
theorem mem_run {env : Env} {a : Instr (Fin p) (ℤ × ℤ) Payload}
    (h : a ∈ tstP2pManyToOneRun w env q) :
    (w.commRank env.comm q = 0 ∧
        a = .recv none (· == key w env) (checkStatus w env (w.commSize env.comm q))) ∨
      w.commRank env.comm q ≠ 0 ∧ ∃ root, (w.peers env.comm q).head? = some root ∧
        a = .send root (key w env) ⟨w.commRank env.comm q, env.valuesNum⟩ := by
  by_cases hrank : w.commRank env.comm q = 0
  · rw [run_of_root hrank] at h
    exact Or.inl ⟨hrank, List.eq_of_mem_replicate h⟩
  · rw [run_of_sender hrank] at h
    obtain ⟨root, hroot, rfl⟩ := List.mem_map.mp h
    exact Or.inr ⟨hrank, root, Option.mem_toList.mp hroot, rfl⟩

theorem countP_sendsTo_run (env : Env) (r q : Fin p) (k : ℤ × ℤ) :
    (tstP2pManyToOneRun w env r).countP (Instr.sendsTo q k)
      = if key w env = k ∧ w.commRank env.comm r ≠ 0 ∧ (w.peers env.comm r).head? = some q then 1
        else 0 := by
  by_cases hrank : w.commRank env.comm r = 0
  · rw [run_of_root hrank, if_neg fun h ↦ h.2.1 hrank, List.countP_replicate]
    rfl
  · rw [run_of_sender hrank]
    cases hhead : (w.peers env.comm r).head? with
    | none => simp
    | some root =>
      rw [Option.toList_some, List.map_cons, List.map_nil, List.countP_singleton]
      simp only [Instr.sendsTo, Bool.and_eq_true, decide_eq_true_eq, Option.some.injEq]
      exact if_congr (by tauto) rfl rfl

theorem countP_wantsKey_run (env : Env) (q : Fin p) (k : ℤ × ℤ) :
    (tstP2pManyToOneRun w env q).countP (Instr.wantsKey k)
      = if key w env = k ∧ w.commRank env.comm q = 0 then w.commSize env.comm q - 1 else 0 := by
  by_cases hrank : w.commRank env.comm q = 0
  · rw [run_of_root hrank, List.countP_replicate]
    simp only [Instr.wantsKey, beq_iff_eq, hrank, and_true]
    exact if_congr eq_comm rfl rfl
  · rw [run_of_sender hrank, if_neg fun h ↦ hrank h.2, List.countP_eq_zero]
    intro a ha
    obtain ⟨root, -, rfl⟩ := List.mem_map.mp ha
    exact Bool.false_ne_true

/-- What the messages of the combinations of this test are matched by. -/
def keys (w : World p) (envs : List Env) : List (ℤ × ℤ) :=
  (envs.filter fun env ↦ IsManyToOne w env ∧ ∃ q, w.admits q env = true).map (key w)

/-- An instruction that has nothing to do with messages of these keys, and does not give up. -/
def Elsewhere (K : List (ℤ × ℤ)) : Instr (Fin p) (ℤ × ℤ) Payload → Prop
  | .send _ k _ => k ∉ K
  | .recv _ wants accept => (∀ k ∈ K, wants k = false) ∧ ∀ m, accept m = true
  | .barrier => True

/-- No other test sends or receives messages that one of this test could be mistaken for. -/
def Undisturbed (w : World p) (other : Fin p → Env → Comms p) (envs : List Env) : Prop :=
  ∀ env ∈ envs, ¬IsManyToOne w env → ∀ q, w.admits q env = true →
    ∀ a ∈ other q env, Elsewhere (keys w envs) a

variable {other : Fin p → Env → Comms p} {envs : List Env} {i : ℕ}

theorem instrsAt_schedule (q : Fin p) (i : ℕ) :
    instrsAt (schedule w other envs) q i
      = (envs[i]?.map fun env ↦
          if w.admits q env then runIteration w other q env else []).getD [] := by
  rw [instrsAt, schedule, List.getElem?_map]

/-- What is done in an iteration. -/
theorem mem_instrsAt {a : Instr (Fin p) (ℤ × ℤ) Payload}
    (h : a ∈ instrsAt (schedule w other envs) q i) :
    ∃ env, envs[i]? = some env ∧ w.admits q env = true ∧
      (a = .barrier ∨
        a ∈ if IsManyToOne w env then tstP2pManyToOneRun w env q else other q env) := by
  have hsync : ∀ b : Bool, a ∈ (if b then [Instr.barrier] else []) → a = .barrier := by
    intro b hb
    cases b with
    | false => exact absurd hb List.not_mem_nil
    | true => exact List.mem_singleton.mp hb
  rw [instrsAt_schedule] at h
  cases hi : envs[i]? with
  | none => simp [hi] at h
  | some env =>
    rw [hi, Option.map_some, Option.getD_some] at h
    split_ifs at h with hadmits
    · refine ⟨env, rfl, hadmits, ?_⟩
      rw [runIteration] at h
      simp only [List.mem_append] at h
      rcases h with (h | h) | h
      · exact Or.inl (hsync _ h)
      · exact Or.inr h
      · exact Or.inl (hsync _ h)
    · cases h

theorem countP_instrsAt {P : Instr (Fin p) (ℤ × ℤ) Payload → Bool} (hP : P .barrier = false)
    {env : Env} (hi : envs[i]? = some env) (q : Fin p) :
    (instrsAt (schedule w other envs) q i).countP P
      = if w.admits q env then
          (if IsManyToOne w env then tstP2pManyToOneRun w env q else other q env).countP P
        else 0 := by
  have hsync : ∀ b : Bool, (if b then [Instr.barrier] else []).countP P = 0 := by
    intro b
    cases b <;> simp [hP]
  rw [instrsAt_schedule, hi, Option.map_some, Option.getD_some]
  split_ifs with hadmits hmany
  all_goals first
    | rfl
    | simp only [runIteration, List.countP_append, hsync, hmany, if_true, if_false, zero_add,
        add_zero]

theorem key_mem_keys {env : Env} (hi : envs[i]? = some env) (hmany : IsManyToOne w env)
    (h : w.admits q env = true) : key w env ∈ keys w envs :=
  List.mem_map_of_mem (List.mem_filter.mpr
    ⟨List.mem_of_getElem? hi, decide_eq_true ⟨hmany, q, h⟩⟩)

/-- The other tests have no part in these messages. -/
theorem elsewhere {env : Env} (hother : Undisturbed w other envs) (hi : envs[i]? = some env)
    (hmany : ¬IsManyToOne w env) (h : w.admits q env = true)
    {a : Instr (Fin p) (ℤ × ℤ) Payload} (ha : a ∈ other q env) : Elsewhere (keys w envs) a :=
  hother env (List.mem_of_getElem? hi) hmany q h a ha

/-- A receive is one of this test, or has no part in its messages. -/
theorem recv_mem_instrsAt (hother : Undisturbed w other envs) {source : Option (Fin p)}
    {wants : ℤ × ℤ → Bool} {accept : Message (ℤ × ℤ) Payload → Bool}
    (h : .recv source wants accept ∈ instrsAt (schedule w other envs) q i) :
    (∃ env, envs[i]? = some env ∧ IsManyToOne w env ∧ Receives w env q ∧ wants = (· == key w env)
        ∧ accept = checkStatus w env (w.commSize env.comm q)) ∨
      (∀ k ∈ keys w envs, wants k = false) ∧ ∀ m, accept m = true := by
  obtain ⟨env, hi, hadmits, hbarrier | hmem⟩ := mem_instrsAt h
  · cases hbarrier
  · split_ifs at hmem with hmany
    · rcases mem_run hmem with ⟨hrank, hrecv⟩ | ⟨-, root, -, hsend⟩
      · cases hrecv
        exact Or.inl ⟨env, hi, hmany, ⟨hadmits, hrank⟩, rfl, rfl⟩
      · cases hsend
    · exact Or.inr (elsewhere hother hi hmany hadmits hmem)

/-- A send is one of this test, or has no part in its messages. -/
theorem send_mem_instrsAt (hother : Undisturbed w other envs) {dest : Fin p} {k : ℤ × ℤ}
    {payload : Payload}
    (h : .send dest k payload ∈ instrsAt (schedule w other envs) q i) :
    (∃ env, envs[i]? = some env ∧ IsManyToOne w env ∧ Sends w env q dest ∧ k = key w env
        ∧ payload = ⟨w.commRank env.comm q, env.valuesNum⟩) ∨ k ∉ keys w envs := by
  obtain ⟨env, hi, hadmits, hbarrier | hmem⟩ := mem_instrsAt h
  · cases hbarrier
  · split_ifs at hmem with hmany
    · rcases mem_run hmem with ⟨-, hrecv⟩ | ⟨hrank, root, hroot, hsend⟩
      · cases hrecv
      · cases hsend
        exact Or.inl ⟨env, hi, hmany, ⟨hadmits, hrank, hroot⟩, rfl, rfl⟩
    · exact Or.inr (elsewhere hother hi hmany hadmits hmem)

theorem countP_elsewhere (hother : Undisturbed w other envs) {k : ℤ × ℤ} (hk : k ∈ keys w envs)
    {env : Env} (hi : envs[i]? = some env) (hmany : ¬IsManyToOne w env)
    (h : w.admits r env = true) (q : Fin p) :
    (other r env).countP (Instr.sendsTo q k) = 0 ∧ (other r env).countP (Instr.wantsKey k) = 0 := by
  have hnone : ∀ a ∈ other r env, ¬Instr.sendsTo q k a = true ∧ ¬Instr.wantsKey k a = true := by
    intro a ha
    have haway := elsewhere hother hi hmany h ha
    cases a with
    | send dest k' payload =>
      refine ⟨fun hsends ↦ ?_, Bool.false_ne_true⟩
      simp only [Instr.sendsTo, Bool.and_eq_true, decide_eq_true_eq] at hsends
      exact haway (hsends.2 ▸ hk)
    | recv source wants accept =>
      exact ⟨Bool.false_ne_true, fun hwants ↦ absurd (hwants.symm.trans (haway.1 k hk)) (by decide)⟩
    | barrier => exact ⟨Bool.false_ne_true, Bool.false_ne_true⟩
  exact ⟨List.countP_eq_zero.mpr fun a ha ↦ (hnone a ha).1,
    List.countP_eq_zero.mpr fun a ha ↦ (hnone a ha).2⟩

/-- In every combination, a process is sent as many messages as it receives. -/
theorem balanced_schedule (hother : Undisturbed w other envs) {k : ℤ × ℤ} (hk : k ∈ keys w envs)
    (q : Fin p) (i : ℕ) :
    ∑ r, (instrsAt (schedule w other envs) r i).countP (Instr.sendsTo q k)
      = (instrsAt (schedule w other envs) q i).countP (Instr.wantsKey k) := by
  cases hi : envs[i]? with
  | none => simp [instrsAt_schedule, hi]
  | some env =>
    rw [Finset.sum_congr rfl fun r _ ↦ countP_instrsAt (P := Instr.sendsTo q k) rfl hi r,
      countP_instrsAt rfl hi]
    by_cases hmany : IsManyToOne w env
    · simp only [hmany, if_true, countP_sendsTo_run, countP_wantsKey_run]
      -- a message of this combination has the key of the combination
      by_cases hkey : key w env = k
      · calc ∑ r, (if w.admits r env = true then
              if key w env = k ∧ w.commRank env.comm r ≠ 0 ∧
                (w.peers env.comm r).head? = some q then 1 else 0 else 0)
            = (Finset.univ.filter fun r ↦ Sends w env r q).card := by
              rw [Finset.card_filter]
              refine Finset.sum_congr rfl fun r _ ↦ ?_
              rw [← ite_and]
              exact if_congr (by simp only [hkey, true_and, Sends]) rfl rfl
          _ = if Receives w env q then w.commSize env.comm q - 1 else 0 :=
              hmany.asksForOne.card_sends q
          _ = _ := by
              rw [← ite_and]
              exact if_congr (by simp only [hkey, true_and, Receives]) rfl rfl
      · simp [hkey]
    · simp only [hmany, if_false]
      rw [Finset.sum_eq_zero]
      · symm
        split_ifs with hadmits
        · exact (countP_elsewhere hother hk hi hmany hadmits q).2
        · rfl
      · intro r _
        split_ifs with hadmits
        · exact (countP_elsewhere hother hk hi hmany hadmits q).1
        · rfl

/-- A message of the combination that the root is in passes all checks. -/
theorem checkStatus_of_sends {env : Env} (hmany : IsManyToOne w env) (h : Sends w env r q)
    {m : Message (ℤ × ℤ) Payload} (hkey : m.key = key w env)
    (hpayload : m.payload = ⟨w.commRank env.comm r, env.valuesNum⟩) :
    checkStatus w env (w.commSize env.comm q) m = true := by
  obtain ⟨⟨hq, hrank⟩, hmem⟩ := hmany.asksForOne.sends_iff.mp h
  obtain ⟨-, hgroup, -⟩ := w.of_mem_peers _ _ r (List.mem_of_mem_tail hmem)
  have hpos : w.commRank env.comm r ≠ 0 := h.2.1
  have hlt : w.commRank env.comm r < w.commSize env.comm q := by
    rw [World.commRank, w.commSize_eq, hgroup]
    exact List.idxOf_lt_length_of_mem (List.mem_of_mem_tail hmem)
  have htag : (key w env).2 = tstHashValue w.base.tagUb env := rfl
  simp only [checkStatus, hkey, hpayload, htag, Bool.not_eq_true', Bool.or_eq_false_iff,
    decide_eq_false_iff_not, bne_self_eq_false, Bool.and_false, and_true, lt_irrefl,
    not_false_eq_true, true_and]
  omega

theorem exchange_schedule (hother : Undisturbed w other envs) :
    Exchange (keys w envs) (schedule w other envs) where
  balanced k hk := balanced_schedule hother hk
  single q i source wants accept hrecv k hk hwants k' hwants' := by
    rcases recv_mem_instrsAt hother hrecv with ⟨env, -, -, -, rfl, -⟩ | ⟨hnone, -⟩
    · exact (eq_of_beq hwants').trans (eq_of_beq hwants).symm
    · exact absurd (hwants.symm.trans (hnone k hk)) (by decide)
  accepts q i source wants accept hrecv m hwants hm := by
    rcases recv_mem_instrsAt hother hrecv with ⟨env, hi, hmany, hq, rfl, rfl⟩ | ⟨-, haccept⟩
    · have hkey : m.key = key w env := eq_of_beq hwants
      have hmem : m.key ∈ keys w envs := hkey ▸ key_mem_keys hi hmany hq.1
      obtain ⟨-, r, hsend⟩ := hm hmem
      rcases send_mem_instrsAt hother hsend with ⟨env', hi', -, hr, -, hpayload⟩ | hnot
      · cases hi.symm.trans hi'
        exact checkStatus_of_sends hmany hr hkey hpayload
      · exact absurd hmem hnot
    · exact haccept m

end

end P2P

end MpiTestSuite
