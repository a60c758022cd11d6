import MpiTestSuite.P2P.ManyToOne

/-!
# Cross-talk between combinations

If nobody sends the message of a combination while another sender's message of an earlier one with
the same communicator and tag has not been received, all messages are received in the combination in
which they were sent (`many_to_one_isolated`), and in a schedule of this test alone they all are in
the end (`many_to_one_completes`). That nobody gets ahead in this way is so in every run if no two
combinations with one communicator have the same tag, or if there is only one sender
(`isolated_of_separated`). With two numbers of values and two senders, the faster one can be
received twice in the first combination (`many_to_one_overtakes`).
-/

open MpiTestSuite.Runs MpiTestSuite.Runs.Network MpiTestSuite.CString Relation

namespace MpiTestSuite

namespace P2P

section

variable {p : ℕ} {w : World p} {q : Fin p} {other : Fin p → Env → Comms p} {envs : List Env} {i : ℕ}

/-! ## Isolation -/

/-- Every combination of this test is kept apart from all others. -/
structure Isolated (w : World p) (envs : List Env) (s : State (Fin p) (ℤ × ℤ) Payload) : Prop where
  /-- Whatever is received in a combination of this test was sent in it. -/
  own : ∀ q, ∀ x ∈ s.log q, ∀ env ∈ envs[x.round]?, IsManyToOne w env → x.message.round = x.round
  /-- Whatever was sent in one is received in no other. -/
  kept : ∀ q, ∀ x ∈ s.log q, ∀ env ∈ envs[x.message.round]?, IsManyToOne w env →
    x.round = x.message.round
  /-- A process that has left one has received the message of every sender in it, and only once. -/
  complete : ∀ i : ℕ, ∀ env ∈ envs[i]?, IsManyToOne w env → ∀ r q, Sends w env r q →
    (∀ l ∈ s.prog q, i < l.1) →
    (s.log q).countP (fun x ↦ x.round = i ∧ x.source = r ∧ x.message.round = i) = 1

variable {s : State (Fin p) (ℤ × ℤ) Payload}

theorem key_of_log (h : Genuine (schedule w other envs) s)
    {x : Receipt (Fin p) (ℤ × ℤ) Payload} (hx : x ∈ s.log q) {env : Env}
    (hi : envs[x.round]? = some env) (hmany : IsManyToOne w env) :
    x.message.key = key w env ∧ x.message.key ∈ keys w envs := by
  obtain ⟨-, source, wants, accept, hrecv, hwants⟩ := h.logged q x hx
  obtain ⟨env', hi', hadmits, hbarrier | hmem⟩ := mem_instrsAt hrecv
  · cases hbarrier
  · cases hi.symm.trans hi'
    rw [if_pos hmany] at hmem
    rcases mem_run hmem with ⟨-, hrun⟩ | ⟨-, root, -, hrun⟩
    · cases hrun
      have hkey : x.message.key = key w env := eq_of_beq hwants
      exact ⟨hkey, hkey ▸ key_mem_keys hi hmany hadmits⟩
    · cases hrun

theorem key_mem_of_log (h : Genuine (schedule w other envs) s)
    {x : Receipt (Fin p) (ℤ × ℤ) Payload} (hx : x ∈ s.log q) {env : Env}
    (hi : envs[x.message.round]? = some env) (hmany : IsManyToOne w env) :
    x.message.key ∈ keys w envs := by
  obtain ⟨hsend, -⟩ := h.logged q x hx
  obtain ⟨env', hi', hadmits, hbarrier | hmem⟩ := mem_instrsAt hsend
  · cases hbarrier
  · cases hi.symm.trans hi'
    rw [if_pos hmany] at hmem
    rcases mem_run hmem with ⟨-, hrun⟩ | ⟨-, root, -, hrun⟩
    · cases hrun
    · rw [(Instr.send.inj hrun).2.1]
      exact key_mem_keys hi hmany hadmits

theorem isolated_of_timely (hother : Undisturbed w other envs)
    (h : ReflTransGen (TimelyNext (keys w envs)) (State.init (schedule w other envs)) s) :
    Isolated w envs s := by
  have horderly := (orderly_init (exchange_schedule hother)).run (exchange_schedule hother) h
  have hgenuine := horderly.toGenuine
  refine ⟨fun q x hx env hi hmany ↦ ?_, fun q x hx env hi hmany ↦ ?_,
    fun i env hi hmany r q hsends hdone ↦ ?_⟩
  · exact horderly.own q x hx (key_of_log hgenuine hx hi hmany).2
  · exact (horderly.own q x hx (key_mem_of_log hgenuine hx hi hmany)).symm
  · have hcount := horderly.received_of_done (key_mem_keys hi hmany hsends.1) hdone r
    rw [countP_instrsAt rfl hi, if_pos hsends.1, if_pos hmany, countP_sendsTo_run,
      if_pos ⟨rfl, hsends.2⟩] at hcount
    rw [← hcount]
    refine List.countP_congr fun x hx ↦ ?_
    simp only [decide_eq_true_eq]
    constructor
    · rintro ⟨hround, hsource, hmessage⟩
      exact ⟨hround, hsource, (key_of_log hgenuine hx (hround ▸ hi) hmany).1, hmessage⟩
    · rintro ⟨hround, hsource, -, hmessage⟩
      exact ⟨hround, hsource, hmessage⟩

/-- **Isolation.** In any schedule, if nobody sends the message of a combination of this test while
another sender's message of an earlier one, to the same process and with the same communicator and
tag, has not been received, then all messages are received in the combination they were sent in. -/
theorem many_to_one_isolated (w : World p) (other : Fin p → Env → Comms p) (envs : List Env)
    (hother : Undisturbed w other envs) {s : State (Fin p) (ℤ × ℤ) Payload}
    (h : ReflTransGen (TimelyNext (keys w envs)) (State.init (schedule w other envs)) s) :
    Isolated w envs s :=
  isolated_of_timely hother h

/-- The test is not synchronized. -/
theorem not_checkSync {env : Env} (hmany : IsManyToOne w env) :
    tstTestCheckSync w.base.cfg env.test = false := by
  obtain ⟨row, hrow, hname⟩ := Option.bind_eq_some_iff.mp hmany
  rw [tstTestCheckSync, hrow]
  exact (row_manyToOne w.base.cfg hrow hname).2

theorem mem_run_of_mem_instrsAt (hall : ∀ env ∈ envs, IsManyToOne w env)
    {a : Instr (Fin p) (ℤ × ℤ) Payload} (h : a ∈ instrsAt (schedule w other envs) q i) :
    ∃ env, envs[i]? = some env ∧ w.admits q env = true ∧ a ∈ tstP2pManyToOneRun w env q := by
  rw [instrsAt_schedule] at h
  cases hi : envs[i]? with
  | none => simp [hi] at h
  | some env =>
    have hmany := hall env (List.mem_of_getElem? hi)
    rw [hi, Option.map_some, Option.getD_some] at h
    split_ifs at h with hadmits
    · simp only [runIteration, not_checkSync hmany, hmany, if_true, Bool.and_false,
        Bool.false_eq_true, if_false, List.nil_append, List.append_nil] at h
      exact ⟨env, rfl, hadmits, h⟩
    · cases h

/-- In a schedule of this test alone, everybody sends or receives. -/
theorem halves_schedule (hall : ∀ env ∈ envs, IsManyToOne w env) :
    Halves (keys w envs) (schedule w other envs) where
  sends r i dest k payload h := by
    obtain ⟨env, hi, hadmits, hrun⟩ := mem_run_of_mem_instrsAt hall h
    rcases mem_run hrun with ⟨-, hrun⟩ | ⟨-, root, -, hrun⟩
    · cases hrun
    · rw [(Instr.send.inj hrun).2.1]
      exact key_mem_keys hi (hall env (List.mem_of_getElem? hi)) hadmits
  receives q i source wants accept h := by
    obtain ⟨env, hi, hadmits, hrun⟩ := mem_run_of_mem_instrsAt hall h
    rcases mem_run hrun with ⟨-, hrun⟩ | ⟨-, root, -, hrun⟩
    · cases hrun
      exact ⟨rfl, _, key_mem_keys hi (hall env (List.mem_of_getElem? hi)) hadmits, BEq.rfl⟩
    · cases hrun
  apart q i source wants accept dest k payload hrecv hsend := by
    -- one process has one rank
    obtain ⟨env, hi, -, hrun⟩ := mem_run_of_mem_instrsAt hall hrecv
    obtain ⟨env', hi', -, hrun'⟩ := mem_run_of_mem_instrsAt hall hsend
    cases hi.symm.trans hi'
    rcases mem_run hrun with ⟨hzero, -⟩ | ⟨-, root, -, hrun⟩
    · rcases mem_run hrun' with ⟨-, hrun'⟩ | ⟨hnonzero, -⟩
      · cases hrun'
      · exact hnonzero hzero
    · cases hrun
  noBarrier q i h := by
    obtain ⟨env, -, -, hrun⟩ := mem_run_of_mem_instrsAt hall h
    rcases mem_run hrun with ⟨-, hrun⟩ | ⟨-, root, -, hrun⟩ <;> cases hrun

/-- **Completion.** In a schedule of this test alone, from every state that timely steps lead to
they go on to the end, where every message has been received in the combination it was sent in. -/
theorem many_to_one_completes (hall : ∀ env ∈ envs, IsManyToOne w env)
    (h : ReflTransGen (TimelyNext (keys w envs)) (State.init (schedule w other envs)) s) :
    ∃ t, ReflTransGen (TimelyNext (keys w envs)) s t ∧ (∀ q, t.prog q = []) ∧
      ∀ i : ℕ, ∀ env ∈ envs[i]?, ∀ r q, Sends w env r q →
        (t.log q).countP (fun x ↦ x.round = i ∧ x.source = r ∧ x.message.round = i) = 1 := by
  have hother : Undisturbed w other envs := fun env henv hnot ↦ absurd (hall env henv) hnot
  have hexchange := exchange_schedule hother
  obtain ⟨t, hrun, -, hdone⟩ := exists_finished hexchange (halves_schedule hall)
    ((orderly_init hexchange).run hexchange h)
  refine ⟨t, hrun, hdone, fun i env hi r q hsends ↦ ?_⟩
  have hisolated := isolated_of_timely hother (h.trans hrun)
  refine hisolated.complete i env hi (hall env (List.mem_of_getElem? hi)) r q hsends fun l hl ↦ ?_
  rw [hdone] at hl
  cases hl

/-- **Separation.** If no two processes send to the same one in two combinations of this test with
the same communicator and tag, no run mixes the combinations up. -/
theorem isolated_of_separated (hother : Undisturbed w other envs)
    (hsep : ∀ i j : ℕ, ∀ env ∈ envs[i]?, ∀ env' ∈ envs[j]?, IsManyToOne w env → IsManyToOne w env' →
      key w env = key w env' → ∀ q r r', r ≠ r' → Sends w env r q → Sends w env' r' q → i = j)
    (h : ReflTransGen Next (State.init (schedule w other envs)) s) : Isolated w envs s := by
  refine isolated_of_timely hother (reflTransGen_timelyNext ?_ h)
  have hsend : ∀ k ∈ keys w envs, ∀ q r i,
      (∃ a ∈ instrsAt (schedule w other envs) r i, a.sendsTo q k = true) →
      ∃ env ∈ envs[i]?, IsManyToOne w env ∧ Sends w env r q ∧ key w env = k := by
    rintro k hk q r i ⟨a, ha, hsends⟩
    cases a with
    | send dest k' payload =>
      simp only [Instr.sendsTo, Bool.and_eq_true, decide_eq_true_eq] at hsends
      obtain ⟨rfl, rfl⟩ := hsends
      rcases send_mem_instrsAt hother ha with ⟨env, hi, hmany, hsends, hkey, -⟩ | hnot
      · exact ⟨env, hi, hmany, hsends, hkey.symm⟩
      · exact absurd hk hnot
    | recv => cases hsends
    | barrier => cases hsends
  intro k hk q r r' i j hne hi hj
  obtain ⟨env, henv, hmany, hsends, rfl⟩ := hsend k hk q r i hi
  obtain ⟨env', henv', hmany', hsends', hkey⟩ := hsend (key w env) hk q r' j hj
  exact hsep i j env henv env' henv' hmany hmany' hkey.symm q r r' hne hsends hsends'

end

/-! ## Three processes -/

/-- Three processes with `MPI_COMM_WORLD`. -/
def threeProcesses : World 3 where
  base := { fourProcesses with comms := tstCommsRegister fourProcesses.cfg 3 }
  group c _ := if c = 0 then [0, 1, 2] else []
  peers c _ := if c = 0 then [0, 1, 2] else []
  mem_group c q h := by
    split_ifs at h ⊢
    · revert q
      decide
    · exact absurd rfl h
  nodup c q := by
    split_ifs <;> decide
  of_mem_peers c q r hr := by
    split_ifs at hr ⊢
    · revert q
      decide
    · cases hr
  peers_of_intra _ _ _ := rfl

/-- The options `-t Many-to-one -c MPI_COMM_WORLD -d MPI_INT -n 2,1`. -/
def twoValueCounts : Arguments :=
  ⟨lit "Many-to-one", lit "MPI_COMM_WORLD", lit "MPI_INT", lit "2,1"⟩

theorem exists_twoValueCounts : ∃ sel,
    selections threeProcesses.base.cfg threeProcesses.base.comms twoValueCounts = .ok sel := by
  have hok : (selections threeProcesses.base.cfg threeProcesses.base.comms
    twoValueCounts).isOk = true := by decide +kernel
  cases hsel : selections threeProcesses.base.cfg threeProcesses.base.comms twoValueCounts with
  | ok sel => exact ⟨sel, rfl⟩
  | error e =>
    rw [hsel] at hok
    cases hok

/-- The iterations with these options. -/
def threeIterations : List Env := iterationsOf threeProcesses.base twoValueCounts

/-- The state at the start. -/
def threeStart : State (Fin 3) (ℤ × ℤ) Payload :=
  State.init (schedule threeProcesses (fun _ _ ↦ []) threeIterations)

/-- If everybody waits for the other sender, the root receives four messages. -/
theorem many_to_one_isolated_three : ∃ s,
    threeStart.moves (fun s v ↦ decide (s.Timely (keys threeProcesses threeIterations) v))
        [.advance 1, .advance 2, .receive 0 2, .receive 0 1, .advance 2, .advance 1,
          .receive 0 1, .receive 0 2] = some s ∧
      Isolated threeProcesses threeIterations s := by
  have hsome : (threeStart.moves
      (fun s v ↦ decide (s.Timely (keys threeProcesses threeIterations) v))
      [.advance 1, .advance 2, .receive 0 2, .receive 0 1, .advance 2, .advance 1,
        .receive 0 1, .receive 0 2]).isSome = true := by decide +kernel
  obtain ⟨s, hs⟩ := Option.isSome_iff_exists.mp hsome
  refine ⟨s, hs, many_to_one_isolated threeProcesses (fun _ _ ↦ []) threeIterations
    (fun _ _ _ _ _ _ h ↦ absurd h List.not_mem_nil) ?_⟩
  exact reflTransGen_of_moves (fun s v s' hP hstep ↦ ⟨v, of_decide_eq_true hP, hstep⟩) hs

/-- The root receives two messages of one sender in the first combination. -/
theorem many_to_one_overtakes : ¬∀ (w : World 3) (a : Arguments) (sel : Selections),
    selections w.base.cfg w.base.comms a = .ok sel →
    ∀ s, ReflTransGen Next (State.init (schedule w (fun _ _ ↦ []) (iterations w.base sel))) s →
      Isolated w (iterations w.base sel) s := by
  intro h
  -- process 1 is ahead, and the root takes both of its messages in the first combination
  have hcross : ((threeStart.moves (fun _ _ ↦ true)
      [.advance 1, .advance 1, .receive 0 1, .receive 0 1]).any fun s ↦
        (s.log 0).any fun x ↦ x.message.round != x.round
          && (threeIterations[x.round]?).any fun env ↦ decide (IsManyToOne threeProcesses env))
      = true := by decide +kernel
  obtain ⟨sel, hsel⟩ := exists_twoValueCounts
  have henvs : threeIterations = iterations threeProcesses.base sel := iterationsOf_eq _ hsel
  cases hmoves : threeStart.moves (fun _ _ ↦ true)
      [.advance 1, .advance 1, .receive 0 1, .receive 0 1] with
  | none =>
    rw [hmoves] at hcross
    cases hcross
  | some s =>
    rw [hmoves, Option.any_some, List.any_eq_true] at hcross
    obtain ⟨x, hx, hcheck⟩ := hcross
    obtain ⟨hne, hmany⟩ := Bool.and_eq_true_iff.mp hcheck
    cases hi : threeIterations[x.round]? with
    | none =>
      rw [hi] at hmany
      cases hmany
    | some env =>
    rw [hi, Option.any_some] at hmany
    refine bne_iff_ne.mp hne ?_
    rw [henvs] at hi
    refine (h threeProcesses _ sel hsel s ?_).own 0 x hx env hi (of_decide_eq_true hmany)
    rw [← henvs]
    exact reflTransGen_of_moves (fun s v s' _ hstep ↦ ⟨v, hstep⟩) hmoves

end P2P

end MpiTestSuite
