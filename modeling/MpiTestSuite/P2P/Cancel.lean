import MpiTestSuite.P2P.ManyToOne
import MpiTestSuite.P2P.Messages
import MpiTestSuite.Runs.Conditions

/-!
# Cancelled sends

In `"Many-to-one with Isend and Cancellation"` every rank starts a send to rank 0 and tries to
cancel it at once. Rank 0 collects who has succeeded, cancels the receives that these sends were
meant for, waits for all receives, and looks at their statuses.

Whether a send can be cancelled is up to the system: it is cancelled, or it is matched, or it ends
with its message in a buffer and is matched later. However that turns out, nobody is ever stuck, and
the receives that are cancelled in the end are those whose sends have been. In strict mode the root
looks at the number of elements before it looks at whether the receive has been cancelled, and in
the status of a cancelled receive this number is anything.
-/

open MpiTestSuite.Runs Relation

namespace MpiTestSuite

namespace P2P

/-! ## The system -/

/-- What a rank does. The loops over the ranks are unrolled. -/
inductive CancelInstr
  /-- `MPI_Irecv` from a rank -/
  | irecv (rank : ℕ)
  /-- `MPI_Isend` to the root -/
  | isend
  /-- `MPI_Cancel` of the send -/
  | cancel
  /-- `MPI_Wait` for the send, and `MPI_Test_cancelled` -/
  | wait
  /-- `MPI_Gather`, the way in -/
  | enter
  /-- `MPI_Gather`, the way out -/
  | leave
  /-- `MPI_Cancel` of the receive from a rank, if its send has been cancelled -/
  | cancelRecv (rank : ℕ)
  | waitall
  deriving DecidableEq

/-- `tst_p2p_many_to_one_isend_cancel_run`, as far as the statuses. -/
def tstP2pManyToOneIsendCancelRun (commSize commRank : ℕ) : List CancelInstr :=
  (if commRank = 0 then (List.range commSize).map .irecv else [])
    ++ [.isend, .cancel, .wait, .enter, .leave]
    ++ if commRank = 0 then (List.range commSize).map .cancelRecv ++ [.waitall] else []

/-- What the processes of a communicator of `p` ranks execute. -/
def cancelProgram (p r : ℕ) : List CancelInstr :=
  if r < p then tstP2pManyToOneIsendCancelRun p r else []

/-- The state of the system. The message of a rank is known by the rank. -/
structure CancelState where
  done : ℕ → List CancelInstr
  todo : ℕ → List CancelInstr
  /-- The ranks whose messages have been received. -/
  matched : List ℕ
  /-- Those whose sends have ended with the message in a buffer. -/
  buffered : List ℕ
  /-- Those whose sends have been cancelled. -/
  sendCancelled : List ℕ
  /-- Those that a receive from has been cancelled. -/
  recvCancelled : List ℕ
  /-- The variable `send_cancelled` of a rank, which the root collects in `env->cancelled`. -/
  info : ℕ → Bool

namespace CancelState

def init (p : ℕ) : CancelState where
  done _ := []
  todo := cancelProgram p
  matched := []
  buffered := []
  sendCancelled := []
  recvCancelled := []
  info _ := false

/-- The send of a rank has ended. -/
def Ended (s : CancelState) (q : ℕ) : Prop := q ∈ s.matched ∨ q ∈ s.buffered ∨ q ∈ s.sendCancelled

/-- What a rank waits for before it has executed an instruction. -/
def Ready (p : ℕ) (s : CancelState) (r : ℕ) : CancelInstr → Prop
  | .wait => s.Ended r
  | .leave => ∀ q < p, .enter ∈ s.done q
  | .waitall => ∀ q < p, q ∈ s.matched ∨ q ∈ s.recvCancelled
  | _ => True

instance (s : CancelState) : DecidablePred s.Ended := fun q ↦
  inferInstanceAs (Decidable (q ∈ s.matched ∨ q ∈ s.buffered ∨ q ∈ s.sendCancelled))

instance (p : ℕ) (s : CancelState) (r : ℕ) : (a : CancelInstr) → Decidable (s.Ready p r a)
  | .wait => inferInstanceAs (Decidable (s.Ended r))
  | .leave => inferInstanceAs (Decidable (∀ q < p, .enter ∈ s.done q))
  | .waitall => inferInstanceAs (Decidable (∀ q < p, q ∈ s.matched ∨ q ∈ s.recvCancelled))
  | .irecv _ | .isend | .cancel | .enter | .cancelRecv _ => isTrue trivial

/-- Rank `r` has executed `a`. -/
def execute (s : CancelState) (r : ℕ) (a : CancelInstr) (rest : List CancelInstr) : CancelState :=
  { s with
    done := Function.update s.done r (s.done r ++ [a])
    todo := Function.update s.todo r rest
    info := if a = .wait then Function.update s.info r (decide (r ∈ s.sendCancelled)) else s.info }

end CancelState

/-- The steps that the system takes sooner or later. -/
inductive CancelStep (p : ℕ) (s : CancelState) : CancelState → Prop
  | execute {r a rest} : s.todo r = a :: rest → s.Ready p r a → CancelStep p s (s.execute r a rest)
  /-- A message is received. -/
  | deliver {q} : .isend ∈ s.done q → .irecv q ∈ s.done 0 → q ∉ s.matched → q ∉ s.sendCancelled →
      q ∉ s.recvCancelled → CancelStep p s { s with matched := q :: s.matched }
  /-- A send that has not ended is cancelled. -/
  | cancelSend {q} : .cancel ∈ s.done q → ¬s.Ended q →
      CancelStep p s { s with sendCancelled := q :: s.sendCancelled }
  /-- A receive is cancelled. -/
  | cancelRecv {q} : .cancelRecv q ∈ s.done 0 → s.info q = true → q ∉ s.matched →
      q ∉ s.recvCancelled → CancelStep p s { s with recvCancelled := q :: s.recvCancelled }

/-- What the system may do. -/
inductive CancelMay (s : CancelState) : CancelState → Prop
  /-- A send ends with its message in a buffer. -/
  | buffer {q} : .isend ∈ s.done q → ¬s.Ended q → CancelMay s { s with buffered := q :: s.buffered }
  /-- A rank that collects nothing leaves `MPI_Gather` early. -/
  | leaveEarly {r rest} : r ≠ 0 → s.todo r = .leave :: rest → CancelMay s (s.execute r .leave rest)

/-- The states that are reached on a communicator of `p` ranks. -/
def CancelReachable (p : ℕ) (s : CancelState) : Prop :=
  ReflTransGen (fun s s' ↦ CancelStep p s s' ∨ CancelMay s s') (CancelState.init p) s

/-! ## The statuses -/

section

variable (cfg : Config) (t : TypeSlot) (env : Env) (mode : TstMode)

/-- The rest of `tst_p2p_many_to_one_isend_cancel_run`, with the array `env->cancelled` and what is
in `env->status_buffer`. A wrong tag or source is only printed. -/
def tstP2pManyToOneIsendCancelCheck (commSize : ℕ) (cancelled : ℕ → Bool)
    (statusBuffer : ℕ → Completion) : Except Stop (List Env) :=
  judgeAll (List.range commSize) fun rank ↦
    let status := statusBuffer rank
    if status.arrival.wrongCount env mode then .error (.error "Error in Count")
    else if cancelled rank && !status.cancelled then
      .error (.error "cancellation info and MPI_Test_cancelled differ")
    else if status.cancelled then .ok []
    else orStop (tstTestCheckstandardarray cfg t env (status.arrival.buffer t env)
      status.arrival.source)

/-- The status of the receive from a rank. That of a cancelled receive says that it has been
cancelled; nothing else in it is specified. -/
def CancelState.status (s : CancelState) (tagUb : ℤ) (sendBuffer : ℕ → Memory)
    (unspecified : ℕ → Arrival) (rank : ℕ) : Completion :=
  if rank ∈ s.recvCancelled then ⟨true, unspecified rank⟩
  else ⟨false, rank, tstHashValue tagUb env, .values t env (sendBuffer rank)⟩

end

/-! ## What is kept -/

/-- What is known of every state that is reached. -/
structure CancelGenuine (p : ℕ) (s : CancelState) : Prop where
  split : ∀ r, s.done r ++ s.todo r = cancelProgram p r
  matched : ∀ q ∈ s.matched, q ∉ s.sendCancelled ∧ q ∉ s.recvCancelled
  buffered : ∀ q ∈ s.buffered, q ∉ s.sendCancelled
  /-- Whoever has waited for its send knows what has become of it. -/
  waited : ∀ q, .wait ∈ s.done q → s.Ended q ∧ (s.info q = true ↔ q ∈ s.sendCancelled)
  /-- A receive is cancelled for a send that has been. -/
  recvCancelled : ∀ q ∈ s.recvCancelled, q ∈ s.sendCancelled
  info : ∀ q, s.info q = true → .wait ∈ s.done q
  /-- The root does not leave `MPI_Gather` early. -/
  gathered : .leave ∈ s.done 0 → ∀ q < p, .enter ∈ s.done q
  received : .waitall ∈ s.done 0 → ∀ q < p, q ∈ s.matched ∨ q ∈ s.recvCancelled

namespace CancelState

variable {s : CancelState} {r q : ℕ} {a b : CancelInstr} {rest : List CancelInstr}

theorem mem_done_execute : b ∈ (s.execute r a rest).done q ↔ b ∈ s.done q ∨ q = r ∧ b = a := by
  rw [execute]
  rcases eq_or_ne q r with rfl | hq
  · simp
  · simp [hq]

/-- Only a rank that waits for its send learns something. -/
theorem info_execute (s : CancelState) (r : ℕ) (a : CancelInstr) (rest : List CancelInstr)
    (q : ℕ) : (s.execute r a rest).info q
      = if a = .wait ∧ q = r then decide (r ∈ s.sendCancelled) else s.info q := by
  rw [execute]
  by_cases ha : a = .wait
  · rcases eq_or_ne q r with rfl | hq
    · simp [ha]
    · simp [ha, hq]
  · simp [ha]

end CancelState

namespace CancelGenuine

variable {p : ℕ} {s s' : CancelState}

theorem init (p : ℕ) : CancelGenuine p (.init p) where
  split _ := rfl
  matched _ h := absurd h List.not_mem_nil
  buffered _ h := absurd h List.not_mem_nil
  waited _ h := absurd h List.not_mem_nil
  recvCancelled _ h := absurd h List.not_mem_nil
  info _ h := absurd h Bool.false_ne_true
  gathered h := absurd h List.not_mem_nil
  received h := absurd h List.not_mem_nil

theorem execute (h : CancelGenuine p s) {r : ℕ} {a : CancelInstr} {rest : List CancelInstr}
    (htodo : s.todo r = a :: rest) (hwait : a = .wait → s.Ended r)
    (hleave : a = .leave → r = 0 → ∀ q < p, .enter ∈ s.done q)
    (hall : a = .waitall → ∀ q < p, q ∈ s.matched ∨ q ∈ s.recvCancelled) :
    CancelGenuine p (s.execute r a rest) where
  split q := by
    have hsplit := h.split q
    rw [CancelState.execute]
    rcases eq_or_ne q r with rfl | hq
    · simpa [htodo] using hsplit
    · simpa [hq] using hsplit
  matched := h.matched
  buffered := h.buffered
  waited q hq := by
    rw [CancelState.info_execute]
    split_ifs with hnew
    · obtain ⟨rfl, rfl⟩ := hnew
      exact ⟨hwait rfl, decide_eq_true_iff⟩
    · rcases CancelState.mem_done_execute.mp hq with hold | ⟨hqr, ha⟩
      · exact h.waited q hold
      · exact absurd ⟨ha.symm, hqr⟩ hnew
  recvCancelled := h.recvCancelled
  info q hq := by
    rw [CancelState.info_execute] at hq
    refine CancelState.mem_done_execute.mpr ?_
    split_ifs at hq with hnew
    · exact .inr ⟨hnew.2, hnew.1.symm⟩
    · exact .inl (h.info q hq)
  gathered hq q' hlt := by
    refine CancelState.mem_done_execute.mpr (.inl ?_)
    rcases CancelState.mem_done_execute.mp hq with hold | ⟨hr, ha⟩
    · exact h.gathered hold q' hlt
    · exact hleave ha.symm hr.symm q' hlt
  received hq := by
    rcases CancelState.mem_done_execute.mp hq with hold | ⟨-, ha⟩
    · exact h.received hold
    · exact hall ha.symm

theorem step (h : CancelGenuine p s) (hstep : CancelStep p s s') : CancelGenuine p s' := by
  cases hstep with
  | execute htodo hready =>
    refine h.execute htodo (fun ha ↦ ?_) (fun ha _ ↦ ?_) fun ha ↦ ?_
    · subst ha
      exact hready
    · subst ha
      exact hready
    · subst ha
      exact hready
  | @deliver q hsend hrecv hmatched hcancelled hrecvCancelled =>
    refine { h with
      matched := fun q' hq' ↦ ?_
      waited := fun q' hq' ↦ ?_
      received := fun hq' q'' hlt ↦ ?_ }
    · rcases List.mem_cons.mp hq' with rfl | hold
      · exact ⟨hcancelled, hrecvCancelled⟩
      · exact h.matched q' hold
    · obtain ⟨hended, hinfo⟩ := h.waited q' hq'
      exact ⟨hended.imp_left (List.mem_cons_of_mem q), hinfo⟩
    · exact (h.received hq' q'' hlt).imp_left (List.mem_cons_of_mem q)
  | @cancelSend q hcancel hended =>
    -- nobody who has waited is concerned
    have hne : ∀ q', s.Ended q' → q' ≠ q := fun q' hq' heq ↦ hended (heq ▸ hq')
    refine { h with
      matched := fun q' hq' ↦ ?_
      buffered := fun q' hq' ↦ ?_
      waited := fun q' hq' ↦ ?_
      recvCancelled := fun q' hq' ↦ ?_ }
    · obtain ⟨hsend, hrecv⟩ := h.matched q' hq'
      exact ⟨List.not_mem_cons_of_ne_of_not_mem (hne q' (.inl hq')) hsend, hrecv⟩
    · exact List.not_mem_cons_of_ne_of_not_mem (hne q' (.inr (.inl hq'))) (h.buffered q' hq')
    · obtain ⟨hended', hinfo⟩ := h.waited q' hq'
      refine ⟨hended'.imp_right (Or.imp_right (List.mem_cons_of_mem q)), ?_⟩
      rw [hinfo, List.mem_cons, or_iff_right (hne q' hended')]
    · exact List.mem_cons_of_mem q (h.recvCancelled q' hq')
  | @cancelRecv q hcancel hinfo hmatched hrecvCancelled =>
    refine { h with
      matched := fun q' hq' ↦ ?_
      recvCancelled := fun q' hq' ↦ ?_
      received := fun hq' q'' hlt ↦ ?_ }
    · obtain ⟨hsend, hrecv⟩ := h.matched q' hq'
      exact ⟨hsend, List.not_mem_cons_of_ne_of_not_mem (ne_of_mem_of_not_mem hq' hmatched) hrecv⟩
    · rcases List.mem_cons.mp hq' with rfl | hold
      · exact (h.waited q' (h.info q' hinfo)).2.mp hinfo
      · exact h.recvCancelled q' hold
    · exact (h.received hq' q'' hlt).imp_right (List.mem_cons_of_mem q)

theorem may (h : CancelGenuine p s) (hmay : CancelMay s s') : CancelGenuine p s' := by
  cases hmay with
  | @buffer q hsend hended =>
    refine { h with buffered := fun q' hq' ↦ ?_, waited := fun q' hq' ↦ ?_ }
    · rcases List.mem_cons.mp hq' with rfl | hold
      · exact fun hcancelled ↦ hended (.inr (.inr hcancelled))
      · exact h.buffered q' hold
    · obtain ⟨hended', hinfo⟩ := h.waited q' hq'
      exact ⟨hended'.imp_right (Or.imp_left (List.mem_cons_of_mem q)), hinfo⟩
  | leaveEarly hr htodo =>
    exact h.execute htodo (fun ha ↦ by cases ha) (fun _ h0 ↦ absurd h0 hr) fun ha ↦ by cases ha

end CancelGenuine

theorem CancelReachable.genuine {p : ℕ} {s : CancelState} (h : CancelReachable p s) :
    CancelGenuine p s := by
  induction h with
  | refl => exact .init p
  | tail _ hnext ih => exact hnext.elim ih.step ih.may

/-! ## Who waits for whom -/

/-- What is waited for. -/
inductive CancelCondition
  /-- The send of a rank has ended. -/
  | ended (q : ℕ)
  /-- A rank has entered `MPI_Gather`. -/
  | entered (q : ℕ)
  /-- The receive from a rank has ended. -/
  | received (q : ℕ)

namespace CancelCondition

def Holds (s : CancelState) : CancelCondition → Prop
  | ended q => s.Ended q
  | entered q => .enter ∈ s.done q
  | received q => q ∈ s.matched ∨ q ∈ s.recvCancelled

/-- The conditions that `CancelState.Ready` asks for. -/
def waits (p r : ℕ) : CancelInstr → Set CancelCondition
  | .wait => {ended r}
  | .leave => {c | ∃ q < p, c = entered q}
  | .waitall => {c | ∃ q < p, c = received q}
  | _ => ∅

/-- Who has to do what. -/
def needs : CancelCondition → Set (ℕ × CancelInstr)
  | ended q => {(q, .cancel)}
  | entered q => {(q, .enter)}
  | received q => {(q, .isend), (q, .wait), (0, .irecv q), (0, .cancelRecv q)}

end CancelCondition

/-- The instructions in their order, which is the same for all ranks. -/
def CancelInstr.level : CancelInstr → ℕ
  | irecv _ => 0
  | isend => 1
  | cancel => 2
  | wait => 3
  | enter => 4
  | leave => 5
  | cancelRecv _ => 6
  | waitall => 7

section

variable {p : ℕ}

theorem mem_cancelProgram {r : ℕ} {a : CancelInstr} : a ∈ cancelProgram p r ↔
    r < p ∧ (a ∈ [CancelInstr.isend, .cancel, .wait, .enter, .leave] ∨
      r = 0 ∧ (a = .waitall ∨ ∃ q < p, a = .irecv q ∨ a = .cancelRecv q)) := by
  rw [cancelProgram]
  split_ifs with hr
  · rw [tstP2pManyToOneIsendCancelRun]
    by_cases h0 : r = 0
    · subst h0
      simp only [if_true, List.mem_append, List.mem_map, List.mem_range, List.mem_singleton]
      constructor
      · rintro ((⟨q, hq, rfl⟩ | h) | (⟨q, hq, rfl⟩ | rfl))
        · exact ⟨hr, .inr ⟨trivial, .inr ⟨q, hq, .inl rfl⟩⟩⟩
        · exact ⟨hr, .inl h⟩
        · exact ⟨hr, .inr ⟨trivial, .inr ⟨q, hq, .inr rfl⟩⟩⟩
        · exact ⟨hr, .inr ⟨trivial, .inl rfl⟩⟩
      · rintro ⟨-, h | ⟨-, rfl | ⟨q, hq, rfl | rfl⟩⟩⟩
        · exact .inl (.inr h)
        · exact .inr (.inr rfl)
        · exact .inl (.inl ⟨q, hq, rfl⟩)
        · exact .inr (.inl ⟨q, hq, rfl⟩)
    · simp only [h0, if_false, List.nil_append, List.append_nil, false_and, or_false, hr, true_and]
  · simp [hr]

theorem leveled_cancelProgram (p : ℕ) : Conditions.Leveled (CancelCondition.waits p)
    CancelCondition.needs (fun _ ↦ CancelInstr.level) (cancelProgram p) where
  sorted r := by
    rw [cancelProgram]
    split_ifs
    · rw [tstP2pManyToOneIsendCancelRun]
      have htrue : (List.range p).Pairwise fun _ _ ↦ True :=
        List.pairwise_of_forall fun _ _ ↦ trivial
      split_ifs <;>
        simp +contextual [List.pairwise_append, List.pairwise_map, CancelInstr.level, or_imp,
          forall_and, htrue]
    · exact .nil
  needed r a ha c hc x hx := by
    obtain ⟨hr, hcase⟩ := mem_cancelProgram.mp ha
    cases a with
    | wait =>
      obtain rfl := hc
      obtain rfl := hx
      exact ⟨mem_cancelProgram.mpr ⟨hr, .inl (by simp)⟩, by simp [CancelInstr.level]⟩
    | leave =>
      obtain ⟨q, hq, rfl⟩ := hc
      obtain rfl := hx
      exact ⟨mem_cancelProgram.mpr ⟨hq, .inl (by simp)⟩, by simp [CancelInstr.level]⟩
    | waitall =>
      obtain ⟨q, hq, rfl⟩ := hc
      have h0 : 0 < p := by omega
      rcases hx with rfl | rfl | rfl | rfl
      · exact ⟨mem_cancelProgram.mpr ⟨hq, .inl (by simp)⟩, by simp [CancelInstr.level]⟩
      · exact ⟨mem_cancelProgram.mpr ⟨hq, .inl (by simp)⟩, by simp [CancelInstr.level]⟩
      · exact ⟨mem_cancelProgram.mpr ⟨h0, .inr ⟨rfl, .inr ⟨q, hq, .inl rfl⟩⟩⟩,
          by simp [CancelInstr.level]⟩
      · exact ⟨mem_cancelProgram.mpr ⟨h0, .inr ⟨rfl, .inr ⟨q, hq, .inr rfl⟩⟩⟩,
          by simp [CancelInstr.level]⟩
    | irecv | isend | cancel | enter | cancelRecv => cases hc

theorem ready_iff (p : ℕ) (s : CancelState) (r : ℕ) (a : CancelInstr) :
    s.Ready p r a ↔ ∀ c ∈ CancelCondition.waits p r a, c.Holds s := by
  cases a with
  | leave | waitall =>
    exact ⟨fun h c ⟨q, hq, hc⟩ ↦ hc ▸ h q hq, fun h q hq ↦ h _ ⟨q, hq, rfl⟩⟩
  | wait => exact ⟨fun h c hc ↦ hc ▸ h, fun h ↦ h _ rfl⟩
  | irecv | isend | cancel | enter | cancelRecv =>
    exact ⟨fun _ c hc ↦ absurd hc (Set.notMem_empty c), fun _ ↦ trivial⟩

/-- Nobody is ever stuck. -/
theorem CancelGenuine.exists_step {s : CancelState} (h : CancelGenuine p s) {r : ℕ}
    (hr : s.todo r ≠ []) : ∃ s', CancelStep p s s' := by
  have hleveled := leveled_cancelProgram p
  obtain ⟨q, a, rest, htodo, hready | ⟨c, hc, hnot, hneeds⟩⟩ :=
    hleveled.exists_ready h.split (CancelCondition.Holds s) hr
  · exact ⟨_, .execute htodo ((ready_iff p s q a).mpr hready)⟩
  cases c with
  | ended q' => exact ⟨_, .cancelSend (hneeds (q', .cancel) rfl) hnot⟩
  | entered q' => exact absurd (hneeds (q', .enter) rfl) hnot
  | received q' =>
    obtain ⟨hmatched, hrecvCancelled⟩ := not_or.mp hnot
    have hsend := hneeds (q', .isend) (by simp [CancelCondition.needs])
    have hwait := hneeds (q', .wait) (by simp [CancelCondition.needs])
    have hrecv := hneeds (0, .irecv q') (by simp [CancelCondition.needs])
    have hcancel := hneeds (0, .cancelRecv q') (by simp [CancelCondition.needs])
    obtain ⟨hended, hinfo⟩ := h.waited q' hwait
    by_cases hcancelled : q' ∈ s.sendCancelled
    · exact ⟨_, .cancelRecv hcancel (hinfo.mpr hcancelled) hmatched hrecvCancelled⟩
    · exact ⟨_, .deliver hsend hrecv hmatched hcancelled hrecvCancelled⟩

/-- When the root has waited for all receives, each has been cancelled with its send or received. -/
theorem CancelGenuine.received_of_done {s : CancelState} (h : CancelGenuine p s)
    (hdone : s.todo 0 = []) {q : ℕ} (hq : q < p) :
    (q ∈ s.recvCancelled ↔ q ∈ s.sendCancelled) ∧ (q ∈ s.matched ↔ q ∉ s.sendCancelled) ∧
      s.info q = decide (q ∈ s.sendCancelled) := by
  have hprog := h.split 0
  rw [hdone, List.append_nil] at hprog
  have hroot : ∀ a ∈ [CancelInstr.leave, .waitall], a ∈ s.done 0 := by
    intro a ha
    rw [hprog, mem_cancelProgram]
    refine ⟨by omega, ?_⟩
    rcases List.mem_cons.mp ha with rfl | ha
    · exact .inl (by simp)
    · exact .inr ⟨rfl, .inl (List.mem_singleton.mp ha)⟩
  have hsplit := h.received (hroot .waitall (by simp)) q hq
  have hwait : .wait ∈ s.done q :=
    (leveled_cancelProgram p).mem_done_of_done h.split
      (h.gathered (hroot .leave (by simp)) q hq) (mem_cancelProgram.mpr ⟨hq, .inl (by simp)⟩)
      (by simp [CancelInstr.level])
  refine ⟨⟨h.recvCancelled q, fun hcancelled ↦ ?_⟩,
    ⟨fun hmatched ↦ (h.matched q hmatched).1, fun hnot ↦ ?_⟩, ?_⟩
  · exact hsplit.resolve_left fun hmatched ↦ (h.matched q hmatched).1 hcancelled
  · exact hsplit.resolve_right fun hcancelled ↦ hnot (h.recvCancelled q hcancelled)
  · rw [Bool.eq_iff_iff, decide_eq_true_iff]
    exact (h.waited q hwait).2

end

/-! ## The test -/

/-- What the test promises of a state that is reached on a communicator of `p` ranks. -/
structure CancelWorks (cfg : Config) (t : TypeSlot) (env : Env) (mode : TstMode) (tagUb : ℤ)
    (p : ℕ) (sendBuffer : ℕ → Memory) (s : CancelState) : Prop where
  /-- Every rank has got an array that it can send. -/
  sends : ∀ q < p, sendArray cfg t env q = some (.values t env (sendBuffer q))
  /-- As long as a rank has something left to do, there is a step. -/
  noDeadlock : ∀ r, s.todo r ≠ [] → ∃ s', CancelStep p s s'
  /-- The receives that have been cancelled in the end are those whose sends have been. -/
  cancelled : s.todo 0 = [] → ∀ q < p, q ∈ s.recvCancelled ↔ q ∈ s.sendCancelled
  /-- The others have received their messages. -/
  received : s.todo 0 = [] → ∀ q < p, q ∈ s.matched ↔ q ∉ s.sendCancelled
  /-- Whatever stands in the statuses of cancelled receives, no `ERROR` is raised and no failure is
  recorded. -/
  quiet : s.todo 0 = [] → ∀ unspecified,
    tstP2pManyToOneIsendCancelCheck cfg t env mode p s.info
      (s.status t env tagUb sendBuffer unspecified) = .ok []

section

variable {cfg : Config} {t : TypeSlot} {env : Env} {mode : TstMode} {tagUb : ℤ} {p : ℕ}
  {sendBuffer : ℕ → Memory} {s : CancelState}

/-- What the root finds if the counts of cancelled receives are not looked at, or there are none. -/
theorem cancelCheck_eq_nil (ht : t ∈ initTypes cfg) (hnull : t.datatype ≠ .null)
    (hvalues : FitsInt env.valuesNum) (hsize : FitsInt p)
    (hset : ∀ q < p, standardBuffer cfg t env q = some (sendBuffer q)) (h : CancelGenuine p s)
    (hdone : s.todo 0 = []) (hmode : mode = .strict → ∀ q < p, q ∉ s.sendCancelled)
    (unspecified : ℕ → Arrival) :
    tstP2pManyToOneIsendCancelCheck cfg t env mode p s.info
      (s.status t env tagUb sendBuffer unspecified) = .ok [] := by
  refine judgeAll_eq_nil fun q hq ↦ ?_
  rw [List.mem_range] at hq
  obtain ⟨hrecv, -, hinfo⟩ := h.received_of_done hdone hq
  rw [hinfo, CancelState.status]
  by_cases hcancelled : q ∈ s.recvCancelled
  · have hrelaxed : mode ≠ .strict := fun hstrict ↦ hmode hstrict q hq (hrecv.mp hcancelled)
    have hcount : (unspecified q).wrongCount env mode = false := by
      rw [Arrival.wrongCount, beq_false_of_ne hrelaxed, Bool.false_and]
    simp [hcancelled, hcount]
  · have hbound := rank_add_values_le hvalues hsize hq
    have hcheck := Arrival.check_eq_nil ht hnull (hset q hq)
      (a := ⟨q, tstHashValue tagUb env, .values t env (sendBuffer q)⟩) rfl mode "Error in Count"
      (by omega) (by omega)
    simp only [hcancelled, mt hrecv.mpr hcancelled, if_false, decide_false, Bool.false_and,
      Bool.false_eq_true]
    exact hcheck

/-- In strict mode it depends on what the status of a cancelled receive says. -/
theorem cancelCheck_ne_nil {q : ℕ} (hq : q < p) (hcancelled : q ∈ s.recvCancelled) :
    ∃ unspecified, tstP2pManyToOneIsendCancelCheck cfg t env .strict p s.info
      (s.status t env tagUb sendBuffer unspecified) ≠ .ok [] := by
  refine ⟨fun _ ↦ ⟨0, 0, ⟨sendBuffer 0, 0, env.valuesNum + 1⟩⟩, fun hok ↦ ?_⟩
  obtain ⟨calls, hcheck⟩ := exists_ok_of_judgeAll hok (List.mem_range.mpr hq)
  rw [CancelState.status, if_pos hcancelled] at hcheck
  have hcount : (env.valuesNum + 1 != env.valuesNum) = true := bne_iff_ne.mpr (by omega)
  simp [Arrival.wrongCount, hcount] at hcheck

end

/-- **Cancelled sends.** Whichever sends the system cancels, matches or buffers, nobody is ever
stuck, and the receives that are cancelled are those whose sends have been. That the arrays can be
sent and no false alarm is raised is so exactly if the arrays fit, and the mode is not strict or no
send has been cancelled. -/
theorem isend_cancel_works_iff (cfg : Config) (t : TypeSlot) (ht : t ∈ initTypes cfg)
    (hnull : t.datatype ≠ .null) (env : Env) (mode : TstMode) (tagUb : ℤ) (p : ℕ) (hp : 1 ≤ p)
    (hsize : FitsInt p) :
    ∀ s, CancelReachable p s →
      ((∃ sendBuffer, CancelWorks cfg t env mode tagUb p sendBuffer s) ↔
        ArrayFits t env.valuesNum ∧
          (s.todo 0 = [] → mode = .strict → ∀ q < p, q ∉ s.sendCancelled)) := by
  intro s hreach
  have h := hreach.genuine
  constructor
  · rintro ⟨sendBuffer, hworks⟩
    refine ⟨(exists_sendArray_iff ht hnull).mp ⟨_, hworks.sends 0 hp⟩, ?_⟩
    rintro hdone rfl q hq hcancelled
    have hrecv := (hworks.cancelled hdone q hq).mpr hcancelled
    obtain ⟨unspecified, hne⟩ := cancelCheck_ne_nil hq hrecv
    exact hne (hworks.quiet hdone unspecified)
  · rintro ⟨hfits, hcondition⟩
    obtain ⟨sendBuffer, hset, hsend⟩ := exists_sendArrays ht hnull hfits fun q : ℕ ↦ (q : ℤ)
    exact ⟨sendBuffer, fun q _ ↦ hsend q, fun r ↦ h.exists_step,
      fun hdone q hq ↦ (h.received_of_done hdone hq).1,
      fun hdone q hq ↦ (h.received_of_done hdone hq).2.1, fun hdone ↦ cancelCheck_eq_nil ht hnull
        hfits.fitsInt hsize (fun q _ ↦ hset q) h hdone (hcondition hdone)⟩

/-- Two ranks with `MPI_INT`. -/
theorem isend_cancel_works_iff_two :
    let cfg : Config := ⟨2, true, true, true, true, true, true, true, true⟩
    let env : Env := ⟨21, 0, 6, 3, 0⟩
    ∀ s, CancelReachable 2 s →
      ((∃ sendBuffer, CancelWorks cfg (slotMpi2 6) env .strict 32767 2 sendBuffer s) ↔
        ArrayFits (slotMpi2 6) 3 ∧
          (s.todo 0 = [] → TstMode.strict = .strict → ∀ q < 2, q ∉ s.sendCancelled)) :=
  isend_cancel_works_iff ⟨2, true, true, true, true, true, true, true, true⟩ (slotMpi2 6)
    (by decide +kernel) (by decide +kernel) ⟨21, 0, 6, 3, 0⟩ .strict 32767 2 (by decide)
    (by decide)

/-- A single rank succeeds in cancelling its send. -/
theorem exists_cancelled_one :
    ∃ s, CancelReachable 1 s ∧ s.todo 0 = [] ∧ 0 ∈ s.sendCancelled := by
  have h : ∀ {s s' : CancelState}, CancelReachable 1 s → CancelStep 1 s s' → CancelReachable 1 s' :=
    fun hs hstep ↦ hs.tail (.inl hstep)
  have h0 : CancelReachable 1 (.init 1) := .refl
  -- the send is started, and cancelled
  have h1 := h h0 (.execute (r := 0) (a := .irecv 0) rfl trivial)
  have h2 := h h1 (.execute (r := 0) (a := .isend) rfl trivial)
  have h3 := h h2 (.execute (r := 0) (a := .cancel) rfl trivial)
  have h4 := h h3 (.cancelSend (q := 0) (by decide) (by decide))
  -- the rank collects that
  have h5 := h h4 (.execute (r := 0) (a := .wait) rfl (.inr (.inr (by decide))))
  have h6 := h h5 (.execute (r := 0) (a := .enter) rfl trivial)
  have h7 := h h6 (.execute (r := 0) (a := .leave) rfl (by decide))
  -- it cancels the receive, and waits for it
  have h8 := h h7 (.execute (r := 0) (a := .cancelRecv 0) rfl trivial)
  have h9 := h h8 (.cancelRecv (q := 0) (by decide) (by decide) (by decide) (by decide))
  have h10 := h h9 (.execute (r := 0) (a := .waitall) rfl (by decide))
  exact ⟨_, h10, rfl, by decide⟩

/-- In strict mode the count of its cancelled receive is looked at. -/
theorem isend_cancel_alarms : ∃ s, CancelReachable 1 s ∧
    ¬∃ sendBuffer, CancelWorks ⟨2, true, true, true, true, true, true, true, true⟩ (slotMpi2 6)
      ⟨21, 0, 6, 3, 0⟩ .strict 32767 1 sendBuffer s := by
  obtain ⟨s, hreach, hdone, hcancelled⟩ := exists_cancelled_one
  refine ⟨s, hreach, fun ⟨sendBuffer, hworks⟩ ↦ ?_⟩
  obtain ⟨unspecified, hne⟩ := cancelCheck_ne_nil (s := s) Nat.one_pos
    ((hworks.cancelled hdone 0 Nat.one_pos).mpr hcancelled)
  exact hne (hworks.quiet hdone unspecified)

end P2P

end MpiTestSuite
