import Mathlib.Algebra.BigOperators.Group.Finset.Basic
import MpiTestSuite.P2P.AnySource
import MpiTestSuite.Runs.Outline

/-!
# Runs that receive from any source

The runs of `MpiTestSuite.P2P.AnySource` end with every message received, and none of them can get
stuck before: a rank that waits for somebody finds the message of this one as soon as it is sent,
and sending waits for nobody.

They do so if the buffer that `_init` attaches has room for all messages, and only then. If nobody
else does anything, the first rank fills its buffer before anything leaves it.
-/

namespace MpiTestSuite

namespace P2P

namespace AnySource

/-! ## What has been received -/

section

variable {t : TypeSlot} {env : Env} {p : ℕ} {array : ℕ → ℕ → Memory} {s : State} {r : ℕ}

/-- Nothing is sent twice. -/
theorem Invariant.count_sent (h : Invariant t env p array s) (hr : r < p) {q : ℕ} :
    (s.rank r).sent.count q ≤ 1 := by
  have hrank := h.rank r hr
  rw [hrank.sent]
  exact List.nodup_iff_count_le_one.mp (nodup_dests hrank.after.lt.le) q

theorem Rank.receivedFrom_eq_count (k : Rank) (q : ℕ) :
    k.receivedFrom q = (k.received.map Arrival.source).count q := by
  rw [receivedFrom, List.count, List.countP_map]
  exact List.countP_congr fun a _ ↦ by simp

theorem Rank.receivedFrom_pos {k : Rank} {q : ℕ} :
    0 < k.receivedFrom q ↔ q ∈ k.received.map Arrival.source := by
  rw [receivedFrom_eq_count, List.count_pos_iff]

/-- Nothing is received twice. -/
theorem Invariant.nodup_sources (h : Invariant t env p array s) (hr : r < p) :
    ((s.rank r).received.map Arrival.source).Nodup := by
  refine List.nodup_iff_count_le_one.mpr fun q ↦ ?_
  by_cases hmem : q ∈ (s.rank r).received.map Arrival.source
  · obtain ⟨a, ha, rfl⟩ := List.mem_map.mp hmem
    have hlt := ((h.rank r hr).received a ha).source_lt
    rw [← Rank.receivedFrom_eq_count]
    calc (s.rank r).receivedFrom a.source ≤ (s.rank a.source).sent.count r := by
          rw [← h.conserved a.source hlt r hr]
          exact Nat.le_add_left _ _
      _ ≤ 1 := h.count_sent hlt
  · exact (List.count_eq_zero.mpr hmem).le.trans zero_le_one

/-- What is received comes from others. -/
theorem Invariant.sources_subset (h : Invariant t env p array s) (hr : r < p) :
    (s.rank r).received.map Arrival.source ⊆ others p r := by
  intro q hq
  obtain ⟨a, ha, rfl⟩ := List.mem_map.mp hq
  have hlt := ((h.rank r hr).received a ha).source_lt
  have hcount := h.conserved a.source hlt r hr
  have hreceived := Rank.receivedFrom_pos.mpr hq
  have hmem : r ∈ (s.rank a.source).sent := List.count_pos_iff.mp (by omega)
  rw [(h.rank a.source hlt).sent] at hmem
  have hne := (mem_others.mp (dests_subset hlt (h.rank a.source hlt).after.lt hmem)).2
  exact mem_others.mpr ⟨hlt, hne.symm⟩

/-- `received_num` is the number of ranks that have not been heard. -/
theorem Invariant.length_received (h : Invariant t env p array s) (hr : r < p) :
    (s.rank r).received.length ≤ p - 1 := by
  have hle := (List.subperm_of_subset (h.nodup_sources hr) (h.sources_subset hr)).length_le
  rwa [List.length_map, length_others hr] at hle

theorem Invariant.receivedNum_nonneg (h : Invariant t env p array s) (hr : r < p) :
    0 ≤ (s.rank r).receivedNum := by
  have hle := h.length_received hr
  rw [(h.rank r hr).counter]
  omega

/-- It is zero when all the others have been heard. -/
theorem Invariant.receivedNum_eq_zero (h : Invariant t env p array s) (hr : r < p) :
    (s.rank r).receivedNum = 0 ↔ ∀ q < p, q ≠ r → (s.rank r).receivedFrom q = 1 := by
  have hlength := length_others hr
  rw [(h.rank r hr).counter]
  constructor
  · intro hzero q hq hne
    have hperm : ((s.rank r).received.map Arrival.source).Perm (others p r) := by
      refine (List.subperm_of_subset (h.nodup_sources hr)
        (h.sources_subset hr)).perm_of_length_le ?_
      rw [List.length_map]
      omega
    rw [Rank.receivedFrom_eq_count, hperm.count_eq]
    exact List.count_eq_one_of_mem (List.nodup_range.filter _) (mem_others.mpr ⟨hq, hne⟩)
  · intro hall
    have hsubset : others p r ⊆ (s.rank r).received.map Arrival.source := fun q hq ↦ by
      obtain ⟨hlt, hne⟩ := mem_others.mp hq
      exact Rank.receivedFrom_pos.mp ((hall q hlt hne).symm ▸ Nat.one_pos)
    have hle := (List.subperm_of_subset (List.nodup_range.filter _) hsubset).length_le
    have hge := h.length_received hr
    rw [List.length_map] at hle
    have hp : 0 < p := Nat.zero_lt_of_lt hr
    change (others p r).length ≤ _ at hle
    omega

/-- A rank that is done has sent to all the others. -/
theorem RankInvariant.perm_sent {k : Rank} (h : RankInvariant t env p array r k) (hr : r < p)
    (hn : k.sent.length + 1 = p) : k.sent.Perm (others p r) := by
  rw [h.sent]
  exact perm_dests hr hn

/-- When all have returned, nothing is on its way. -/
theorem Invariant.inFlight_eq_nil (h : Invariant t env p array s)
    (hall : ∀ r < p, (s.rank r).point = .returned) : s.inFlight = [] := by
  refine List.eq_nil_iff_forall_not_mem.mpr fun m hm ↦ ?_
  obtain ⟨hdest, hsound⟩ := h.inFlight m hm
  have hpositive : 0 < s.onTheWay m.arrival.source m.dest :=
    List.countP_pos_iff.mpr ⟨m, hm, decide_eq_true ⟨rfl, rfl⟩⟩
  have hcount := h.conserved m.arrival.source hsound.source_lt m.dest hdest
  have hsent := h.count_sent hsound.source_lt (q := m.dest)
  have hzero := le_antisymm ((h.rank m.dest hdest).returned (hall m.dest hdest))
    (h.receivedNum_nonneg hdest)
  have hone := (h.receivedNum_eq_zero hdest).mp hzero m.arrival.source hsound.source_lt
    (h.source_ne hm)
  omega

end

/-! ## There is always a step -/

section

variable {cfg : Config} {t : TypeSlot} {env : Env} {mode : TstMode} {p : ℕ}
  {array : ℕ → ℕ → Memory} {mpi : Surroundings} {room : ℕ} {s : State} {r : ℕ}

/-- What is on its way can be found by a probe. -/
theorem exists_probed {inFlight : List Message} {m : Message} (hm : m ∈ inFlight) :
    ∃ m', Probed inFlight m.dest m' := by
  have hsome : (inFlight.find? fun m' ↦ m'.dest = m.dest).isSome :=
    List.find?_isSome.mpr ⟨m, hm, decide_eq_true rfl⟩
  obtain ⟨m', hfind⟩ := Option.isSome_iff_exists.mp hsome
  obtain ⟨hdest, before, behind, heq, hbefore⟩ := List.find?_eq_some_iff_append.mp hfind
  exact ⟨m', before, behind, heq, of_decide_eq_true hdest,
    fun x hx hboth ↦ by simpa [hboth.1] using hbefore x hx⟩

theorem exists_matched {inFlight : List Message} {m : Message} (hm : m ∈ inFlight) :
    ∃ m' rest, Matched inFlight m.dest m.arrival.source m.arrival.tag m' rest := by
  have hsome : (inFlight.find? fun m' ↦ m'.dest = m.dest ∧ m'.arrival.source = m.arrival.source ∧
      m'.arrival.tag = m.arrival.tag).isSome :=
    List.find?_isSome.mpr ⟨m, hm, decide_eq_true ⟨rfl, rfl, rfl⟩⟩
  obtain ⟨m', hfind⟩ := Option.isSome_iff_exists.mp hsome
  obtain ⟨hthis, before, behind, heq, hbefore⟩ := List.find?_eq_some_iff_append.mp hfind
  exact ⟨m', _, before, behind, heq, rfl, of_decide_eq_true hthis,
    fun x hx hall ↦ by simpa [hall] using hbefore x hx⟩

theorem RankStep.step {k : Rank} {inFlight : List Message}
    (h : RankStep cfg t env mode mpi p array room r (s.rank r) s.inFlight k inFlight) :
    ∃ s', Step cfg t env mode mpi p array room s s' := ⟨_, r, k, inFlight, h, rfl⟩

/-- Only `MPI_Probe` waits. -/
theorem Invariant.exists_step_of_ne_drain (h : Invariant t env p array s)
    (hreturned : (s.rank r).point ≠ .returned) (hdrain : (s.rank r).point ≠ .drain) :
    ∃ s', Step cfg t env mode mpi p array room s s' := by
  obtain ⟨hr, hafter⟩ := h.after rfl hreturned
  cases hpoint : (s.rank r).point with
  | loop dest =>
    by_cases hself : dest = r
    · exact (RankStep.leave hpoint hself).step
    by_cases hroom : 0 ≤ env.valuesNum ∧ HasRoom mpi room s.inFlight r
    · exact (RankStep.ibsend hpoint hself hroom.1 hroom.2).step
    · exact (RankStep.refuse hpoint hself hroom).step
  | iprobe dest => exact (RankStep.iprobeNone hpoint).step
  | recv dest source tag =>
    obtain ⟨rfl, m, hm, rfl, rfl⟩ := h.found r hr dest source tag hpoint
    obtain ⟨m', rest, hmatched⟩ := exists_matched hm
    rw [(h.inFlight m hm).2.tag_eq] at hmatched
    exact (RankStep.recv hpoint hmatched).step
  | waitall => exact (RankStep.waitall hpoint).step
  | drain => exact absurd hpoint hdrain
  | returned => exact absurd hpoint hreturned
  | stopped stop =>
    rw [hpoint] at hafter
    exact hafter.elim
  | aborted =>
    rw [hpoint] at hafter
    exact hafter.elim

/-- **No deadlock.** A rank that waits has not been heard by somebody it waits for, who either has
yet to send to it or has sent what is then found. -/
theorem Invariant.exists_step (h : Invariant t env p array s)
    (hreturned : (s.rank r).point ≠ .returned) :
    ∃ s', Step cfg t env mode mpi p array room s s' := by
  by_cases hdrain : (s.rank r).point = .drain
  · obtain ⟨hr, hafter⟩ := h.after hdrain nofun
    by_cases hleft : 0 < (s.rank r).receivedNum
    · have hzero := mt (h.receivedNum_eq_zero hr).mpr hleft.ne'
      push Not at hzero
      obtain ⟨q, hq, hne, hone⟩ := hzero
      by_cases hsent : r ∈ (s.rank q).sent
      · -- The message of `q` is on its way.
        have hpositive : 0 < (s.rank q).sent.count r := List.count_pos_iff.mpr hsent
        have hcount := h.conserved q hq r hr
        have hle := h.count_sent hq (q := r)
        have hway : 0 < s.onTheWay q r := by omega
        obtain ⟨m, hm, hboth⟩ := List.countP_pos_iff.mp hway
        obtain ⟨m', hprobed⟩ := exists_probed hm
        rw [(of_decide_eq_true hboth).2] at hprobed
        exact (RankStep.probe hdrain hleft hprobed).step
      · -- The rank `q` is still in the first loop.
        have hrank := h.rank q hq
        have hmore : (s.rank q).sent.length + 1 ≠ p := fun hp ↦
          hsent ((hrank.perm_sent hq hp).mem_iff.mpr (mem_others.mpr ⟨hr, hne.symm⟩))
        refine h.exists_step_of_ne_drain (r := q) (fun hpoint ↦ hmore ?_) fun hpoint ↦ hmore ?_
        · have hafter := hrank.after
          rwa [hpoint] at hafter
        · have hafter := hrank.after
          rwa [hpoint] at hafter
    · exact (RankStep.exit hdrain hleft).step
  · exact h.exists_step_of_ne_drain hreturned hdrain

end

/-! ## Every run ends -/

/-- The number of steps that a rank has left, if two are counted for each receive elsewhere. -/
def Rank.toDo (p : ℕ) (k : Rank) : ℕ :=
  match k.point with
  | .loop _ => 5 * (p - 1 - k.sent.length) + 3
  | .iprobe _ => 5 * (p - 1 - k.sent.length) + 5
  | .recv (some _) _ _ => 5 * (p - 1 - k.sent.length) + 4
  | .recv none _ _ => 0
  | .waitall => 2
  | .drain => 1
  | .returned => 0
  | .stopped _ => 0
  | .aborted => 0

/-- What is left to be done by all of them. -/
def State.measure (p : ℕ) (s : State) : ℕ :=
  2 * s.inFlight.length + ∑ r ∈ Finset.range p, (s.rank r).toDo p

section

variable {cfg : Config} {t : TypeSlot} {env : Env} {mode : TstMode} {p : ℕ}
  {array : ℕ → ℕ → Memory} {mpi : Surroundings} {room : ℕ} {s s' : State} {r : ℕ}

theorem State.measure_update (s : State) (hr : r < p) (k : Rank) (inFlight : List Message) :
    (s.update r k inFlight).measure p + (s.rank r).toDo p + 2 * s.inFlight.length
      = s.measure p + k.toDo p + 2 * inFlight.length := by
  have hmem : r ∈ Finset.range p := Finset.mem_range.mpr hr
  have hrest : ∑ q ∈ (Finset.range p).erase r, ((s.update r k inFlight).rank q).toDo p
      = ∑ q ∈ (Finset.range p).erase r, (s.rank q).toDo p :=
    Finset.sum_congr rfl fun q hq ↦ by
      rw [s.update_rank_of_ne k inFlight (Finset.ne_of_mem_erase hq)]
  rw [measure, measure, ← Finset.add_sum_erase _ _ hmem, ← Finset.add_sum_erase _ _ hmem, hrest,
    s.update_rank_self]
  change 2 * inFlight.length + _ + _ + _ = _
  omega

theorem toDo_afterProbe (k : Rank) (dest : Option ℕ) (message : String) (a : Arrival) :
    (k.goto (afterProbe p r dest message a)).toDo p ≤ dest.elim 0 fun _ ↦
      5 * (p - 1 - k.sent.length) + 4 := by
  rw [afterProbe]
  split_ifs
  · exact Nat.zero_le _
  · cases dest <;> exact le_refl _

theorem toDo_receive (k : Rank) (dest : Option ℕ) (source : ℕ) (tag : ℤ) (a : Arrival) :
    (k.receive cfg t env mode p r dest source tag a).toDo p ≤ dest.elim 1 fun _ ↦
      5 * (p - 1 - k.sent.length) + 3 := by
  rw [Rank.receive]
  cases checkReceived cfg t env mode r source tag a with
  | ok calls => cases dest <;> exact le_refl _
  | error stop => exact Nat.zero_le _

/-- Who has returned takes no more steps. -/
theorem RankStep.point_ne_returned {k k' : Rank} {inFlight inFlight' : List Message}
    (h : RankStep cfg t env mode mpi p array room r k inFlight k' inFlight') :
    k.point ≠ .returned := by
  cases h <;> simp [*]

/-- Every step decreases the measure. -/
theorem Invariant.measure_lt (h : Invariant t env p array s)
    (hstep : Step cfg t env mode mpi p array room s s') : s'.measure p < s.measure p := by
  obtain ⟨r, k, inFlight, hrank, rfl⟩ := hstep
  have hr : r < p := h.lt_of_point hrank.point_ne_returned
  have hless : k.toDo p + 2 * inFlight.length
      < (s.rank r).toDo p + 2 * s.inFlight.length := by
    cases hrank with
    | @ibsend dest hpoint hne hpositive hroom =>
      obtain ⟨-, hn, hdest⟩ := h.after hpoint nofun
      have hlast : (s.rank r).sent.length + 1 ≠ p := fun hp ↦
        hne (hdest.trans ((mod_eq_self_iff hr hn).mpr hp))
      simp only [Rank.toDo, hpoint, Rank.ibsend, List.length_append, List.length_singleton]
      omega
    | refuse hpoint hne hrefused =>
      simp only [Rank.toDo, hpoint, Rank.goto]
      omega
    | leave hpoint hdest =>
      simp only [Rank.toDo, hpoint, Rank.goto]
      omega
    | iprobeNone hpoint =>
      simp only [Rank.toDo, hpoint, Rank.goto]
      omega
    | iprobe hpoint hprobed =>
      refine Nat.add_lt_add_right ?_ _
      refine (toDo_afterProbe _ _ _ _).trans_lt ?_
      simp only [Rank.toDo, hpoint]
      exact Nat.lt_succ_self _
    | @recv dest source tag m _ hpoint hmatched =>
      have hlength : s.inFlight.length = inFlight.length + 1 := hmatched.perm.length_eq
      have hle : ((s.rank r).receive cfg t env mode p r dest source tag m.arrival).toDo p ≤ _ :=
        toDo_receive _ _ _ _ _
      cases dest with
      | none =>
        simp only [Rank.toDo, hpoint, Option.elim] at hle ⊢
        omega
      | some dest =>
        simp only [Rank.toDo, hpoint, Option.elim] at hle ⊢
        omega
    | waitall hpoint =>
      simp only [Rank.toDo, hpoint, Rank.goto]
      omega
    | probe hpoint hleft hprobed =>
      refine Nat.add_lt_add_right ?_ _
      refine (toDo_afterProbe _ _ _ _).trans_lt ?_
      simp only [Rank.toDo, hpoint]
      exact Nat.one_pos
    | exit hpoint hleft =>
      simp only [Rank.toDo, hpoint, Rank.goto]
      omega
  have hupdate := s.measure_update hr k inFlight
  omega

end

/-! ## The initialisation -/

/-- `env->mpi_buffer_size`, if it is one. -/
def bufferBytes (t : TypeSlot) (env : Env) (mpi : Surroundings) (p : ℕ) : ℤ :=
  (1 + mpi.numThreads) * (t.size * env.valuesNum * (p - 1) + p * mpi.bsendOverhead)

/-- The sizes that `_init` computes are `int`s on the way, those of the arrays are positive and that
of the attached buffer is not negative. -/
structure InitFits (t : TypeSlot) (env : Env) (mpi : Surroundings) (p : ℕ) : Prop where
  block : HasBlock t env.valuesNum
  num : FitsInt (1 + mpi.numThreads)
  values : FitsInt (t.size * env.valuesNum)
  arrays : FitsInt (t.size * env.valuesNum * (p - 1))
  overheads : FitsInt (p * mpi.bsendOverhead)
  sum : FitsInt (t.size * env.valuesNum * (p - 1) + p * mpi.bsendOverhead)
  buffer : FitsInt (bufferBytes t env mpi p)
  buffer_nonneg : 0 ≤ bufferBytes t env mpi p

section

variable {cfg : Config} {t : TypeSlot} {env : Env} {mpi : Surroundings} {p r room : ℕ}

theorem mpiBufferSize_eq_some_iff {x : ℤ} : mpiBufferSize t env mpi p = some x ↔
    (FitsInt (1 + mpi.numThreads) ∧ FitsInt (t.size * env.valuesNum) ∧
      FitsInt (t.size * env.valuesNum * (p - 1)) ∧ FitsInt (p * mpi.bsendOverhead) ∧
      FitsInt (t.size * env.valuesNum * (p - 1) + p * mpi.bsendOverhead) ∧
      FitsInt (bufferBytes t env mpi p)) ∧ bufferBytes t env mpi p = x := by
  simp only [mpiBufferSize, Option.bind_eq_bind, Option.bind_eq_some_iff,
    checkedSigned_eq_some_iff]
  constructor
  · rintro ⟨_, ⟨hnum, rfl⟩, _, ⟨hvalues, rfl⟩, _, ⟨harrays, rfl⟩, _, ⟨hoverheads, rfl⟩, _,
      ⟨hsum, rfl⟩, hbuffer, rfl⟩
    exact ⟨⟨hnum, hvalues, harrays, hoverheads, hsum, hbuffer⟩, rfl⟩
  · rintro ⟨⟨hnum, hvalues, harrays, hoverheads, hsum, hbuffer⟩, rfl⟩
    exact ⟨_, ⟨hnum, rfl⟩, _, ⟨hvalues, rfl⟩, _, ⟨harrays, rfl⟩, _, ⟨hoverheads, rfl⟩, _,
      ⟨hsum, rfl⟩, hbuffer, rfl⟩

/-- If `_init` gets through, everything was an `int`. -/
theorem fits_of_init (hp : 1 ≤ p) {arrays : List Memory}
    (h : tstP2pAlltoallProbeAnysourceInit cfg t env mpi p r = some (arrays, room)) :
    InitFits t env mpi p ∧ bufferBytes t env mpi p = room := by
  simp only [tstP2pAlltoallProbeAnysourceInit, Option.bind_eq_bind, Option.bind_eq_some_iff,
    mpiBufferSize_eq_some_iff, mallocInt_eq_some_iff, Option.pure_def, Option.some_inj,
    Prod.mk.injEq] at h
  obtain ⟨arrays', harrays, _, ⟨⟨hnum, hvalues, hproduct, hoverheads, hsum, hbuffer⟩, rfl⟩, _,
    hroom, rfl, rfl⟩ := h
  -- there is an array for the first rank
  obtain ⟨q, rfl⟩ := Nat.exists_eq_succ_of_ne_zero (Nat.one_le_iff_ne_zero.mp hp)
  rw [List.range_succ_eq_map, List.mapM_cons] at harrays
  obtain ⟨_, hfirst, -⟩ := Option.bind_eq_some_iff.mp harrays
  obtain ⟨_, hset, -⟩ := Option.bind_eq_some_iff.mp hfirst
  exact ⟨⟨hasBlock_of_standardBuffer hset, hnum, hvalues, hproduct, hoverheads, hsum, hbuffer,
    hroom ▸ Int.natCast_nonneg _⟩, hroom⟩

/-- If everything is an `int`, `_init` gets through. -/
theorem init_eq (hfits : InitFits t env mpi p) {array : ℕ → Memory}
    (hset : ∀ q, sendBufferArray cfg t env r q = some (array q)) :
    tstP2pAlltoallProbeAnysourceInit cfg t env mpi p r
      = some ((List.range p).map array, (bufferBytes t env mpi p).toNat) := by
  have halloc : ∃ m, tstTypeAllocvalues t env.valuesNum = some m := ⟨_, if_pos hfits.block⟩
  obtain ⟨m, hm⟩ := halloc
  have hbuffer := mpiBufferSize_eq_some_iff.mpr
    ⟨⟨hfits.num, hfits.values, hfits.arrays, hfits.overheads, hfits.sum, hfits.buffer⟩, rfl⟩
  have harrays : (List.range p).mapM (fun i ↦ do
      let sendBuffer ← sendBufferArray cfg t env r i
      let _ ← tstTypeAllocvalues t env.valuesNum
      return sendBuffer) = some ((List.range p).map array) := by
    simp only [hm, hset, Option.bind_eq_bind, Option.bind_some]
    exact List.mapM_pure
  rw [tstP2pAlltoallProbeAnysourceInit, harrays, hbuffer]
  simp only [Option.bind_eq_bind, Option.bind_some, mallocInt, if_pos hfits.buffer_nonneg,
    Option.pure_def]

end

/-! ## The test works -/

/-- What a test does that works, in a state that is reached. -/
structure ProbeWorks (cfg : Config) (t : TypeSlot) (env : Env) (mode : TstMode)
    (mpi : Surroundings) (p : ℕ) (array : ℕ → ℕ → Memory) (room : ℕ) (s : State) : Prop where
  /-- As long as a rank has not returned, there is a step. -/
  noDeadlock : ∀ r < p, (s.rank r).point ≠ .returned →
    ∃ s', Step cfg t env mode mpi p array room s s'
  /-- No run goes on forever. -/
  terminates : Acc (fun s' s ↦ Step cfg t env mode mpi p array room s s') s
  /-- What has been sent to somebody, and this is done once at most, is on its way or has been
  received. -/
  once : ∀ r < p, ∀ q < p, (s.rank r).sent.count q ≤ 1 ∧
    s.onTheWay r q + (s.rank q).receivedFrom r = (s.rank r).sent.count q
  /-- `received_num` is not negative, and says how many have not been heard. -/
  counter : ∀ r < p, 0 ≤ (s.rank r).receivedNum ∧
    (s.rank r).receivedNum = p - 1 - (s.rank r).received.length
  /-- It is zero exactly when all the others have been heard. -/
  heard : ∀ r < p, (s.rank r).receivedNum = 0 ↔ ∀ q < p, q ≠ r → (s.rank r).receivedFrom q = 1
  /-- Nobody hears from itself, and what is in a buffer is the array that its source has prepared
  for the rank, with the number of both together. -/
  elements : ∀ r < p, ∀ a ∈ (s.rank r).received, a.source < p ∧ a.source ≠ r ∧
    standardBuffer cfg t env (wrapInt (a.source + r)) = some (array a.source r) ∧
    ∀ i < env.valuesNum.toNat, window t (a.buffer t env) i = window t (array a.source r) i
  /-- No `ERROR` is raised, MPI does not end the program, and no failure is recorded. -/
  quiet : ∀ r < p, (∀ stop, (s.rank r).point ≠ .stopped stop) ∧ (s.rank r).point ≠ .aborted ∧
    (s.rank r).calls = []
  /-- A rank that has returned has received one message from each of the others, and has sent one to
  each of them. -/
  returned : ∀ r < p, (s.rank r).point = .returned → ∀ q < p, q ≠ r →
    (s.rank r).receivedFrom q = 1 ∧ (s.rank r).sent.count q = 1
  /-- When all have returned, nothing is left on the communicator. -/
  empty : (∀ r < p, (s.rank r).point = .returned) → s.inFlight = []

/-- The initialisation gets through, and all is well in every state that is reached. -/
def AnySourceWorks (cfg : Config) (t : TypeSlot) (env : Env) (mode : TstMode) (mpi : Surroundings)
    (p : ℕ) : Prop :=
  ∃ (array : ℕ → ℕ → Memory) (room : ℕ),
    (∀ r < p, tstP2pAlltoallProbeAnysourceInit cfg t env mpi p r
      = some ((List.range p).map (array r), room)) ∧
    ∀ s, Reachable cfg t env mode mpi p array room s →
      ProbeWorks cfg t env mode mpi p array room s

section

variable {cfg : Config} {t : TypeSlot} {env : Env} {mode : TstMode} {mpi : Surroundings} {p : ℕ}
  {array : ℕ → ℕ → Memory} {room : ℕ} {s : State}

/-- With room for all messages everything works. -/
theorem probeWorks_of_reachable (ht : t ∈ initTypes cfg) (hnull : t.datatype ≠ .null)
    (hvalues : FitsInt env.valuesNum)
    (hset : ∀ r q : ℕ, standardBuffer cfg t env (wrapInt (r + q)) = some (array r q))
    (hroom : p = 1 ∨ 0 ≤ env.valuesNum ∧ (p - 1) * (mpi.packSize + mpi.bsendOverhead) ≤ room)
    (hs : Reachable cfg t env mode mpi p array room s) :
    ProbeWorks cfg t env mode mpi p array room s := by
  have hset' : ∀ r < p, ∀ q < p, sendBufferArray cfg t env r q = some (array r q) :=
    fun r _ q _ ↦ hset r q
  have h := hs.invariant ht hnull hvalues hset' hroom
  exact
    { noDeadlock := fun r _ hreturned ↦ h.exists_step hreturned
      terminates := Runs.acc_of_measure (State.measure p)
        (fun s s' hs hstep ↦ hs.step ht hnull hvalues hset' hroom hstep)
        (fun s s' hs hstep ↦ hs.measure_lt hstep) h
      once := fun r hr q hq ↦ ⟨h.count_sent hr, h.conserved r hr q hq⟩
      counter := fun r hr ↦ ⟨h.receivedNum_nonneg hr, (h.rank r hr).counter⟩
      heard := fun r hr ↦ h.receivedNum_eq_zero hr
      elements := fun r hr a ha ↦ by
        have hsound := (h.rank r hr).received a ha
        have hother := mem_others.mp (h.sources_subset hr (List.mem_map_of_mem ha))
        exact ⟨hother.1, hother.2, hset a.source r, fun i hi ↦
          Arrival.window_buffer ht hnull (hset a.source r) hsound.packet_eq hi⟩
      quiet := fun r hr ↦ ⟨fun stop hstop ↦ (hstop ▸ (h.rank r hr).after :),
        fun haborted ↦ (haborted ▸ (h.rank r hr).after :), (h.rank r hr).calls⟩
      returned := fun r hr hpoint q hq hne ↦ by
        have hrank := h.rank r hr
        have hafter := hrank.after
        rw [hpoint] at hafter
        have hzero := le_antisymm (hrank.returned hpoint) (h.receivedNum_nonneg hr)
        refine ⟨(h.receivedNum_eq_zero hr).mp hzero q hq hne, ?_⟩
        rw [(hrank.perm_sent hr hafter).count_eq]
        exact List.count_eq_one_of_mem (List.nodup_range.filter _) (mem_others.mpr ⟨hq, hne⟩)
      empty := h.inFlight_eq_nil }

/-- As long as nobody else does anything and MPI does not end the program, the first rank fills its
buffer with one message after the other. -/
theorem exists_filled (hquiet : ∀ s, Reachable cfg t env mode mpi p array room s →
    (s.rank 0).point ≠ .aborted) {n : ℕ} (hn : n < p) :
    ∃ s, Reachable cfg t env mode mpi p array room s ∧ (s.rank 0).point = .loop ((1 + n) % p) ∧
      s.buffered 0 = n ∧ n * (mpi.packSize + mpi.bsendOverhead) ≤ room ∧
      (0 < n → 0 ≤ env.valuesNum) := by
  induction n with
  | zero =>
    refine ⟨State.init p, .refl, ?_, rfl, by simp, nofun⟩
    rw [State.init_rank hn, Nat.zero_add]
  | succ n ih =>
    obtain ⟨s, hs, hpoint, hbuffered, -, -⟩ := ih (by omega)
    have hne : (1 + n) % p ≠ 0 := by
      rw [Nat.mod_eq_of_lt (by omega)]
      omega
    by_cases hroom : 0 ≤ env.valuesNum ∧ HasRoom mpi room s.inFlight 0
    · have hsend := hs.tail ⟨0, _, _, RankStep.ibsend hpoint hne hroom.1 hroom.2, rfl⟩
      -- nothing has arrived, so that the probe finds nothing
      have hprobe := hsend.tail ⟨0, _, _, RankStep.iprobeNone
        (congrArg Rank.point (State.update_rank_self ..)), rfl⟩
      refine ⟨_, hprobe, ?_, ?_, ?_, fun _ ↦ hroom.1⟩
      · rw [State.update_rank_self, ← Nat.add_assoc]
        exact congrArg Point.loop (Nat.mod_add_mod ..)
      · rw [State.buffered, State.update, State.update, List.countP_append]
        exact congrArg (· + 1) hbuffered
      · have hle := hroom.2
        rwa [HasRoom, ← State.buffered, hbuffered] at hle
    · have haborted := hs.tail ⟨0, _, _, RankStep.refuse hpoint hne hroom, rfl⟩
      refine absurd ?_ (hquiet _ haborted)
      rw [State.update_rank_self]
      rfl

end

/-- **Any source.** With any number of ranks, in whatever order the messages arrive and whatever
`MPI_Iprobe` finds, every rank receives one message from each of the others. It holds the array that
its source has prepared for this rank, which is the one that it is compared with. This is so exactly
if the sizes that `_init` computes are `int`s, those of the arrays positive ones, and, where there
is somebody to send to, the number of values is not negative and the buffer has room for all
messages. -/
theorem alltoall_probe_anysource_works_iff (cfg : Config) (t : TypeSlot) (ht : t ∈ initTypes cfg)
    (hnull : t.datatype ≠ .null) (env : Env) (hvalues : FitsInt env.valuesNum) (mode : TstMode)
    (mpi : Surroundings) (p : ℕ) (hp : 1 ≤ p) :
    AnySourceWorks cfg t env mode mpi p ↔ InitFits t env mpi p ∧
      (p = 1 ∨ 0 ≤ env.valuesNum ∧
        (p - 1) * (mpi.packSize + mpi.bsendOverhead) ≤ bufferBytes t env mpi p) := by
  constructor
  · rintro ⟨array, room, hinit, hworks⟩
    obtain ⟨hfits, hbytes⟩ := fits_of_init hp (hinit 0 hp)
    refine ⟨hfits, (Nat.eq_or_lt_of_le hp).imp Eq.symm fun hmany ↦ ?_⟩
    obtain ⟨s, -, -, -, hroom, hpositive⟩ := exists_filled (n := p - 1)
      (fun s hs ↦ ((hworks s hs).quiet 0 hp).2.1) (by omega)
    refine ⟨hpositive (by omega), ?_⟩
    rw [hbytes, ← Nat.cast_one, ← Nat.cast_sub hp]
    exact_mod_cast hroom
  · rintro ⟨hfits, hroom⟩
    choose array hset using fun r q : ℕ ↦
      exists_standardBuffer ht hnull hfits.block (wrapInt (r + q))
    refine ⟨array, _, fun r _ ↦ init_eq hfits (hset r), fun s hs ↦
      probeWorks_of_reachable ht hnull hvalues hset ?_ hs⟩
    refine hroom.imp_right (And.imp_right fun hle ↦ ?_)
    have hnonneg := hfits.buffer_nonneg
    rw [← Nat.cast_one, ← Nat.cast_sub hp] at hle
    have hcast : (((p - 1) * (mpi.packSize + mpi.bsendOverhead) : ℕ) : ℤ)
        ≤ bufferBytes t env mpi p := by
      exact_mod_cast hle
    omega

/-- Three ranks, with the overhead and the number of threads of a run without threads. -/
theorem alltoall_probe_anysource_works_iff_three :
    AnySourceWorks ⟨2, true, true, true, true, true, true, true, true⟩ (slotMpi2 6)
        ⟨27, 0, 6, 3, 0⟩ .strict ⟨1, 128, 12⟩ 3 ↔
      InitFits (slotMpi2 6) ⟨27, 0, 6, 3, 0⟩ ⟨1, 128, 12⟩ 3 ∧
        (3 = 1 ∨ (0 : ℤ) ≤ 3 ∧
          ((3 : ℕ) - 1) * ((12 : ℕ) + (128 : ℕ)) ≤ bufferBytes (slotMpi2 6) ⟨27, 0, 6, 3, 0⟩
            ⟨1, 128, 12⟩ 3) :=
  alltoall_probe_anysource_works_iff ⟨2, true, true, true, true, true, true, true, true⟩
    (slotMpi2 6) (by decide +kernel) (by decide +kernel) ⟨27, 0, 6, 3, 0⟩ (by decide) .strict
    ⟨1, 128, 12⟩ 3 (by decide)

/-- A million elements of `MPI_TYPE_MIX_ARRAY` are too much for five ranks. -/
theorem alltoall_probe_anysource_overflows :
    ¬∀ (cfg : Config) (t : TypeSlot), t ∈ initTypes cfg → t.datatype ≠ .null →
      ∀ env : Env, FitsInt env.valuesNum → 0 ≤ env.valuesNum → ∀ (mode : TstMode)
        (mpi : Surroundings), mpi.packSize ≤ t.size * env.valuesNum → ∀ p, 1 ≤ p →
        AnySourceWorks cfg t env mode mpi p := by
  intro h
  obtain ⟨array, room, hinit, -⟩ := h ⟨2, true, true, true, true, true, true, true, true⟩
    (slotMpi2 27) (by decide +kernel) (by decide +kernel) ⟨27, 0, 27, 1000000, 0⟩ (by decide)
    (by decide) .strict ⟨1, 128, 270000000⟩ (by decide +kernel) 5 (by decide)
  obtain ⟨hfits, -⟩ := fits_of_init (by decide) (hinit 0 (by decide))
  exact absurd hfits.buffer (by decide +kernel)

end AnySource

end P2P

end MpiTestSuite
