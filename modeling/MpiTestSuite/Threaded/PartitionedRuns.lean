import Mathlib.Algebra.Order.BigOperators.Group.Finset
import MpiTestSuite.Runs.Conditions
import MpiTestSuite.Runs.Outline
import MpiTestSuite.Threaded.Partitioned

/-!
# The runs of the partitioned tests

A partition goes from rank to rank: what a worker waits for needs that the rank before has marked
the partition ready, which has waited for the rank before it, and so on, until rank zero, which
waits for nobody before it marks its partitions ready. So the instructions have levels
(`Partitioned.level`), and no state is ever reached in which somebody is stuck, provided that the
threads leave their functions `_init` and that every signal that is waited for is sent
(`Partitioned.Genuine.exists_step`). Besides, every run comes to its end.
-/

open MpiTestSuite.Runs Relation

namespace MpiTestSuite

namespace Threaded

namespace Partitioned

variable (S : Partitioned)

/-! ## Levels -/

/-- What a party waits for. -/
inductive Condition
  /-- The global buffer of a rank has its size. -/
  | buffer (r : ℕ)
  /-- All processes have come to their barrier. -/
  | world
  /-- All threads of a rank have come to one. -/
  | threads (r : ℕ) (b : Barrier)
  /-- A receive partition of a rank has arrived. -/
  | arrived (q j : ℕ)
  | signaled (r tag : ℕ)

namespace Condition

def Holds (s : State) : Condition → Prop
  | buffer r => S.BufferReady s r
  | world => s.outside = true ∧ ∀ q < S.p, s.Has q (.enter .world)
  | threads r b => ∀ u < S.n + 1, .enter b ∈ s.done (r, u)
  | arrived q j => (q, j) ∈ s.arrived
  | signaled r tag => s.Has r (.signalSend tag)

/-- What an instruction waits for. -/
def waits (x : ℕ × ℕ) : PartitionedInstr → Set Condition
  | .awaitBuffer => {buffer x.1}
  | .leave .world => {world}
  | .leave b => {threads x.1 b}
  | .waitForPartition j => {arrived x.1 j}
  | .signalWait tag => {signaled x.1 tag}
  | .waitall => {c | ∃ j < S.numRecv, c = arrived x.1 j ∨ c = arrived ((x.1 + 1) % S.p) j}
  | _ => ∅

/-- Who has to do what for it. -/
def needs : Condition → Set ((ℕ × ℕ) × PartitionedInstr)
  | buffer r => {((r, S.n), .initBuffer)}
  | world => {y | ∃ q < S.p, y = ((q, S.n), .enter .world)}
  | threads r b => {y | ∃ u < S.n + 1, y = ((r, u), .enter b)}
  | arrived q j => {y | y = ((q, S.n), .startall ((q + 1) % S.p) ((q + S.p - 1) % S.p)) ∨
      (∃ r, r = (q + S.p - 1) % S.p ∧ y = ((r, S.n), .startall q ((r + S.p - 1) % S.p))) ∨
      ∃ i, S.Covered i j ∧ y = (((q + S.p - 1) % S.p, i), .pready i)}
  | signaled r tag => {y | y.2 ∈ S.program y.1 ∧ y.1.1 = r ∧ y.2 = .signalSend tag}

end Condition

/-- A partition is passed on from rank to rank, and comes back to rank zero in the end. -/
def level (x : ℕ × ℕ) : PartitionedInstr → ℕ
  | .initBuffer => 0
  | .awaitBuffer | .setArray => 1
  | .startall _ _ | .enter .world => 2
  | .leave .world => 3
  | .enter .before => 4
  | .leave .before => 5
  | .waitForPartition _ => if x.1 = 0 then 5 + 3 * S.p else 5 + 3 * x.1
  | .signalSend _ => 5 + 3 * x.1
  | .signalWait _ | .memcpy _ => 6 + 3 * x.1
  | .pready _ => 7 + 3 * x.1
  | .waitall => 5 + 3 * S.p
  | .enter .behind => 6 + 3 * S.p
  | .leave .behind => 7 + 3 * S.p

section

variable {S}

/-- A receive partition is made of send partitions that there are. -/
theorem lt_of_covered {i j : ℕ} (hj : j < S.numRecv) (hi : S.Covered i j) : i < S.n := by
  have hle : S.ratio * (j + 1) ≤ S.n :=
    (Nat.mul_le_mul_left _ hj).trans (Nat.mul_div_le S.n S.ratio)
  exact hi.2.trans_le hle

/-- The instructions between the barriers have levels between those of the barriers. -/
theorem level_work (h : S.Admitted) {r u : ℕ} (hr : r < S.p) (hu : u < S.n) {a : PartitionedInstr}
    (ha : a ∈ S.work r u) : 5 ≤ S.level (r, u) a ∧ S.level (r, u) a ≤ 6 + 3 * S.p := by
  rcases (mem_work h.ratio hu).mp ha with rfl | ⟨-, rfl⟩ | ⟨j, -, -, rfl | ⟨-, -, i, -, -, rfl⟩⟩ |
    ⟨-, -, -, rfl⟩
  all_goals
    simp only [level]
    try split_ifs
    all_goals omega

theorem pairwise_level_append {x : ℕ × ℕ} {as bs : List PartitionedInstr} (m : ℕ)
    (has : as.Pairwise fun a b ↦ S.level x a ≤ S.level x b) (hle : ∀ a ∈ as, S.level x a ≤ m)
    (hbs : bs.Pairwise fun a b ↦ S.level x a ≤ S.level x b) (hge : ∀ b ∈ bs, m ≤ S.level x b) :
    (as ++ bs).Pairwise fun a b ↦ S.level x a ≤ S.level x b :=
  List.pairwise_append.mpr ⟨has, hbs, fun a ha b hb ↦ (hle a ha).trans (hge b hb)⟩

theorem sorted_work {r u : ℕ} (hr : r < S.p) (hu : u < S.n) :
    (S.work r u).Pairwise fun a b ↦ S.level (r, u) a ≤ S.level (r, u) b := by
  have hsend : S.HasSend u := ⟨Int.natCast_nonneg u, by exact_mod_cast hu⟩
  simp only [work, hsend, if_true, Int.toNat_natCast]
  split_ifs with h0 hrecv hrecv hrouted hrouted
  · simp [level, h0]
    omega
  · simp [level, h0]
  · have hsame : ∀ a ∈ PartitionedInstr.waitForPartition (S.recvPartitionNum u).toNat ::
        (List.range' 1 (S.ratio - 1)).map (fun i ↦ PartitionedInstr.signalSend (u + i)),
        S.level (r, u) a = 5 + 3 * r := by
      intro a ha
      rcases List.mem_cons.mp ha with rfl | ha
      · simp [level, h0]
      · obtain ⟨i, -, rfl⟩ := List.mem_map.mp ha
        rfl
    refine pairwise_level_append (5 + 3 * r) (List.pairwise_of_forall_mem_list fun a ha b hb ↦ ?_)
      (fun a ha ↦ (hsame a ha).le) (by simp [level]) (by simp [level])
    exact ((hsame a ha).trans (hsame b hb).symm).le
  all_goals simp [level, h0]

theorem sorted_program (h : S.Admitted) (x : ℕ × ℕ) :
    (S.program x).Pairwise fun a b ↦ S.level x a ≤ S.level x b := by
  obtain ⟨r, u⟩ := x
  by_cases hx : r < S.p ∧ u < S.n + 1
  · obtain ⟨hr, hu⟩ := hx
    rcases Nat.lt_or_eq_of_le (Nat.lt_succ_iff.mp hu) with hlt | rfl
    · have hwork := fun a ha ↦ level_work h hr hlt (a := a) ha
      rw [program_worker h hr hlt]
      refine pairwise_level_append 1 ?_ ?_ (pairwise_level_append (6 + 3 * S.p)
        (pairwise_level_append 5 ?_ ?_ (sorted_work hr hlt) fun a ha ↦ (hwork a ha).1) ?_ ?_ ?_) ?_
      · simp
      · simp [level]
      · simp [level]
      · simp [level]
      · intro a ha
        rcases List.mem_append.mp ha with hbarrier | ha
        · rcases List.mem_pair.mp hbarrier with rfl | rfl <;> simp only [level] <;> omega
        · exact (hwork a ha).2
      · simp [level]
      · simp [level]
      · intro b hb
        rcases List.mem_append.mp hb with hb | hbarrier
        · rcases List.mem_append.mp hb with hbarrier | hb
          · rcases List.mem_pair.mp hbarrier with rfl | rfl <;> simp [level]
          · exact (by decide : 1 ≤ 5).trans (hwork b hb).1
        · rcases List.mem_pair.mp hbarrier with rfl | rfl <;> simp only [level] <;> omega
    · rw [program_master h hr]
      split_ifs <;> simp [level] <;> omega
  · rw [program_eq_nil hx]
    exact .nil

/-- What a receive partition needs has a lower level than anything behind the partitions of the
rank before. -/
theorem needed_arrived (h : S.Admitted) {q j : ℕ} (hq : q < S.p) (hj : j < S.numRecv)
    {y : (ℕ × ℕ) × PartitionedInstr} (hy : y ∈ Condition.needs S (.arrived q j)) :
    y.2 ∈ S.program y.1 ∧ S.level y.1 y.2 ≤ 7 + 3 * ((q + S.p - 1) % S.p) := by
  have hprev : (q + S.p - 1) % S.p < S.p := Nat.mod_lt _ (Nat.zero_lt_of_lt hq)
  have hnext := (P2P.next_eq_iff hprev hq).mpr rfl
  rcases hy with rfl | ⟨r, rfl, rfl⟩ | ⟨i, hi, rfl⟩
  · exact ⟨(mem_startall h).mpr ⟨hq, rfl, rfl, rfl⟩, by simp only [level]; omega⟩
  · exact ⟨(mem_startall h).mpr ⟨hprev, rfl, hnext, rfl⟩, by simp only [level]; omega⟩
  · exact ⟨(mem_pready h).mpr ⟨hprev, lt_of_covered hj hi, rfl⟩, le_rfl⟩

/-- Nobody waits for somebody who waits for him. -/
theorem leveled (h : S.Admitted) :
    Conditions.Leveled (Condition.waits S) (Condition.needs S) S.level S.program where
  sorted := sorted_program h
  needed x a ha c hc y hy := by
    obtain ⟨r, u⟩ := x
    cases a with
    | awaitBuffer =>
      obtain rfl := hc
      obtain rfl := hy
      obtain ⟨hr, -⟩ := (mem_awaitBuffer h).mp ha
      exact ⟨(mem_initBuffer h).mpr ⟨hr, rfl⟩, Nat.zero_lt_one⟩
    | leave b =>
      obtain ⟨hr, hu, -⟩ := (mem_leave h).mp ha
      cases b with
      | world =>
        obtain rfl := hc
        obtain ⟨q, hq, rfl⟩ := hy
        exact ⟨(mem_enter h).mpr ⟨hq, Nat.lt_succ_self _, fun _ ↦ rfl⟩, Nat.lt_succ_self 2⟩
      | before =>
        obtain rfl := hc
        obtain ⟨t, ht, rfl⟩ := hy
        exact ⟨(mem_enter h).mpr ⟨hr, ht, fun hb ↦ by cases hb⟩, Nat.lt_succ_self 4⟩
      | behind =>
        obtain rfl := hc
        obtain ⟨t, ht, rfl⟩ := hy
        exact ⟨(mem_enter h).mpr ⟨hr, ht, fun hb ↦ by cases hb⟩, by simp only [level]; omega⟩
    | waitForPartition j =>
      obtain rfl := hc
      obtain ⟨hr, -, hj, -⟩ := (mem_waitForPartition h).mp ha
      obtain ⟨hmem, hle⟩ := needed_arrived h hr hj hy
      refine ⟨hmem, hle.trans_lt ?_⟩
      rw [P2P.previous_eq hr]
      simp only [level]
      split_ifs <;> omega
    | signalWait tag =>
      obtain rfl := hc
      obtain ⟨⟨r', t⟩, b⟩ := y
      obtain ⟨hmem, hrank, hsignal⟩ := hy
      obtain rfl : r' = r := hrank
      obtain rfl : b = .signalSend tag := hsignal
      exact ⟨hmem, by simp only [level]; omega⟩
    | waitall =>
      obtain ⟨hr, -⟩ := (mem_waitall h).mp ha
      have hpos : 0 < S.p := Nat.zero_lt_of_lt hr
      have hlast : ∀ q, 7 + 3 * ((q + S.p - 1) % S.p) < 5 + 3 * S.p := fun q ↦ by
        have hlt : (q + S.p - 1) % S.p < S.p := Nat.mod_lt _ hpos
        omega
      obtain ⟨j, hj, rfl | rfl⟩ := hc
      · obtain ⟨hmem, hle⟩ := needed_arrived h hr hj hy
        exact ⟨hmem, hle.trans_lt (hlast r)⟩
      · obtain ⟨hmem, hle⟩ := needed_arrived h (Nat.mod_lt _ hpos) hj hy
        exact ⟨hmem, hle.trans_lt (hlast _)⟩
    | initBuffer | setArray | startall | enter | pready | signalSend | memcpy =>
      exact absurd hc (Set.notMem_empty c)

/-! ## Freedom from deadlock -/

/-- Whoever waits for a signal gets it. -/
def Signaling (S : Partitioned) : Prop :=
  ∀ x tag, .signalWait tag ∈ S.program x → ∃ u, .signalSend tag ∈ S.program (x.1, u)

/-- The global buffer gets the size that the threads wait for. -/
def SizeKept (S : Partitioned) : Prop :=
  ∃ size, S.bufferSize = some size ∧ sizeT (globalBufferSize size) = 2 * size % 2 ^ 64

variable {s s' : State}

theorem Genuine.sure (h : S.Genuine s) (hadmitted : S.Admitted) {x : ℕ × ℕ}
    {a : PartitionedInstr} (hall : ∀ c ∈ Condition.waits S x a, c.Holds S s) : S.Sure s x a := by
  cases a with
  | awaitBuffer | waitForPartition | signalWait => exact hall _ rfl
  | leave b =>
    cases b with
    | world | before | behind => exact hall _ rfl
  | waitall =>
    refine ⟨fun j hj ↦ hall _ ⟨j, hj, .inl rfl⟩, fun d c ⟨u, hstart⟩ j hj ↦ ?_⟩
    obtain ⟨-, -, rfl, -⟩ := (mem_startall hadmitted).mp (h.mem_of_done hstart)
    exact hall _ ⟨j, hj, .inr rfl⟩
  | initBuffer | setArray | startall | enter | pready | signalSend | memcpy => trivial

/-- **No deadlock.** As long as something is left to be done, there is a step. -/
theorem Genuine.exists_step (h : S.Genuine s) (hadmitted : S.Admitted)
    (hsignal : S.Signaling) (hsize : S.SizeKept) {x : ℕ × ℕ} (hx : s.todo x ≠ []) :
    ∃ s', S.Step s s' := by
  obtain ⟨y, a, rest, htodo, hready | ⟨c, hc, hnot, hneeds⟩⟩ :=
    (leveled hadmitted).exists_ready h.split (Condition.Holds S s) hx
  · exact ⟨_, .execute htodo (h.sure hadmitted hready)⟩
  have ha := h.mem_of_todo htodo
  have harrive : ∀ q j, q < S.p → j < S.numRecv → (q, j) ∉ s.arrived →
      (∀ y ∈ Condition.needs S (.arrived q j), y.2 ∈ s.done y.1) → ∃ s', S.Step s s' := by
    intro q j hq hj hnew hneeds
    exact ⟨_, .arrive ⟨S.n, hneeds _ (.inl rfl)⟩ ⟨S.n, hneeds _ (.inr (.inl ⟨_, rfl, rfl⟩))⟩ hj
      (fun i hi ↦ ⟨i, hneeds _ (.inr (.inr ⟨i, hi, rfl⟩))⟩) hnew⟩
  obtain ⟨r, u⟩ := y
  cases a with
  | awaitBuffer =>
    obtain rfl := hc
    obtain ⟨size, hsome, hkept⟩ := hsize
    have hdone : .initBuffer ∈ s.done (r, S.n) := hneeds _ rfl
    exact absurd ⟨size, hsome, by rwa [if_pos hdone]⟩ hnot
  | leave b =>
    cases b with
    | world =>
      obtain rfl := hc
      have hentered : ∀ q < S.p, s.Has q (.enter .world) := fun q hq ↦ ⟨S.n, hneeds _ ⟨q, hq, rfl⟩⟩
      cases houtside : s.outside with
      | true => exact absurd ⟨houtside, hentered⟩ hnot
      | false => exact ⟨_, .outside houtside⟩
    | before | behind =>
      obtain rfl := hc
      exact absurd (fun t ht ↦ hneeds _ ⟨t, ht, rfl⟩) hnot
  | waitForPartition j =>
    obtain rfl := hc
    obtain ⟨hr, -, hj, -⟩ := (mem_waitForPartition hadmitted).mp ha
    exact harrive r j hr hj hnot hneeds
  | signalWait tag =>
    obtain rfl := hc
    obtain ⟨t, ht⟩ := hsignal _ tag ha
    exact absurd ⟨t, hneeds ((r, t), .signalSend tag) ⟨ht, rfl, rfl⟩⟩ hnot
  | waitall =>
    obtain ⟨hr, -⟩ := (mem_waitall hadmitted).mp ha
    obtain ⟨j, hj, rfl | rfl⟩ := hc
    · exact harrive r j hr hj hnot hneeds
    · exact harrive _ j (Nat.mod_lt _ (Nat.zero_lt_of_lt hr)) hj hnot hneeds
  | initBuffer | setArray | startall | enter | pready | signalSend | memcpy =>
    exact absurd hc (Set.notMem_empty c)

/-! ## Termination -/

theorem Genuine.length_arrived_le (h : S.Genuine s) (hadmitted : S.Admitted) :
    s.arrived.length ≤ S.p * S.numRecv := by
  have hsub : s.arrived.toFinset ⊆ Finset.range S.p ×ˢ Finset.range S.numRecv := by
    intro y hy
    obtain ⟨hj, r, ⟨d, u, hstart⟩, -⟩ := h.arrived y.1 y.2 (List.mem_toFinset.mp hy)
    obtain ⟨hq, -⟩ := (mem_startall hadmitted).mp (h.mem_of_done hstart)
    exact Finset.mem_product.mpr ⟨Finset.mem_range.mpr hq, Finset.mem_range.mpr hj⟩
  have hcard := Finset.card_le_card hsub
  rwa [List.toFinset_card_of_nodup h.nodup, Finset.card_product, Finset.card_range,
    Finset.card_range] at hcard

/-- What is left to happen. -/
def left (S : Partitioned) (s : State) : ℕ :=
  (∑ x ∈ Finset.range S.p ×ˢ Finset.range (S.n + 1), (s.todo x).length)
    + (if s.outside then 0 else 1) + (S.p * S.numRecv - s.arrived.length)

theorem Genuine.left_lt (h : S.Genuine s) (hadmitted : S.Admitted) (hstep : S.Step s s') :
    left S s' < left S s := by
  have hbound := (h.step hstep).length_arrived_le hadmitted
  rw [left, left]
  cases hstep with
  | @execute x a rest htodo hsure =>
    have hx : x ∈ Finset.range S.p ×ˢ Finset.range (S.n + 1) := by
      by_contra hnot
      rw [Finset.mem_product, Finset.mem_range, Finset.mem_range] at hnot
      have hsplit := h.split x
      rw [program_eq_nil hnot, htodo] at hsplit
      simp at hsplit
    have hless : ∑ y ∈ Finset.range S.p ×ˢ Finset.range (S.n + 1),
          ((S.execute s x a rest).todo y).length
        < ∑ y ∈ Finset.range S.p ×ˢ Finset.range (S.n + 1), (s.todo y).length := by
      refine Finset.sum_lt_sum (fun y _ ↦ ?_) ⟨x, hx, ?_⟩
      · rw [Partitioned.execute]
        rcases eq_or_ne y x with rfl | hy
        · simp [htodo]
        · simp [hy]
      · simp [Partitioned.execute, htodo]
    exact Nat.add_lt_add_right (Nat.add_lt_add_right hless _) _
  | outside hfalse =>
    rw [hfalse]
    simp
  | @arrive r q j d c hd hc hj hready hnew =>
    have hlength : (S.arrive s r q j).arrived.length = s.arrived.length + 1 := by
      simp [Partitioned.arrive]
    have hsame : ∀ y, (S.arrive s r q j).todo y = s.todo y := fun _ ↦ rfl
    have houtside : (S.arrive s r q j).outside = s.outside := rfl
    simp only [hsame, houtside]
    omega

/-- If nobody is ever stuck, some run comes to its end. -/
theorem exists_finished (hadmitted : S.Admitted) (sendBuffer recvBuffer : ℕ → Memory)
    (hstep : ∀ s, S.Reachable sendBuffer recvBuffer s → ∀ x, s.todo x ≠ [] → ∃ s', S.Step s s') :
    ∃ s, S.Reachable sendBuffer recvBuffer s ∧ ∀ x, s.todo x = [] := by
  have hacc : Acc (fun t s ↦ S.Step s t) (S.initial sendBuffer recvBuffer) :=
    acc_of_measure (I := S.Genuine) (left S) (fun _ _ hs hstep ↦ hs.step hstep)
      (fun _ _ hs hstep ↦ hs.left_lt hadmitted hstep) (.initial sendBuffer recvBuffer)
  obtain ⟨s, hrun, hrest⟩ := exists_final_of_acc hacc
  have hreach : S.Reachable sendBuffer recvBuffer s := hrun.lift id fun _ _ ↦ .inl
  refine ⟨s, hreach, fun x ↦ ?_⟩
  by_contra hx
  obtain ⟨s', hs'⟩ := hstep s hreach x hx
  exact hrest s' hs'

/-! ## How often something is done -/

theorem nodup_work {r u : ℕ} (hu : u < S.n) : (S.work r u).Nodup := by
  have hsend : S.HasSend u := ⟨Int.natCast_nonneg u, by exact_mod_cast hu⟩
  have hsignals : ((List.range' 1 (S.ratio - 1)).map fun i ↦
      PartitionedInstr.signalSend (u + i)).Nodup :=
    List.Nodup.map (fun i j hij ↦ Nat.add_left_cancel (PartitionedInstr.signalSend.inj hij))
      List.nodup_range'
  simp only [work, hsend, if_true, Int.toNat_natCast]
  split_ifs <;> simp [List.nodup_append, hsignals]
  -- the signals are neither copies nor marks
  rintro _ i - - rfl
  exact ⟨by simp, by simp⟩

/-- Nobody does anything twice. -/
theorem nodup_program (h : S.Admitted) (x : ℕ × ℕ) : (S.program x).Nodup := by
  obtain ⟨r, u⟩ := x
  by_cases hx : r < S.p ∧ u < S.n + 1
  · obtain ⟨hr, hu⟩ := hx
    rcases Nat.lt_or_eq_of_le (Nat.lt_succ_iff.mp hu) with hlt | rfl
    · have hother := fun {a} ha ↦ not_mem_work h (r := r) hlt (a := a) ha
      have hne : ∀ b, b.isWork = false → ∀ a ∈ S.work r u, ¬a = b := by
        rintro b hb a ha rfl
        exact hother hb ha
      have hbehind := hne (.enter .behind) rfl
      have hbehind' := hne (.leave .behind) rfl
      have hawait : .awaitBuffer ∉ S.work r u := hother rfl
      have hbefore : .enter .before ∉ S.work r u := hother rfl
      have hbefore' : .leave .before ∉ S.work r u := hother rfl
      rw [program_worker h hr hlt]
      simp [List.nodup_append, nodup_work hlt, hawait, hbefore, hbefore']
      exact fun a ha ↦ ⟨hbehind a ha, hbehind' a ha⟩
    · rw [program_master h hr]
      split_ifs <;> simp
  · rw [program_eq_nil hx]
    exact List.nodup_nil

/-- What comes next has not been done yet. -/
theorem Genuine.not_mem_done (h : S.Genuine s) (hadmitted : S.Admitted) {x : ℕ × ℕ}
    {a : PartitionedInstr} {rest : List PartitionedInstr} (htodo : s.todo x = a :: rest) :
    a ∉ s.done x := by
  have hnodup := nodup_program hadmitted x
  rw [← h.split x, htodo] at hnodup
  exact fun hdone ↦ (List.nodup_append.mp hnodup).2.2 a hdone a List.mem_cons_self rfl

/-- How often the threads of a rank do something in their programs. -/
def times (S : Partitioned) (r : ℕ) (a : PartitionedInstr) : ℕ :=
  ∑ u ∈ Finset.range (S.n + 1), (S.program (r, u)).count a

/-- How often they have done it. -/
def timesDone (S : Partitioned) (s : State) (r : ℕ) (a : PartitionedInstr) : ℕ :=
  ∑ u ∈ Finset.range (S.n + 1), (s.done (r, u)).count a

/-- What one thread does is done once. -/
theorem times_eq_one (h : S.Admitted) {r u : ℕ} {a : PartitionedInstr} (hu : u < S.n + 1)
    (hmem : ∀ t, a ∈ S.program (r, t) ↔ t = u) : S.times r a = 1 := by
  have hcount : ∀ t ∈ Finset.range (S.n + 1),
      (S.program (r, t)).count a = if t = u then 1 else 0 := fun t _ ↦ by
    rw [(nodup_program h (r, t)).count]
    exact if_congr (hmem t) rfl rfl
  rw [times, Finset.sum_congr rfl hcount, Finset.sum_ite_eq', if_pos (Finset.mem_range.mpr hu)]

theorem Genuine.timesDone_le (h : S.Genuine s) (r : ℕ) (a : PartitionedInstr) :
    S.timesDone s r a ≤ S.times r a := by
  refine Finset.sum_le_sum fun u _ ↦ ?_
  rw [← h.split (r, u), List.count_append]
  exact Nat.le_add_right _ _

theorem Genuine.timesDone_eq (h : S.Genuine s) (htodo : ∀ x, s.todo x = []) (r : ℕ)
    (a : PartitionedInstr) : S.timesDone s r a = S.times r a :=
  Finset.sum_congr rfl fun u _ ↦ by rw [h.done_eq (htodo (r, u))]

/-- Each partition is marked ready once. -/
theorem times_pready (h : S.Admitted) {r i : ℕ} (hr : r < S.p) (hi : i < S.n) :
    S.times r (.pready i) = 1 := by
  refine times_eq_one h (Nat.lt_succ_of_lt hi) fun t ↦ ?_
  rw [mem_pready h]
  constructor
  · exact fun ⟨_, _, ht⟩ ↦ ht.symm
  · rintro rfl
    exact ⟨hr, hi, rfl⟩

/-! ## Signals -/

/-- If the receive partitions cover the send partitions, the first worker of a group signals the
others. -/
theorem mem_signalSend_iff (h : S.Admitted) (hdvd : S.ratio ∣ S.n) {r u tag : ℕ}
    (hwait : .signalWait tag ∈ S.program (r, u)) (t : ℕ) :
    .signalSend tag ∈ S.program (r, t) ↔ t = S.ratio * (tag / S.ratio) := by
  obtain ⟨hr, hu, hr0, hrouted, hnone, rfl⟩ := (mem_signalWait h).mp hwait
  obtain ⟨m, hm⟩ := hdvd
  have hgroups : S.numRecv = m := by
    rw [numRecv, hm, Nat.mul_div_cancel_left m h.ratio]
  have hgroup : tag / S.ratio < m := Nat.div_lt_of_lt_mul (hm ▸ hu)
  have hdiv := Nat.div_add_mod tag S.ratio
  have hmod := Nat.mod_lt tag h.ratio
  rw [mem_signalSend h]
  constructor
  · rintro ⟨-, -, -, -, j, -, rfl, hlt, hlt'⟩
    have hj : tag / S.ratio = j :=
      Nat.div_eq_of_lt_le (by rw [Nat.mul_comm]; exact hlt.le) (by rw [Nat.mul_comm]; exact hlt')
    rw [hj]
  · rintro rfl
    have hne := hnone (tag / S.ratio) (hgroups ▸ hgroup)
    exact ⟨hr, by omega, hr0, hrouted, tag / S.ratio, hgroups ▸ hgroup, rfl, by omega, by omega⟩

/-- So everybody who waits for a signal gets one. -/
theorem signaling_of_dvd (h : S.Admitted) (hdvd : S.ratio ∣ S.n) : S.Signaling :=
  fun _ _ hwait ↦ ⟨_, (mem_signalSend_iff h hdvd hwait _).mpr rfl⟩

/-! ## The size of the global buffer -/

theorem bufferSize_eq_some_iff {size : ℕ} : S.bufferSize = some size ↔
    FitsInt (S.n * S.valuesNum) ∧ sizeT (S.n * S.valuesNum * S.t.size) = size := by
  rw [bufferSize]
  constructor
  · intro hsome
    obtain ⟨_, hvalues, hsize⟩ := Option.bind_eq_some_iff.mp hsome
    obtain ⟨hfits, rfl⟩ := checkedSigned_eq_some_iff.mp hvalues
    exact ⟨hfits, Option.some_inj.mp hsize⟩
  · rintro ⟨hfits, rfl⟩
    exact Option.bind_eq_some_iff.mpr ⟨_, checkedSigned_eq_some_iff.mpr ⟨hfits, rfl⟩, rfl⟩

/-- What is kept of the size is what is waited for exactly if it is an `int`. -/
theorem sizeT_globalBufferSize_iff {size : ℕ} (hbound : 2 * size < 2 ^ 63) :
    sizeT (globalBufferSize size) = 2 * size % 2 ^ 64 ↔ 2 * size < 2 ^ 31 := by
  have hmod : 2 * size % 2 ^ 64 = 2 * size := Nat.mod_eq_of_lt (by omega)
  rw [hmod, globalBufferSize]
  constructor
  · intro hkept
    have hfits := fitsInt_wrapInt (2 * (size : ℤ))
    by_cases hneg : wrapInt (2 * (size : ℤ)) < 0
    · have hle := le_sizeT_of_neg hfits hneg
      omega
    · have heq := sizeT_of_nonneg hfits (not_lt.mp hneg)
      have hlt := hfits.2
      omega
  · intro hlt
    have hfits : FitsInt (2 * (size : ℤ)) := ⟨by omega, by omega⟩
    have heq := sizeT_of_nonneg hfits (by omega)
    rw [wrapInt_of_fitsInt hfits]
    omega

/-- A size that is an `int` is what the threads wait for. -/
theorem exists_bufferSize (hvalues : FitsInt (S.n * S.valuesNum))
    (hnonneg : 0 ≤ S.n * S.valuesNum * S.t.size)
    (hlt : 2 * (S.n * S.valuesNum * S.t.size) < 2 ^ 31) :
    ∃ size, S.bufferSize = some size ∧ (size : ℤ) = S.n * S.valuesNum * S.t.size ∧
      2 * size < 2 ^ 31 := by
  have hsize := sizeT_of_nonneg ⟨by omega, by omega⟩ hnonneg
  exact ⟨_, bufferSize_eq_some_iff.mpr ⟨hvalues, rfl⟩, hsize, by omega⟩

theorem sizeKept_of_lt {size : ℕ} (hsize : S.bufferSize = some size) (hlt : 2 * size < 2 ^ 31) :
    S.SizeKept :=
  ⟨size, hsize, (sizeT_globalBufferSize_iff (by omega)).mpr hlt⟩

/-- No datatype of the table has elements of more than a kilobyte. -/
theorem size_le_kilobyte (cfg : Config) {t : TypeSlot} (ht : t ∈ initTypes cfg) : t.size ≤ 1024 :=
  Config.forall_slot (P := fun _ t ↦ t.size ≤ 1024) (by decide +kernel) cfg ht

/-- If the threads leave `_init`, the size is an `int`. -/
theorem size_of_since {cfg : Config} (ht : S.t ∈ initTypes cfg) (hcount : 0 ≤ S.valuesNum)
    (hnonneg : 0 ≤ S.t.size) {size : ℕ} (hsize : S.bufferSize = some size)
    (hkept : sizeT (globalBufferSize size) = 2 * size % 2 ^ 64 ∨ sizeT 0 = 2 * size % 2 ^ 64) :
    (size : ℤ) = S.n * S.valuesNum * S.t.size ∧ 2 * size < 2 ^ 31 := by
  obtain ⟨⟨-, hvaluesLt⟩, rfl⟩ := bufferSize_eq_some_iff.mp hsize
  have hvalues : 0 ≤ S.n * S.valuesNum := mul_nonneg (Int.natCast_nonneg _) hcount
  have hproduct : 0 ≤ S.n * S.valuesNum * S.t.size := mul_nonneg hvalues hnonneg
  have hle : S.n * S.valuesNum * S.t.size ≤ 2 ^ 31 * 1024 :=
    mul_le_mul hvaluesLt.le (size_le_kilobyte cfg ht) hnonneg (by norm_num)
  have heq : (sizeT (S.n * S.valuesNum * S.t.size) : ℤ) = S.n * S.valuesNum * S.t.size := by
    rw [sizeT]
    omega
  refine ⟨heq, ?_⟩
  rcases hkept with hkept | hzero
  · exact (sizeT_globalBufferSize_iff (by omega)).mp hkept
  · have hnone : sizeT 0 = 0 := rfl
    omega

end

end Partitioned

end Threaded

end MpiTestSuite
