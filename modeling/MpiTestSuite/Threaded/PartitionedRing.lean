import MpiTestSuite.Threaded.PartitionedRuns

/-!
# A ring of partitions

In `"Threaded ring partitioned"` every worker waits for the partition with its number, copies it and
passes it on. What has arrived is what rank zero has set, and it is copied before the copy is marked
ready (`Partitioned.Carried`), so that in the end the array of rank zero is everywhere.

Both buffers are halves of the global buffer. `tst_thread_global_buffer_init` takes its size as an
`int`, but the threads wait until it is the `size_t` that they have computed: if the size is not an
`int`, they never leave `_init`.
-/

open MpiTestSuite.Runs Relation

namespace MpiTestSuite

namespace Threaded

/-- What the test promises of a state that is reached. -/
structure PartitionedRingWorks (S : Partitioned) (sendBuffer : ℕ → Memory)
    (s : Partitioned.State) : Prop where
  /-- Both buffers have room for the elements of all partitions. -/
  room : ∃ size, S.bufferSize = some size ∧
    S.n * S.valuesNum * S.t.datatype.typemap.extent ≤ size
  /-- As long as a thread has something left to do, there is a step. -/
  noDeadlock : ∀ x, s.todo x ≠ [] → ∃ s', S.Step s s'
  /-- No partition is marked ready twice. -/
  ready : ∀ r < S.p, ∀ i < S.n, S.timesDone s r (.pready i) ≤ 1
  /-- In the end each has been marked. -/
  allReady : (∀ x, s.todo x = []) → ∀ r < S.p, ∀ i < S.n, S.timesDone s r (.pready i) = 1
  /-- Since it has been marked, the elements that rank zero sets are in the send buffer. -/
  readyAfter : ∀ r i, s.Has r (.pready i) → ∃ sent,
    tstTypeSetstandardarray S.cfg S.t (S.n * S.valuesNum).toNat (sendBuffer 0) 0 = some sent ∧
      ∀ a, S.Data i a → s.sendBuffer r a = sent a
  /-- In the end every rank has received what is in the send buffer of rank zero. -/
  whole : (∀ x, s.todo x = []) → ∀ r < S.p, ∀ a,
    Partitioned.dataByte S.t.datatype.typemap 0 (S.n * S.valuesNum).toNat a = true →
      s.recvBuffer r a = s.sendBuffer 0 a

namespace Partitioned

variable {S : Partitioned} {s s' : State}

/-! ## What is carried -/

/-- Everybody has a receive partition, rank zero sets an array, and a byte of data is in the part of
the buffer that is copied with its partition. -/
structure Straight (S : Partitioned) : Prop extends S.Admitted where
  one : S.ratio = 1
  aligned : ∀ i a, S.Data i a → S.valuesNum * i * S.t.size ≤ a ∧
    a < S.valuesNum * i * S.t.size + S.valuesNum * S.t.size

/-- The send buffer of rank zero when it has been set. -/
def sent (S : Partitioned) (first : Memory) : Memory :=
  (tstTypeSetstandardarray S.cfg S.t (S.n * S.valuesNum).toNat first (0 : ℕ)).getD first

/-- What is known of the data, if `first` was in the send buffer of rank zero. -/
structure Carried (S : Partitioned) (first : Memory) (s : State) : Prop where
  unset : .setArray ∉ s.done (0, S.n) → s.sendBuffer 0 = first
  set : .setArray ∈ s.done (0, S.n) → s.sendBuffer 0 = S.sent first
  arrived : ∀ q j, (q, j) ∈ s.arrived → ∀ a, S.Data j a → s.recvBuffer q a = S.sent first a
  copied : ∀ r u i, .memcpy i ∈ s.done (r, u) → ∀ a, S.Data i a →
    s.sendBuffer r a = S.sent first a

/-- The parts of two partitions do not overlap. -/
theorem Straight.eq_of_mem (h : S.Straight) {i i' : ℕ} {a : ℤ} (ha : S.Data i a)
    (hlow : S.valuesNum * i' * S.t.size ≤ a)
    (hhigh : a < S.valuesNum * i' * S.t.size + S.valuesNum * S.t.size) : i = i' := by
  obtain ⟨hlow', hhigh'⟩ := h.aligned i a ha
  have hpos : 0 < S.valuesNum * S.t.size := by omega
  have hindex : ∀ j : ℕ, S.valuesNum * j * S.t.size ≤ a →
      a < S.valuesNum * j * S.t.size + S.valuesNum * S.t.size →
      a / (S.valuesNum * S.t.size) = j := by
    intro j hle hlt
    rw [Int.ediv_eq_iff_of_pos hpos]
    constructor <;> linarith
  exact_mod_cast (hindex i hlow' hhigh').symm.trans (hindex i' hlow hhigh)

section

variable (hstraight : S.Straight)

include hstraight

/-- Who copies a partition has got it. -/
theorem Genuine.arrived_of_waited (h : S.Genuine s) {r i : ℕ}
    (hwaited : .waitForPartition i ∈ S.program (r, i) → .waitForPartition i ∈ s.done (r, i))
    (hr : r < S.p) (hi : i < S.n) : (r, i) ∈ s.arrived := by
  refine h.since _ _ (hwaited ((mem_waitForPartition hstraight.toAdmitted).mpr ⟨hr, hi, ?_, ?_⟩))
  · rwa [numRecv, hstraight.one, Nat.div_one]
  · rw [hstraight.one, Nat.one_mul]

/-- Rank zero has set its array before any of its threads goes through the barrier. -/
theorem Genuine.set_of_ready (h : S.Genuine s) {u i : ℕ} (hready : .pready i ∈ s.done (0, u)) :
    .setArray ∈ s.done (0, S.n) := by
  have hadmitted := hstraight.toAdmitted
  have hleveled := leveled hadmitted
  obtain ⟨hr, hu, -⟩ := (mem_pready hadmitted).mp (h.mem_of_done hready)
  have hleave : .leave .before ∈ s.done (0, u) :=
    hleveled.mem_done_of_done h.split hready
      ((mem_leave hadmitted).mpr ⟨hr, Nat.lt_succ_of_lt hu, fun hb ↦ by cases hb⟩)
      (show 5 < 7 + 3 * 0 by decide)
  have henter : .enter .before ∈ s.done (0, S.n) := h.since _ _ hleave S.n (Nat.lt_succ_self _)
  exact hleveled.mem_done_of_done h.split henter
    ((mem_setArray hadmitted).mpr ⟨hr, rfl, rfl⟩) (show 1 < 4 by decide)

/-- The data of a partition is in the send buffer when it is marked ready. -/
theorem Carried.data_of_ready {first : Memory} (h : S.Carried first s) (hgenuine : S.Genuine s)
    {r i : ℕ} (hready : s.Has r (.pready i)) {a : ℤ} (ha : S.Data i a) :
    s.sendBuffer r a = S.sent first a := by
  obtain ⟨u, hready⟩ := hready
  obtain ⟨hr, hu, rfl⟩ := (mem_pready hstraight.toAdmitted).mp (hgenuine.mem_of_done hready)
  by_cases h0 : r = 0
  · subst h0
    rw [h.set (hgenuine.set_of_ready hstraight hready)]
  · refine h.copied r i i ?_ a ha
    exact (leveled hstraight.toAdmitted).mem_done_of_done hgenuine.split hready
      ((mem_memcpy hstraight.toAdmitted).mpr ⟨hr, hu, h0, rfl⟩)
      (show 6 + 3 * r < 7 + 3 * r by omega)

/-- Whatever else rank zero executes, its send buffer stays what it is. -/
theorem write_zero {u : ℕ} {b : PartitionedInstr} (hb : b ∈ S.program (0, u)) (hne : b ≠ .setArray)
    (sendBuffer recvBuffer : Memory) : S.write 0 sendBuffer recvBuffer b = sendBuffer := by
  cases b with
  | setArray => exact absurd rfl hne
  | memcpy i => exact absurd rfl ((mem_memcpy hstraight.toAdmitted).mp hb).2.2.1
  | initBuffer | awaitBuffer | startall | enter | leave | pready | waitForPartition | signalSend
  | signalWait | waitall => rfl

/-- The data of a partition is only touched when the partition is copied. -/
theorem write_data {r i : ℕ} {a : ℤ} (ha : S.Data i a) {b : PartitionedInstr} (hne : b ≠ .setArray)
    (sendBuffer recvBuffer : Memory) : S.write r sendBuffer recvBuffer b a
      = if b = .memcpy i then recvBuffer a else sendBuffer a := by
  cases b with
  | setArray => exact absurd rfl hne
  | memcpy i' =>
    by_cases hi : i' = i
    · subst hi
      rw [if_pos rfl]
      exact if_pos (hstraight.aligned i' a ha)
    · rw [if_neg fun heq ↦ hi (PartitionedInstr.memcpy.inj heq)]
      exact if_neg fun hmem ↦ hi (hstraight.eq_of_mem ha hmem.1 hmem.2).symm
  | initBuffer | awaitBuffer | startall | enter | leave | pready | waitForPartition | signalSend
  | signalWait | waitall => rfl

omit hstraight in
theorem sendBuffer_execute (x : ℕ × ℕ) (b : PartitionedInstr) (rest : List PartitionedInstr)
    (r : ℕ) : (S.execute s x b rest).sendBuffer r
      = if r = x.1 then S.write x.1 (s.sendBuffer x.1) (s.recvBuffer x.1) b
        else s.sendBuffer r :=
  Function.update_apply _ _ _ _

theorem sendBuffer_zero_execute {x : ℕ × ℕ} {b : PartitionedInstr} (hb : b ∈ S.program x)
    (hne : b ≠ .setArray) (rest : List PartitionedInstr) :
    (S.execute s x b rest).sendBuffer 0 = s.sendBuffer 0 := by
  obtain ⟨q, u⟩ := x
  rw [sendBuffer_execute]
  split_ifs with h0
  · obtain rfl : 0 = q := h0
    exact write_zero hstraight hb hne _ _
  · rfl

/-- An instruction has been executed. -/
theorem Carried.execute {first : Memory} (h : S.Carried first s) (hgenuine : S.Genuine s)
    {x : ℕ × ℕ} {b : PartitionedInstr} {rest : List PartitionedInstr}
    (htodo : s.todo x = b :: rest) : S.Carried first (S.execute s x b rest) := by
  obtain ⟨q, v⟩ := x
  have hadmitted := hstraight.toAdmitted
  have hb := hgenuine.mem_of_todo htodo
  have hset : b = .setArray → q = 0 ∧ v = S.n := by
    rintro rfl
    obtain ⟨-, hv, hq⟩ := (mem_setArray hadmitted).mp hb
    exact ⟨hq, hv⟩
  have hnew := hgenuine.not_mem_done hadmitted htodo
  refine ⟨fun hunset ↦ ?_, fun hdone ↦ ?_, h.arrived, fun r u i hcopy a ha ↦ ?_⟩
  · have hold : .setArray ∉ s.done (0, S.n) := fun hold ↦ hunset (mem_done_execute.mpr (.inl hold))
    rw [sendBuffer_zero_execute hstraight hb ?_, h.unset hold]
    intro heq
    obtain ⟨rfl, rfl⟩ := hset heq
    exact hunset (mem_done_execute.mpr (.inr ⟨rfl, heq.symm⟩))
  · rcases mem_done_execute.mp hdone with hold | ⟨hx, rfl⟩
    · rw [sendBuffer_zero_execute hstraight hb ?_, h.set hold]
      rintro rfl
      obtain ⟨rfl, rfl⟩ := hset rfl
      exact hnew hold
    · obtain ⟨rfl, rfl⟩ := Prod.mk.inj hx
      rw [sendBuffer_execute, if_pos rfl, h.unset hnew]
      rfl
  · rw [sendBuffer_execute]
    by_cases hcopied : r = q ∧ b = .memcpy i
    · obtain ⟨rfl, rfl⟩ := hcopied
      obtain ⟨hr, hv, h0, rfl⟩ := (mem_memcpy hadmitted).mp hb
      have hne : PartitionedInstr.memcpy i ≠ .setArray := nofun
      rw [if_pos rfl, write_data hstraight ha hne, if_pos rfl]
      refine h.arrived r i (hgenuine.arrived_of_waited hstraight (fun hwait ↦ ?_) hr hv) a ha
      exact (leveled hadmitted).mem_done hgenuine.split htodo hwait (by simp [level, h0])
    · have hold : .memcpy i ∈ s.done (r, u) := by
        refine (mem_done_execute.mp hcopy).resolve_right ?_
        rintro ⟨hx, rfl⟩
        exact hcopied ⟨(Prod.mk.inj hx).1, rfl⟩
      have hvalue := h.copied r u i hold a ha
      split_ifs with hr
      · subst hr
        rw [write_data hstraight ha fun heq ↦ ?_, if_neg fun hcopy ↦ hcopied ⟨rfl, hcopy⟩, hvalue]
        -- rank zero copies nothing
        exact ((mem_memcpy hadmitted).mp (hgenuine.mem_of_done hold)).2.2.1 (hset heq).1
      · exact hvalue

/-- A partition has arrived. -/
theorem Carried.arrive {first : Memory} (h : S.Carried first s) (hgenuine : S.Genuine s)
    {r j : ℕ} (hready : ∀ i, S.Covered i j → s.Has r (.pready i)) (q : ℕ) :
    S.Carried first (S.arrive s r q j) := by
  have hj : s.Has r (.pready j) := hready j (by rw [Covered, hstraight.one]; omega)
  refine ⟨h.unset, h.set, fun q' j' hq' a ha ↦ ?_, h.copied⟩
  have hrecv : (S.arrive s r q j).recvBuffer q' a
      = if q' = q ∧ S.Data j a then s.sendBuffer r a else s.recvBuffer q' a := by
    rw [Partitioned.arrive]
    dsimp only
    rw [hstraight.one, Nat.one_mul, Function.update_apply]
    by_cases hq : q' = q
    · subst hq
      simp [Data]
    · simp [hq]
  rw [hrecv]
  split_ifs with hnew
  · exact h.data_of_ready hstraight hgenuine hj hnew.2
  · rcases List.mem_append.mp hq' with hold | heq
    · exact h.arrived q' j' hold a ha
    · obtain ⟨rfl, rfl⟩ := Prod.mk.inj (List.mem_singleton.mp heq)
      exact absurd ⟨rfl, ha⟩ hnew

/-- **Every run.** What is passed on is what rank zero has set. -/
theorem Reachable.carried {sendBuffer recvBuffer : ℕ → Memory}
    (h : S.Reachable sendBuffer recvBuffer s) : S.Carried (sendBuffer 0) s := by
  induction h with
  | refl => exact ⟨fun _ ↦ rfl, nofun, nofun, nofun⟩
  | tail hrun hnext ih =>
    have hgenuine := Reachable.genuine hrun
    rcases hnext with hstep | hmay
    · cases hstep with
      | execute htodo _ => exact ih.execute hstraight hgenuine htodo
      | outside _ => exact ⟨ih.unset, ih.set, ih.arrived, ih.copied⟩
      | arrive _ _ _ hready _ => exact ih.arrive hstraight hgenuine hready _
    · cases hmay with
      | waitall htodo _ _ => exact ih.execute hstraight hgenuine htodo

end

/-! ## Bytes of data -/

theorem dataByte_iff {T : Typemap} {first count : ℕ} {q : ℤ} :
    dataByte T first count q = true ↔ ∃ i < count, q - (first + i : ℕ) * T.extent ∈ T.bytes := by
  simp [dataByte]

/-- A byte of data of the message is one of a partition. -/
theorem exists_data {n : ℕ} {a : ℤ} (hvalues : 0 ≤ S.valuesNum)
    (ha : dataByte S.t.datatype.typemap 0 (n * S.valuesNum).toNat a = true) :
    ∃ i < n, S.Data i a := by
  obtain ⟨v, hv⟩ := Int.eq_ofNat_of_zero_le hvalues
  obtain ⟨e, he, hmem⟩ := dataByte_iff.mp ha
  have he : e < n * v := by
    rw [hv] at he
    exact_mod_cast he
  have hpos : 0 < v := Nat.pos_of_lt_mul_left he
  refine ⟨e / v, Nat.div_lt_of_lt_mul (by rwa [Nat.mul_comm]), ?_⟩
  rw [Data, hv, Int.toNat_natCast]
  refine dataByte_iff.mpr ⟨e % v, Nat.mod_lt e hpos, ?_⟩
  rwa [Nat.div_add_mod', ← Nat.zero_add e]

end Partitioned

section

variable {cfg : Config} {t : TypeSlot} {valuesNum : ℤ} {commClass : Flags} {p n : ℕ}

open Partitioned

/-- If elements have bytes, and begin where their data does, the test is as it should be. -/
theorem straight_tstThreadedRingPartitioned {fields : List FieldStore}
    (hsendable : Sendable cfg t fields) (hlb : t.lb = 0) (hvalues : 1 ≤ valuesNum)
    (h : (tstThreadedRingPartitioned cfg t valuesNum commClass p n).Admitted) :
    (tstThreadedRingPartitioned cfg t valuesNum commClass p n).Straight where
  toAdmitted := h
  one := rfl
  aligned i a ha := by
    obtain ⟨v, rfl⟩ := Int.eq_ofNat_of_zero_le (by omega : 0 ≤ valuesNum)
    obtain ⟨k, hk, hmem⟩ := dataByte_iff.mp ha
    have hk : k < v := hk
    have hmem : a - (i * v + k : ℕ) * t.datatype.typemap.extent ∈ t.datatype.typemap.bytes := hmem
    rw [hsendable.extent_eq] at hmem
    obtain ⟨hlow, hhigh⟩ := hsendable.within _ hmem
    have hsize : t.size = t.ub - t.lb := rfl
    have hpos := hsendable.size_pos
    have hfirst : 0 ≤ k * t.size := by positivity
    have hlast : (k + 1) * t.size ≤ v * t.size :=
      mul_le_mul_of_nonneg_right (by exact_mod_cast hk) hpos.le
    show v * i * t.size ≤ a ∧ a < v * i * t.size + v * t.size
    push_cast at hlow hhigh
    constructor <;> linarith

/-! ## The size of the global buffer -/

/-- Without workers nothing is sent. Otherwise elements have bytes, and the global buffer has a size
that is an `int`. -/
def SizeFits (t : TypeSlot) (valuesNum : ℤ) (n : ℕ) : Prop :=
  n = 0 ∨ 0 < t.size ∧ 2 * (n * valuesNum * t.size) < 2 ^ 31

theorem SizeFits.bounds (h : SizeFits t valuesNum n) (hvalues : 1 ≤ valuesNum) :
    n * valuesNum < 2 ^ 31 ∧ 0 ≤ n * valuesNum * t.size ∧
      2 * (n * valuesNum * t.size) < 2 ^ 31 := by
  rcases h with rfl | ⟨hpos, hlt⟩
  · simp
  · have hnonneg : 0 ≤ n * valuesNum := mul_nonneg (Int.natCast_nonneg n) (by omega)
    have hle : n * valuesNum ≤ n * valuesNum * t.size := le_mul_of_one_le_right hnonneg (by omega)
    exact ⟨by omega, by omega, hlt⟩

theorem SizeFits.exists_size (h : SizeFits t valuesNum n) (hvalues : 1 ≤ valuesNum)
    (cfg : Config) (commClass : Flags) (p : ℕ) :
    ∃ size, (tstThreadedRingPartitioned cfg t valuesNum commClass p n).bufferSize = some size ∧
      (size : ℤ) = n * valuesNum * t.size ∧ 2 * size < 2 ^ 31 := by
  obtain ⟨hvaluesLt, hnonneg, hlt⟩ := h.bounds hvalues
  have hvaluesNonneg : 0 ≤ n * valuesNum := mul_nonneg (Int.natCast_nonneg n) (by omega)
  have hfits : FitsInt (n * valuesNum) := ⟨by omega, hvaluesLt⟩
  exact exists_bufferSize (S := tstThreadedRingPartitioned cfg t valuesNum commClass p n) hfits
    hnonneg hlt

/-- If the threads leave `_init`, and there is room for the elements, the sizes are as they should
be. -/
theorem SizeFits.of_bufferSize {fields : List FieldStore} (ht : t ∈ initTypes cfg)
    (hnull : t.datatype ≠ .null) (hsettable : Settable cfg t fields) (hvalues : 1 ≤ valuesNum)
    {size : ℕ}
    (hsize : (tstThreadedRingPartitioned cfg t valuesNum commClass p n).bufferSize = some size)
    (hroom : n * valuesNum * t.datatype.typemap.extent ≤ size)
    (hkept : sizeT (globalBufferSize size) = 2 * size % 2 ^ 64 ∨ sizeT 0 = 2 * size % 2 ^ 64) :
    SizeFits t valuesNum n := by
  have hcount : 0 ≤ valuesNum := by omega
  obtain ⟨heq, hlt⟩ : (size : ℤ) = n * valuesNum * t.size ∧ 2 * size < 2 ^ 31 :=
    size_of_since ht hcount hsettable.size_nonneg hsize hkept
  by_cases hn : n = 0
  · exact .inl hn
  have hvaluesPos : 0 < n * valuesNum := mul_pos (by omega) (by omega)
  refine .inr ⟨?_, by omega⟩
  rcases hsettable.size_nonneg.lt_or_eq with hpos | hzero
  · exact hpos
  · have hbounds := lb_lt_ub_of_size_eq_zero cfg ht hnull hzero.symm
    have hextent : 0 < n * valuesNum * t.datatype.typemap.extent :=
      mul_pos hvaluesPos (sub_pos.mpr hbounds)
    rw [heq, ← hzero, mul_zero] at hroom
    exact absurd hextent (not_lt.mpr hroom)

/-! ## The whole test -/

/-- Setting the array of rank zero succeeds. -/
theorem setstandardarray_eq_sent {fields : List FieldStore} (hsettable : Settable cfg t fields)
    (first : Memory) : tstTypeSetstandardarray cfg t (n * valuesNum).toNat first 0
      = some ((tstThreadedRingPartitioned cfg t valuesNum commClass p n).sent first) := by
  rw [hsettable.setstandardarray_eq, sent]
  exact congrArg some (by rw [tstThreadedRingPartitioned, hsettable.setstandardarray_eq]; rfl)

/-- Nobody waits for signals in this test. -/
theorem signaling_tstThreadedRingPartitioned
    (h : (tstThreadedRingPartitioned cfg t valuesNum commClass p n).Admitted) :
    (tstThreadedRingPartitioned cfg t valuesNum commClass p n).Signaling := by
  rintro ⟨r, u⟩ tag hwait
  obtain ⟨-, -, -, hrouted, -⟩ := (mem_signalWait h).mp hwait
  exact absurd hrouted Bool.false_ne_true

/-- If the sizes are as they should be, the test is what it promises. -/
theorem partitionedRingWorks (ht : t ∈ initTypes cfg) (hnull : t.datatype ≠ .null)
    (hlb : t.lb = 0) (hvalues : 1 ≤ valuesNum)
    (h : (tstThreadedRingPartitioned cfg t valuesNum commClass p n).Admitted)
    (hfits : SizeFits t valuesNum n) {sendBuffer recvBuffer : ℕ → Memory} {s : State}
    (hs : (tstThreadedRingPartitioned cfg t valuesNum commClass p n).Reachable sendBuffer
      recvBuffer s) :
    PartitionedRingWorks (tstThreadedRingPartitioned cfg t valuesNum commClass p n) sendBuffer
      s := by
  have hgenuine := hs.genuine
  obtain ⟨size, hsize, heq, hlt⟩ := hfits.exists_size hvalues cfg commClass p
  have hsendable : 0 < n → ∃ fields, Sendable cfg t fields := fun hn ↦ by
    rcases hfits with hzero | ⟨hpos, -⟩
    · omega
    · exact exists_sendable cfg ht hnull hpos
  refine
    { room := ⟨size, hsize, ?_⟩
      noDeadlock := fun x hx ↦ hgenuine.exists_step h (signaling_tstThreadedRingPartitioned h)
        (sizeKept_of_lt hsize hlt) hx
      ready := fun r hr i hi ↦ (hgenuine.timesDone_le r _).trans (times_pready h hr hi).le
      allReady := fun htodo r hr i hi ↦ (hgenuine.timesDone_eq htodo r _).trans
        (times_pready h hr hi)
      readyAfter := fun r i hready ↦ ?_
      whole := fun htodo r hr a ha ↦ ?_ }
  · show n * valuesNum * t.datatype.typemap.extent ≤ size
    rcases Nat.eq_zero_or_pos n with rfl | hn
    · simp
    · obtain ⟨fields, hfields⟩ := hsendable hn
      rw [hfields.extent_eq, heq]
  · obtain ⟨u, hu⟩ := hready
    obtain ⟨-, hlt', -⟩ := (mem_pready h).mp (hgenuine.mem_of_done hu)
    obtain ⟨fields, hfields⟩ := hsendable (Nat.zero_lt_of_lt hlt')
    have hstraight := straight_tstThreadedRingPartitioned hfields hlb hvalues h
    exact ⟨_, setstandardarray_eq_sent hfields.settable _, fun a ha ↦
      (hs.carried hstraight).data_of_ready hstraight hgenuine ⟨u, hu⟩ ha⟩
  · obtain ⟨i, hi, hdata⟩ := exists_data (S := tstThreadedRingPartitioned cfg t valuesNum commClass
      p n) (n := n) (show 0 ≤ valuesNum by omega) ha
    obtain ⟨fields, hfields⟩ := hsendable (Nat.zero_lt_of_lt hi)
    have hcarried := hs.carried (straight_tstThreadedRingPartitioned hfields hlb hvalues h)
    have hset : .setArray ∈ s.done (0, n) := by
      rw [hgenuine.done_eq (htodo _)]
      exact (mem_setArray h).mpr ⟨Nat.zero_lt_of_lt hr, rfl, rfl⟩
    have hwaited : .waitall ∈ s.done (r, n) := by
      rw [hgenuine.done_eq (htodo _)]
      exact (mem_waitall h).mpr ⟨hr, rfl⟩
    have harrived : (r, i) ∈ s.arrived := hgenuine.since _ _ hwaited i (by rwa [numRecv,
      tstThreadedRingPartitioned, Nat.div_one])
    rw [hcarried.arrived r i harrived a hdata, hcarried.set hset]

/-- If it is, a run comes to its end, and so the threads leave `_init`. -/
theorem sizeFits_of_works (ht : t ∈ initTypes cfg) (hnull : t.datatype ≠ .null)
    (hvalues : 1 ≤ valuesNum)
    (h : (tstThreadedRingPartitioned cfg t valuesNum commClass p n).Admitted) (hp : 0 < p)
    {sendBuffer recvBuffer : ℕ → Memory}
    (hworks : ∀ s, (tstThreadedRingPartitioned cfg t valuesNum commClass p n).Reachable sendBuffer
        recvBuffer s →
      PartitionedRingWorks (tstThreadedRingPartitioned cfg t valuesNum commClass p n) sendBuffer
        s) : SizeFits t valuesNum n := by
  obtain ⟨s, hs, htodo⟩ := exists_finished h sendBuffer recvBuffer fun s hs ↦
    (hworks s hs).noDeadlock
  have hawait : .awaitBuffer ∈ s.done (0, n) := by
    rw [hs.genuine.done_eq (htodo _)]
    exact (mem_awaitBuffer h).mpr ⟨hp, Nat.lt_succ_self n⟩
  obtain ⟨size, hsize, hkept⟩ := hs.genuine.since _ _ hawait
  obtain ⟨size', hsize', hroom⟩ := (hworks s hs).room
  obtain rfl := Option.some_inj.mp (hsize.symm.trans hsize')
  obtain ⟨fields, hsettable⟩ := exists_settable cfg ht hnull
  exact .of_bufferSize ht hnull hsettable hvalues hsize hroom (hkept.imp_left And.right)

end

/-- **The ring with partitions.** With any number of ranks and workers the test does what it
promises, in every state that is reached, exactly if elements have bytes in the table and both
buffers together have a size that is an `int`, or nobody sends anything. -/
theorem partitioned_ring_works_iff (cfg : Config) (t : TypeSlot) (ht : t ∈ initTypes cfg)
    (hnull : t.datatype ≠ .null) (hlb : t.lb = 0) (env : Env) (hvalues : 1 ≤ env.valuesNum)
    (row : Test) (hrow : tstTest cfg env.test = some row)
    (hname : row.functions = some "tst_threaded_ring_partitioned") (commClass : Flags)
    (hadmitted : commClass &&& row.runWithComm ≠ 0) (p : ℕ)
    (hself : commClass &&& tstMpiCommSelf ≠ 0 → p = 1) (hp : 1 ≤ p) (n : ℕ)
    (sendBuffer recvBuffer : ℕ → Memory) :
    (∀ s, (tstThreadedRingPartitioned cfg t env.valuesNum commClass p n).Reachable sendBuffer
        recvBuffer s →
      PartitionedRingWorks (tstThreadedRingPartitioned cfg t env.valuesNum commClass p n)
        sendBuffer s) ↔
    n = 0 ∨ 0 < t.size ∧ 2 * (n * env.valuesNum * t.size) < 2 ^ 31 := by
  rw [runWithComm_threaded hrow (by simp [threadedFunctions]) hname] at hadmitted
  have h : (tstThreadedRingPartitioned cfg t env.valuesNum commClass p n).Admitted :=
    Partitioned.admitted_of_class Nat.one_pos hadmitted hself
  exact ⟨sizeFits_of_works ht hnull hvalues h hp,
    fun hfits s hs ↦ partitionedRingWorks ht hnull hlb hvalues h hfits hs⟩

/-- Three values of `MPI_INT` for each of two workers, on two ranks. -/
theorem partitioned_ring_works_iff_two :
    let S := tstThreadedRingPartitioned
      ⟨2, true, true, true, true, true, true, true, true⟩ (slotMpi2 6) 3 tstMpiIntraComm 2 2
    (∀ s, S.Reachable (fun _ _ ↦ 0) (fun _ _ ↦ 0) s →
      PartitionedRingWorks S (fun _ _ ↦ 0) s) ↔
      2 = 0 ∨ 0 < (slotMpi2 6).size ∧ 2 * ((2 : ℕ) * 3 * (slotMpi2 6).size) < 2 ^ 31 :=
  partitioned_ring_works_iff ⟨2, true, true, true, true, true, true, true, true⟩ (slotMpi2 6)
    (by decide +kernel) (by decide +kernel) (by decide +kernel) ⟨109, 0, 6, 3, 0⟩ (by decide) _ rfl
    rfl tstMpiIntraComm (by decide) 2 (by decide) (by decide) 2 (fun _ _ ↦ 0) (fun _ _ ↦ 0)

/-- If both buffers together have four gigabytes, the threads do not leave `_init`. -/
theorem partitioned_ring_fails : ¬∀ t ∈ initTypes
      ⟨2, true, true, true, true, true, true, true, true⟩, t.datatype ≠ .null → t.lb = 0 →
    ∀ valuesNum : ℤ, 1 ≤ valuesNum → ∀ commClass : Flags,
    commClass &&& (tstMpiCommSelf ||| tstMpiIntraComm) ≠ 0 → ∀ p : ℕ, 1 ≤ p →
    (commClass &&& tstMpiCommSelf ≠ 0 → p = 1) → ∀ n : ℕ, ∀ s,
      (tstThreadedRingPartitioned ⟨2, true, true, true, true, true, true, true, true⟩ t valuesNum
        commClass p n).Reachable (fun _ _ ↦ 0) (fun _ _ ↦ 0) s →
      PartitionedRingWorks (tstThreadedRingPartitioned
        ⟨2, true, true, true, true, true, true, true, true⟩ t valuesNum commClass p n)
        (fun _ _ ↦ 0) s := by
  intro h
  have hworks := h (slotMpi2 6) (by decide +kernel) (by decide +kernel) (by decide +kernel)
    (2 ^ 28) (by decide) tstMpiIntraComm (by decide) 2 (by decide) (by decide) 2
  rcases sizeFits_of_works (by decide +kernel) (by decide +kernel) (by decide)
    (Partitioned.admitted_of_class Nat.one_pos (by decide) (by decide)) Nat.two_pos hworks with
    hzero | ⟨-, hlt⟩
  · exact absurd hzero (by decide)
  · exact absurd hlt (by decide +kernel)

end Threaded

end MpiTestSuite
