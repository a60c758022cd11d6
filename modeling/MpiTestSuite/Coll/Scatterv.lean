import MpiTestSuite.Report.Attribution
import MpiTestSuite.Report.Oracle
import MpiTestSuite.Types.Transfer

/-!
# The two scatter tests with blocks of different sizes

Rank `j` gets the `j` elements of its standard array. The root writes the arrays one behind the
other into its send buffer, in the strided test with an element that is not sent behind each, and
keeps two counters: `pos`, in bytes of the table of datatypes, says where it writes, and `displs`,
in elements of the datatype, is what `MPI_Scatterv` is told.

The elements that the loop sets have the indices `0, 1, 2, …` in order (`map_fst_blocksElements`).
They are set as those of one big array are, so what an element damages is set again by the next one,
and every window holds what was set there in the end.

The two counters agree if the table and MPI agree about the datatype, which they do but for the row
of `MPI_TYPE_MIX_LB_UB` under MPI 3, and as long as the size of the buffer, which grows with the
square of the number of processes, is an `int` (`scatterv_works_iff`).
-/

namespace MpiTestSuite

/-- A buffer from `tst_type_allocvalues`, and the number of bytes that were asked for. -/
structure AllocatedBuffer where
  contents : Memory
  bytes : ℕ

/-- `tst_type_allocvalues (type, values_num)`. -/
def allocatedBuffer (t : TypeSlot) (valuesNum : ℕ) : Option AllocatedBuffer := do
  let values ← checkedInt (valuesNum + overhead)
  let bytes ← checkedInt (values * t.size.toNat)
  return ⟨freshValues t valuesNum, bytes⟩

/-- The two buffers of a rank. -/
structure ScattervBuffers where
  sendBuffer : AllocatedBuffer
  recvBuffer : AllocatedBuffer

/-- What the loop of the root assigns to, and where it has written the arrays so far: the rank and
`pos`, for each of them. -/
structure ScattervState where
  sendBuffer : Memory
  sendCounts : ℕ → ℕ
  sendDispls : ℕ → ℕ
  pos : ℕ
  displs : ℕ
  blocks : List (ℕ × ℕ)

section

variable (cfg : Config) (t : TypeSlot) (stride : Bool)

/-- With a stride: set the element that is not sent, at an address, to the smallest value. -/
def fillHole (m : Memory) (a : ℤ) : Option Memory :=
  if stride then tstTypeSetvalue cfg t m a .min 0 else some m

/-- The array of rank `j`, and the element behind it. -/
def ScattervState.step (s : ScattervState) (j : ℕ) : Option ScattervState := do
  let part ← tstTypeSetstandardarray cfg t j (s.sendBuffer.shift s.pos) j
  let behind ← checkedInt (s.pos + j * t.size.toNat)
  let sendBuffer ← fillHole cfg t stride (part.shift (-s.pos)) behind
  let pos ← checkedInt (s.pos + (j + stride.toNat) * t.size.toNat)
  let displs ← checkedInt (s.displs + (j + stride.toNat))
  return {
    sendBuffer := sendBuffer
    sendCounts := Function.update s.sendCounts j j
    sendDispls := Function.update s.sendDispls j s.displs
    pos := pos
    displs := displs
    blocks := s.blocks ++ [(j, s.pos)] }

/-- What the root does before it calls `MPI_Scatterv`. The arrays of counts and displacements come
from `malloc`. -/
def scattervSend (commSize : ℕ) (sendBuffer : Memory) (sendCounts sendDispls : ℕ → ℕ) :
    Option ScattervState := do
  let sendBuffer ← fillHole cfg t stride sendBuffer 0
  (List.range' 1 (commSize - 1)).foldlM (ScattervState.step cfg t stride)
    ⟨sendBuffer, Function.update sendCounts 0 0, Function.update sendDispls 0 0, 0, 0, []⟩

end

/-! ## The two tests -/

/-- What the two tests differ in. -/
structure ScattervTest where
  /-- There is an element between the blocks. -/
  stride : Bool
  /-- The product of which half the send buffer is made for, by the number of processes. -/
  product : ℕ → ℕ
  /-- What the receive buffer is made for, by the rank. -/
  recvValues : ℕ → ℕ

/-- `tst_coll_scatterv`. -/
def tstCollScatterv : ScattervTest where
  stride := false
  product commSize := (commSize - 1) * commSize
  recvValues commRank := commRank + 1

/-- `tst_coll_scatterv_stride`. -/
def tstCollScattervStride : ScattervTest where
  stride := true
  product commSize := commSize * (commSize + 1)
  recvValues commRank := commRank

/-- `tst_coll_scatterv_init` and `tst_coll_scatterv_stride_init`: the buffers. -/
def ScattervTest.alloc (test : ScattervTest) (t : TypeSlot) (commSize commRank : ℕ) :
    Option ScattervBuffers := do
  let product ← checkedInt (test.product commSize)
  let sendBuffer ← allocatedBuffer t (product / 2 + 1)
  let recvBuffer ← allocatedBuffer t (test.recvValues commRank)
  return ⟨sendBuffer, recvBuffer⟩

/-! ## MPI_Scatterv -/

/-- A receive buffer after `MPI_Scatterv`, with the count and the displacement that the root gives
for the rank. -/
def scattered (T : Typemap) (count displ : ℕ) (sendBuffer recvBuffer : Memory) : Memory :=
  transferred T count T.extent (sendBuffer.shift (displ * T.extent)) recvBuffer

/-- The receive buffer of a rank, after the first rounds. In round `root` the rank `root` sends. -/
def receivedAfter (T : Typemap) (commRank : ℕ) (sent : ℕ → ScattervState) (recvBuffer : Memory) :
    ℕ → Memory
  | 0 => recvBuffer
  | root + 1 => scattered T ((sent root).sendCounts commRank) ((sent root).sendDispls commRank)
      (sent root).sendBuffer (receivedAfter T commRank sent recvBuffer root)

/-! ## What is asked of them -/

/-- The send buffer of a root and what it tells MPI about it. -/
structure LaidOut (cfg : Config) (t : TypeSlot) (stride : Bool) (commSize bytes : ℕ)
    (s : ScattervState) : Prop where
  /-- The array of every rank but the first has been written, once. -/
  ranks : s.blocks.map Prod.fst = List.range' 1 (commSize - 1)
  first : s.sendCounts 0 = 0
  count : ∀ b ∈ s.blocks, s.sendCounts b.1 = b.1
  /-- MPI is told where. -/
  handed : ∀ b ∈ s.blocks, ∀ i < b.1, ∀ p : ℤ, InWindow t.lb t.ub (b.2 + i * t.size) p ↔
    InWindow t.datatype.typemap.lb t.datatype.typemap.ub
      ((s.sendDispls b.1 + i : ℕ) * t.datatype.typemap.extent) p
  /-- The elements of the blocks, those behind them included, do not overlap. -/
  disjoint : ∀ b ∈ s.blocks, ∀ i < b.1 + stride.toNat,
    ∀ b' ∈ s.blocks, ∀ i' < b'.1 + stride.toNat, ∀ p : ℤ,
      InWindow t.lb t.ub (b.2 + i * t.size) p → InWindow t.lb t.ub (b'.2 + i' * t.size) p →
        b = b' ∧ i = i'
  inBlock : ∀ b ∈ s.blocks, ∀ i < b.1 + stride.toNat, ∀ p : ℤ,
    InWindow t.lb t.ub (b.2 + i * t.size) p → InBlock t bytes p
  /-- In the end the arrays are still there, and so is what was written behind them. -/
  kept : ∀ b ∈ s.blocks, IsStandardArray cfg t b.1 b.1 (s.sendBuffer.shift b.2)
  keptBehind : stride → ∀ b ∈ s.blocks, ∀ w, tstTypeSetvalue cfg t (fun _ ↦ 0) 0 .min 0 = some w →
    window t (s.sendBuffer.shift b.2) b.1 = window t w 0

/-- What a test should do on every rank, whatever `malloc` left in the arrays of counts and of
displacements. Nothing is asked of the first hole of the strided test, which is in front of the
blocks: with a single process and no bytes for the datatype, it is outside of its buffer. -/
def ScattervWorks (test : ScattervTest) (cfg : Config) (t : TypeSlot) (commSize : ℕ) : Prop :=
  ∀ sendCounts sendDispls : ℕ → ℕ → ℕ, ∃ (buffers : ℕ → ScattervBuffers)
      (sent : ℕ → ScattervState), ∀ commRank < commSize,
    test.alloc t commSize commRank = some (buffers commRank) ∧
    scattervSend cfg t test.stride commSize (buffers commRank).sendBuffer.contents
      (sendCounts commRank) (sendDispls commRank) = some (sent commRank) ∧
    LaidOut cfg t test.stride commSize (buffers commRank).sendBuffer.bytes (sent commRank) ∧
    (∀ root < commSize, IsStandardArray cfg t commRank commRank
      (receivedAfter t.datatype.typemap commRank sent (buffers commRank).recvBuffer.contents
        (root + 1))) ∧
    ∀ env, scattervRun cfg t commRank commSize
      (fun root ↦ receivedAfter t.datatype.typemap commRank sent
        (buffers commRank).recvBuffer.contents (root + 1))
      (perform env (scattervInit commRank)).env = some []

/-! ## The elements of the send buffer -/

/-- The index of the first element of the block of rank `k + 1`. -/
def blockStart (stride : Bool) : ℕ → ℕ
  | 0 => 0
  | k + 1 => blockStart stride k + (k + 1 + stride.toNat)

/-- The elements of the array of rank `j`, from index `c` on. -/
def arrayElements (c j : ℕ) : List (ℕ × TypeSet × ℤ) :=
  (List.range j).map fun i ↦ (c + i, elementSet i, elementValue j i)

/-- The array and, with a stride, what is behind it. -/
def blockElements (stride : Bool) (c j : ℕ) : List (ℕ × TypeSet × ℤ) :=
  arrayElements c j ++ if stride then [(c + j, .min, 0)] else []

/-- The elements of the first blocks. -/
def blocksElements (stride : Bool) (n : ℕ) : List (ℕ × TypeSet × ℤ) :=
  (List.range n).flatMap fun k ↦ blockElements stride (blockStart stride k) (k + 1)

theorem blocksElements_succ (stride : Bool) (n : ℕ) : blocksElements stride (n + 1)
    = blocksElements stride n ++ blockElements stride (blockStart stride n) (n + 1) := by
  rw [blocksElements, List.range_succ, List.flatMap_append, List.flatMap_singleton]
  rfl

theorem map_fst_blockElements (stride : Bool) (c j : ℕ) :
    (blockElements stride c j).map Prod.fst
      = (List.range (j + stride.toNat)).map fun i ↦ c + i := by
  rw [blockElements, arrayElements, List.map_append, List.map_map]
  cases stride with
  | false => simp [Function.comp_def]
  | true => simp [Function.comp_def, List.range_succ]

/-- **The indices.** Block by block, the loop sets one element after another. -/
theorem map_fst_blocksElements (stride : Bool) (n : ℕ) :
    (blocksElements stride n).map Prod.fst = List.range (blockStart stride n) := by
  induction n with
  | zero => rfl
  | succ n ih =>
    rw [blocksElements_succ, List.map_append, ih, map_fst_blockElements, blockStart]
    exact List.range_add.symm

theorem ascending_blocksElements (stride : Bool) (n : ℕ) : Ascending (blocksElements stride n) := by
  rw [Ascending, ← List.pairwise_map (f := Prod.fst), map_fst_blocksElements]
  exact List.pairwise_lt_range

theorem mem_blocksElements {stride : Bool} {n k : ℕ} (hk : k < n) {x : ℕ × TypeSet × ℤ}
    (hx : x ∈ blockElements stride (blockStart stride k) (k + 1)) : x ∈ blocksElements stride n :=
  List.mem_flatMap.mpr ⟨k, List.mem_range.mpr hk, hx⟩

theorem blockStart_mono (stride : Bool) : Monotone (blockStart stride) :=
  monotone_nat_of_le_succ fun _ ↦ Nat.le_add_right _ _

/-- An element of a block lies in front of the blocks that come later. -/
theorem blockStart_add_lt {stride : Bool} {k n i : ℕ} (hk : k < n)
    (hi : i < k + 1 + stride.toNat) : blockStart stride k + i < blockStart stride n :=
  calc blockStart stride k + i < blockStart stride (k + 1) := Nat.add_lt_add_left hi _
    _ ≤ blockStart stride n := blockStart_mono stride hk

/-- The index says which element of which block it is. -/
theorem blockStart_add_inj {stride : Bool} {k k' i i' : ℕ} (hi : i < k + 1 + stride.toNat)
    (hi' : i' < k' + 1 + stride.toNat)
    (heq : blockStart stride k + i = blockStart stride k' + i') : k = k' ∧ i = i' := by
  rcases Nat.lt_trichotomy k k' with hlt | rfl | hlt
  · have hbefore := blockStart_add_lt hlt hi
    omega
  · exact ⟨rfl, Nat.add_left_cancel heq⟩
  · have hbehind := blockStart_add_lt hlt hi'
    omega

/-- The triangular numbers. -/
theorem two_mul_blockStart (stride : Bool) (n : ℕ) :
    2 * blockStart stride n = n * (n + 1 + 2 * stride.toNat) := by
  induction n with
  | zero => rw [blockStart, mul_zero, zero_mul]
  | succ n ih =>
    rw [blockStart, mul_add, ih]
    ring

/-! ## The loop of the root -/

/-- An array of which one more entry is assigned. -/
theorem update_le_succ (f g : ℕ → ℕ) (n : ℕ) :
    Function.update (fun r ↦ if r ≤ n then f r else g r) (n + 1) (f (n + 1))
      = fun r ↦ if r ≤ n + 1 then f r else g r := by
  funext r
  by_cases hr : r = n + 1
  · rw [hr, Function.update_self, if_pos le_rfl]
  · have hle : r ≤ n + 1 ↔ r ≤ n := by omega
    simp only [Function.update_of_ne hr, hle]

/-- An array of which the first entry is assigned. -/
theorem update_zero (f g : ℕ → ℕ) :
    (fun r ↦ if r ≤ 0 then f r else g r) = Function.update g 0 (f 0) := by
  funext r
  cases r with
  | zero => simp
  | succ r => simp

/-- The state of the loop after the first blocks. -/
def stateAfter (cfg : Config) (t : TypeSlot) (fields : List FieldStore) (stride : Bool)
    (sendBuffer : Memory) (sendCounts sendDispls : ℕ → ℕ) (n : ℕ) : ScattervState where
  sendBuffer := setElements cfg t fields (blocksElements stride n) sendBuffer
  sendCounts := fun r ↦ if r ≤ n then r else sendCounts r
  sendDispls := fun r ↦ if r ≤ n then blockStart stride (r - 1) else sendDispls r
  pos := blockStart stride n * t.size.toNat
  displs := blockStart stride n
  blocks := (List.range n).map fun k ↦ (k + 1, blockStart stride k * t.size.toNat)

namespace Settable

variable {cfg : Config} {t : TypeSlot} {fields : List FieldStore} {stride : Bool}

theorem cast_mul_toNat (h : Settable cfg t fields) (n : ℕ) :
    ((n * t.size.toNat : ℕ) : ℤ) = n * t.size := by
  rw [Nat.cast_mul, Int.toNat_of_nonneg h.size_nonneg]

/-- An array that is set in a part of a buffer. -/
theorem setArray_eq (h : Settable cfg t fields) (c j : ℕ) (m : Memory) :
    tstTypeSetstandardarray cfg t j (m.shift (c * t.size)) j
      = some ((setElements cfg t fields (arrayElements c j) m).shift (c * t.size)) := by
  rw [h.setstandardarray_eq, written_eq, setElements_shift, List.map_map]
  rfl

/-- One block. -/
theorem step_stateAfter (h : Settable cfg t fields) (sendBuffer : Memory)
    (sendCounts sendDispls : ℕ → ℕ) {n : ℕ} (hdispls : blockStart stride (n + 1) < 2 ^ 31)
    (hpos : blockStart stride (n + 1) * t.size.toNat < 2 ^ 31) :
    (stateAfter cfg t fields stride sendBuffer sendCounts sendDispls n).step cfg t stride (n + 1)
      = some (stateAfter cfg t fields stride sendBuffer sendCounts sendDispls (n + 1)) := by
  have hstart : blockStart stride (n + 1) = blockStart stride n + (n + 1 + stride.toNat) := rfl
  have hbytes : blockStart stride (n + 1) * t.size.toNat
      = blockStart stride n * t.size.toNat + (n + 1 + stride.toNat) * t.size.toNat := by
    rw [hstart, add_mul]
  have hbehind : blockStart stride n * t.size.toNat + (n + 1) * t.size.toNat < 2 ^ 31 := by
    rw [hbytes, add_mul (n + 1)] at hpos
    omega
  have hcast : ((blockStart stride n * t.size.toNat + (n + 1) * t.size.toNat : ℕ) : ℤ)
      = ((blockStart stride n + (n + 1) : ℕ) : ℤ) * t.size := by
    rw [← add_mul, h.cast_mul_toNat]
  have hbuffer : fillHole cfg t stride (setElements cfg t fields
        (arrayElements (blockStart stride n) (n + 1))
        (setElements cfg t fields (blocksElements stride n) sendBuffer))
        ((blockStart stride n * t.size.toNat + (n + 1) * t.size.toNat : ℕ) : ℤ)
      = some (setElements cfg t fields (blocksElements stride (n + 1)) sendBuffer) := by
    rw [blocksElements_succ, blockElements, hcast, fillHole, h.setvalue_eq]
    cases stride with
    | false => simp [setElements]
    | true => simp [setElements]
  have hentries := update_le_succ (fun r ↦ blockStart stride (r - 1)) sendDispls n
  rw [Nat.add_sub_cancel] at hentries
  simp only [ScattervState.step, stateAfter, h.cast_mul_toNat]
  rw [h.setArray_eq]
  simp only [Option.pure_def, Option.bind_eq_bind, Option.bind_some, Memory.shift_shift,
    add_neg_cancel, Memory.shift_zero, checkedInt_of_lt hbehind, hbuffer]
  rw [← hbytes, checkedInt_of_lt hpos, Option.bind_some, ← hstart, checkedInt_of_lt hdispls,
    Option.bind_some, List.range_succ, List.map_append, List.map_singleton, update_le_succ,
    hentries]

/-- **The loop.** As long as the last counters are numbers of type `int`. -/
theorem foldlM_step (h : Settable cfg t fields) (sendBuffer : Memory)
    (sendCounts sendDispls : ℕ → ℕ) {n : ℕ} (hdispls : blockStart stride n < 2 ^ 31)
    (hpos : blockStart stride n * t.size.toNat < 2 ^ 31) :
    (List.range' 1 n).foldlM (ScattervState.step cfg t stride)
        (stateAfter cfg t fields stride sendBuffer sendCounts sendDispls 0)
      = some (stateAfter cfg t fields stride sendBuffer sendCounts sendDispls n) := by
  induction n with
  | zero => rfl
  | succ n ih =>
    have hle : blockStart stride n ≤ blockStart stride (n + 1) :=
      blockStart_mono stride (Nat.le_succ n)
    rw [List.range'_1_concat, List.foldlM_append,
      ih (hle.trans_lt hdispls) ((Nat.mul_le_mul_right _ hle).trans_lt hpos), Nat.add_comm 1 n]
    simp only [Option.bind_eq_bind, Option.bind_some, List.foldlM_cons, List.foldlM_nil,
      h.step_stateAfter sendBuffer sendCounts sendDispls hdispls hpos, Option.pure_def]

/-- What the root does before it calls `MPI_Scatterv`. -/
theorem exists_scattervSend (h : Settable cfg t fields) (sendBuffer : Memory)
    (sendCounts sendDispls : ℕ → ℕ) {commSize : ℕ}
    (hdispls : blockStart stride (commSize - 1) < 2 ^ 31)
    (hpos : blockStart stride (commSize - 1) * t.size.toNat < 2 ^ 31) :
    ∃ m, scattervSend cfg t stride commSize sendBuffer sendCounts sendDispls
      = some (stateAfter cfg t fields stride m sendCounts sendDispls (commSize - 1)) := by
  have hfill : ∃ m, fillHole cfg t stride sendBuffer 0 = some m := by
    rw [fillHole, h.setvalue_eq]
    cases stride with
    | false => exact ⟨_, rfl⟩
    | true => exact ⟨_, rfl⟩
  obtain ⟨m, hfill⟩ := hfill
  refine ⟨m, ?_⟩
  have hinit : stateAfter cfg t fields stride m sendCounts sendDispls 0
      = ⟨m, Function.update sendCounts 0 0, Function.update sendDispls 0 0, 0, 0, []⟩ := by
    rw [stateAfter, update_zero fun r ↦ r, update_zero fun r ↦ blockStart stride (r - 1),
      blockStart, zero_mul]
    rfl
  rw [scattervSend, hfill, Option.bind_eq_bind, Option.bind_some, ← hinit]
  exact h.foldlM_step m sendCounts sendDispls hdispls hpos

end Settable

/-! ## The layout -/

namespace Sendable

variable {cfg : Config} {t : TypeSlot} {fields : List FieldStore} {stride : Bool}

/-- The windows of the first elements lie in a block that has room for them. -/
theorem inBlock_of_lt (h : Sendable cfg t fields) {a n bytes : ℕ} (ha : a < n)
    (hbytes : n * t.size.toNat ≤ bytes) {p : ℤ} (hp : InWindow t.lb t.ub (a * t.size) p) :
    InBlock t bytes p := by
  have hdef : t.size = t.ub - t.lb := rfl
  have hroom : ((n * t.size.toNat : ℕ) : ℤ) ≤ bytes := Int.ofNat_le.mpr hbytes
  rw [h.settable.cast_mul_toNat] at hroom
  obtain ⟨hnonneg, hle⟩ := element_bounds h.size_pos (Int.ofNat_lt.mpr ha)
  exact ⟨by linarith [hp.1], by linarith [hp.2]⟩

/-- The origin of element `i` of the block of rank `k + 1`. -/
theorem origin_eq (h : Sendable cfg t fields) (k i : ℕ) :
    ((blockStart stride k * t.size.toNat : ℕ) : ℤ) + i * t.size
      = ((blockStart stride k + i : ℕ) : ℤ) * t.size := by
  rw [h.settable.cast_mul_toNat]
  push_cast
  ring

/-- What is in the window of an element in the end. -/
theorem setElements_blocks (h : Sendable cfg t fields) (m : Memory) {n k i : ℕ} (hk : k < n)
    {x : TypeSet × ℤ} (hx : (blockStart stride k + i, x)
      ∈ blockElements stride (blockStart stride k) (k + 1)) {q : ℤ} (hlo : t.lb ≤ q)
    (hhi : q < t.ub) :
    (setElements cfg t fields (blocksElements stride n) m).shift
        ((blockStart stride k * t.size.toNat : ℕ) : ℤ) (i * t.size + q)
      = elementOf cfg t fields x q := by
  rw [Memory.shift, ← add_assoc, h.origin_eq]
  exact h.settable.setElements_apply (ascending_blocksElements stride n) m
    (mem_blocksElements hk hx) hlo hhi

/-- **The layout.** -/
theorem laidOut (h : Sendable cfg t fields) (m : Memory) (sendCounts sendDispls : ℕ → ℕ)
    {commSize bytes : ℕ}
    (hbytes : blockStart stride (commSize - 1) * t.size.toNat ≤ bytes) :
    LaidOut cfg t stride commSize bytes
      (stateAfter cfg t fields stride m sendCounts sendDispls (commSize - 1)) where
  ranks := by
    rw [stateAfter, List.map_map, List.range'_eq_map_range]
    exact List.map_congr_left fun k _ ↦ Nat.add_comm k 1
  first := by simp [stateAfter]
  count := by
    rintro b hb
    obtain ⟨k, hk, rfl⟩ := List.mem_map.mp hb
    exact if_pos (List.mem_range.mp hk)
  handed := by
    intro b hb i hi p
    obtain ⟨k, hk, rfl⟩ := List.mem_map.mp hb
    have hdispl : (stateAfter cfg t fields stride m sendCounts sendDispls
        (commSize - 1)).sendDispls (k + 1) = blockStart stride k :=
      if_pos (List.mem_range.mp hk)
    rw [hdispl, h.lb_eq, h.ub_eq, h.extent_eq, h.origin_eq]
  disjoint := by
    intro b hb i hi b' hb' i' hi' p hp hp'
    obtain ⟨k, hk, rfl⟩ := List.mem_map.mp hb
    obtain ⟨k', hk', rfl⟩ := List.mem_map.mp hb'
    rw [h.origin_eq] at hp hp'
    obtain ⟨rfl, rfl⟩ := blockStart_add_inj hi hi' (eq_of_inWindow h.size_pos hp hp')
    exact ⟨rfl, rfl⟩
  inBlock := by
    intro b hb i hi p hp
    obtain ⟨k, hk, rfl⟩ := List.mem_map.mp hb
    rw [h.origin_eq] at hp
    exact h.inBlock_of_lt (blockStart_add_lt (List.mem_range.mp hk) hi) hbytes hp
  kept := by
    intro b hb
    obtain ⟨k, hk, rfl⟩ := List.mem_map.mp hb
    refine (h.settable.isStandardArray_iff (k + 1) (k + 1) _).mpr fun i hi q hlo hhi ↦ ?_
    have hmem : (blockStart stride k + i, elementSet i, elementValue (k + 1 : ℕ) i)
        ∈ blockElements stride (blockStart stride k) (k + 1) :=
      List.mem_append_left _ (List.mem_map_of_mem (List.mem_range.mpr hi))
    exact h.setElements_blocks m (List.mem_range.mp hk) hmem hlo hhi
  keptBehind := by
    intro hstride b hb w hw
    obtain ⟨k, hk, rfl⟩ := List.mem_map.mp hb
    have hmem : (blockStart stride k + (k + 1), TypeSet.min, 0)
        ∈ blockElements stride (blockStart stride k) (k + 1) := by
      rw [blockElements, if_pos hstride]
      exact List.mem_append_right _ List.mem_cons_self
    rw [h.settable.setvalue_eq, Option.some_inj] at hw
    rw [← hw]
    refine load_congr fun q hq ↦ ?_
    have hdef : t.size = t.ub - t.lb := rfl
    have hbyte := h.setElements_blocks m (List.mem_range.mp hk) hmem (q := t.lb + q) (by omega)
      (by omega)
    rw [← add_assoc] at hbyte
    rw [Nat.cast_zero, zero_mul, zero_add]
    exact hbyte

/-! ## The receive buffer -/

/-- **Delivery.** What a rank receives of the buffer of a root is its standard array. -/
theorem scattered_apply (h : Sendable cfg t fields) (m : Memory) (sendCounts sendDispls : ℕ → ℕ)
    {n r : ℕ} (hr : r ≤ n) {recvBuffer : Memory} (hpadded : Padded t r recvBuffer) {i : ℕ}
    (hi : i < r) {q : ℤ} (hlo : t.lb ≤ q) (hhi : q < t.ub) :
    scattered t.datatype.typemap
        ((stateAfter cfg t fields stride m sendCounts sendDispls n).sendCounts r)
        ((stateAfter cfg t fields stride m sendCounts sendDispls n).sendDispls r)
        (stateAfter cfg t fields stride m sendCounts sendDispls n).sendBuffer recvBuffer
        (i * t.size + q) = expected cfg t fields r i q := by
  obtain ⟨k, rfl⟩ := Nat.exists_eq_succ_of_ne_zero (Nat.ne_zero_of_lt hi)
  have hcount : (stateAfter cfg t fields stride m sendCounts sendDispls n).sendCounts (k + 1)
      = k + 1 := if_pos hr
  have hdispl : (stateAfter cfg t fields stride m sendCounts sendDispls n).sendDispls (k + 1)
      = blockStart stride k := if_pos hr
  have helement : (blockStart stride k + i, elementSet i, elementValue (k + 1 : ℕ) i)
      ∈ blockElements stride (blockStart stride k) (k + 1) :=
    List.mem_append_left _ (List.mem_map_of_mem (List.mem_range.mpr hi))
  rw [hcount, hdispl, scattered, h.extent_eq, ← h.settable.cast_mul_toNat, expected_eq_elementOf]
  exact h.transferred_elements hi
    (fun q hlo hhi ↦ h.setElements_blocks m hr helement hlo hhi) hpadded hlo hhi

/-- **The rounds.** Every rank has its array after each of them. -/
theorem receivedAfter_apply (h : Sendable cfg t fields) {m : ℕ → Memory}
    {sendCounts sendDispls : ℕ → ℕ → ℕ} {n r : ℕ} (hr : r ≤ n) {sent : ℕ → ScattervState}
    (hsent : ∀ root, sent root
      = stateAfter cfg t fields stride (m root) (sendCounts root) (sendDispls root) n)
    {recvBuffer : Memory} (hpadded : Padded t r recvBuffer) (root : ℕ) :
    IsStandardArray cfg t r r
      (receivedAfter t.datatype.typemap r sent recvBuffer (root + 1)) := by
  have hround : ∀ root, Padded t r (receivedAfter t.datatype.typemap r sent recvBuffer root) →
      ∀ i < r, ∀ q, t.lb ≤ q → q < t.ub →
        receivedAfter t.datatype.typemap r sent recvBuffer (root + 1) (i * t.size + q)
          = expected cfg t fields r i q := by
    intro root hprevious i hi q hlo hhi
    rw [receivedAfter, hsent]
    exact h.scattered_apply _ _ _ hr hprevious hi hlo hhi
  have hpadded' : Padded t r (receivedAfter t.datatype.typemap r sent recvBuffer root) := by
    induction root with
    | zero => exact hpadded
    | succ root ih =>
      intro i hi q hlo hhi hmem
      rw [hround root ih i hi q hlo hhi, expected_eq_elementOf,
        h.elementOf_padding _ hlo hhi hmem]
  exact (h.settable.isStandardArray_iff r r _).mpr (hround root hpadded')

end Sendable

/-! ## When the tests work -/

theorem allocatedBuffer_eq_some_iff {t : TypeSlot} {valuesNum : ℕ} {buffer : AllocatedBuffer} :
    allocatedBuffer t valuesNum = some buffer ↔
      valuesNum + overhead < 2 ^ 31 ∧ (valuesNum + overhead) * t.size.toNat < 2 ^ 31 ∧
        buffer = ⟨freshValues t valuesNum, (valuesNum + overhead) * t.size.toNat⟩ := by
  simp only [allocatedBuffer, Option.bind_eq_bind, Option.bind_eq_some_iff, checkedInt_eq_some_iff,
    Option.pure_def, Option.some_inj]
  constructor
  · rintro ⟨_, ⟨hvalues, rfl⟩, _, ⟨hbytes, rfl⟩, rfl⟩
    exact ⟨hvalues, hbytes, rfl⟩
  · rintro ⟨hvalues, hbytes, rfl⟩
    exact ⟨_, ⟨hvalues, rfl⟩, _, ⟨hbytes, rfl⟩, rfl⟩

/-- The condition on the numbers. -/
def ScattervTest.Fits (test : ScattervTest) (t : TypeSlot) (commSize : ℕ) : Prop :=
  test.product commSize < 2 ^ 31 ∧
    (test.product commSize / 2 + 1 + overhead) * t.size.toNat < 2 ^ 31

/-- The buffers are as large as needed. -/
structure ScattervTest.Suffices (test : ScattervTest) (commSize : ℕ) : Prop where
  send : blockStart test.stride (commSize - 1) ≤ test.product commSize / 2 + 1
  recv : ∀ commRank < commSize, commRank ≤ test.recvValues commRank
  recv_le : ∀ commRank < commSize, test.recvValues commRank ≤ test.product commSize / 2 + 1

namespace ScattervTest

variable {test : ScattervTest} {cfg : Config} {t : TypeSlot} {fields : List FieldStore}
  {commSize : ℕ}

theorem Fits.alloc_eq (h : test.Fits t commSize) (hsuffices : test.Suffices commSize)
    {commRank : ℕ} (hrank : commRank < commSize) :
    test.alloc t commSize commRank = some
      ⟨⟨freshValues t (test.product commSize / 2 + 1),
          (test.product commSize / 2 + 1 + overhead) * t.size.toNat⟩,
        ⟨freshValues t (test.recvValues commRank),
          (test.recvValues commRank + overhead) * t.size.toNat⟩⟩ := by
  obtain ⟨hproduct, hbytes⟩ := h
  have hle := hsuffices.recv_le commRank hrank
  have hvalues : test.product commSize / 2 + 1 + overhead < 2 ^ 31 := by
    rw [overhead]
    omega
  have hsend := allocatedBuffer_eq_some_iff.mpr ⟨hvalues, hbytes, rfl⟩
  have hrecv := allocatedBuffer_eq_some_iff.mpr
    ⟨(Nat.add_le_add_right hle overhead).trans_lt hvalues,
      (Nat.mul_le_mul_right _ (Nat.add_le_add_right hle overhead)).trans_lt hbytes, rfl⟩
  rw [alloc, checkedInt_of_lt hproduct, Option.bind_eq_bind, Option.bind_some, hsend,
    Option.bind_eq_bind, Option.bind_some, hrecv]
  rfl

theorem fits_of_alloc {commRank : ℕ} {buffers : ScattervBuffers}
    (h : test.alloc t commSize commRank = some buffers) : test.Fits t commSize := by
  simp only [alloc, Option.bind_eq_bind, Option.bind_eq_some_iff, checkedInt_eq_some_iff] at h
  obtain ⟨_, ⟨hproduct, rfl⟩, _, hsend, -⟩ := h
  exact ⟨hproduct, (allocatedBuffer_eq_some_iff.mp hsend).2.1⟩

/-- The counters of the loop do not overflow either. -/
theorem Fits.counters (h : test.Fits t commSize) (hsuffices : test.Suffices commSize) :
    blockStart test.stride (commSize - 1) < 2 ^ 31 ∧
      blockStart test.stride (commSize - 1) * t.size.toNat
        ≤ (test.product commSize / 2 + 1 + overhead) * t.size.toNat := by
  obtain ⟨hproduct, hbytes⟩ := h
  have hsend := hsuffices.send
  exact ⟨by omega, Nat.mul_le_mul_right _ (by omega)⟩

/-- A rank that has received its array in every round records nothing. -/
theorem run_eq_nil (h : Settable cfg t fields) (hnull : t.datatype ≠ .null) {commRank : ℕ}
    (hbound : commRank + commRank ≤ 2 ^ 32) {received : ℕ → Memory}
    (hreceived : ∀ root < commSize, IsStandardArray cfg t commRank commRank (received root))
    (env : Env) :
    scattervRun cfg t commRank commSize received (perform env (scattervInit commRank)).env
      = some [] := by
  rw [h.scattervRun_eq hnull, List.filter_eq_nil_iff.mpr fun root hroot ↦ ?_, List.map_nil]
  have hholds := h.holdsStandardArray_of_isStandardArray hbound
    (hreceived root (List.mem_range.mp hroot))
  have hnone : receivedErrors cfg t fields commRank commRank (received root) = 0 := by
    refine List.countP_eq_zero.mpr fun i hi ↦ ?_
    rw [(h.holdsStandardArray_iff _ _ _).mp hholds i (List.mem_range.mp hi)]
    exact Bool.false_ne_true
  exact fun herrors ↦ of_decide_eq_true herrors hnone

/-- A single process sends nothing. -/
theorem laidOut_one (m : Memory) (sendCounts sendDispls : ℕ → ℕ) (stride : Bool) (bytes : ℕ) :
    LaidOut cfg t stride 1 bytes (stateAfter cfg t fields stride m sendCounts sendDispls 0) where
  ranks := rfl
  first := rfl
  count := nofun
  handed := nofun
  disjoint := nofun
  inBlock := nofun
  kept := nofun
  keptBehind _ := nofun

/-- A test works if the numbers fit and the datatype has bytes in the table, or there is nothing to
send. -/
theorem Fits.works (hfits : test.Fits t commSize) (hsuffices : test.Suffices commSize)
    (ht : t ∈ initTypes cfg) (hnull : t.datatype ≠ .null) (hsize : commSize = 1 ∨ 0 < t.size) :
    ScattervWorks test cfg t commSize := by
  intro sendCounts sendDispls
  obtain ⟨fields, h⟩ := exists_settable cfg ht hnull
  obtain ⟨hdispls, hpos⟩ := hfits.counters hsuffices
  choose m hsend using fun r ↦ h.exists_scattervSend
    (freshValues t (test.product commSize / 2 + 1)) (sendCounts r) (sendDispls r) hdispls
    (hpos.trans_lt hfits.2)
  -- what is received is decided by what the roots have sent
  suffices hreceived : ∀ commRank < commSize,
      LaidOut cfg t test.stride commSize ((test.product commSize / 2 + 1 + overhead) * t.size.toNat)
        (stateAfter cfg t fields test.stride (m commRank) (sendCounts commRank)
          (sendDispls commRank) (commSize - 1)) ∧
      ∀ root, IsStandardArray cfg t commRank commRank (receivedAfter t.datatype.typemap commRank
        (fun r ↦ stateAfter cfg t fields test.stride (m r) (sendCounts r) (sendDispls r)
          (commSize - 1)) (freshValues t (test.recvValues commRank)) (root + 1)) by
    refine ⟨_, _, fun commRank hrank ↦ ⟨hfits.alloc_eq hsuffices hrank, hsend commRank,
      (hreceived commRank hrank).1, fun root _ ↦ (hreceived commRank hrank).2 root,
      run_eq_nil h hnull ?_ fun root _ ↦ (hreceived commRank hrank).2 root⟩⟩
    have hrecv := hsuffices.recv commRank hrank
    have hrecv_le := hsuffices.recv_le commRank hrank
    have hproduct := hfits.1
    omega
  intro commRank hrank
  by_cases hpos' : 0 < t.size
  · obtain ⟨fields', h'⟩ := exists_sendable cfg ht hnull hpos'
    obtain rfl : fields = fields' :=
      Option.some_inj.mp (h.fields_eq.symm.trans h'.settable.fields_eq)
    exact ⟨h'.laidOut _ _ _ hpos, h'.receivedAfter_apply (Nat.le_pred_of_lt hrank) (fun _ ↦ rfl)
      (h'.padded_allocvalues (hsuffices.recv commRank hrank))⟩
  · obtain rfl : commSize = 1 := hsize.resolve_right hpos'
    obtain rfl : commRank = 0 := Nat.lt_one_iff.mp hrank
    exact ⟨laidOut_one _ _ _ _ _,
      fun root ↦ (h.isStandardArray_iff 0 0 _).mpr fun i hi ↦ absurd hi (Nat.not_lt_zero i)⟩

/-- If there is something to send, what the table has no bytes for is not what is sent. -/
theorem size_pos_of_works (hworks : ScattervWorks test cfg t commSize) (ht : t ∈ initTypes cfg)
    (hnull : t.datatype ≠ .null) (hmany : 2 ≤ commSize) : 0 < t.size := by
  obtain ⟨fields, h⟩ := exists_settable cfg ht hnull
  refine lt_of_le_of_ne h.size_nonneg fun hzero ↦ ?_
  obtain ⟨buffers, sent, hranks⟩ := hworks (fun _ _ ↦ 0) fun _ _ ↦ 0
  obtain ⟨halloc, hsend, hlaid, -⟩ := hranks 0 (by omega)
  -- the root has written an array for the second rank
  have hsecond : 1 ∈ (sent 0).blocks.map Prod.fst := by
    rw [hlaid.ranks]
    exact List.mem_range'_1.mpr ⟨le_rfl, by omega⟩
  obtain ⟨b, hb, hrank⟩ := List.mem_map.mp hsecond
  have hlt := lb_lt_ub_of_size_eq_zero cfg ht hnull hzero.symm
  have hdef : t.size = t.ub - t.lb := rfl
  obtain ⟨hlow, hhigh⟩ := (hlaid.handed b hb 0 (by omega) _).mpr
    ⟨le_rfl, add_lt_add_right hlt (((sent 0).sendDispls b.1 + 0 : ℕ) * _)⟩
  omega

/-- **When a test works.** -/
theorem works_iff (hsuffices : test.Suffices commSize) (hp : 0 < commSize)
    (ht : t ∈ initTypes cfg) (hnull : t.datatype ≠ .null) :
    ScattervWorks test cfg t commSize ↔
      (commSize = 1 ∨ 0 < t.size) ∧ test.Fits t commSize := by
  constructor
  · intro hworks
    obtain ⟨buffers, sent, hranks⟩ := hworks (fun _ _ ↦ 0) fun _ _ ↦ 0
    refine ⟨?_, fits_of_alloc (hranks 0 hp).1⟩
    rcases (Nat.succ_le_of_lt hp).eq_or_lt with hone | hmany
    · exact Or.inl hone.symm
    · exact Or.inr (size_pos_of_works hworks ht hnull hmany)
  · rintro ⟨hsize, hfits⟩
    exact hfits.works hsuffices ht hnull hsize

end ScattervTest

/-- The last block ends where the product says, and no rank needs more than the root. -/
theorem suffices_scatterv {commSize : ℕ} (hp : 0 < commSize) :
    tstCollScatterv.Suffices commSize := by
  obtain ⟨n, rfl⟩ := Nat.exists_eq_succ_of_ne_zero hp.ne'
  have hproduct : tstCollScatterv.product (n + 1) = n * (n + 1) := rfl
  have hstart : 2 * blockStart tstCollScatterv.stride n = n * (n + 1) := two_mul_blockStart false n
  have hsquare : 2 * n ≤ n * (n + 1) := by
    rw [mul_add, mul_one, two_mul]
    exact Nat.add_le_add_right n.le_mul_self n
  refine ⟨?_, fun r _ ↦ Nat.le_succ r, fun r hr ↦ ?_⟩
  · rw [Nat.succ_eq_add_one, hproduct, Nat.add_sub_cancel]
    omega
  · have hvalues : tstCollScatterv.recvValues r = r + 1 := rfl
    rw [Nat.succ_eq_add_one, hproduct, hvalues]
    omega

/-- With an element behind each block, the last one but one ends where the product says. -/
theorem suffices_scatterv_stride {commSize : ℕ} (hp : 0 < commSize) :
    tstCollScattervStride.Suffices commSize := by
  obtain ⟨n, rfl⟩ := Nat.exists_eq_succ_of_ne_zero hp.ne'
  have hproduct : tstCollScattervStride.product (n + 1) = n * (n + 3) + 2 := by
    change (n + 1) * (n + 1 + 1) = _
    ring
  have hstart : 2 * blockStart tstCollScattervStride.stride n = n * (n + 3) :=
    two_mul_blockStart true n
  have hsquare : 2 * n ≤ n * (n + 3) := by
    rw [mul_comm 2 n]
    exact Nat.mul_le_mul_left n (by omega)
  refine ⟨?_, fun r _ ↦ le_rfl, fun r hr ↦ ?_⟩
  · rw [Nat.succ_eq_add_one, hproduct, Nat.add_sub_cancel]
    omega
  · have hvalues : tstCollScattervStride.recvValues r = r := rfl
    rw [Nat.succ_eq_add_one, hproduct, hvalues]
    omega

/-- **The layouts.** For every number of processes and every datatype: both tests do what they
should, on every rank and with every root, exactly if there is a single process or the table has
bytes for the datatype, and the size of the send buffer, like the product it is made of, is an
`int`. The table has no bytes for what lands in the row of `MPI_TYPE_MIX_LB_UB` under MPI 3. -/
theorem scatterv_works_iff (cfg : Config) (t : TypeSlot) (ht : t ∈ initTypes cfg)
    (hnull : t.datatype ≠ .null) (commSize : ℕ) (hp : 0 < commSize) :
    (ScattervWorks tstCollScatterv cfg t commSize ↔
      (commSize = 1 ∨ 0 < t.size) ∧ (commSize - 1) * commSize < 2 ^ 31 ∧
        ((commSize - 1) * commSize / 2 + 1 + overhead) * t.size.toNat < 2 ^ 31) ∧
    (ScattervWorks tstCollScattervStride cfg t commSize ↔
      (commSize = 1 ∨ 0 < t.size) ∧ commSize * (commSize + 1) < 2 ^ 31 ∧
        (commSize * (commSize + 1) / 2 + 1 + overhead) * t.size.toNat < 2 ^ 31) :=
  ⟨ScattervTest.works_iff (suffices_scatterv hp) hp ht hnull,
    ScattervTest.works_iff (suffices_scatterv_stride hp) hp ht hnull⟩

/-- Four processes and `MPI_TYPE_MIX_LB_UB` under MPI 2, whose lower bound is negative. -/
theorem scatterv_works_iff_mixLbUb :
    (ScattervWorks tstCollScatterv ⟨2, true, true, true, true, true, true, true, true⟩
        (slotMpi2 28) 4 ↔
      (4 = 1 ∨ 0 < (slotMpi2 28).size) ∧ (4 - 1) * 4 < 2 ^ 31 ∧
        ((4 - 1) * 4 / 2 + 1 + overhead) * (slotMpi2 28).size.toNat < 2 ^ 31) ∧
    (ScattervWorks tstCollScattervStride ⟨2, true, true, true, true, true, true, true, true⟩
        (slotMpi2 28) 4 ↔
      (4 = 1 ∨ 0 < (slotMpi2 28).size) ∧ 4 * (4 + 1) < 2 ^ 31 ∧
        (4 * (4 + 1) / 2 + 1 + overhead) * (slotMpi2 28).size.toNat < 2 ^ 31) :=
  scatterv_works_iff ⟨2, true, true, true, true, true, true, true, true⟩ (slotMpi2 28)
    (by decide +kernel) (by decide +kernel) 4 (by decide)

/-- From 3975 processes on, a send buffer of elements of `MPI_TYPE_MIX_ARRAY` is larger than an
`int` can say; and under MPI 3 the row of `MPI_TYPE_MIX_LB_UB` fails for two processes already. -/
theorem scatterv_fails :
    (¬∀ (cfg : Config) (t : TypeSlot), t ∈ initTypes cfg → t.datatype ≠ .null →
      ∀ commSize, 0 < commSize →
        ScattervWorks tstCollScatterv cfg t commSize ∧
          ScattervWorks tstCollScattervStride cfg t commSize) ∧
      ¬ScattervWorks tstCollScatterv ⟨3, true, true, true, true, true, true, true, true⟩
        (typeSlot ⟨3, true, true, true, true, true, true, true, true⟩ 28) 2 := by
  constructor
  · intro h
    have hworks := h ⟨2, true, true, true, true, true, true, true, true⟩ (slotMpi2 27)
      (by decide +kernel) (by decide +kernel) 3975 (by decide)
    obtain ⟨buffers, sent, hranks⟩ := hworks.1 (fun _ _ ↦ 0) fun _ _ ↦ 0
    have hfits := ScattervTest.fits_of_alloc (hranks 0 (by decide)).1
    exact absurd hfits.2 (by decide +kernel)
  · intro hworks
    have hpos := ScattervTest.size_pos_of_works hworks (by decide +kernel) (by decide +kernel)
      (by decide)
    exact absurd hpos (by decide +kernel)

end MpiTestSuite
