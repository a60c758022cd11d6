import MpiTestSuite.Report.Failures
import MpiTestSuite.Runs.Fold
import MpiTestSuite.Types.StandardArray

/-!
# The oracle of the all-to-all test

Every rank fills a block of its send buffer for every rank, with numbers made of its own rank, the
block and the position (`alltoallElement`), and after `MPI_Alltoall` goes through the blocks of its
receive buffer.

The first two elements of a block are the same whoever sent them, and these are compared with what
was received. The others are compared with the *send* buffer, which still holds what the check
expects there: the formula of the check has its own rank in front, as the one that filled the
buffer. So no difference beyond the first two elements of a block is ever found, and the test is
right as long as there is none, or another one is found with it (`alltoall_records_iff`).
-/

open MpiTestSuite.Runs

namespace MpiTestSuite

/-- Element `j` of block `k`, as both functions compute it on the rank `commRank`. -/
def alltoallElement (commRank k j : ℕ) : TypeSet × ℤ :=
  if j = 0 then (.min, 0) else if j = 1 then (.max, 0)
  else (.value, 100000 * commRank + 1000 * k + j)

section

variable (cfg : Config) (t : TypeSlot) (valuesNum commRank commSize : ℕ)

/-- `(k*values_num + j) * type_size`. A collective is only called with the blocks of `init`, whose
sizes are of type `int` and greater. -/
def blockOffset (k j : ℕ) : ℤ := (k * valuesNum + j : ℕ) * t.size

/-- `tst_coll_alltoall_setarray`. -/
def tstCollAlltoallSetarray (sendBuffer : Memory) : Option Memory :=
  (List.range commSize).foldlM (fun m k ↦ (List.range valuesNum).foldlM (fun m j ↦
    if j = 0 then tstTypeSetvalue cfg t m (blockOffset t valuesNum k j) .min 0
    else if j = 1 then tstTypeSetvalue cfg t m (blockOffset t valuesNum k j) .max 0
    else tstTypeSetvalue cfg t m (blockOffset t valuesNum k j) .value
      (100000 * commRank + 1000 * k + j)) m) sendBuffer

/-- `tst_coll_alltoall_checkarray`, up to the call of `tst_test_recordfailure`: the number of
errors. -/
def tstCollAlltoallCheckarray (sendBuffer recvBuffer : Memory) : Option ℕ := do
  let state ← (List.range commSize).foldlM (fun state k ↦
    (List.range valuesNum).foldlM (fun state j ↦
      if j = 0 then
        compareElement cfg t (.min, 0) recvBuffer (blockOffset t valuesNum k j) state
      else if j = 1 then
        compareElement cfg t (.max, 0) recvBuffer (blockOffset t valuesNum k j) state
      else
        compareElement cfg t (.value, 100000 * commRank + 1000 * k + j) sendBuffer
          (blockOffset t valuesNum k j) state) state) (freshValues t 1, 0)
  return state.2

end

/-- `tst_coll_alltoall_run`: the environments that `tst_test_recordfailure` is called with. The
collective leaves the send buffer alone and fills the receive buffer with something. -/
def tstCollAlltoallRun (cfg : Config) (t : TypeSlot) (env : Env) (commRank commSize : ℕ)
    (sendBuffer recvBuffer : Memory) : Option (List Env) := do
  let sendBuffer ← tstCollAlltoallSetarray cfg t env.valuesNum.toNat commRank commSize sendBuffer
  let errors ← tstCollAlltoallCheckarray cfg t env.valuesNum.toNat commRank commSize sendBuffer
    recvBuffer
  return if errors ≠ 0 then [env] else []

/-- The received element `(k, j)` is not what the rank `k` has in its send buffer for the rank
`commRank`. -/
def ReceivedDiffers (t : TypeSlot) (valuesNum commRank : ℕ) (recvBuffer sent : Memory)
    (k j : ℕ) : Prop :=
  tstTypeCmpvalue t recvBuffer (blockOffset t valuesNum k j) sent
    (blockOffset t valuesNum commRank j) = true

/-! ## Blocks -/

/-- The first two elements of a block do not depend on who sends them to whom. -/
theorem alltoallElement_of_lt_two (commRank k commRank' k' : ℕ) {j : ℕ} (hj : j < 2) :
    alltoallElement commRank k j = alltoallElement commRank' k' j := by
  rcases j with - | - | j
  · rfl
  · rfl
  · omega

/-- Each branch of the check compares an element, but not all of them the one that was received. -/
theorem compare_alltoallElement (cfg : Config) (t : TypeSlot) (valuesNum commRank : ℕ)
    (sendBuffer recvBuffer : Memory) (state : Memory × ℕ) (k j : ℕ) :
    (if j = 0 then compareElement cfg t (.min, 0) recvBuffer (blockOffset t valuesNum k j) state
      else if j = 1 then
        compareElement cfg t (.max, 0) recvBuffer (blockOffset t valuesNum k j) state
      else compareElement cfg t (.value, 100000 * commRank + 1000 * k + j) sendBuffer
        (blockOffset t valuesNum k j) state)
      = compareElement cfg t (alltoallElement commRank k j)
        (if j < 2 then recvBuffer else sendBuffer) (blockOffset t valuesNum k j) state := by
  rcases j with - | - | j
  · rfl
  · rfl
  · rw [if_neg (by omega), if_neg (by omega), if_neg (by omega), alltoallElement,
      if_neg (by omega), if_neg (by omega)]

/-- The indices of the elements, block by block. -/
def blockIndices (commSize valuesNum : ℕ) : List (ℕ × ℕ) :=
  (List.range commSize).flatMap fun k ↦ (List.range valuesNum).map fun j ↦ (k, j)

theorem mem_blockIndices {commSize valuesNum : ℕ} {x : ℕ × ℕ} :
    x ∈ blockIndices commSize valuesNum ↔ x.1 < commSize ∧ x.2 < valuesNum := by
  simp [blockIndices, Prod.ext_iff, eq_comm]

/-- A loop within a loop. -/
theorem foldlM_blocks {σ : Type} (commSize valuesNum : ℕ) (f : σ → ℕ → ℕ → Option σ) (s : σ) :
    (List.range commSize).foldlM (fun s k ↦ (List.range valuesNum).foldlM (fun s j ↦ f s k j) s) s
      = (blockIndices commSize valuesNum).foldlM (fun s x ↦ f s x.1 x.2) s := by
  rw [blockIndices, foldlM_flatMap]
  simp only [List.foldlM_map]

/-- The array that a rank sends. -/
def sentElements (valuesNum commRank commSize : ℕ) : List (ℕ × TypeSet × ℤ) :=
  (List.range commSize).flatMap fun k ↦
    (List.range valuesNum).map fun j ↦ (k * valuesNum + j, alltoallElement commRank k j)

theorem mem_sentElements {valuesNum commRank commSize k j : ℕ} (hk : k < commSize)
    (hj : j < valuesNum) :
    (k * valuesNum + j, alltoallElement commRank k j)
      ∈ sentElements valuesNum commRank commSize :=
  List.mem_flatMap.mpr ⟨k, List.mem_range.mpr hk, List.mem_map_of_mem (List.mem_range.mpr hj)⟩

theorem ascending_sentElements (valuesNum commRank commSize : ℕ) :
    Ascending (sentElements valuesNum commRank commSize) :=
  ascending_blocks commSize valuesNum (alltoallElement commRank)

namespace Settable

variable {cfg : Config} {t : TypeSlot} {fields : List FieldStore} {valuesNum commRank commSize : ℕ}

theorem setarray_eq (h : Settable cfg t fields) (m : Memory) :
    tstCollAlltoallSetarray cfg t valuesNum commRank commSize m
      = some (setElements cfg t fields (sentElements valuesNum commRank commSize) m) := by
  have hbody : ∀ (m : Memory) (k j : ℕ),
      (if j = 0 then tstTypeSetvalue cfg t m (blockOffset t valuesNum k j) .min 0
        else if j = 1 then tstTypeSetvalue cfg t m (blockOffset t valuesNum k j) .max 0
        else tstTypeSetvalue cfg t m (blockOffset t valuesNum k j) .value
          (100000 * commRank + 1000 * k + j))
        = tstTypeSetvalue cfg t m (blockOffset t valuesNum k j) (alltoallElement commRank k j).1
          (alltoallElement commRank k j).2 := by
    intro m k j
    rw [alltoallElement]
    split_ifs <;> rfl
  have hloop := h.foldlM_setvalue (sentElements valuesNum commRank commSize) m
  rw [sentElements, foldlM_flatMap] at hloop
  simp only [List.foldlM_map] at hloop
  rw [tstCollAlltoallSetarray]
  simp only [hbody]
  exact hloop

/-- What an element is compared with does not depend on the buffer it was sent from. -/
theorem receivedDiffers_iff (h : Settable cfg t fields) (recvBuffer m : Memory) {k j : ℕ}
    (hrank : commRank < commSize) (hj : j < valuesNum) :
    ReceivedDiffers t valuesNum commRank recvBuffer
        (setElements cfg t fields (sentElements valuesNum k commSize) m) k j ↔
      tstTypeCmpvalue t recvBuffer (blockOffset t valuesNum k j)
        (elementOf cfg t fields (alltoallElement k commRank j)) 0 = true := by
  have hsent := h.cmpvalue_setElements (ascending_sentElements valuesNum k commSize) m recvBuffer
    (blockOffset t valuesNum k j) (mem_sentElements hrank hj)
  rw [ReceivedDiffers, ← hsent]
  rfl

/-- An element that should hold a value is compared with the very same value. -/
theorem cmpvalue_sent (h : Settable cfg t fields) (m : Memory) {k j : ℕ} (hk : k < commSize)
    (hj : j < valuesNum) (hint : 2 ≤ j → (100000 * commRank + 1000 * k + j : ℤ) < 2 ^ 31) :
    tstTypeCmpvalue t (setElements cfg t fields (sentElements valuesNum commRank commSize) m)
      (blockOffset t valuesNum k j) (elementOf cfg t fields (alltoallElement commRank k j)) 0
      = false := by
  have hbound : (alltoallElement commRank k j).2.natAbs < 2 ^ 64 := by
    rw [alltoallElement]
    split_ifs
    · exact Nat.two_pow_pos 64
    · exact Nat.two_pow_pos 64
    · have hfits := hint (by omega)
      simp only
      omega
  have hsent := h.cmpvalue_setElements (ascending_sentElements valuesNum commRank commSize) m
    (elementOf cfg t fields (alltoallElement commRank k j)) 0 (mem_sentElements hk hj)
  rw [cmpvalue_comm]
  exact hsent.trans (h.cmpvalue_elementOf_self hbound)

/-- **The check.** Errors are the differences in the first two elements of each block. -/
theorem checkarray_eq (h : Settable cfg t fields) (m recvBuffer : Memory)
    (hint : ∀ k < commSize, ∀ j < valuesNum, 2 ≤ j →
      (100000 * commRank + 1000 * k + j : ℤ) < 2 ^ 31) :
    tstCollAlltoallCheckarray cfg t valuesNum commRank commSize
        (setElements cfg t fields (sentElements valuesNum commRank commSize) m) recvBuffer
      = some ((blockIndices commSize valuesNum).countP fun x ↦ decide (x.2 < 2) &&
          tstTypeCmpvalue t recvBuffer (blockOffset t valuesNum x.1 x.2)
            (elementOf cfg t fields (alltoallElement commRank x.1 x.2)) 0) := by
  obtain ⟨cmpValue, hloop⟩ := h.foldlM_compare (blockIndices commSize valuesNum)
    (fun x ↦ alltoallElement commRank x.1 x.2)
    (fun x ↦ if x.2 < 2 then recvBuffer
      else setElements cfg t fields (sentElements valuesNum commRank commSize) m)
    (fun x ↦ blockOffset t valuesNum x.1 x.2) (freshValues t 1) 0
  rw [tstCollAlltoallCheckarray]
  simp only [compare_alltoallElement]
  rw [foldlM_blocks commSize valuesNum fun state k j ↦ compareElement cfg t
    (alltoallElement commRank k j) (if j < 2 then recvBuffer
      else setElements cfg t fields (sentElements valuesNum commRank commSize) m)
    (blockOffset t valuesNum k j) state, hloop]
  simp only [Option.pure_def, Option.bind_eq_bind, Option.bind_some, Nat.zero_add, Option.some_inj]
  refine List.countP_congr fun x hx ↦ ?_
  obtain ⟨hk, hj⟩ := mem_blockIndices.mp hx
  by_cases hlow : x.2 < 2
  · simp [hlow]
  · rw [if_neg hlow, h.cmpvalue_sent m hk hj (hint _ hk _ hj)]
    simp [hlow]

/-- The run records a failure exactly if one of the first two elements of a block differs. -/
theorem exists_calls (h : Settable cfg t fields) (env : Env) (hrank : commRank < commSize)
    (hint : ∀ k < commSize, ∀ j < env.valuesNum.toNat, 2 ≤ j →
      (100000 * commRank + 1000 * k + j : ℤ) < 2 ^ 31) (buffers : ℕ → Memory)
    (recvBuffer : Memory) :
    ∃ calls, tstCollAlltoallRun cfg t env commRank commSize (buffers commRank) recvBuffer
        = some calls ∧
      (calls ≠ [] ↔ ∃ k < commSize, ∃ j < env.valuesNum.toNat, j < 2 ∧
        ReceivedDiffers t env.valuesNum.toNat commRank recvBuffer
          (setElements cfg t fields (sentElements env.valuesNum.toNat k commSize) (buffers k))
          k j) := by
  have hrun : tstCollAlltoallRun cfg t env commRank commSize (buffers commRank) recvBuffer
      = some (if ((blockIndices commSize env.valuesNum.toNat).countP fun x ↦ decide (x.2 < 2) &&
          tstTypeCmpvalue t recvBuffer (blockOffset t env.valuesNum.toNat x.1 x.2)
            (elementOf cfg t fields (alltoallElement commRank x.1 x.2)) 0) ≠ 0
          then [env] else []) := by
    rw [tstCollAlltoallRun, h.setarray_eq]
    simp only [Option.pure_def, Option.bind_eq_bind, Option.bind_some]
    rw [h.checkarray_eq (buffers commRank) recvBuffer hint, Option.bind_some]
  refine ⟨_, hrun, ?_⟩
  rw [ite_ne_right_iff, ← Nat.pos_iff_ne_zero, List.countP_pos_iff]
  constructor
  · rintro ⟨⟨⟨k, j⟩, hx, hfound⟩, -⟩
    obtain ⟨hk, hj⟩ := mem_blockIndices.mp hx
    obtain ⟨hlow, hdiffers⟩ := Bool.and_eq_true_iff.mp hfound
    have hlow : j < 2 := of_decide_eq_true hlow
    refine ⟨k, hk, j, hj, hlow, ?_⟩
    rw [h.receivedDiffers_iff recvBuffer _ hrank hj,
      alltoallElement_of_lt_two k commRank commRank k hlow]
    exact hdiffers
  · rintro ⟨k, hk, j, hj, hlow, hdiffers⟩
    rw [h.receivedDiffers_iff recvBuffer _ hrank hj,
      alltoallElement_of_lt_two k commRank commRank k hlow] at hdiffers
    exact ⟨⟨(k, j), mem_blockIndices.mpr ⟨hk, hj⟩, by simp [hlow, hdiffers]⟩, by simp⟩

end Settable

/-- **The oracle.** On every rank and for every content of the receive buffer: the test records a
failure exactly if a received element differs from what was sent there, under the condition that no
element beyond the first two of its block differs or some element among the first two does. -/
theorem alltoall_records_iff (cfg : Config) (t : TypeSlot) (ht : t ∈ initTypes cfg)
    (hnull : t.datatype ≠ .null) (env : Env) (commSize commRank : ℕ) (hrank : commRank < commSize)
    (hint : ∀ k < commSize, ∀ k' < commSize, ∀ j < env.valuesNum.toNat, 2 ≤ j →
      (100000 * k + 1000 * k' + j : ℤ) < 2 ^ 31)
    (buffers : ℕ → Memory) (recvBuffer : Memory) :
    ∃ sent : ℕ → Memory,
      (∀ k, tstCollAlltoallSetarray cfg t env.valuesNum.toNat k commSize (buffers k)
        = some (sent k)) ∧
      ∃ calls, tstCollAlltoallRun cfg t env commRank commSize (buffers commRank) recvBuffer
          = some calls ∧
        ((calls ≠ [] ↔ ∃ k < commSize, ∃ j < env.valuesNum.toNat,
            ReceivedDiffers t env.valuesNum.toNat commRank recvBuffer (sent k) k j) ↔
          (∀ k < commSize, ∀ j < env.valuesNum.toNat, 2 ≤ j →
            ¬ReceivedDiffers t env.valuesNum.toNat commRank recvBuffer (sent k) k j) ∨
          ∃ k < commSize, ∃ j < env.valuesNum.toNat, j < 2 ∧
            ReceivedDiffers t env.valuesNum.toNat commRank recvBuffer (sent k) k j) := by
  obtain ⟨fields, h⟩ := exists_settable cfg ht hnull
  obtain ⟨calls, hrun, hcalls⟩ :=
    h.exists_calls env hrank (hint commRank hrank) buffers recvBuffer
  refine ⟨fun k ↦ setElements cfg t fields (sentElements env.valuesNum.toNat k commSize)
    (buffers k), fun k ↦ h.setarray_eq (buffers k), calls, hrun, ?_⟩
  rw [hcalls]
  constructor
  · intro hexact
    rw [or_iff_not_imp_right]
    intro hlow k hk j hj _ hdiffers
    exact hlow (hexact.mpr ⟨k, hk, j, hj, hdiffers⟩)
  · rintro (hnone | hlow)
    · constructor
      · rintro ⟨k, hk, j, hj, -, hdiffers⟩
        exact ⟨k, hk, j, hj, hdiffers⟩
      · rintro ⟨k, hk, j, hj, hdiffers⟩
        exact ⟨k, hk, j, hj, not_le.mp fun hle ↦ hnone k hk j hj hle hdiffers, hdiffers⟩
    · refine iff_of_true hlow ?_
      obtain ⟨k, hk, j, hj, -, hdiffers⟩ := hlow
      exact ⟨k, hk, j, hj, hdiffers⟩

/-- Three values of `MPI_INT` on two processes. -/
theorem alltoall_records_iff_int :
    let cfg : Config := ⟨2, true, true, true, true, true, true, true, true⟩
    let env : Env := ⟨38, 0, 6, 3, 0⟩
    ∃ sent : ℕ → Memory,
      (∀ k, tstCollAlltoallSetarray cfg (slotMpi2 6) 3 k 2 (fun _ ↦ 0) = some (sent k)) ∧
      ∃ calls, tstCollAlltoallRun cfg (slotMpi2 6) env 1 2 (fun _ ↦ 0) (fun _ ↦ 0) = some calls ∧
        ((calls ≠ [] ↔ ∃ k < 2, ∃ j < 3,
            ReceivedDiffers (slotMpi2 6) 3 1 (fun _ ↦ 0) (sent k) k j) ↔
          (∀ k < 2, ∀ j < 3, 2 ≤ j →
            ¬ReceivedDiffers (slotMpi2 6) 3 1 (fun _ ↦ 0) (sent k) k j) ∨
          ∃ k < 2, ∃ j < 3, j < 2 ∧ ReceivedDiffers (slotMpi2 6) 3 1 (fun _ ↦ 0) (sent k) k j) :=
  alltoall_records_iff ⟨2, true, true, true, true, true, true, true, true⟩ (slotMpi2 6)
    (by decide +kernel) (by decide +kernel) ⟨38, 0, 6, 3, 0⟩ 2 1 (by decide)
    (fun _ _ _ _ _ hj _ ↦ by have : _ < 3 := hj; omega) (fun _ _ ↦ 0) (fun _ ↦ 0)

/-- A third element that never arrived is not noticed. -/
theorem alltoall_misses_third_element :
    ¬∀ (cfg : Config) (t : TypeSlot), t ∈ initTypes cfg → t.datatype ≠ .null →
      ∀ (env : Env) (commSize commRank : ℕ), commRank < commSize →
        (∀ k < commSize, ∀ k' < commSize, ∀ j < env.valuesNum.toNat, 2 ≤ j →
          (100000 * k + 1000 * k' + j : ℤ) < 2 ^ 31) →
        ∀ (buffers sent : ℕ → Memory) (recvBuffer : Memory) (calls : List Env),
          (∀ k, tstCollAlltoallSetarray cfg t env.valuesNum.toNat k commSize (buffers k)
            = some (sent k)) →
          tstCollAlltoallRun cfg t env commRank commSize (buffers commRank) recvBuffer
            = some calls →
          (calls ≠ [] ↔ ∃ k < commSize, ∃ j < env.valuesNum.toNat,
            ReceivedDiffers t env.valuesNum.toNat commRank recvBuffer (sent k) k j) := by
  intro h
  let cfg : Config := ⟨2, true, true, true, true, true, true, true, true⟩
  let sent : ℕ → Memory := fun k ↦
    setElements cfg (slotMpi2 6) (setScalar .int) (sentElements 3 k 1) fun _ ↦ 0
  have hsettable : Settable cfg (slotMpi2 6) (setScalar .int) :=
    ⟨by decide +kernel, by decide +kernel, by decide +kernel⟩
  have hexact := h cfg (slotMpi2 6) (by decide +kernel) (by decide +kernel) ⟨38, 0, 6, 3, 0⟩ 1 0
    (by decide) (fun _ _ _ _ _ hj _ ↦ by have : _ < 3 := hj; omega) (fun _ _ ↦ 0) sent
    (store (sent 0) 8 [0]) [] (fun k ↦ hsettable.setarray_eq fun _ ↦ 0) (by decide +kernel)
  exact hexact.mpr ⟨0, by decide, 2, by decide, by unfold ReceivedDiffers; decide +kernel⟩ rfl

end MpiTestSuite
