import MpiTestSuite.Coding.CInt
import MpiTestSuite.Report.Oracle

/-!
# The oracles of the two all-gather tests

Every rank contributes its standard array, from a send buffer or, with `MPI_IN_PLACE`, from the
block of the receive buffer that is its own. After `MPI_Allgather` block `i` should be the standard
array of rank `i`, which both tests check block by block, at the right places.

They ask `tst_type_checkstandardarray`, though, and not `tst_test_checkstandardarray`, and drop the
count it returns. No content of the receive buffer is ever recorded as a failure.
-/

namespace MpiTestSuite

section

variable (cfg : Config) (t : TypeSlot) (env : Env) (commRank commSize : ℕ)

/-- `i * env->values_num * type_size`, in `int`. -/
def gatherOffset (i : ℕ) : ℤ := wrapInt (wrapInt (i * env.valuesNum) * t.size)

/-- The loop of checks in both programs, which returns nothing. -/
def allgatherCheck (recvBuffer : Memory) : Option Unit :=
  forM (List.range commSize) fun i ↦ do
    let _ ← tstTypeCheckstandardarray cfg t env.valuesNum.toNat
      (recvBuffer.shift (gatherOffset t env i)) i
    return ()

/-- `tst_coll_allgather_run`, where `recvBuffer` is what `MPI_Allgather` leaves in the receive
buffer: the environments that `tst_test_recordfailure` is called with. -/
def tstCollAllgatherRun (sendBuffer recvBuffer : Memory) : Option (List Env) := do
  let _ ← tstTypeSetstandardarray cfg t env.valuesNum.toNat sendBuffer commRank
  allgatherCheck cfg t env commSize recvBuffer
  return []

/-- `tst_coll_allgather_in_place_init`: the receive buffer, with the block of the rank set. -/
def tstCollAllgatherInPlaceInit (recvBuffer : Memory) : Option Memory :=
  (tstTypeSetstandardarray cfg t env.valuesNum.toNat
    (recvBuffer.shift (gatherOffset t env commRank)) commRank).map fun m ↦
      m.shift (-gatherOffset t env commRank)

/-- `tst_coll_allgather_in_place_run`. -/
def tstCollAllgatherInPlaceRun (recvBuffer : Memory) : Option (List Env) := do
  allgatherCheck cfg t env commSize recvBuffer
  return []

/-- Block `i` of the receive buffer is the standard array of rank `i`. -/
def BlockArrived (recvBuffer : Memory) (i : ℕ) : Prop :=
  HoldsStandardArray cfg t env.valuesNum.toNat i (recvBuffer.shift (i * env.valuesNum * t.size))

end

/-- The two programs run to their end, and what the checks have counted is gone. -/
theorem Settable.allgatherCheck_eq {cfg : Config} {t : TypeSlot} {fields : List FieldStore}
    (h : Settable cfg t fields) (env : Env) (commSize : ℕ) (recvBuffer : Memory) :
    allgatherCheck cfg t env commSize recvBuffer = some () :=
  h.forM_drop env.valuesNum.toNat (List.range commSize)
    (fun i ↦ recvBuffer.shift (gatherOffset t env i)) fun i ↦ i

/-- **The oracles.** For both tests, every rank and every content of the receive buffer: a failure
is recorded exactly if some block is not the standard array of its rank, under the condition that
every block is. Whatever arrived, the programs run to their end and record nothing. -/
theorem allgather_records_iff (cfg : Config) (t : TypeSlot) (ht : t ∈ initTypes cfg)
    (hnull : t.datatype ≠ .null) (env : Env) (commSize commRank : ℕ)
    (sendBuffer initial recvBuffer : Memory) :
    (∃ calls, tstCollAllgatherRun cfg t env commRank commSize sendBuffer recvBuffer = some calls ∧
      ((calls ≠ [] ↔ ∃ i < commSize, ¬BlockArrived cfg t env recvBuffer i) ↔
        ∀ i < commSize, BlockArrived cfg t env recvBuffer i)) ∧
    (tstCollAllgatherInPlaceInit cfg t env commRank initial).isSome ∧
    ∃ calls, tstCollAllgatherInPlaceRun cfg t env commSize recvBuffer = some calls ∧
      ((calls ≠ [] ↔ ∃ i < commSize, ¬BlockArrived cfg t env recvBuffer i) ↔
        ∀ i < commSize, BlockArrived cfg t env recvBuffer i) := by
  obtain ⟨fields, h⟩ := exists_settable cfg ht hnull
  have hnothing : (([] : List Env) ≠ [] ↔ ∃ i < commSize, ¬BlockArrived cfg t env recvBuffer i) ↔
      ∀ i < commSize, BlockArrived cfg t env recvBuffer i := by
    simp
  refine ⟨⟨[], ?_, hnothing⟩, ?_, ⟨[], ?_, hnothing⟩⟩
  · rw [tstCollAllgatherRun, h.setstandardarray_eq, h.allgatherCheck_eq]
    rfl
  · rw [tstCollAllgatherInPlaceInit, h.setstandardarray_eq]
    rfl
  · rw [tstCollAllgatherInPlaceRun, h.allgatherCheck_eq]
    rfl

/-- Three values of `MPI_INT` on the second of two processes. -/
theorem allgather_records_iff_int :
    let cfg : Config := ⟨2, true, true, true, true, true, true, true, true⟩
    let env : Env := ⟨32, 0, 6, 3, 0⟩
    (∃ calls, tstCollAllgatherRun cfg (slotMpi2 6) env 1 2 (fun _ ↦ 0) (fun _ ↦ 0) = some calls ∧
      ((calls ≠ [] ↔ ∃ i < 2, ¬BlockArrived cfg (slotMpi2 6) env (fun _ ↦ 0) i) ↔
        ∀ i < 2, BlockArrived cfg (slotMpi2 6) env (fun _ ↦ 0) i)) ∧
    (tstCollAllgatherInPlaceInit cfg (slotMpi2 6) env 1 (fun _ ↦ 0)).isSome ∧
    ∃ calls, tstCollAllgatherInPlaceRun cfg (slotMpi2 6) env 2 (fun _ ↦ 0) = some calls ∧
      ((calls ≠ [] ↔ ∃ i < 2, ¬BlockArrived cfg (slotMpi2 6) env (fun _ ↦ 0) i) ↔
        ∀ i < 2, BlockArrived cfg (slotMpi2 6) env (fun _ ↦ 0) i) :=
  allgather_records_iff ⟨2, true, true, true, true, true, true, true, true⟩ (slotMpi2 6)
    (by decide +kernel) (by decide +kernel) ⟨32, 0, 6, 3, 0⟩ 2 1 (fun _ ↦ 0) (fun _ ↦ 0) fun _ ↦ 0

/-- A receive buffer of zeros is not what anyone sent, but neither program records it. -/
theorem allgather_records_nothing :
    (¬∀ (cfg : Config) (t : TypeSlot), t ∈ initTypes cfg → t.datatype ≠ .null →
      ∀ (env : Env) (commSize commRank : ℕ), commRank < commSize →
        ∀ (sendBuffer recvBuffer : Memory) (calls : List Env),
          tstCollAllgatherRun cfg t env commRank commSize sendBuffer recvBuffer = some calls →
          (calls ≠ [] ↔ ∃ i < commSize, ¬BlockArrived cfg t env recvBuffer i)) ∧
    ¬∀ (cfg : Config) (t : TypeSlot), t ∈ initTypes cfg → t.datatype ≠ .null →
      ∀ (env : Env) (commSize : ℕ) (recvBuffer : Memory) (calls : List Env),
        tstCollAllgatherInPlaceRun cfg t env commSize recvBuffer = some calls →
        (calls ≠ [] ↔ ∃ i < commSize, ¬BlockArrived cfg t env recvBuffer i) := by
  have hwrong : ∃ i < 2, ¬BlockArrived ⟨2, true, true, true, true, true, true, true, true⟩
      (slotMpi2 6) ⟨32, 0, 6, 3, 0⟩ (fun _ ↦ 0) i :=
    ⟨1, by decide, by unfold BlockArrived; decide +kernel⟩
  refine ⟨fun h ↦ ?_, fun h ↦ ?_⟩
  · have hexact := h ⟨2, true, true, true, true, true, true, true, true⟩ (slotMpi2 6)
      (by decide +kernel) (by decide +kernel) ⟨32, 0, 6, 3, 0⟩ 2 1 (by decide) (fun _ ↦ 0)
      (fun _ ↦ 0) [] (by decide +kernel)
    exact hexact.mpr hwrong rfl
  · have hexact := h ⟨2, true, true, true, true, true, true, true, true⟩ (slotMpi2 6)
      (by decide +kernel) (by decide +kernel) ⟨32, 0, 6, 3, 0⟩ 2 (fun _ ↦ 0) [] (by decide +kernel)
    exact hexact.mpr hwrong rfl

end MpiTestSuite
