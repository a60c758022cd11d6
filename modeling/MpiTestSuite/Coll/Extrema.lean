import Mathlib.Order.Bounds.Basic
import MpiTestSuite.Coll.Sum
import MpiTestSuite.Report.Oracle
import MpiTestSuite.Types.Integers

/-!
# The oracles of the minimum and maximum tests

The ranks reduce their standard arrays with `MPI_MIN` or `MPI_MAX`, to the root or into windows, and
the result is compared with the standard array of the first rank or of the last one.

That this is the right one is a fact about the numbers of the arrays: the first two are the same on
every rank, the others grow with the rank until they are clamped, and clamping keeps the order
(`standardNumber_mono`). So the array of rank `0` is the least in every element and the one of rank
`p-1` the greatest, also where several ranks have the same number there.

The numbers of a rank need a buffer, though, and the size of a buffer is computed in `int`.
-/

namespace MpiTestSuite

/-! ## Folds of a maximum -/

section

variable {α : Type*} [LinearOrder α]

theorem isGreatest_foldl_max (a : α) (xs : List α) :
    IsGreatest {x | x = a ∨ x ∈ xs} (xs.foldl max a) := by
  induction xs generalizing a with
  | nil => exact ⟨Or.inl rfl, fun x hx ↦ (hx.resolve_right List.not_mem_nil).le⟩
  | cons y xs ih =>
    obtain ⟨hmem, hupper⟩ := ih (max a y)
    have hmax : max a y ≤ xs.foldl max (max a y) := hupper (Or.inl rfl)
    constructor
    · rcases hmem with heq | hmem
      · rcases max_choice a y with hleft | hright
        · exact Or.inl (heq.trans hleft)
        · exact Or.inr (List.mem_cons.mpr (Or.inl (heq.trans hright)))
      · exact Or.inr (List.mem_cons_of_mem y hmem)
    · rintro x (rfl | hx)
      · exact (le_max_left _ _).trans hmax
      · rcases List.mem_cons.mp hx with rfl | hx
        · exact (le_max_right _ _).trans hmax
        · exact hupper (Or.inr hx)

theorem isLeast_foldl_min (a : α) (xs : List α) :
    IsLeast {x | x = a ∨ x ∈ xs} (xs.foldl min a) := isGreatest_foldl_max (α := αᵒᵈ) a xs

end

/-! ## The tests -/

section

variable (cfg : Config) (t : TypeSlot) (env : Env) (commRank commSize : ℕ)

/-- The initialisation of all four reductions: the send buffer and, on `ROOT`, the receive
buffer. -/
def reduceInit : Option (Memory × Option Memory) := do
  let sendBuffer ← tstTypeAllocvalues t env.valuesNum
  let sendBuffer ← tstTypeSetstandardarray cfg t env.valuesNum.toNat sendBuffer commRank
  if commRank = 0 then
    let recvBuffer ← tstTypeAllocvalues t env.valuesNum
    return (sendBuffer, some recvBuffer)
  else return (sendBuffer, none)

/-- What a rank hands over to `MPI_Reduce`. -/
def reduceSend (buffers : Memory × Option Memory) : Option Memory := do
  let _ ← elementCount env.valuesNum
  return buffers.1

/-- The same with `MPI_IN_PLACE`: the root sets its array once more, in the receive buffer. -/
def reduceInPlaceSend (buffers : Memory × Option Memory) : Option Memory := do
  let _ ← elementCount env.valuesNum
  if commRank = 0 then
    let recvBuffer ← buffers.2
    tstTypeSetstandardarray cfg t env.valuesNum.toNat recvBuffer commRank
  else return buffers.1

/-- The check of the result on `ROOT`. -/
def reduceCheck (result : Memory) (expectedRank : ℤ) : Option (List Env) :=
  if commRank = 0 then tstTestCheckstandardarray cfg t env result expectedRank else some []

/-- `tst_coll_reduce_min_init`. -/
def tstCollReduceMinInit : Option (Memory × Option Memory) := reduceInit cfg t env commRank

/-- `tst_coll_reduce_min_run`, where `recvBuffer` is what `MPI_Reduce` leaves there. -/
def tstCollReduceMinRun (recvBuffer : Memory) : Option (List Env) :=
  reduceCheck cfg t env commRank recvBuffer 0

/-- `tst_coll_reduce_max_init`. -/
def tstCollReduceMaxInit : Option (Memory × Option Memory) := reduceInit cfg t env commRank

/-- `tst_coll_reduce_max_run`. -/
def tstCollReduceMaxRun (recvBuffer : Memory) : Option (List Env) :=
  reduceCheck cfg t env commRank recvBuffer (commSize - 1)

/-- `tst_coll_reduce_in_place_min_init`. -/
def tstCollReduceInPlaceMinInit : Option (Memory × Option Memory) := reduceInit cfg t env commRank

/-- `tst_coll_reduce_in_place_min_run`, from the reduction on. -/
def tstCollReduceInPlaceMinRun (recvBuffer : Memory) : Option (List Env) :=
  reduceCheck cfg t env commRank recvBuffer 0

/-- `tst_coll_reduce_in_place_max_init`. -/
def tstCollReduceInPlaceMaxInit : Option (Memory × Option Memory) := reduceInit cfg t env commRank

/-- `tst_coll_reduce_in_place_max_run`, from the reduction on. -/
def tstCollReduceInPlaceMaxRun (recvBuffer : Memory) : Option (List Env) :=
  reduceCheck cfg t env commRank recvBuffer (commSize - 1)

/-- The initialisation of both accumulations: the send buffer and the window. -/
def accumulateInit : Option (Memory × Memory) := do
  let sendBuffer ← tstTypeAllocvalues t env.valuesNum
  let sendBuffer ← tstTypeSetstandardarray cfg t env.valuesNum.toNat sendBuffer commRank
  let recvBuffer ← tstTypeAllocvalues t env.valuesNum
  let recvBuffer ← tstTypeSetstandardarray cfg t env.valuesNum.toNat recvBuffer commRank
  return (sendBuffer, recvBuffer)

/-- What a rank accumulates, and its window, whose size is `env->values_num*type_size`. -/
def accumulateSend (buffers : Memory × Memory) : Option (Memory × Memory) := do
  let _ ← checkedSigned (env.valuesNum * t.size)
  let _ ← elementCount env.valuesNum
  return buffers

/-- `tst_accumulate_with_post_min_init`. -/
def tstAccumulateWithPostMinInit : Option (Memory × Memory) := accumulateInit cfg t env commRank

/-- `tst_accumulate_with_post_min_run`, where `recvBuffer` is what is in the window in the end. -/
def tstAccumulateWithPostMinRun (recvBuffer : Memory) : Option (List Env) :=
  tstTestCheckstandardarray cfg t env recvBuffer 0

/-- `tst_accumulate_with_lock_max_init`. -/
def tstAccumulateWithLockMaxInit : Option (Memory × Memory) := accumulateInit cfg t env commRank

/-- `tst_accumulate_with_lock_max_run`. -/
def tstAccumulateWithLockMaxRun (recvBuffer : Memory) : Option (List Env) :=
  tstTestCheckstandardarray cfg t env recvBuffer (commSize - 1)

end

/-! ## What is expected of MPI -/

section

variable (b : Bool × ℕ) (t : TypeSlot) (n commSize : ℕ) (arrays : ℕ → Memory)

/-- Every element of the result is an extremum of what the ranks contribute. -/
def ReduceExact (extremum : Set ℤ → ℤ → Prop) (result : Memory) : Prop :=
  ∀ i : ℕ, i < n → extremum {x | ∃ r < commSize, numberAt b (arrays r) (i * t.size) = x}
    (numberAt b result (i * t.size))

/-- The ranks that accumulate to a target, as often as they do. Both programs go through all ranks
but their own, as the one does that accumulates sums. -/
def accumulateOrigins (target : ℕ) : List ℕ :=
  (List.range commSize).flatMap fun q ↦
    List.replicate ((accumulateTargets q commSize).count target) q

/-- Every element of the window is combined with what is accumulated to it, in some order. -/
def AccumulateExact (op : ℤ → ℤ → ℤ) (target : ℕ) (window result : Memory) : Prop :=
  ∀ i : ℕ, i < n → ∃ origins : List ℕ, origins.Perm (accumulateOrigins commSize target) ∧
    numberAt b result (i * t.size)
      = (origins.map fun q ↦ numberAt b (arrays q) (i * t.size)).foldl op
          (numberAt b window (i * t.size))

end

section

variable (cfg : Config) (t : TypeSlot) (env : Env) (commSize : ℕ) (b : Bool × ℕ)

/-- A test of reductions passes: all ranks have something to hand over, and if the reduction is
exact, nothing is recorded. -/
def ReducePasses (init : ℕ → Option (Memory × Option Memory))
    (send : ℕ → Memory × Option Memory → Option Memory) (extremum : Set ℤ → ℤ → Prop)
    (run : ℕ → Memory → Option (List Env)) : Prop :=
  ∃ arrays : ℕ → Memory, (∀ r < commSize, (init r).bind (send r) = some (arrays r)) ∧
    ∀ result, ReduceExact b t env.valuesNum.toNat commSize arrays extremum result →
      ∀ r < commSize, run r result = some []

/-- A test of accumulations passes: all ranks have a window and something to accumulate, and if what
is in a window in the end is exact, nothing is recorded. -/
def AccumulatePasses (init : ℕ → Option (Memory × Memory)) (op : ℤ → ℤ → ℤ)
    (run : Memory → Option (List Env)) : Prop :=
  ∃ arrays windows : ℕ → Memory,
    (∀ r < commSize, (init r).bind (accumulateSend t env) = some (arrays r, windows r)) ∧
    ∀ target < commSize, ∀ result,
      AccumulateExact b t env.valuesNum.toNat commSize arrays op target (windows target) result →
      run result = some []

/-- What the minimum and maximum tests do on a communicator of `commSize` ranks. -/
structure ExtremaOracles : Prop where
  /-- The element-wise minimum of the standard arrays is the one of rank `0`. -/
  least : ∀ memory arrays : ℕ → Memory,
    (∀ r < commSize,
      tstTypeSetstandardarray cfg t env.valuesNum.toNat (memory r) r = some (arrays r)) →
    ReduceExact b t env.valuesNum.toNat commSize arrays IsLeast (arrays 0)
  /-- The element-wise maximum is the one of the last rank. -/
  greatest : ∀ memory arrays : ℕ → Memory,
    (∀ r < commSize,
      tstTypeSetstandardarray cfg t env.valuesNum.toNat (memory r) r = some (arrays r)) →
    ReduceExact b t env.valuesNum.toNat commSize arrays IsGreatest (arrays (commSize - 1))
  reduceMin : ReducePasses t env commSize b (tstCollReduceMinInit cfg t env)
    (fun _ ↦ reduceSend env) IsLeast (tstCollReduceMinRun cfg t env)
  reduceMax : ReducePasses t env commSize b (tstCollReduceMaxInit cfg t env)
    (fun _ ↦ reduceSend env) IsGreatest fun r ↦ tstCollReduceMaxRun cfg t env r commSize
  reduceInPlaceMin : ReducePasses t env commSize b (tstCollReduceInPlaceMinInit cfg t env)
    (reduceInPlaceSend cfg t env) IsLeast (tstCollReduceInPlaceMinRun cfg t env)
  reduceInPlaceMax : ReducePasses t env commSize b (tstCollReduceInPlaceMaxInit cfg t env)
    (reduceInPlaceSend cfg t env) IsGreatest fun r ↦ tstCollReduceInPlaceMaxRun cfg t env r commSize
  accumulateMin : AccumulatePasses t env commSize b (tstAccumulateWithPostMinInit cfg t env) min
    (tstAccumulateWithPostMinRun cfg t env)
  accumulateMax : AccumulatePasses t env commSize b (tstAccumulateWithLockMaxInit cfg t env) max
    (tstAccumulateWithLockMaxRun cfg t env commSize)
  /-- A result that differs from the array of the last rank is recorded by the one that checks. -/
  detected : ∀ result, ¬HoldsStandardArray cfg t env.valuesNum.toNat (commSize - 1) result →
    tstCollReduceMaxRun cfg t env 0 commSize result = some [env] ∧
      tstCollReduceInPlaceMaxRun cfg t env 0 commSize result = some [env] ∧
      tstAccumulateWithLockMaxRun cfg t env commSize result = some [env]

end

/-! ## The numbers of standard arrays -/

/-- The number at element `i` of a standard array. -/
def standardNumber (b : Bool × ℕ) (commRank : ℤ) (i : ℕ) : ℤ :=
  setNumber b (elementSet i) (elementValue commRank i)

/-- An element of a higher rank is no less. -/
theorem standardNumber_mono (b : Bool × ℕ) (i : ℕ) {r r' : ℤ} (hle : r ≤ r') :
    standardNumber b r i ≤ standardNumber b r' i := by
  rcases i with - | - | i
  · exact le_rfl
  · exact le_rfl
  · exact clampInt_mono b (add_le_add_left hle _)

theorem mem_accumulateOrigins {commSize target : ℕ} (htarget : target < commSize) {q : ℕ} :
    q ∈ accumulateOrigins commSize target ↔ q < commSize ∧ q ≠ target := by
  simp only [accumulateOrigins, List.mem_flatMap, List.mem_range, List.mem_replicate,
    count_accumulateTargets htarget]
  constructor
  · rintro ⟨p, hp, hcount, rfl⟩
    exact ⟨hp, fun heq ↦ hcount (if_pos heq)⟩
  · rintro ⟨hq, hne⟩
    exact ⟨q, hq, by rw [if_neg hne]; exact one_ne_zero, rfl⟩

namespace IntegerSlot

variable {cfg : Config} {t : TypeSlot} {s : Scalar} {b : Bool × ℕ}

theorem holdsStandardArray_iff (h : IntegerSlot cfg t s b) (n : ℕ) (commRank : ℤ)
    (buffer : Memory) :
    HoldsStandardArray cfg t n commRank buffer ↔ ∀ i : ℕ, i < n →
      numberAt b buffer (i * t.size) = standardNumber b commRank i := by
  rw [h.settable.holdsStandardArray_iff]
  refine forall₂_congr fun i _ ↦ ?_
  rw [h.cmpvalue_eq_false_iff, expected, setElement, h.numberAt_setFields, standardNumber]

/-- The numbers of an array that has been set. -/
theorem numberAt_of_set (h : IntegerSlot cfg t s b) {n : ℕ} {commRank : ℤ} {m w : Memory}
    (hset : tstTypeSetstandardarray cfg t n m commRank = some w) {i : ℕ} (hi : i < n) :
    numberAt b w (i * t.size) = standardNumber b commRank i := by
  rw [h.settable.setstandardarray_eq, Option.some_inj] at hset
  rw [← hset, h.numberAt_written commRank m hi, standardNumber]

/-- What the ranks contribute are standard arrays. -/
def Contributes (cfg : Config) (t : TypeSlot) (n commSize : ℕ) (arrays : ℕ → Memory) : Prop :=
  ∀ r < commSize, ∃ m, tstTypeSetstandardarray cfg t n m r = some (arrays r)

variable {n commSize : ℕ} {arrays : ℕ → Memory}

/-- The numbers of all contributions to an element. -/
theorem setOf_numberAt (h : IntegerSlot cfg t s b) (hset : Contributes cfg t n commSize arrays)
    {i : ℕ} (hi : i < n) :
    {x | ∃ r < commSize, numberAt b (arrays r) (i * t.size) = x}
      = {x | ∃ r < commSize, standardNumber b r i = x} := by
  refine Set.ext fun x ↦ exists_congr fun r ↦ and_congr_right fun hr ↦ ?_
  obtain ⟨m, hm⟩ := hset r hr
  rw [h.numberAt_of_set hm hi]

theorem isLeast_standardNumber (b : Bool × ℕ) (i : ℕ) (hpos : 0 < commSize) :
    IsLeast {x | ∃ r < commSize, standardNumber b r i = x} (standardNumber b 0 i) := by
  refine ⟨⟨0, hpos, rfl⟩, ?_⟩
  rintro x ⟨r, -, rfl⟩
  exact standardNumber_mono b i (Int.natCast_nonneg r)

theorem isGreatest_standardNumber (b : Bool × ℕ) (i : ℕ) (hpos : 0 < commSize) :
    IsGreatest {x | ∃ r < commSize, standardNumber b r i = x}
      (standardNumber b (commSize - 1) i) := by
  refine ⟨⟨commSize - 1, Nat.sub_lt hpos Nat.one_pos, ?_⟩, ?_⟩
  · rw [Nat.cast_sub hpos, Nat.cast_one]
  · rintro x ⟨r, hr, rfl⟩
    exact standardNumber_mono b i (by omega)

/-- **The minimum.** A result is the minimum of all contributions exactly if it holds the standard
array of rank `0`. -/
theorem holds_of_isLeast (h : IntegerSlot cfg t s b) (hpos : 0 < commSize)
    (hset : Contributes cfg t n commSize arrays) (result : Memory) :
    ReduceExact b t n commSize arrays IsLeast result ↔ HoldsStandardArray cfg t n 0 result := by
  rw [h.holdsStandardArray_iff]
  refine forall₂_congr fun i hi ↦ ?_
  rw [h.setOf_numberAt hset hi]
  constructor
  · intro hleast
    exact hleast.unique (isLeast_standardNumber b i hpos)
  · intro heq
    rw [heq]
    exact isLeast_standardNumber b i hpos

/-- **The maximum.** -/
theorem holds_of_isGreatest (h : IntegerSlot cfg t s b) (hpos : 0 < commSize)
    (hset : Contributes cfg t n commSize arrays) (result : Memory) :
    ReduceExact b t n commSize arrays IsGreatest result ↔
      HoldsStandardArray cfg t n (commSize - 1) result := by
  rw [h.holdsStandardArray_iff]
  refine forall₂_congr fun i hi ↦ ?_
  rw [h.setOf_numberAt hset hi]
  constructor
  · intro hgreatest
    exact hgreatest.unique (isGreatest_standardNumber b i hpos)
  · intro heq
    rw [heq]
    exact isGreatest_standardNumber b i hpos

/-- The window of a target and what is accumulated to it are the contributions of all ranks. -/
theorem setOf_accumulated (h : IntegerSlot cfg t s b) (hset : Contributes cfg t n commSize arrays)
    {target : ℕ} (htarget : target < commSize) {m window : Memory}
    (hwindow : tstTypeSetstandardarray cfg t n m target = some window) {origins : List ℕ}
    (horigins : origins.Perm (accumulateOrigins commSize target)) {i : ℕ} (hi : i < n) :
    {x | x = numberAt b window (i * t.size) ∨
        x ∈ origins.map fun q ↦ numberAt b (arrays q) (i * t.size)}
      = {x | ∃ r < commSize, standardNumber b r i = x} := by
  refine Set.ext fun x ↦ ?_
  simp only [Set.mem_ofPred_eq, List.mem_map, horigins.mem_iff, mem_accumulateOrigins htarget,
    h.numberAt_of_set hwindow hi]
  constructor
  · rintro (rfl | ⟨q, ⟨hq, -⟩, rfl⟩)
    · exact ⟨target, htarget, rfl⟩
    · obtain ⟨m, hm⟩ := hset q hq
      exact ⟨q, hq, (h.numberAt_of_set hm hi).symm⟩
  · rintro ⟨r, hr, rfl⟩
    by_cases heq : r = target
    · exact Or.inl (by rw [heq])
    · obtain ⟨m, hm⟩ := hset r hr
      exact Or.inr ⟨r, ⟨hr, heq⟩, h.numberAt_of_set hm hi⟩

/-- **The window.** Accumulating minima leaves the array of rank `0`, in any order. -/
theorem holds_of_accumulate_min (h : IntegerSlot cfg t s b)
    (hset : Contributes cfg t n commSize arrays) {target : ℕ} (htarget : target < commSize)
    {m window result : Memory}
    (hwindow : tstTypeSetstandardarray cfg t n m target = some window)
    (hexact : AccumulateExact b t n commSize arrays min target window result) :
    HoldsStandardArray cfg t n 0 result := by
  refine (h.holdsStandardArray_iff n 0 result).mpr fun i hi ↦ ?_
  obtain ⟨origins, horigins, hfold⟩ := hexact i hi
  have hleast := isLeast_foldl_min (numberAt b window (i * t.size))
    (origins.map fun q ↦ numberAt b (arrays q) (i * t.size))
  rw [h.setOf_accumulated hset htarget hwindow horigins hi, ← hfold] at hleast
  exact hleast.unique (isLeast_standardNumber b i (Nat.zero_lt_of_lt htarget))

/-- Accumulating maxima leaves the array of the last rank. -/
theorem holds_of_accumulate_max (h : IntegerSlot cfg t s b)
    (hset : Contributes cfg t n commSize arrays) {target : ℕ} (htarget : target < commSize)
    {m window result : Memory}
    (hwindow : tstTypeSetstandardarray cfg t n m target = some window)
    (hexact : AccumulateExact b t n commSize arrays max target window result) :
    HoldsStandardArray cfg t n (commSize - 1) result := by
  refine (h.holdsStandardArray_iff n (commSize - 1) result).mpr fun i hi ↦ ?_
  obtain ⟨origins, horigins, hfold⟩ := hexact i hi
  have hgreatest := isGreatest_foldl_max (numberAt b window (i * t.size))
    (origins.map fun q ↦ numberAt b (arrays q) (i * t.size))
  rw [h.setOf_accumulated hset htarget hwindow horigins hi, ← hfold] at hgreatest
  exact hgreatest.unique (isGreatest_standardNumber b i (Nat.zero_lt_of_lt htarget))

/-! ## The checks -/

theorem reduceCheck_of_holds (h : IntegerSlot cfg t s b) {env : Env} {expectedRank : ℤ}
    {result : Memory}
    (hholds : HoldsStandardArray cfg t env.valuesNum.toNat expectedRank result) (commRank : ℕ) :
    reduceCheck cfg t env commRank result expectedRank = some [] := by
  rw [reduceCheck]
  split_ifs
  · rw [h.settable.testCheckstandardarray_eq, if_pos hholds]
  · rfl

/-! ## What the ranks contribute -/

/-- If the arrays fit, all ranks get as far as the reduction. -/
theorem exists_reduceSend (h : IntegerSlot cfg t s b) {env : Env}
    (harray : ArrayFits t env.valuesNum) (r : ℕ) :
    ∃ array, (reduceInit cfg t env r).bind (reduceSend env) = some array ∧
      ∃ m, tstTypeSetstandardarray cfg t env.valuesNum.toNat m r = some array := by
  refine ⟨_, ?_, freshValues t env.valuesNum.toNat, h.settable.setstandardarray_eq _ _ r⟩
  by_cases hroot : r = 0 <;>
    simp [reduceInit, reduceSend, harray.allocvalues_eq, elementCount_of_nonneg harray.count,
      h.settable.setstandardarray_eq, hroot]

/-- The same with `MPI_IN_PLACE`. What the root sets is a standard array as well. -/
theorem exists_reduceInPlaceSend (h : IntegerSlot cfg t s b) {env : Env}
    (harray : ArrayFits t env.valuesNum) (r : ℕ) :
    ∃ array, (reduceInit cfg t env r).bind (reduceInPlaceSend cfg t env r) = some array ∧
      ∃ m, tstTypeSetstandardarray cfg t env.valuesNum.toNat m r = some array := by
  refine ⟨_, ?_, freshValues t env.valuesNum.toNat, h.settable.setstandardarray_eq _ _ r⟩
  by_cases hroot : r = 0 <;>
    simp [reduceInit, reduceInPlaceSend, harray.allocvalues_eq,
      elementCount_of_nonneg harray.count, h.settable.setstandardarray_eq, hroot]

/-- And both buffers of an accumulation are standard arrays. -/
theorem exists_accumulateSend (h : IntegerSlot cfg t s b) {env : Env}
    (harray : ArrayFits t env.valuesNum) (r : ℕ) :
    ∃ array window,
      (accumulateInit cfg t env r).bind (accumulateSend t env) = some (array, window) ∧
      (∃ m, tstTypeSetstandardarray cfg t env.valuesNum.toNat m r = some array) ∧
      ∃ m, tstTypeSetstandardarray cfg t env.valuesNum.toNat m r = some window := by
  have hset := h.settable.setstandardarray_eq env.valuesNum.toNat
    (freshValues t env.valuesNum.toNat) r
  have hnonneg : 0 ≤ env.valuesNum * t.size := mul_nonneg harray.count harray.size.le
  have hbytes : checkedSigned (env.valuesNum * t.size) = some _ :=
    checkedSigned_eq_some_iff.mpr ⟨⟨by omega, harray.mul_size_lt⟩, rfl⟩
  refine ⟨_, _, ?_, ⟨_, hset⟩, ⟨_, hset⟩⟩
  simp [accumulateInit, accumulateSend, harray.allocvalues_eq,
    elementCount_of_nonneg harray.count, hset, hbytes]

/-- What the first rank hands over needs memory and a count. -/
theorem arrayFits_of_reduceSend {env : Env} {array : Memory}
    (hsend : (reduceInit cfg t env 0).bind (reduceSend env) = some array) :
    ArrayFits t env.valuesNum := by
  obtain ⟨buffers, hinit, hsend⟩ := Option.bind_eq_some_iff.mp hsend
  obtain ⟨m, hm, -⟩ := Option.bind_eq_some_iff.mp hinit
  obtain ⟨count, hcount, -⟩ := Option.bind_eq_some_iff.mp hsend
  refine arrayFits_iff.mpr ⟨?_, hasBlock_of_allocvalues hm⟩
  rw [elementCount_eq_some_iff.mp hcount]
  exact Int.natCast_nonneg count

/-- The oracles of an integer type. -/
theorem extremaOracles (h : IntegerSlot cfg t s b) {env : Env}
    (harray : ArrayFits t env.valuesNum) (hpos : 0 < commSize) :
    ExtremaOracles cfg t env commSize b where
  least memory arrays hset := by
    have hcontributes : Contributes cfg t env.valuesNum.toNat commSize arrays :=
      fun r hr ↦ ⟨memory r, hset r hr⟩
    rw [h.holds_of_isLeast hpos hcontributes, h.holdsStandardArray_iff]
    exact fun i hi ↦ h.numberAt_of_set (hset 0 hpos) hi
  greatest memory arrays hset := by
    have hcontributes : Contributes cfg t env.valuesNum.toNat commSize arrays :=
      fun r hr ↦ ⟨memory r, hset r hr⟩
    have hlast := hset (commSize - 1) (Nat.sub_lt hpos Nat.one_pos)
    rw [Nat.cast_sub hpos, Nat.cast_one] at hlast
    rw [h.holds_of_isGreatest hpos hcontributes, h.holdsStandardArray_iff]
    exact fun i hi ↦ h.numberAt_of_set hlast hi
  reduceMin := by
    choose arrays hsend hset using h.exists_reduceSend harray
    exact ⟨arrays, fun r _ ↦ hsend r, fun result hexact r _ ↦ h.reduceCheck_of_holds
      ((h.holds_of_isLeast hpos (fun q _ ↦ hset q) result).mp hexact) r⟩
  reduceMax := by
    choose arrays hsend hset using h.exists_reduceSend harray
    exact ⟨arrays, fun r _ ↦ hsend r, fun result hexact r _ ↦ h.reduceCheck_of_holds
      ((h.holds_of_isGreatest hpos (fun q _ ↦ hset q) result).mp hexact) r⟩
  reduceInPlaceMin := by
    choose arrays hsend hset using h.exists_reduceInPlaceSend harray
    exact ⟨arrays, fun r _ ↦ hsend r, fun result hexact r _ ↦ h.reduceCheck_of_holds
      ((h.holds_of_isLeast hpos (fun q _ ↦ hset q) result).mp hexact) r⟩
  reduceInPlaceMax := by
    choose arrays hsend hset using h.exists_reduceInPlaceSend harray
    exact ⟨arrays, fun r _ ↦ hsend r, fun result hexact r _ ↦ h.reduceCheck_of_holds
      ((h.holds_of_isGreatest hpos (fun q _ ↦ hset q) result).mp hexact) r⟩
  accumulateMin := by
    choose arrays windows hsend hset hwindow using h.exists_accumulateSend harray
    refine ⟨arrays, windows, fun r _ ↦ hsend r, fun target htarget result hexact ↦ ?_⟩
    obtain ⟨m, hm⟩ := hwindow target
    have hholds := h.holds_of_accumulate_min (fun q _ ↦ hset q) htarget hm hexact
    rw [tstAccumulateWithPostMinRun, h.settable.testCheckstandardarray_eq, if_pos hholds]
  accumulateMax := by
    choose arrays windows hsend hset hwindow using h.exists_accumulateSend harray
    refine ⟨arrays, windows, fun r _ ↦ hsend r, fun target htarget result hexact ↦ ?_⟩
    obtain ⟨m, hm⟩ := hwindow target
    have hholds := h.holds_of_accumulate_max (fun q _ ↦ hset q) htarget hm hexact
    rw [tstAccumulateWithLockMaxRun, h.settable.testCheckstandardarray_eq, if_pos hholds]
  detected result hdiffers := by
    have hcheck : tstTestCheckstandardarray cfg t env result (commSize - 1) = some [env] := by
      rw [h.settable.testCheckstandardarray_eq, if_neg hdiffers]
    exact ⟨hcheck, hcheck, hcheck⟩

/-- The tests pass if the arrays fit, and not otherwise. -/
theorem extremaOracles_iff (h : IntegerSlot cfg t s b) {env : Env} (hpos : 0 < commSize) :
    ExtremaOracles cfg t env commSize b ↔ ArrayFits t env.valuesNum := by
  constructor
  · intro horacles
    obtain ⟨arrays, hsend, -⟩ := horacles.reduceMin
    exact arrayFits_of_reduceSend (hsend 0 hpos)
  · exact fun harray ↦ h.extremaOracles harray hpos

end IntegerSlot

/-- **The oracles.** For every standard integer type and every number of ranks: the minimum of the
standard arrays is the one of rank `0` and the maximum the one of the last rank; with exact
reductions and accumulations, the latter in any order, no failure is recorded; and a maximum that
differs from the array of the last rank is recorded. All of this is so exactly if the arrays fit. -/
theorem extrema_oracles_iff (cfg : Config) (t : TypeSlot) (ht : t ∈ initTypes cfg)
    (hnull : t.datatype ≠ .null) (hclass : t.typeClass &&& tstMpiStandardCIntTypes cfg ≠ 0)
    (env : Env) (commSize : ℕ) (hpos : 1 ≤ commSize) :
    ∃ s b, IntegerSlot cfg t s b ∧
      (ExtremaOracles cfg t env commSize b ↔ ArrayFits t env.valuesNum) := by
  obtain ⟨s, b, h⟩ := exists_integerSlot cfg ht hnull hclass
  exact ⟨s, b, h, h.extremaOracles_iff hpos⟩

/-- Three processes with 130 values of `MPI_SIGNED_CHAR`, the last of which are clamped. -/
theorem extrema_oracles_iff_signedChar :
    ∃ s b, IntegerSlot ⟨2, true, true, true, true, true, true, true, true⟩ (slotMpi2 2) s b ∧
      (ExtremaOracles ⟨2, true, true, true, true, true, true, true, true⟩ (slotMpi2 2)
        ⟨38, 0, 2, 130, 0⟩ 3 b ↔ ArrayFits (slotMpi2 2) 130) :=
  extrema_oracles_iff ⟨2, true, true, true, true, true, true, true, true⟩ (slotMpi2 2)
    (by decide +kernel) (by decide +kernel) (by decide +kernel) ⟨38, 0, 2, 130, 0⟩ 3 (by decide)

/-- There is no memory for 268435455 values of `MPI_LONG` on a single process. -/
theorem extrema_oracles_fail :
    ¬∀ (cfg : Config) (t : TypeSlot), t ∈ initTypes cfg → t.datatype ≠ .null →
      t.typeClass &&& tstMpiStandardCIntTypes cfg ≠ 0 → ∀ (env : Env) (commSize : ℕ),
        0 ≤ env.valuesNum → 1 ≤ commSize → commSize + env.valuesNum < 2 ^ 31 →
          ∃ s b, IntegerSlot cfg t s b ∧ ExtremaOracles cfg t env commSize b := by
  intro h
  obtain ⟨s, b, hslot, horacles⟩ := h ⟨2, true, true, true, true, true, true, true, true⟩
    (slotMpi2 8) (by decide +kernel) (by decide +kernel) (by decide +kernel)
    ⟨38, 0, 8, 268435455, 0⟩ 1 (by decide) (by decide) (by decide)
  have harray : ArrayFits (slotMpi2 8) 268435455 :=
    (hslot.extremaOracles_iff Nat.one_pos).mp horacles
  exact absurd harray.bytes (by decide +kernel)

end MpiTestSuite
