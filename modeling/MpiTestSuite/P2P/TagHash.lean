import Mathlib.Tactic.Ring
import MpiTestSuite.Coding.CInt
import MpiTestSuite.P2P.ManyToOne

/-!
# The tag of a combination

`tst_hash_value` makes a tag of the communicator, the datatype and the test. The number is reduced
modulo `tst_tag_ub`, the largest tag that MPI allows, which may be as small as 32767. No combination
of the tables comes near the range of `int`, but on one communicator the numbers already reach past
a million, so that with a small bound several combinations have the same tag: `32749 + 18` is 32767.
-/

namespace MpiTestSuite

namespace P2P

/-- `tst_hash_value` with the type `int`. -/
def checkedHashValue (tagUb : ℤ) (env : Env) : Option ℤ := do
  let comm ← checkedSigned (env.comm * 65521)
  let type ← checkedSigned (env.type * 32749)
  let sum ← checkedSigned (comm + type)
  let sum ← checkedSigned (sum + env.test)
  return sum.tmod tagUb

/-- The communicator, the datatype and the test are numbers of rows of the tables. -/
structure InTables (cfg : Config) (env : Env) : Prop where
  comm : 0 ≤ env.comm ∧ env.comm < commNum
  type : 0 ≤ env.type ∧ env.type < (initTypes cfg).length
  test : ∃ row, tstTest cfg env.test = some row

theorem length_tstTests_lt (cfg : Config) : (tstTests cfg).length < 127 := by
  have hparts : (basicTests cfg).length = 48 ∧ (dynamicTests cfg).length = 3 ∧
      (oneSidedTests cfg).length = 12 ∧ (ioTests cfg).length = 41 ∧
      (threadedTests cfg).length = 5 ∧ (partitionedTests cfg).length = 2 :=
    ⟨rfl, rfl, rfl, rfl, rfl, rfl⟩
  obtain ⟨hbasic, hdynamic, hone, hio, hthreaded, hpartitioned⟩ := hparts
  unfold tstTests
  split_ifs <;> simp only [List.length_append, List.length_nil, hbasic, hdynamic, hone, hio,
    hthreaded, hpartitioned] <;> norm_num

namespace InTables

variable {cfg : Config} {env : Env}

theorem type_lt (h : InTables cfg env) : env.type < 32 := by
  have hlt := h.type.2
  rwa [length_initTypes] at hlt

theorem test_mem (h : InTables cfg env) : 0 ≤ env.test ∧ env.test < 127 := by
  obtain ⟨row, hrow⟩ := h.test
  rw [tstTest] at hrow
  split_ifs at hrow with hneg
  have hlt := List.getElem?_eq_some_iff.mp hrow |>.1
  have hlength := length_tstTests_lt cfg
  rw [List.length_append, List.length_singleton] at hlt
  omega

/-- **No overflow.** All partial results are small. -/
theorem checkedHashValue_eq (h : InTables cfg env) (tagUb : ℤ) :
    checkedHashValue tagUb env = some (tstHashValue tagUb env) := by
  obtain ⟨hcomm, hcomm'⟩ := h.comm
  obtain ⟨htype, -⟩ := h.type
  obtain ⟨htest, htest'⟩ := h.test_mem
  have htype' := h.type_lt
  rw [commNum] at hcomm'
  have hfits : ∀ x : ℤ, 0 ≤ x → x < 2 ^ 31 → checkedSigned x = some x := fun x hlow hhigh ↦
    checkedSigned_eq_some_iff.mpr ⟨⟨by omega, hhigh⟩, rfl⟩
  simp only [checkedHashValue, Option.bind_eq_bind, hfits (env.comm * 65521) (by omega) (by omega),
    hfits (env.type * 32749) (by omega) (by omega), Option.bind_some,
    hfits (env.comm * 65521 + env.type * 32749) (by omega) (by omega),
    hfits (env.comm * 65521 + env.type * 32749 + env.test) (by omega) (by omega)]
  rfl

/-- The remainder of C is the one between zero and the divisor here. -/
theorem hashValue_eq (h : InTables cfg env) (tagUb : ℤ) :
    tstHashValue tagUb env = (env.comm * 65521 + env.type * 32749 + env.test) % tagUb := by
  obtain ⟨hcomm, -⟩ := h.comm
  obtain ⟨htype, -⟩ := h.type
  obtain ⟨htest, -⟩ := h.test_mem
  rw [tstHashValue, Int.tmod_eq_emod_of_nonneg (by omega)]

/-- Combinations of one communicator with the same tag. -/
theorem hashValue_eq_iff {env' : Env} (h : InTables cfg env) (h' : InTables cfg env')
    (hcomm : env.comm = env'.comm) (tagUb : ℤ) :
    tstHashValue tagUb env = tstHashValue tagUb env' ↔
      tagUb ∣ 32749 * (env.type - env'.type) + (env.test - env'.test) := by
  have hdiff : env'.comm * 65521 + env.type * 32749 + env.test
      - (env'.comm * 65521 + env'.type * 32749 + env'.test)
      = 32749 * (env.type - env'.type) + (env.test - env'.test) := by ring
  rw [h.hashValue_eq, h'.hashValue_eq, hcomm, Int.emod_eq_emod_iff_emod_sub_eq_zero,
    ← Int.dvd_iff_emod_eq_zero, hdiff]

/-- The differences of the numbers that are reduced are small as well. -/
theorem eq_of_dvd {env' : Env} (h : InTables cfg env) (h' : InTables cfg env') {tagUb : ℤ}
    (hlarge : 2 ^ 20 ≤ tagUb)
    (hdvd : tagUb ∣ 32749 * (env.type - env'.type) + (env.test - env'.test)) :
    env.type = env'.type ∧ env.test = env'.test := by
  obtain ⟨htype, -⟩ := h.type
  obtain ⟨htype', -⟩ := h'.type
  obtain ⟨htest, hlt⟩ := h.test_mem
  obtain ⟨htest', hlt'⟩ := h'.test_mem
  have ht := h.type_lt
  have ht' := h'.type_lt
  have hzero := Int.eq_zero_of_abs_lt_dvd hdvd (by rw [abs_lt]; omega)
  omega

end InTables

/-- **Tags.** For every bound that MPI allows and all combinations of the tables: the tag is
computed without overflow and lies below the bound, and messages of two combinations have the same
communicator and tag exactly if the communicators are the same and the bound divides the difference
of what is reduced. With a bound of `2 ^ 20` or more the datatype and the test are the same then. -/
theorem hash_value_separates (cfg : Config) (tagUb : ℤ) (hub : 32767 ≤ tagUb) (env env' : Env)
    (h : InTables cfg env) (h' : InTables cfg env') :
    checkedHashValue tagUb env = some (tstHashValue tagUb env) ∧
    (0 ≤ tstHashValue tagUb env ∧ tstHashValue tagUb env < tagUb) ∧
    ((env.comm, tstHashValue tagUb env) = (env'.comm, tstHashValue tagUb env') ↔
      env.comm = env'.comm ∧
        tagUb ∣ 32749 * (env.type - env'.type) + (env.test - env'.test)) ∧
    (2 ^ 20 ≤ tagUb → env.comm = env'.comm → tstHashValue tagUb env = tstHashValue tagUb env' →
      env.type = env'.type ∧ env.test = env'.test) := by
  refine ⟨h.checkedHashValue_eq tagUb, ?_, ?_, fun hlarge hcomm heq ↦ ?_⟩
  · rw [h.hashValue_eq]
    exact ⟨Int.emod_nonneg _ (by omega), Int.emod_lt_of_pos _ (by omega)⟩
  · rw [Prod.mk.injEq]
    exact and_congr_right fun hcomm ↦ h.hashValue_eq_iff h' hcomm tagUb
  · exact h.eq_of_dvd h' hlarge ((h.hashValue_eq_iff h' hcomm tagUb).mp heq)

/-- With the smallest bound, test 18 with datatype one and test zero with datatype zero. -/
theorem hash_value_separates_least :
    let env : Env := ⟨18, 0, 1, 1, 0⟩
    let env' : Env := ⟨0, 0, 0, 1, 0⟩
    checkedHashValue 32767 env = some (tstHashValue 32767 env) ∧
    (0 ≤ tstHashValue 32767 env ∧ tstHashValue 32767 env < 32767) ∧
    ((env.comm, tstHashValue 32767 env) = (env'.comm, tstHashValue 32767 env') ↔
      env.comm = env'.comm ∧
        32767 ∣ 32749 * (env.type - env'.type) + (env.test - env'.test)) ∧
    ((2 : ℤ) ^ 20 ≤ 32767 → env.comm = env'.comm →
      tstHashValue 32767 env = tstHashValue 32767 env' →
        env.type = env'.type ∧ env.test = env'.test) :=
  hash_value_separates ⟨2, true, true, true, true, true, true, true, true⟩ 32767 le_rfl
    ⟨18, 0, 1, 1, 0⟩ ⟨0, 0, 0, 1, 0⟩ ⟨by decide, by decide, ⟨_, rfl⟩⟩
    ⟨by decide, by decide, ⟨_, rfl⟩⟩

/-- These two have the same tag. -/
theorem hash_value_collides : ¬∀ (cfg : Config) (tagUb : ℤ), 32767 ≤ tagUb → ∀ env env' : Env,
    InTables cfg env → InTables cfg env' → env.comm = env'.comm →
      tstHashValue tagUb env = tstHashValue tagUb env' →
        env.type = env'.type ∧ env.test = env'.test := by
  intro h
  have hsame := h ⟨2, true, true, true, true, true, true, true, true⟩ 32767 le_rfl ⟨18, 0, 1, 1, 0⟩
    ⟨0, 0, 0, 1, 0⟩ ⟨by decide, by decide, ⟨_, rfl⟩⟩ ⟨by decide, by decide, ⟨_, rfl⟩⟩ rfl rfl
  exact absurd hsame.1 (by decide)

end P2P

end MpiTestSuite
