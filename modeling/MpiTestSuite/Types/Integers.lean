import Mathlib.Algebra.Order.Ring.Int
import MpiTestSuite.Types.StandardArray

/-!
# Elements of integer types

What an MPI library computes with the elements of a buffer, it computes with the numbers they hold.
For the standard integer types every pattern of bits is a number (`decodeInt`), so that two elements
are equal exactly if their numbers are (`IntegerSlot.cmpvalue_eq_false_iff`), and the number that
`tst_type_setvalue` stores is the given one, clamped to the range of the type
(`IntegerSlot.numberAt_setFields`).
-/

namespace MpiTestSuite

/-! ## Numbers from bytes -/

/-- The number that bytes hold in an integer type. -/
def decodeInt (b : Bool × ℕ) (bytes : List UInt8) : ℤ :=
  if b.1 ∧ 2 ^ (b.2 - 1) ≤ ofLeBytes bytes then ofLeBytes bytes - 2 ^ b.2 else ofLeBytes bytes

/-- The number of an integer type that is stored at an address. -/
def numberAt (b : Bool × ℕ) (m : Memory) (a : ℤ) : ℤ := decodeInt b (load m a (b.2 / 8))

/-- The number of the type that is nearest to a given one. -/
def clampInt (b : Bool × ℕ) (v : ℤ) : ℤ := max (intMin b) (min v (intMax b))

/-- The number that `tst_type_setvalue` stores. -/
def setNumber (b : Bool × ℕ) : TypeSet → ℤ → ℤ
  | .zero, _ => 0
  | .max, _ => intMax b
  | .min, _ => intMin b
  | .value, v => clampInt b v

theorem ofLeBytes_lt (bytes : List UInt8) : ofLeBytes bytes < 256 ^ bytes.length := by
  induction bytes with
  | nil => exact Nat.one_pos
  | cons x bytes ih =>
    have hx : x.toNat < 256 := x.toNat_lt
    rw [ofLeBytes, List.length_cons, pow_succ]
    omega

theorem ofLeBytes_injective {xs ys : List UInt8} (hlength : xs.length = ys.length)
    (h : ofLeBytes xs = ofLeBytes ys) : xs = ys := by
  induction xs generalizing ys with
  | nil => exact (List.length_eq_zero_iff.mp hlength.symm).symm
  | cons x xs ih =>
    cases ys with
    | nil => cases hlength
    | cons y ys =>
      have hx : x.toNat < 256 := x.toNat_lt
      have hy : y.toNat < 256 := y.toNat_lt
      rw [ofLeBytes, ofLeBytes] at h
      have hhead : x = y := UInt8.toNat_inj.mp (by omega)
      have htail : xs = ys := ih (Nat.succ_inj.mp hlength) (by omega)
      rw [hhead, htail]

/-! ## The integer types -/

/-- What is known of the integer types: they consist of whole bytes, all of which are stored, and
zero is among their numbers. -/
structure IntegerWidth (s : Scalar) (b : Bool × ℕ) : Prop where
  width_eq : b.2 = 8 * s.sizeof
  width_pos : 0 < s.sizeof
  stored_eq : s.stored = s.sizeof

theorem Scalar.integerWidth {s : Scalar} {b : Bool × ℕ} (h : s.integer = some b) :
    IntegerWidth s b := by
  cases s <;> first
    | (cases h; exact ⟨rfl, by decide, rfl⟩)
    | cases h

theorem intMin_nonpos (b : Bool × ℕ) : intMin b ≤ 0 := by
  obtain ⟨signed, w⟩ := b
  cases signed with
  | false => exact le_rfl
  | true => exact neg_nonpos.mpr (by positivity)

theorem intMax_nonneg (b : Bool × ℕ) : 0 ≤ intMax b := by
  obtain ⟨signed, w⟩ := b
  cases signed with
  | false => exact sub_nonneg.mpr (one_le_pow₀ (by norm_num))
  | true => exact sub_nonneg.mpr (one_le_pow₀ (by norm_num))

theorem intMin_le_clampInt (b : Bool × ℕ) (v : ℤ) : intMin b ≤ clampInt b v := le_max_left _ _

theorem clampInt_le_intMax (b : Bool × ℕ) (v : ℤ) : clampInt b v ≤ intMax b :=
  max_le ((intMin_nonpos b).trans (intMax_nonneg b)) (min_le_right _ _)

theorem clampInt_of_mem {b : Bool × ℕ} {v : ℤ} (hlow : intMin b ≤ v) (hhigh : v ≤ intMax b) :
    clampInt b v = v := by
  rw [clampInt, min_eq_left hhigh, max_eq_right hlow]

/-- Clamping keeps the order. -/
theorem clampInt_mono (b : Bool × ℕ) {v w : ℤ} (h : v ≤ w) : clampInt b v ≤ clampInt b w :=
  max_le_max le_rfl (min_le_min h le_rfl)

theorem setNumber_mem (b : Bool × ℕ) (typeSet : TypeSet) (v : ℤ) :
    intMin b ≤ setNumber b typeSet v ∧ setNumber b typeSet v ≤ intMax b := by
  have hmin := intMin_nonpos b
  have hmax := intMax_nonneg b
  cases typeSet with
  | zero => exact ⟨hmin, hmax⟩
  | max => exact ⟨hmin.trans hmax, le_rfl⟩
  | min => exact ⟨le_rfl, hmin.trans hmax⟩
  | value => exact ⟨intMin_le_clampInt b v, clampInt_le_intMax b v⟩

/-- The bits of the number that is stored. -/
theorem Scalar.scalarBits_eq {s : Scalar} {b : Bool × ℕ} (h : s.integer = some b)
    (typeSet : TypeSet) (v : ℤ) :
    scalarBits s true typeSet v = (setNumber b typeSet v % 2 ^ b.2).toNat := by
  have hmax : maxBits s = (intMax b % 2 ^ b.2).toNat := by
    have hlt : intMax b < 2 ^ b.2 := by
      obtain ⟨signed, w⟩ := b
      have hle : (2 : ℤ) ^ (w - 1) ≤ 2 ^ w := pow_le_pow_right₀ (by norm_num) (Nat.sub_le w 1)
      cases signed with
      | false => exact sub_one_lt _
      | true => exact (sub_one_lt _).trans_le hle
    rw [maxBits, h, Int.emod_eq_of_lt (intMax_nonneg b) hlt]
  have hmin : minBits s = (intMin b % 2 ^ b.2).toNat := by rw [minBits, h]
  have hmin0 := intMin_nonpos b
  have hmax0 := intMax_nonneg b
  cases typeSet with
  | zero => rfl
  | max => exact hmax
  | min => exact hmin
  | value =>
    simp only [scalarBits, aboveMax, belowMin, h, Bool.true_and, decide_eq_true_eq,
      setNumber]
    split_ifs with habove hbelow
    · rw [hmax, clampInt, min_eq_right habove.le, max_eq_right (hmin0.trans hmax0)]
    · rw [hmin, clampInt, min_eq_left (not_lt.mp habove), max_eq_left hbelow.le]
    · rw [clampInt_of_mem (not_lt.mp hbelow) (not_lt.mp habove), convertBits, h]

/-- Reading back the bits of a number of the type. -/
theorem decodeInt_leBytes {b : Bool × ℕ} {n : ℕ} (hwidth : b.2 = 8 * n) (hpos : 0 < n) {v : ℤ}
    (hlow : intMin b ≤ v) (hhigh : v ≤ intMax b) :
    decodeInt b (leBytes n (v % 2 ^ b.2).toNat) = v := by
  have hpow : (256 : ℕ) ^ n = 2 ^ b.2 := by
    rw [hwidth, pow_mul]
    rfl
  have hhalf : (2 : ℤ) ^ b.2 = 2 * 2 ^ (b.2 - 1) := by
    rw [← pow_succ']
    congr 1
    omega
  have hmodpos : (0 : ℤ) < 2 ^ b.2 := by positivity
  have hmod := Int.emod_nonneg v hmodpos.ne'
  have hmodlt := Int.emod_lt_of_pos v hmodpos
  have hcast : ((v % 2 ^ b.2).toNat : ℤ) = v % 2 ^ b.2 := Int.toNat_of_nonneg hmod
  have hbits : ofLeBytes (leBytes n (v % 2 ^ b.2).toNat) = (v % 2 ^ b.2).toNat := by
    rw [ofLeBytes_leBytes, hpow, Nat.mod_eq_of_lt]
    zify
    rwa [hcast]
  have hpowcast : ((2 ^ (b.2 - 1) : ℕ) : ℤ) = 2 ^ (b.2 - 1) := by norm_cast
  rw [decodeInt, hbits, hcast]
  obtain ⟨signed, w⟩ := b
  cases signed with
  | false =>
    rw [intMin] at hlow
    rw [intMax] at hhigh
    rw [if_neg (by simp), Int.emod_eq_of_lt hlow (by simp only; omega)]
  | true =>
    rw [intMin] at hlow
    rw [intMax] at hhigh
    rcases le_or_gt 0 v with hnonneg | hneg
    · have hsame : v % 2 ^ w = v := Int.emod_eq_of_lt hnonneg (by simp only at hhalf; omega)
      simp only [hsame] at hcast ⊢
      rw [if_neg]
      rintro ⟨-, hle⟩
      simp only at hpowcast
      omega
    · have hwrap : v % 2 ^ w = v + 2 ^ w := by
        rw [← Int.add_emod_right, Int.emod_eq_of_lt] <;> (simp only at hhalf; omega)
      simp only [hwrap] at hcast ⊢
      rw [if_pos]
      · omega
      · refine ⟨trivial, ?_⟩
        simp only at hpowcast hhalf
        omega

/-- Equal numbers have equal bytes. -/
theorem decodeInt_injective {b : Bool × ℕ} {n : ℕ} (hwidth : b.2 = 8 * n) {xs ys : List UInt8}
    (hxs : xs.length = n) (hys : ys.length = n) (h : decodeInt b xs = decodeInt b ys) :
    xs = ys := by
  have hpow : (256 : ℕ) ^ n = 2 ^ b.2 := by
    rw [hwidth, pow_mul]
    rfl
  have hx := ofLeBytes_lt xs
  have hy := ofLeBytes_lt ys
  rw [hxs, hpow] at hx
  rw [hys, hpow] at hy
  zify at hx hy
  refine ofLeBytes_injective (hxs.trans hys.symm) ?_
  -- both are what is left modulo the power
  rw [decodeInt, decodeInt] at h
  split_ifs at h <;> omega

/-! ## Slots of integer types -/

/-- A slot of the table whose elements are single integers. -/
structure IntegerSlot (cfg : Config) (t : TypeSlot) (s : Scalar) (b : Bool × ℕ) : Prop where
  settable : Settable cfg t (setScalar s)
  integer : s.integer = some b
  lb_eq : t.lb = 0
  ub_eq : t.ub = s.sizeof
  notFloat : t.typeClass ≠ tstMpiFloat ∧ t.typeClass ≠ tstMpiDouble ∧
    t.typeClass ≠ tstMpiLongDouble

/-- The standard integer types. -/
theorem exists_integerSlot (cfg : Config) {t : TypeSlot} (ht : t ∈ initTypes cfg)
    (hnull : t.datatype ≠ .null) (hclass : t.typeClass &&& tstMpiStandardCIntTypes cfg ≠ 0) :
    ∃ s b, IntegerSlot cfg t s b := by
  obtain ⟨s, -, hinteger, hfields, hlb, hub, hfloat⟩ := Config.forall_slot
    (P := fun cfg t ↦ t.datatype ≠ .null → t.typeClass &&& tstMpiStandardCIntTypes cfg ≠ 0 →
      ∃ s ∈ [Scalar.char, .unsignedChar, .signedChar, .short, .unsignedShort, .int, .unsigned,
          .long, .unsignedLong, .longLong],
        s.integer.isSome ∧ fieldStores cfg t.typeClass = some (setScalar s) ∧ t.lb = 0 ∧
          t.ub = s.sizeof ∧ t.typeClass ≠ tstMpiFloat ∧ t.typeClass ≠ tstMpiDouble ∧
          t.typeClass ≠ tstMpiLongDouble)
    (by decide +kernel) cfg ht hnull hclass
  obtain ⟨fields, h⟩ := exists_settable cfg ht hnull
  obtain rfl : setScalar s = fields := Option.some_inj.mp (hfields.symm.trans h.fields_eq)
  obtain ⟨b, hb⟩ := Option.isSome_iff_exists.mp hinteger
  exact ⟨s, b, h, hb, hlb, hub, hfloat⟩

namespace IntegerSlot

variable {cfg : Config} {t : TypeSlot} {s : Scalar} {b : Bool × ℕ}

theorem size_eq (h : IntegerSlot cfg t s b) : t.size = s.sizeof := by
  rw [TypeSlot.size, h.lb_eq, h.ub_eq, sub_zero]

theorem width_div (h : IntegerSlot cfg t s b) : b.2 / 8 = s.sizeof := by
  rw [(Scalar.integerWidth h.integer).width_eq, Nat.mul_div_cancel_left _ (by decide)]

/-- **Setting.** The number at an element that has been set. -/
theorem numberAt_setFields (h : IntegerSlot cfg t s b) (m : Memory) (a : ℤ) (typeSet : TypeSet)
    (v : ℤ) : numberAt b (setFields cfg t (setScalar s) m a typeSet v) a
      = setNumber b typeSet v := by
  obtain ⟨hwidth, hpos, hstored⟩ := Scalar.integerWidth h.integer
  have heffective : effectiveSet cfg t.typeClass typeSet v = typeSet := by
    rw [effectiveSet, if_neg]
    rintro ⟨-, -, hfloat | hdouble | ⟨hlong, -⟩⟩
    · exact h.notFloat.1 hfloat
    · exact h.notFloat.2.1 hdouble
    · exact h.notFloat.2.2 hlong
  have hlength : (scalarBytes s true typeSet v).length = b.2 / 8 := by
    rw [scalarBytes, length_leBytes, hstored, h.width_div]
  have hload : load (setFields cfg t (setScalar s) m a typeSet v) a (b.2 / 8)
      = scalarBytes s true typeSet v := by
    rw [setFields, heffective, ← hlength]
    change load (store _ (a + 0) (scalarBytes s true typeSet v)) a _ = _
    rw [add_zero, load_store]
  obtain ⟨hlow, hhigh⟩ := setNumber_mem b typeSet v
  rw [numberAt, hload, scalarBytes, Scalar.scalarBits_eq h.integer, hstored,
    decodeInt_leBytes hwidth hpos hlow hhigh]

/-- **Comparing.** Two elements are equal exactly if their numbers are. -/
theorem cmpvalue_eq_false_iff (h : IntegerSlot cfg t s b) (m : Memory) (a : ℤ) (m' : Memory)
    (a' : ℤ) : tstTypeCmpvalue t m a m' a' = false ↔ numberAt b m a = numberAt b m' a' := by
  obtain ⟨hwidth, -, -⟩ := Scalar.integerWidth h.integer
  have hload : ∀ (m : Memory) a, load m (a + t.lb) t.size.toNat = load m a (b.2 / 8) := by
    intro m a
    rw [h.lb_eq, add_zero, h.size_eq, h.width_div, Int.toNat_natCast]
  have hlength : ∀ (m : Memory) a, (load m a (b.2 / 8)).length = s.sizeof := by
    intro m a
    rw [load, List.length_map, List.length_range, h.width_div]
  rw [tstTypeCmpvalue, if_neg h.notFloat.2.2, hload, hload, bne_eq_false_iff_eq]
  constructor
  · intro hbytes
    rw [numberAt, hbytes, numberAt]
  · intro hnumbers
    exact decodeInt_injective hwidth (hlength m a) (hlength m' a') hnumbers

/-- A number depends on the window of its element only. -/
theorem numberAt_congr (h : IntegerSlot cfg t s b) {m m' : Memory} {a a' : ℤ}
    (hwindow : ∀ k, t.lb ≤ k → k < t.ub → m (a + k) = m' (a' + k)) :
    numberAt b m a = numberAt b m' a' := by
  have hub := h.ub_eq
  have hwidth := h.width_div
  rw [numberAt, numberAt, load_congr fun i hi ↦ hwindow i (by rw [h.lb_eq]; omega) (by omega)]

/-- The numbers of an array of elements. -/
theorem numberAt_setElements (h : IntegerSlot cfg t s b) {xs : List (ℕ × TypeSet × ℤ)}
    (hxs : Ascending xs) (m : Memory) {x : ℕ × TypeSet × ℤ} (hx : x ∈ xs) :
    numberAt b (setElements cfg t (setScalar s) xs m) (x.1 * t.size)
      = setNumber b x.2.1 x.2.2 := by
  rw [← h.numberAt_setFields (fun _ ↦ 0) 0 x.2.1 x.2.2]
  refine h.numberAt_congr fun k hlo hhi ↦ ?_
  rw [h.settable.setElements_apply hxs m hx hlo hhi, zero_add]
  rfl

/-- The numbers of a standard array. -/
theorem numberAt_written (h : IntegerSlot cfg t s b) (commRank : ℤ) (m : Memory) {n i : ℕ}
    (hi : i < n) : numberAt b (written cfg t (setScalar s) commRank n m) (i * t.size)
      = setNumber b (elementSet i) (elementValue commRank i) := by
  rw [Settable.written_eq]
  exact h.numberAt_setElements (Settable.ascending_range commRank n) m
    (List.mem_map_of_mem (List.mem_range.mpr hi))

end IntegerSlot

end MpiTestSuite
