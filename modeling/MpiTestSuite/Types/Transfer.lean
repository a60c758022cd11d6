import MpiTestSuite.Types.Agreement

/-!
# The transfer of elements

What a receive buffer holds after elements have been received in it. Only the data of an element is
moved; the padding of the elements stays what the buffer was filled with when it was allocated. A
standard array has the same bytes there, so an array that is sent is an array that is received
(`Settable.transferred_written`).

For this the table and MPI have to agree about a datatype (`Sendable`), and all that is stored has
to be data. They do for every row of which the bounds enclose something.
-/

namespace MpiTestSuite

/-- A receive buffer after `n` elements of a datatype have been received in it. The elements of the
sender are `stride` bytes apart. -/
def transferred (T : Typemap) (n : ℕ) (stride : ℤ) (sent recvBuffer : Memory) : Memory := fun p ↦
  match (List.range n).find? fun i : ℕ ↦ decide (p - i * T.extent ∈ T.bytes) with
  | some i => sent (i * stride + (p - i * T.extent))
  | none => recvBuffer p

/-! ## Windows -/

/-- The byte at `p` belongs to an element whose origin is at `a`, between the two bounds. -/
def InWindow (lb ub a p : ℤ) : Prop := a + lb ≤ p ∧ p < a + ub

/-- The window says which element it is. -/
theorem eq_of_inWindow {t : TypeSlot} (hsize : 0 < t.size) {a a' : ℕ} {p : ℤ}
    (h : InWindow t.lb t.ub (a * t.size) p) (h' : InWindow t.lb t.ub (a' * t.size) p) : a = a' := by
  have hdef : t.size = t.ub - t.lb := rfl
  have hindex : ∀ b : ℕ, InWindow t.lb t.ub (b * t.size) p → (p - t.lb) / t.size = b := by
    rintro b ⟨hlow, hhigh⟩
    rw [Int.ediv_eq_iff_of_pos hsize]
    constructor <;> linarith
  exact_mod_cast (hindex a h).symm.trans (hindex a' h')

/-! ## Rows that can be sent -/

/-- What is needed of a datatype: the table and MPI agree about its bounds, and all that is stored
is data. -/
structure Sendable (cfg : Config) (t : TypeSlot) (fields : List FieldStore) : Prop where
  settable : Settable cfg t fields
  fit : FieldsFit t fields
  size_pos : 0 < t.size
  lb_eq : t.datatype.typemap.lb = t.lb
  ub_eq : t.datatype.typemap.ub = t.ub
  within : ∀ b ∈ t.datatype.typemap.bytes, t.lb ≤ b ∧ b < t.ub
  stored : ∀ f ∈ fields, (f.offset, f.scalar) ∈ t.datatype.typemap.scalars

/-- They do agree if the datatype has bytes in the table. -/
theorem exists_sendable (cfg : Config) {t : TypeSlot} (ht : t ∈ initTypes cfg)
    (hnull : t.datatype ≠ .null) (hsize : 0 < t.size) : ∃ fields, Sendable cfg t fields := by
  obtain ⟨fields, hfields, hfit, hlb, hub, hwithin, hstored⟩ := Config.forall_slot
    (P := fun cfg t ↦ t.datatype ≠ .null → 0 < t.size →
      ∃ fields ∈ fieldStores cfg t.typeClass, FieldsFit t fields ∧
        t.datatype.typemap.lb = t.lb ∧ t.datatype.typemap.ub = t.ub ∧
        (∀ b ∈ t.datatype.typemap.bytes, t.lb ≤ b ∧ b < t.ub) ∧
        ∀ f ∈ fields, (f.offset, f.scalar) ∈ t.datatype.typemap.scalars)
    (by decide +kernel) cfg ht hnull hsize
  obtain ⟨fields', h⟩ := exists_settable cfg ht hnull
  obtain rfl : fields = fields' := Option.some_inj.mp (hfields.symm.trans h.fields_eq)
  exact ⟨fields, h, hfit, hsize, hlb, hub, hwithin, hstored⟩

/-- A datatype that has no bytes in the table has some for MPI. -/
theorem lb_lt_ub_of_size_eq_zero (cfg : Config) {t : TypeSlot} (ht : t ∈ initTypes cfg)
    (hnull : t.datatype ≠ .null) (hsize : t.size = 0) :
    t.datatype.typemap.lb < t.datatype.typemap.ub :=
  Config.forall_slot
    (P := fun _ t ↦ t.datatype ≠ .null → t.size = 0 →
      t.datatype.typemap.lb < t.datatype.typemap.ub)
    (by decide +kernel) cfg ht hnull hsize

theorem Settable.size_nonneg {cfg : Config} {t : TypeSlot} {fields : List FieldStore}
    (h : Settable cfg t fields) : 0 ≤ t.size := by
  rcases h.fit with ⟨hlb, hub, -⟩ | hzero
  · rw [TypeSlot.size]
    omega
  · exact hzero.ge

/-- The places of the first elements that no data is received at are as they were allocated. -/
def Padded (t : TypeSlot) (n : ℕ) (m : Memory) : Prop :=
  ∀ i < n, ∀ q, t.lb ≤ q → q < t.ub → q ∉ t.datatype.typemap.bytes →
    m (i * t.size + q) = defaultInitByte

namespace Sendable

variable {cfg : Config} {t : TypeSlot} {fields : List FieldStore}

theorem extent_eq (h : Sendable cfg t fields) : t.datatype.typemap.extent = t.size := by
  rw [Typemap.extent, h.lb_eq, h.ub_eq, TypeSlot.size]

/-- What is stored is data. -/
theorem mem_bytes_of_stored (h : Sendable cfg t fields) {f : FieldStore} (hf : f ∈ fields) {q : ℤ}
    (hq : f.offset ≤ q ∧ q < f.offset + f.scalar.stored) : q ∈ t.datatype.typemap.bytes := by
  have hle := f.scalar.stored_le
  have hmem := Typemap.mem_bytes (h.stored f hf) (i := (q - f.offset).toNat) (by omega)
  rwa [Int.toNat_of_nonneg (by omega), add_sub_cancel] at hmem

/-- Where there is no data, an element has the byte it was filled with. -/
theorem elementOf_padding (h : Sendable cfg t fields) (x : TypeSet × ℤ) {q : ℤ} (hlo : t.lb ≤ q)
    (hhi : q < t.ub) (hmem : q ∉ t.datatype.typemap.bytes) :
    elementOf cfg t fields x q = defaultInitByte := by
  have hdef : t.size = t.ub - t.lb := rfl
  obtain ⟨hlb, -, -, hcover⟩ := h.fit
  have hnonneg : 0 ≤ q := by
    by_contra hneg
    obtain ⟨f, hf, hstored⟩ := hcover (q - t.lb).toNat (by omega)
    rw [Int.toNat_of_nonneg (by omega), add_sub_cancel] at hstored
    exact hmem (h.mem_bytes_of_stored hf hstored)
  exact elementOf_of_notMem (fun f hf hstored ↦ hmem (h.mem_bytes_of_stored hf hstored)) x hnonneg
    (by omega)

theorem padded_allocvalues (h : Sendable cfg t fields) {n valuesNum : ℕ} (hn : n ≤ valuesNum) :
    Padded t n (freshValues t valuesNum) := by
  intro i hi q hlo hhi _
  have hdef : t.size = t.ub - t.lb := rfl
  obtain ⟨hnonneg, hle⟩ := element_bounds h.size_pos (Int.ofNat_lt.mpr (hi.trans_le hn))
  have hroom := mul_size_eq t valuesNum
  have hpos := h.size_pos
  rw [freshValues, hroom]
  exact memset_of_mem _ ⟨by omega, by omega⟩

/-- A byte of the window of an element is the one that was sent, if it is data. -/
theorem transferred_apply (h : Sendable cfg t fields) {n i : ℕ} (hi : i < n) (stride : ℤ)
    (sent recvBuffer : Memory) {q : ℤ} (hlo : t.lb ≤ q) (hhi : q < t.ub) :
    transferred t.datatype.typemap n stride sent recvBuffer (i * t.size + q)
      = if q ∈ t.datatype.typemap.bytes then sent (i * stride + q)
        else recvBuffer (i * t.size + q) := by
  -- no other element has a byte there
  have hunique : ∀ j : ℕ, (i * t.size + q) - j * t.size ∈ t.datatype.typemap.bytes → j = i := by
    intro j hj
    obtain ⟨hblo, hbhi⟩ := h.within _ hj
    exact eq_of_inWindow h.size_pos (p := i * t.size + q) ⟨by omega, by omega⟩ ⟨by omega, by omega⟩
  rw [transferred, h.extent_eq]
  split
  · rename_i j hfind
    have hj : i * t.size + q - j * t.size ∈ t.datatype.typemap.bytes := by
      simpa using List.find?_some hfind
    obtain rfl := hunique j hj
    rw [add_sub_cancel_left] at hj ⊢
    rw [if_pos hj]
  · rename_i hfind
    have hnone := List.find?_eq_none.mp hfind i (List.mem_range.mpr hi)
    rw [decide_eq_true_iff, add_sub_cancel_left] at hnone
    rw [if_neg hnone]

/-- **Transfer.** The windows of what is received are those of what was sent. -/
theorem transferred_elements (h : Sendable cfg t fields) {n i : ℕ} (hi : i < n) {stride : ℤ}
    {sent recvBuffer : Memory} {x : TypeSet × ℤ}
    (hsent : ∀ q, t.lb ≤ q → q < t.ub → sent (i * stride + q) = elementOf cfg t fields x q)
    (hpadded : Padded t n recvBuffer) {q : ℤ} (hlo : t.lb ≤ q) (hhi : q < t.ub) :
    transferred t.datatype.typemap n stride sent recvBuffer (i * t.size + q)
      = elementOf cfg t fields x q := by
  rw [h.transferred_apply hi stride sent recvBuffer hlo hhi]
  split_ifs with hmem
  · exact hsent q hlo hhi
  · rw [hpadded i hi q hlo hhi hmem, h.elementOf_padding x hlo hhi hmem]

end Sendable

/-- Element by element, for every row: one without bytes has no windows. -/
theorem Settable.transferred_elements {cfg : Config} {t : TypeSlot} {fields : List FieldStore}
    (hsettable : Settable cfg t fields) (ht : t ∈ initTypes cfg) (hnull : t.datatype ≠ .null)
    {n : ℕ} {stride : ℤ} {sent : Memory} {x : ℕ → TypeSet × ℤ}
    (hsent : t.datatype.typemap.extent = t.size → ∀ i < n, ∀ q, t.lb ≤ q → q < t.ub →
      sent (i * stride + q) = elementOf cfg t fields (x i) q) :
    ∀ i < n, ∀ q, t.lb ≤ q → q < t.ub →
      transferred t.datatype.typemap n stride sent (freshValues t n) (i * t.size + q)
        = elementOf cfg t fields (x i) q := by
  intro i hi q hlo hhi
  have hdef : t.size = t.ub - t.lb := rfl
  obtain ⟨fields', h⟩ := exists_sendable cfg ht hnull (by omega)
  obtain rfl : fields = fields' :=
    Option.some_inj.mp (hsettable.fields_eq.symm.trans h.settable.fields_eq)
  exact h.transferred_elements hi (hsent h.extent_eq i hi) (h.padded_allocvalues le_rfl) hlo hhi

/-- **Arrays.** What arrives of an array that has been set, in a buffer that has been allocated for
it, are the elements that have been set. -/
theorem Settable.transferred_written {cfg : Config} {t : TypeSlot} {fields : List FieldStore}
    (h : Settable cfg t fields) (ht : t ∈ initTypes cfg) (hnull : t.datatype ≠ .null) (n : ℕ)
    (commRank : ℤ) (m : Memory) : ∀ i < n, ∀ q, t.lb ≤ q → q < t.ub →
      transferred t.datatype.typemap n t.datatype.typemap.extent (written cfg t fields commRank n m)
        (freshValues t n) (i * t.size + q) = expected cfg t fields commRank i q := by
  refine h.transferred_elements ht hnull
    (x := fun i ↦ (elementSet i, elementValue commRank i)) fun hextent i hi q hlo hhi ↦ ?_
  rw [hextent]
  exact h.written_apply commRank m n hi hlo hhi

end MpiTestSuite
