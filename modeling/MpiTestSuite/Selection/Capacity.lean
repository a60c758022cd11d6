import Mathlib.Data.Finset.Card
import MpiTestSuite.Selection.Main

/-!
# When a selection is too large

Nothing but a selection by name or class compares the counter with the capacity of the array, and
it does so after it has stored the entry. An array that has just become full is rejected for that
reason, although everything fits; an array that was full before is not, and the next entry is
stored behind its last slot.

Starting from a list without holes and duplicates (`Packed`), the message "Too many" therefore
appears exactly if the list was not full and the entries selected after the token are as many as
the array has slots, or more (`tooMany_iff`). That is the right answer unless the token fills the
array exactly or adds something to a full one.
-/

open MpiTestSuite.Runs MpiTestSuite.CString

namespace MpiTestSuite

/-- The entries `l` are in the first slots of an array of capacity `max`, without holes and
duplicates, and the counter says how many they are. -/
structure Packed (max : ℕ) (s : Selected) (l : List ℤ) : Prop where
  length_eq : s.list.length = max
  take_eq : s.list.take l.length = l
  num_eq : s.num = l.length
  nodup : l.Nodup
  no_hole : -1 ∉ l

/-- A look at an entry, or the selection of one with the given message. -/
def Operation.Selects (tooMany : String) : Operation → Prop
  | look _ => True
  | select full message v =>
    message = tooMany ∧ 0 ≤ v ∧ ∀ num max, num ≤ max → (full num max = true ↔ num = max)
  | _ => False

namespace Packed

variable {max : ℕ} {s : Selected} {l : List ℤ} {tooMany : String} {ops : List Operation}

theorem length_le (h : Packed max s l) : l.length ≤ max := by
  have hlength := congrArg List.length h.take_eq
  rw [List.length_take, h.length_eq] at hlength
  omega

theorem take_num (h : Packed max s l) : s.list.take s.num.toNat = l := by
  rw [h.num_eq, Int.toNat_natCast, h.take_eq]

theorem card_toFinset (h : Packed max s l) : l.toFinset.card = l.length :=
  List.toFinset_card_of_nodup h.nodup

/-- A look changes nothing. -/
theorem run_look (h : Packed max s l) (v : ℤ) : (Operation.look v).run s = .ok s := by
  rw [Operation.run, arraySearch_eq]
  have hle : s.num.toNat ≤ s.list.length := by
    rw [h.num_eq, Int.toNat_natCast, h.length_eq]
    exact h.length_le
  split_ifs <;> rfl

/-- An entry that is there is not stored again. -/
theorem run_select_of_mem (h : Packed max s l) (full : ℤ → ℤ → Bool) (message : String) {v : ℤ}
    (hmem : v ∈ l) : (Operation.select full message v).run s = .ok s :=
  Selected.select_of_mem full message (h.take_num.symm ▸ hmem)

/-- Any other entry is stored behind the last one, if the array has room, and is rejected if it is
the one that fills it. -/
theorem run_select_of_notMem (h : Packed max s l) {full : ℤ → ℤ → Bool} (message : String) {v : ℤ}
    (hfull : ∀ num max, num ≤ max → (full num max = true ↔ num = max)) (hmem : v ∉ l) :
    (Operation.select full message v).run s
      = if l.length = max then .error .outOfBounds
        else if l.length + 1 = max then .error (.error message)
        else .ok ⟨s.list.set s.num.toNat v, s.num + 1⟩ := by
  have hnum : 0 ≤ s.num := by
    rw [h.num_eq]
    exact Int.natCast_nonneg _
  have hle := h.length_le
  have hroom : s.num < s.list.length ↔ l.length ≠ max := by
    rw [h.num_eq, h.length_eq, Nat.cast_lt]
    exact hle.lt_iff_ne
  rw [Operation.run, Selected.select_of_notMem full message (h.take_num.symm ▸ hmem) hnum]
  by_cases hlast : l.length = max
  · rw [if_neg (mt hroom.mp (not_not_intro hlast)), if_pos hlast]
  · have hexact : full (s.num + 1) s.list.length = true ↔ l.length + 1 = max := by
      have hlt := hroom.mpr hlast
      rw [hfull _ _ (by omega), h.num_eq, h.length_eq]
      omega
    rw [if_pos (hroom.mpr hlast), if_neg hlast]
    exact if_congr hexact rfl rfl

/-- A new entry is stored in the first free slot. -/
theorem push (h : Packed max s l) (hroom : l.length < max) {v : ℤ} (hv : 0 ≤ v) (hnew : v ∉ l) :
    Packed max ⟨s.list.set s.num.toNat v, s.num + 1⟩ (l ++ [v]) where
  length_eq := by rw [List.length_set, h.length_eq]
  take_eq := by
    have hslot : l.length < s.list.length := h.length_eq.symm ▸ hroom
    rw [h.num_eq, Int.toNat_natCast, List.length_append, List.length_singleton,
      List.take_add_one, List.take_set_of_le (le_refl _), h.take_eq, List.getElem?_set_self hslot]
    rfl
  num_eq := by
    rw [h.num_eq, List.length_append, List.length_singleton]
    push_cast
    rfl
  nodup := h.nodup.append (List.nodup_singleton v) (List.disjoint_singleton.mpr hnew)
  no_hole := by
    rw [List.mem_append, List.mem_singleton, not_or]
    exact ⟨h.no_hole, by omega⟩

/-- Selections only add entries. -/
theorem subset_effect (hops : ∀ op ∈ ops, op.Selects tooMany) (d : Finset ℤ) :
    d ⊆ ops.foldl (Operation.effect max) d := by
  induction ops generalizing d with
  | nil => exact Finset.Subset.refl d
  | cons op ops ih =>
    have hstep : d ⊆ op.effect max d := by
      have hop := hops op List.mem_cons_self
      cases op <;> first | exact Finset.Subset.refl d | exact Finset.subset_insert _ d | cases hop
    exact hstep.trans (ih (fun op hop ↦ hops op (List.mem_cons_of_mem _ hop)) _)

/-! ## Runs of selections -/

/-- **With room.** A run of selections returns as long as a slot is left, and what is in the array
then are the entries selected before or now. Otherwise it ends with the message. -/
theorem run_of_room (hops : ∀ op ∈ ops, op.Selects tooMany) (h : Packed max s l)
    (hroom : l.length < max) :
    match ops.foldlM Operation.run s with
    | .ok s' => ∃ l', Packed max s' l' ∧ l'.length < max ∧
        l'.toFinset = ops.foldl (Operation.effect max) l.toFinset
    | .error e => e = .error tooMany ∧
        max ≤ (ops.foldl (Operation.effect max) l.toFinset).card := by
  induction ops generalizing s l with
  | nil => exact ⟨l, h, hroom, rfl⟩
  | cons op ops ih =>
    have hop := hops op List.mem_cons_self
    have hrest : ∀ op ∈ ops, op.Selects tooMany := fun op hop ↦ hops op (List.mem_cons_of_mem _ hop)
    cases op with
    | look v =>
      rw [foldlM_cons_ok (h.run_look v)]
      exact ih hrest h hroom
    | select full message v =>
      obtain ⟨rfl, hv, hfull⟩ := hop
      by_cases hmem : v ∈ l
      · have heffect : (Operation.select full message v).effect max l.toFinset = l.toFinset :=
          Finset.insert_eq_of_mem (List.mem_toFinset.mpr hmem)
        rw [foldlM_cons_ok (h.run_select_of_mem full message hmem), List.foldl_cons, heffect]
        exact ih hrest h hroom
      · have hpush := h.push hroom hv hmem
        have heffect : (Operation.select full message v).effect max l.toFinset
            = (l ++ [v]).toFinset := by
          rw [List.toFinset_append, Finset.union_comm]
          rfl
        have hselect := h.run_select_of_notMem message hfull hmem
        rw [if_neg hroom.ne] at hselect
        rw [List.foldl_cons, heffect]
        by_cases hlast : l.length + 1 = max
        · -- the entry fits, but the array is full with it
          rw [if_pos hlast] at hselect
          rw [foldlM_cons_error hselect]
          refine ⟨rfl, ?_⟩
          calc max = (l ++ [v]).toFinset.card := by
                rw [hpush.card_toFinset, List.length_append, List.length_singleton, hlast]
            _ ≤ _ := Finset.card_le_card (subset_effect hrest _)
        · rw [if_neg hlast] at hselect
          rw [foldlM_cons_ok hselect]
          refine ih hrest hpush ?_
          rw [List.length_append, List.length_singleton]
          omega
    | _ => exact hop.elim

/-- **Without room.** A run of selections in a full array changes nothing or leaves the array. -/
theorem run_of_full (hops : ∀ op ∈ ops, op.Selects tooMany) (h : Packed max s l)
    (hfull : l.length = max) :
    ops.foldlM Operation.run s = .ok s ∨ ops.foldlM Operation.run s = .error .outOfBounds := by
  induction ops with
  | nil => exact Or.inl rfl
  | cons op ops ih =>
    have hop := hops op List.mem_cons_self
    have hrest := ih fun op hop ↦ hops op (List.mem_cons_of_mem _ hop)
    cases op with
    | look v =>
      rw [foldlM_cons_ok (h.run_look v)]
      exact hrest
    | select full message v =>
      obtain ⟨rfl, -, hexact⟩ := hop
      by_cases hmem : v ∈ l
      · rw [foldlM_cons_ok (h.run_select_of_mem full message hmem)]
        exact hrest
      · have hselect := h.run_select_of_notMem message hexact hmem
        rw [if_pos hfull] at hselect
        exact Or.inr (foldlM_cons_error hselect)
    | _ => exact hop.elim

/-- **The message.** It appears exactly if a slot was left and the entries selected before or now
are as many as there are slots, or more. -/
theorem tooMany_iff (hops : ∀ op ∈ ops, op.Selects tooMany) (h : Packed max s l) :
    ops.foldlM Operation.run s = .error (.error tooMany) ↔
      l.length < max ∧ max ≤ (ops.foldl (Operation.effect max) l.toFinset).card := by
  rcases h.length_le.lt_or_eq with hroom | hfull
  · rw [and_iff_right hroom]
    have hrun := run_of_room hops h hroom
    cases hresult : ops.foldlM Operation.run s with
    | ok s' =>
      rw [hresult] at hrun
      obtain ⟨l', hpacked, hlt, heffect⟩ := hrun
      rw [← heffect, hpacked.card_toFinset]
      exact iff_of_false (by simp) (by omega)
    | error e =>
      rw [hresult] at hrun
      obtain ⟨rfl, hle⟩ := hrun
      exact iff_of_true rfl hle
  · refine iff_of_false ?_ (by omega)
    rcases run_of_full hops h hfull with hok | hout
    · simp [hok]
    · simp [hout]

end Packed

/-! ## Names and classes -/

section

variable {max n : ℕ} {s : Selected} {l : List ℤ} {classes names : List CString}
  {noun tooMany : String} {members : ℕ → ℕ → Bool} {full : ℤ → ℤ → Bool}
  {outside : ℕ → List Operation}

/-- Looks do not change what is selected. -/
theorem foldl_effect_of_look {ops : List Operation} (h : ∀ op ∈ ops, ∃ v, op = .look v)
    (d : Finset ℤ) : ops.foldl (Operation.effect max) d = d := by
  induction ops with
  | nil => rfl
  | cons op ops ih =>
    obtain ⟨v, rfl⟩ := h op List.mem_cons_self
    exact ih fun op hop ↦ h op (List.mem_cons_of_mem _ hop)

/-- The operations for a class are selections of its members. -/
theorem selects_classOps {member : ℕ → Bool} {inside : ℕ → List Operation}
    (hin : ∀ j, ∀ op ∈ inside j, op.Selects tooMany)
    (hout : ∀ j, ∀ op ∈ outside j, ∃ v, op = .look v) :
    ∀ op ∈ classOps n member inside outside, op.Selects tooMany := by
  intro op hop
  obtain ⟨j, -, hop⟩ := List.mem_flatMap.mp hop
  split_ifs at hop
  · exact hin j op hop
  · obtain ⟨v, rfl⟩ := hout j op hop
    trivial

/-- The same for a name that is looked up, whether it is recognized or not. -/
theorem resolve_tooMany_iff (hfull : ∀ num max, num ≤ max → (full num max = true ↔ num = max))
    (hout : ∀ j, ∀ op ∈ outside j, ∃ v, op = .look v) (x : CString)
    (hmessage : noun ++ " " ++ String.ofList x ++ " not recognized" ≠ tooMany)
    (h : Packed max s l) :
    (resolve classes names noun
        (fun i ↦ classOps n (members i) (fun j ↦ [.select full tooMany j]) outside)
        (fun j ↦ [.select full tooMany j]) (fun m ↦ [.fail m]) x).foldlM Operation.run s
        = .error (.error tooMany) ↔
      l.length < max ∧ max ≤ (l.toFinset ∪ denotes classes names n members x).card := by
  have hselect : ∀ j : ℕ, ∀ op ∈ [Operation.select full tooMany j], op.Selects tooMany := by
    intro j op hop
    rw [List.mem_singleton.mp hop]
    exact ⟨rfl, Int.natCast_nonneg j, hfull⟩
  unfold denotes resolve
  cases firstMatch x classes with
  | some i =>
    have hsets : ∀ (j : ℕ) (d : Finset ℤ),
        [Operation.select full tooMany j].foldl (Operation.effect max) d = insert (j : ℤ) d :=
      fun _ _ ↦ rfl
    rw [Packed.tooMany_iff (selects_classOps hselect hout) h,
      classOps_insert hsets fun j ↦ foldl_effect_of_look (hout j)]
  | none =>
    cases firstMatch x names with
    | some j =>
      rw [Packed.tooMany_iff (hselect j) h, Finset.union_comm]
      rfl
    | none =>
      refine iff_of_false ?_ ?_
      · simpa [Operation.run] using hmessage
      · rw [Finset.union_empty, h.card_toFinset]
        omega

/-- A selection calls the entries too many exactly if the set that results has more of them than the
array has slots. -/
def CapacityExact (result : Except Stop Selected) (tooMany : String) (max : ℕ)
    (selected added : Finset ℤ) : Prop :=
  result = .error (.error tooMany) ↔ max < (selected ∪ added).card

/-- Nothing is added, or a slot was left and the entries do not fill the array exactly. -/
def RoomFor (max : ℕ) (selected added : Finset ℤ) : Prop :=
  added ⊆ selected ∨ selected.card < max ∧ (selected ∪ added).card ≠ max

theorem capacityExact_iff (h : Packed max s l) {result : Except Stop Selected} {added : Finset ℤ}
    (hresult : result = .error (.error tooMany) ↔
      l.length < max ∧ max ≤ (l.toFinset ∪ added).card) :
    CapacityExact result tooMany max l.toFinset added ↔ RoomFor max l.toFinset added := by
  have hle := h.length_le
  rw [CapacityExact, RoomFor, hresult, ← h.card_toFinset]
  rw [← h.card_toFinset] at hle
  by_cases hsubset : added ⊆ l.toFinset
  · rw [Finset.union_eq_left.mpr hsubset]
    exact iff_of_true (by omega) (Or.inl hsubset)
  · have hgrows : l.toFinset.card < (l.toFinset ∪ added).card :=
      Finset.card_lt_card (Finset.subset_union_left.ssubset_of_not_subset fun hback ↦
        hsubset (Finset.subset_union_right.trans hback))
    simp only [hsubset, false_or]
    omega

end

/-! ## The three selections -/

/-- The tests that a class or a name denotes. -/
def testsDenoted (tests : List Test) (x : CString) : Finset ℤ :=
  denotes tstTestClassStrings (tests.map Test.description) tests.length (inTestClass tests) x

/-- The communicators that a class or a name denotes. -/
def commsDenoted (cfg : Config) (t : CommTable) (x : CString) : Finset ℤ :=
  denotes (tstCommsClassStrings cfg) (commNames t) commNum (inCommClass t) x

/-- The datatypes that a class or a name denotes. -/
def typesDenoted (cfg : Config) (x : CString) : Finset ℤ :=
  denotes (typeClassNames cfg) (typeNames cfg) tstTypesNum (inTypeClass cfg) x

/-- The message for a name that is not recognized begins with other letters. -/
theorem notRecognized_ne (noun tooMany : String) (x : CString)
    (h : ¬noun.toList.take 2 <+: tooMany.toList) :
    noun ++ " " ++ String.ofList x ++ " not recognized" ≠ tooMany := by
  rintro rfl
  refine h ((List.take_prefix 2 _).trans ?_)
  simp only [String.toList_append, List.append_assoc]
  exact List.prefix_append _ _

theorem testsFull_iff (num max : ℤ) (h : num ≤ max) : testsFull num max = true ↔ num = max := by
  rw [testsFull, decide_eq_true_iff]
  omega

variable {s : Selected} {l : List ℤ}

theorem testSelect_tooMany_iff {tests : List Test} (h : Packed tests.length s l) (x : CString) :
    tstTestSelect tests x s = .error (.error tooManyTests) ↔
      l.length < tests.length ∧ tests.length ≤ (l.toFinset ∪ testsDenoted tests x).card := by
  have hselect : tstTestSelect tests x s = ((testSpec tests).selectOps x).foldlM Operation.run s :=
    (testSpec tests).select_eq x s
  rw [hselect]
  exact resolve_tooMany_iff testsFull_iff (fun _ _ hop ↦ absurd hop List.not_mem_nil) x
    (notRecognized_ne "Test" tooManyTests x (by decide)) h

theorem commSelect_tooMany_iff {cfg : Config} {t : CommTable} (h : Packed t.num s l)
    (x : CString) :
    tstCommSelect cfg t x s = .error (.error tooManyComms) ↔
      l.length < t.num ∧ t.num ≤ (l.toFinset ∪ commsDenoted cfg t x).card := by
  have hselect : tstCommSelect cfg t x s = ((commSpec cfg t).selectOps x).foldlM Operation.run s :=
    (commSpec cfg t).select_eq x s
  rw [hselect]
  exact resolve_tooMany_iff exactlyFull_iff (fun j _ hop ↦ ⟨j, List.mem_singleton.mp hop⟩) x
    (notRecognized_ne "Communicator" tooManyComms x (by decide)) h

theorem typeSelect_tooMany_iff {cfg : Config} (h : Packed (numTypes cfg) s l) (x : CString) :
    tstTypeSelect cfg x s = .error (.error tooManyTypes) ↔
      l.length < numTypes cfg ∧
        numTypes cfg ≤ (l.toFinset ∪ typesDenoted cfg x).card := by
  have hselect : tstTypeSelect cfg x s = ((typeSpec cfg).selectOps x).foldlM Operation.run s :=
    (typeSpec cfg).select_eq x s
  rw [hselect]
  exact resolve_tooMany_iff exactlyFull_iff (fun j _ hop ↦ ⟨j, List.mem_singleton.mp hop⟩) x
    (notRecognized_ne "Datatype" tooManyTypes x (by decide)) h

/-- **Capacity.** Each of the three selections, started on a list without holes and duplicates,
calls the entries too many exactly if they are, unless the token adds something to a full array or
fills it exactly. -/
theorem select_capacity_exact (cfg : Config) (t : CommTable) :
    (∀ s l x, Packed (tstTests cfg).length s l →
      (CapacityExact (tstTestSelect (tstTests cfg) x s) tooManyTests (tstTests cfg).length
          l.toFinset (testsDenoted (tstTests cfg) x) ↔
        RoomFor (tstTests cfg).length l.toFinset (testsDenoted (tstTests cfg) x))) ∧
    (∀ s l x, Packed t.num s l →
      (CapacityExact (tstCommSelect cfg t x s) tooManyComms t.num l.toFinset
          (commsDenoted cfg t x) ↔
        RoomFor t.num l.toFinset (commsDenoted cfg t x))) ∧
    ∀ s l x, Packed (numTypes cfg) s l →
      (CapacityExact (tstTypeSelect cfg x s) tooManyTypes (numTypes cfg) l.toFinset
          (typesDenoted cfg x) ↔
        RoomFor (numTypes cfg) l.toFinset (typesDenoted cfg x)) :=
  ⟨fun _ _ x h ↦ capacityExact_iff h (testSelect_tooMany_iff h x),
    fun _ _ x h ↦ capacityExact_iff h (commSelect_tooMany_iff h x),
    fun _ _ x h ↦ capacityExact_iff h (typeSelect_tooMany_iff h x)⟩

theorem packed_empty (max : ℕ) : Packed max (Selected.empty max) [] where
  length_eq := List.length_replicate
  take_eq := rfl
  num_eq := rfl
  nodup := List.nodup_nil
  no_hole := List.not_mem_nil

/-- Classes that leave slots free, selected from nothing. -/
theorem select_capacity_exact_empty :
    let cfg : Config := ⟨3, true, true, true, true, true, true, true, true⟩
    CapacityExact (tstTestSelect (tstTests cfg) (lit "Environment")
        (Selected.empty (tstTests cfg).length)) tooManyTests (tstTests cfg).length ∅
        (testsDenoted (tstTests cfg) (lit "Environment")) ∧
      CapacityExact (tstCommSelect cfg (tstCommsRegister cfg 4) (lit "COMM_SELF")
        (Selected.empty (tstCommsRegister cfg 4).num)) tooManyComms (tstCommsRegister cfg 4).num ∅
        (commsDenoted cfg (tstCommsRegister cfg 4) (lit "COMM_SELF")) ∧
      CapacityExact (tstTypeSelect cfg (lit "STRUCT_C_TYPES") (Selected.empty (numTypes cfg)))
        tooManyTypes (numTypes cfg) ∅ (typesDenoted cfg (lit "STRUCT_C_TYPES")) := by
  intro cfg
  have hexact := select_capacity_exact cfg (tstCommsRegister cfg 4)
  refine ⟨(hexact.1 _ [] _ (packed_empty _)).mpr ?_, (hexact.2.1 _ [] _ (packed_empty _)).mpr ?_,
    (hexact.2.2 _ [] _ (packed_empty _)).mpr ?_⟩
  · exact Or.inr (by decide +kernel)
  · exact Or.inr (by decide +kernel)
  · exact Or.inr (by decide +kernel)

/-- Without MPI 2 there are 28 datatypes. Selecting the last of them by name, after the others, is
rejected. -/
theorem select_capacity_rejects_last :
    ¬∀ (cfg : Config) (s : Selected) (l : List ℤ) (x : CString), Packed (numTypes cfg) s l →
      CapacityExact (tstTypeSelect cfg x s) tooManyTypes (numTypes cfg) l.toFinset
        (typesDenoted cfg x) := by
  intro h
  let l : List ℤ := (List.range 27).map fun i : ℕ ↦ (i : ℤ)
  have hpacked : Packed (numTypes plainConfig) ⟨l ++ [-1], 27⟩ l :=
    ⟨by decide +kernel, by decide, by decide, by decide, by decide⟩
  have hexact := h plainConfig ⟨l ++ [-1], 27⟩ l (lit "MPI_TYPE_MIX_ARRAY") hpacked
  revert hexact
  unfold CapacityExact
  decide +kernel

end MpiTestSuite
