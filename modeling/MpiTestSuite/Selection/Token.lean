import MpiTestSuite.Coding.CString
import MpiTestSuite.Selection.Compress
import MpiTestSuite.Tables.Config

/-!
# The token loop

`main` selects tests, communicators and datatypes by three copies of one loop over the tokens of an
option: `all` fills the array, `^` deselects, a digit starts a number, anything else is the name of
an entry or of a class. The copies differ in the functions they call, which are bundled here as a
`Selector`, and the functions share the way they look for a name (`resolve`).

## What a token means

`Selector.Spec` adds what the reader of the command line expects: which entries a name denotes and
which entry a number stands for, together with the elementary operations each name comes down to.
`Spec.meaning` folds the tokens into a set. `Spec.right_of_stepsHarmless` and
`Spec.stepsHarmless_iff_stepsRight` compare the code with it, and `Spec.run_ne_outOfBounds_iff` is
the same for accesses only.
-/

open MpiTestSuite.Runs MpiTestSuite.CString

namespace MpiTestSuite

/-! ## Looking for a name -/

/-- The first of the strings that equals `x` up to case. -/
def firstMatch (x : CString) (strings : List CString) : Option ℕ :=
  strings.findIdx? fun s ↦ strcasecmp x s == 0

/-- The way all select and deselect functions look for a name: among the classes, then among the
entries, then not at all. -/
def resolve {β : Type*} (classes names : List CString) (noun : String) (onClass onName : ℕ → β)
    (fail : String → β) (x : CString) : β :=
  match firstMatch x classes with
  | some i => onClass i
  | none =>
    match firstMatch x names with
    | some j => onName j
    | none => fail (noun ++ " " ++ String.ofList x ++ " not recognized")

/-- What holds of every way out of the search holds of the search. -/
theorem resolve_induction {β : Type*} {P : β → Prop} {classes names : List CString}
    {noun : String} {onClass onName : ℕ → β} {fail : String → β} (hclass : ∀ i, P (onClass i))
    (hname : ∀ j, P (onName j)) (hfail : ∀ m, P (fail m)) (x : CString) :
    P (resolve classes names noun onClass onName fail x) := by
  unfold resolve
  split
  · exact hclass _
  · split
    · exact hname _
    · exact hfail _

/-- `for (j = 0; j < n; j++)`. -/
def forEach (n : ℕ) (body : ℕ → Selected → Except Stop Selected) (s : Selected) :
    Except Stop Selected :=
  (List.range n).foldlM (fun s j ↦ body j s) s

/-- The operations of a loop over the entries that treats members of a class and others
differently. -/
def classOps (n : ℕ) (member : ℕ → Bool) (inside outside : ℕ → List Operation) : List Operation :=
  (List.range n).flatMap fun j ↦ if member j then inside j else outside j

theorem forEach_eq {n : ℕ} {member : ℕ → Bool} {inside outside : ℕ → List Operation}
    {body : ℕ → Selected → Except Stop Selected}
    (hin : ∀ j s, member j = true → body j s = (inside j).foldlM Operation.run s)
    (hout : ∀ j s, member j = false → body j s = (outside j).foldlM Operation.run s)
    (s : Selected) :
    forEach n body s = (classOps n member inside outside).foldlM Operation.run s := by
  rw [forEach, classOps, foldlM_flatMap]
  congr 1
  funext s j
  cases hj : member j with
  | true => exact hin j s hj
  | false => exact hout j s hj

@[simp] theorem foldlM_singleton (op : Operation) (s : Selected) :
    [op].foldlM Operation.run s = op.run s := by
  simp only [List.foldlM_cons, List.foldlM_nil, bind_pure]

/-- A search whose ways out fold operations folds the operations found by the same search. -/
theorem resolve_eq {classes names : List CString} {noun : String}
    {onClass onName : ℕ → Selected → Except Stop Selected}
    {onClassOps onNameOps : ℕ → List Operation}
    (hclass : ∀ i s, onClass i s = (onClassOps i).foldlM Operation.run s)
    (hname : ∀ j s, onName j s = (onNameOps j).foldlM Operation.run s) (x : CString)
    (s : Selected) :
    resolve classes names noun onClass onName (fun message _ ↦ .error (.error message)) x s
      = (resolve classes names noun onClassOps onNameOps (fun message ↦ [.fail message])
          x).foldlM Operation.run s := by
  unfold resolve
  cases firstMatch x classes with
  | some i => exact hclass i s
  | none =>
    cases firstMatch x names with
    | some j => exact hname j s
    | none => rfl

theorem classOps_wellFormed {n : ℕ} {member : ℕ → Bool} {inside outside : ℕ → List Operation}
    (hin : ∀ j, ∀ op ∈ inside j, op.WellFormed) (hout : ∀ j, ∀ op ∈ outside j, op.WellFormed) :
    ∀ op ∈ classOps n member inside outside, op.WellFormed := by
  intro op hop
  obtain ⟨j, -, hop⟩ := List.mem_flatMap.mp hop
  cases hj : member j with
  | true => exact hin j op (by simpa [hj] using hop)
  | false => exact hout j op (by simpa [hj] using hop)

/-! ## What a name denotes -/

/-- The members of a class among the first `n` entries. -/
def classEntries (n : ℕ) (member : ℕ → Bool) : Finset ℤ :=
  ((Finset.range n).filter fun j ↦ member j = true).image fun j : ℕ ↦ (j : ℤ)

/-- A class denotes its members, a name the first entry that has it. -/
def denotes (classes names : List CString) (n : ℕ) (member : ℕ → ℕ → Bool) (x : CString) :
    Finset ℤ :=
  resolve classes names "" (fun i ↦ classEntries n (member i)) (fun j ↦ {(j : ℤ)}) (fun _ ↦ ∅) x

theorem classEntries_succ (n : ℕ) (member : ℕ → Bool) :
    classEntries (n + 1) member
      = if member n then insert (n : ℤ) (classEntries n member) else classEntries n member := by
  rw [classEntries, Finset.range_add_one, Finset.filter_insert]
  cases member n with
  | true => rw [if_pos rfl, if_pos rfl, Finset.image_insert, classEntries]
  | false => rw [if_neg Bool.false_ne_true, if_neg Bool.false_ne_true, classEntries]

theorem classOps_succ (n : ℕ) (member : ℕ → Bool) (inside outside : ℕ → List Operation) :
    classOps (n + 1) member inside outside
      = classOps n member inside outside ++ if member n then inside n else outside n := by
  rw [classOps, List.range_succ, List.flatMap_append, List.flatMap_singleton, classOps]

section Effects

variable {max n : ℕ} {member : ℕ → Bool} {inside outside : ℕ → List Operation}

theorem classOps_insert
    (hin : ∀ j d, (inside j).foldl (Operation.effect max) d = insert (j : ℤ) d)
    (hout : ∀ j d, (outside j).foldl (Operation.effect max) d = d) (d : Finset ℤ) :
    (classOps n member inside outside).foldl (Operation.effect max) d
      = d ∪ classEntries n member := by
  induction n with
  | zero => exact (Finset.union_empty d).symm
  | succ n ih =>
    rw [classOps_succ, List.foldl_append, ih, classEntries_succ]
    cases member n with
    | true => rw [if_pos rfl, if_pos rfl, hin, Finset.union_insert]
    | false => rw [if_neg Bool.false_ne_true, if_neg Bool.false_ne_true, hout]

theorem classOps_erase
    (hin : ∀ j d, (inside j).foldl (Operation.effect max) d = Finset.erase d (j : ℤ))
    (hout : ∀ j d, (outside j).foldl (Operation.effect max) d = d) (d : Finset ℤ) :
    (classOps n member inside outside).foldl (Operation.effect max) d
      = d \ classEntries n member := by
  induction n with
  | zero => exact Finset.sdiff_empty.symm
  | succ n ih =>
    rw [classOps_succ, List.foldl_append, ih, classEntries_succ]
    cases member n with
    | true => rw [if_pos rfl, if_pos rfl, hin, ← Finset.sdiff_insert]
    | false => rw [if_neg Bool.false_ne_true, if_neg Bool.false_ne_true, hout]

variable {classes names : List CString} {noun : String} {members : ℕ → ℕ → Bool}
  {entry : ℕ → List Operation}

/-- A name that is looked up for a selection adds what it denotes, unless it is not recognized. -/
theorem resolve_insert
    (hin : ∀ j d, (inside j).foldl (Operation.effect max) d = insert (j : ℤ) d)
    (hout : ∀ j d, (outside j).foldl (Operation.effect max) d = d)
    (hentry : ∀ j d, (entry j).foldl (Operation.effect max) d = insert (j : ℤ) d) (x : CString)
    (s s' : Selected) (d : Finset ℤ)
    (h : (resolve classes names noun (fun i ↦ classOps n (members i) inside outside) entry
      (fun m ↦ [.fail m]) x).foldlM Operation.run s = .ok s') :
    (resolve classes names noun (fun i ↦ classOps n (members i) inside outside) entry
        (fun m ↦ [.fail m]) x).foldl (Operation.effect max) d
      = d ∪ denotes classes names n members x := by
  unfold denotes
  unfold resolve at h ⊢
  split
  · exact classOps_insert hin hout d
  split
  · rw [hentry, Finset.union_comm, Finset.insert_eq]
  · simp_all [Operation.run]

/-- A name that is looked up for a deselection takes away what it denotes, unless it is not
recognized. -/
theorem resolve_erase
    (hin : ∀ j d, (inside j).foldl (Operation.effect max) d = Finset.erase d (j : ℤ))
    (hout : ∀ j d, (outside j).foldl (Operation.effect max) d = d)
    (hentry : ∀ j d, (entry j).foldl (Operation.effect max) d = Finset.erase d (j : ℤ))
    (x : CString) (s s' : Selected) (d : Finset ℤ)
    (h : (resolve classes names noun (fun i ↦ classOps n (members i) inside outside) entry
      (fun m ↦ [.fail m]) x).foldlM Operation.run s = .ok s') :
    (resolve classes names noun (fun i ↦ classOps n (members i) inside outside) entry
        (fun m ↦ [.fail m]) x).foldl (Operation.effect max) d
      = d \ denotes classes names n members x := by
  unfold denotes
  unfold resolve at h ⊢
  split
  · exact classOps_erase hin hout d
  split
  · rw [hentry, Finset.sdiff_singleton_eq_erase]
  · simp_all [Operation.run]

end Effects

/-! ## Loop bodies that search first -/

/-- `*list_num == list_max`. -/
def exactlyFull (num max : ℤ) : Bool := decide (num = max)

theorem exactlyFull_iff (num max : ℤ) (_ : num ≤ max) : exactlyFull num max = true ↔ num = max :=
  decide_eq_true_iff

namespace Selected

/-- The body of a class loop that searches for every entry and then selects the members. -/
def selectMember (full : ℤ → ℤ → Bool) (tooMany : String) (member : Bool) (v : ℤ) (s : Selected) :
    Except Stop Selected := do
  let ret ← arraySearch v s.list s.num
  if ret ≠ -1 then
    .ok s
  else if member then
    let s' ← s.put v
    if full s'.num s.list.length then .error (.error tooMany) else .ok s'
  else .ok s

/-- The body of a class loop that searches for every entry and then deselects the members. -/
def deselectMember (negative : String) (bound : ℤ) (member : Bool) (v : ℤ) (s : Selected) :
    Except Stop Selected := do
  let ret ← arraySearch v s.list bound
  if ret ≠ -1 ∧ member then s.clear negative ret else .ok s

theorem selectMember_true (full : ℤ → ℤ → Bool) (tooMany : String) (v : ℤ) (s : Selected) :
    s.selectMember full tooMany true v = (Operation.select full tooMany v).run s := rfl

theorem selectMember_false (full : ℤ → ℤ → Bool) (tooMany : String) (v : ℤ) (s : Selected) :
    s.selectMember full tooMany false v = (Operation.look v).run s := by
  rw [selectMember, Operation.run]
  refine bind_congr fun ret ↦ ?_
  simp only [Bool.false_eq_true, if_false, ite_self]
  rfl

theorem deselectMember_true (negative : String) (bound v : ℤ) (s : Selected) :
    s.deselectMember negative bound true v = s.deselect negative bound v := by
  rw [deselectMember, deselect]
  refine bind_congr fun ret ↦ ?_
  by_cases hret : ret = -1 <;> simp [hret]

theorem deselectMember_false (negative : String) (v : ℤ) (s : Selected) :
    s.deselectMember negative s.num false v = (Operation.look v).run s := by
  rw [deselectMember, Operation.run]
  refine bind_congr fun ret ↦ ?_
  simp only [Bool.false_eq_true, and_false, if_false]
  rfl

/-- A search of the whole array stays inside it. -/
theorem deselectMember_false_length (negative : String) (v : ℤ) (s : Selected) :
    s.deselectMember negative s.list.length false v = .ok s := by
  rw [deselectMember, arraySearch_eq]
  by_cases hmem : v ∈ s.list.take (s.list.length : ℤ).toNat
  · rw [if_pos hmem, ok_bind]
    simp
  · rw [if_neg hmem, if_pos (by simp), ok_bind]
    simp

end Selected

/-! ## The loop -/

/-- What the three selections of `main` differ in. -/
structure Selector where
  /-- The capacity of the array. -/
  max : ℕ
  /-- The message for a token that is too long to be copied. -/
  tooLong : String
  /-- The message for a number that is no index. -/
  outOfRange : String
  select : CString → Selected → Except Stop Selected
  deselect : CString → Selected → Except Stop Selected

/-- `'0' <= str[0] && '9' >= str[0]`. -/
def startsWithDigit (str : CString) : Bool := str.head?.any Char.isDigit

namespace Selector

/-- The body of the token loop of `main`. -/
def token (c : Selector) (s : Selected) (str : CString) : Except Stop Selected :=
  if strcasecmp (lit "all") str = 0 then
    .ok s.fill
  else if str.head? = some '^' then
    if tstDescriptionLen < str.length then .error (.error c.tooLong)
    else c.deselect (read (strncpy tstDescriptionLen str.tail)) s
  else if startsWithDigit str then
    if 0 > atoi str ∨ c.max ≤ atoi str then .error (.error c.outOfRange)
    else s.put (atoi str)
  else
    c.select str s

/-- The whole selection: every token in turn, then `tst_array_compress`. -/
def run (c : Selector) (tokens : List CString) : Except Stop Selected := do
  let s ← tokens.foldlM c.token (Selected.empty c.max)
  return s.compress

/-- What the reader of the command line expects of a selector, and how its functions break down
into elementary operations. -/
structure Spec (c : Selector) where
  /-- The entries a name or a class denotes. -/
  denotes : CString → Finset ℤ
  /-- The entry a token that begins with a digit stands for. -/
  number : CString → ℤ
  selectOps : CString → List Operation
  deselectOps : CString → List Operation
  number_nonneg : ∀ x, 0 ≤ atoi x → 0 ≤ number x
  select_eq : ∀ x s, c.select x s = (selectOps x).foldlM Operation.run s
  deselect_eq : ∀ x s, c.deselect x s = (deselectOps x).foldlM Operation.run s
  select_wellFormed : ∀ x, ∀ op ∈ selectOps x, op.WellFormed
  deselect_wellFormed : ∀ x, ∀ op ∈ deselectOps x, op.WellFormed
  /-- A selection that is not rejected adds what the name denotes. -/
  select_effect : ∀ x s s' d, (selectOps x).foldlM Operation.run s = .ok s' →
    (selectOps x).foldl (Operation.effect c.max) d = d ∪ denotes x
  /-- A deselection that is not rejected takes away what the name denotes. -/
  deselect_effect : ∀ x s s' d, (deselectOps x).foldlM Operation.run s = .ok s' →
    (deselectOps x).foldl (Operation.effect c.max) d = d \ denotes x

namespace Spec

variable {c : Selector} (σ : c.Spec)

/-- The elementary operations of one token. -/
def tokenOps (str : CString) : List Operation :=
  if strcasecmp (lit "all") str = 0 then [.fill]
  else if str.head? = some '^' then
    if tstDescriptionLen < str.length then [.fail c.tooLong] else σ.deselectOps (read str.tail)
  else if startsWithDigit str then
    if 0 > atoi str ∨ c.max ≤ atoi str then [.fail c.outOfRange]
    else [.put (atoi str) (σ.number str)]
  else σ.selectOps str

/-- The elementary operations of all tokens. -/
def ops (tokens : List CString) : List Operation := tokens.flatMap σ.tokenOps

/-- What one token does to the selected set. -/
def tokenMeaning (d : Finset ℤ) (str : CString) : Finset ℤ :=
  if strcasecmp (lit "all") str = 0 then Selected.slotNumbers c.max
  else if str.head? = some '^' then d \ σ.denotes (read str.tail)
  else if startsWithDigit str then insert (σ.number str) d
  else d ∪ σ.denotes str

/-- What the command line says: the tokens from left to right, starting from nothing. -/
def meaning (tokens : List CString) : Finset ℤ := tokens.foldl σ.tokenMeaning ∅

end Spec

end Selector

namespace Selector.Spec

variable {c : Selector} (σ : c.Spec) (Valid : ℤ → Prop) (tokens : List CString)

/-- The selection is rejected with `ERROR`, or selects exactly what the command line says. -/
def Right : Prop :=
  Meets (SelectionIs Valid) Stop.Rejected (σ.meaning tokens) (c.run tokens)

instance [DecidablePred Valid] : Decidable (σ.Right Valid tokens) := by
  unfold Right
  infer_instance

/-- Every elementary operation of the selection is harmless in the array it is carried out on. -/
def StepsHarmless : Prop :=
  Along Operation.run (Operation.Harmless Valid) (Selected.empty c.max) (σ.ops tokens)

/-- After every elementary operation the array stands for what the operations up to there are meant
to select, unless the program has stopped with `ERROR`. -/
def StepsRight : Prop :=
  ∀ k, Meets (Represents c.max Valid) Stop.Rejected
    (((σ.ops tokens).take k).foldl (Operation.effect c.max) ∅)
    (((σ.ops tokens).take k).foldlM Operation.run (Selected.empty c.max))

/-- Every elementary operation of the selection accesses slots of the array only. -/
def StepsInBounds : Prop :=
  Along Operation.run Operation.InBounds (Selected.empty c.max) (σ.ops tokens)

end Selector.Spec

/-! ## The code folds the operations of its tokens -/

theorem takeWhile_append_cons {α : Type*} {p : α → Bool} {a : α} (ha : p a = false)
    (x rest : List α) : (x ++ a :: rest).takeWhile p = x.takeWhile p := by
  induction x with
  | nil => rw [List.nil_append, List.takeWhile_cons, ha, if_neg Bool.false_ne_true,
      List.takeWhile_nil]
  | cons b x ih => rw [List.cons_append, List.takeWhile_cons, List.takeWhile_cons, ih]

/-- The copy of a deselected name is complete: `strncpy` finds room for the terminating NUL. -/
theorem read_strncpy {n : ℕ} {x : CString} (h : x.length < n) :
    CString.read (strncpy n x) = CString.read x := by
  rw [CString.read, strncpy, List.take_of_length_le h.le, CString.read,
    show n - x.length = (n - x.length - 1) + 1 from by omega, List.replicate_succ]
  exact takeWhile_append_cons (by decide) x _

namespace Selector.Spec

variable {c : Selector} (σ : c.Spec)

theorem token_eq (s : Selected) (str : CString) :
    c.token s str = (σ.tokenOps str).foldlM Operation.run s := by
  unfold Selector.token tokenOps
  split
  · rfl
  split
  · rename_i _ hcaret
    split
    · rfl
    · rename_i hlen
      have htail : str.tail.length < tstDescriptionLen := by
        cases str with
        | nil => cases hcaret
        | cons a str =>
          rw [List.length_cons, not_lt] at hlen
          exact hlen
      rw [read_strncpy htail]
      exact σ.deselect_eq _ s
  split
  · split
    · rfl
    · exact (foldlM_singleton (.put (atoi str) (σ.number str)) s).symm
  · exact σ.select_eq str s

theorem foldlM_token (tokens : List CString) (s : Selected) :
    tokens.foldlM c.token s = (σ.ops tokens).foldlM Operation.run s := by
  rw [ops, foldlM_flatMap]
  exact congrFun (congrFun (congrArg List.foldlM (funext fun s ↦ funext fun str ↦
    σ.token_eq s str)) s) tokens

theorem tokenOps_wellFormed (str : CString) : ∀ op ∈ σ.tokenOps str, op.WellFormed := by
  unfold tokenOps
  split
  · simp [Operation.WellFormed]
  split
  · split
    · simp [Operation.WellFormed]
    · exact σ.deselect_wellFormed _
  split
  · split
    · simp [Operation.WellFormed]
    · rename_i hrange
      have hnonneg : 0 ≤ atoi str := by
        rw [not_or, not_lt] at hrange
        exact hrange.1
      simpa [Operation.WellFormed] using ⟨hnonneg, σ.number_nonneg str hnonneg⟩
  · exact σ.select_wellFormed str

theorem ops_wellFormed (tokens : List CString) : ∀ op ∈ σ.ops tokens, op.WellFormed := by
  intro op hop
  obtain ⟨str, -, hop⟩ := List.mem_flatMap.mp hop
  exact σ.tokenOps_wellFormed str op hop

/-- The operations of a token that is not rejected have the effect the token is read as. -/
theorem tokenOps_effect {str : CString} {s s' : Selected} (d : Finset ℤ)
    (h : (σ.tokenOps str).foldlM Operation.run s = .ok s') :
    (σ.tokenOps str).foldl (Operation.effect c.max) d = σ.tokenMeaning d str := by
  unfold tokenOps at h ⊢
  unfold tokenMeaning
  split
  · rfl
  split
  · rename_i hall hcaret
    rw [if_neg hall, if_pos hcaret] at h
    split
    · -- a name that is too long is rejected
      rename_i hlen
      rw [if_pos hlen] at h
      cases h
    · rename_i hlen
      rw [if_neg hlen] at h
      exact σ.deselect_effect _ s s' d h
  split
  · rename_i hall hcaret hdigit
    rw [if_neg hall, if_neg hcaret, if_pos hdigit] at h
    split
    · -- a number out of range is rejected
      rename_i hrange
      rw [if_pos hrange] at h
      cases h
    · rfl
  · rename_i hall hcaret hdigit
    rw [if_neg hall, if_neg hcaret, if_neg hdigit] at h
    exact σ.select_effect str s s' d h

theorem ops_effect {tokens : List CString} {s s' : Selected} (d : Finset ℤ)
    (h : tokens.foldlM c.token s = .ok s') :
    (σ.ops tokens).foldl (Operation.effect c.max) d = tokens.foldl σ.tokenMeaning d := by
  induction tokens generalizing s d with
  | nil => rfl
  | cons str tokens ih =>
    cases ht : c.token s str with
    | error e =>
      rw [foldlM_cons_error ht] at h
      cases h
    | ok t =>
      rw [foldlM_cons_ok ht] at h
      rw [σ.token_eq] at ht
      rw [ops, List.flatMap_cons, List.foldl_append, List.foldl_cons, σ.tokenOps_effect d ht]
      exact ih _ h

include σ in
/-- What is left of a selection is an array of the same capacity, compressed. -/
theorem run_ok {tokens : List CString} {s : Selected} (h : c.run tokens = .ok s) :
    ∃ s' : Selected, s = s'.compress ∧ s'.list.length = c.max := by
  rw [Selector.run] at h
  cases hrun : tokens.foldlM c.token (Selected.empty c.max) with
  | error e =>
    rw [hrun] at h
    cases h
  | ok s' =>
    rw [hrun] at h
    cases h
    rw [σ.foldlM_token] at hrun
    exact ⟨s', rfl, (foldlM_ok_induction Operation.shaped_run
      (Operation.shaped_empty c.max) hrun).length_eq⟩

/-! ## Comparison with the meaning -/

variable {Valid : ℤ → Prop}

/-- **Enough.** If every operation of the selection is harmless in the state it is carried out in,
the selection is rejected or selects what the command line says. -/
theorem right_of_stepsHarmless (hfill : ∀ x : ℤ, 0 ≤ x → x < c.max → Valid x)
    {tokens : List CString} (h : σ.StepsHarmless Valid tokens) : σ.Right Valid tokens := by
  have hmeets := Operation.meets_of_along_harmless hfill (Represents.empty c.max Valid)
    (σ.ops_wellFormed tokens) h
  rw [← σ.foldlM_token] at hmeets
  rw [Right, Selector.run]
  cases hrun : tokens.foldlM c.token (Selected.empty c.max) with
  | error e =>
    rw [hrun] at hmeets
    exact hmeets
  | ok s =>
    rw [hrun, σ.ops_effect ∅ hrun] at hmeets
    exact Represents.selectionIs_compress hmeets

/-- **Exactness.** The condition says precisely that after every elementary operation the array
stands for the set intended up to there, or the program has stopped with `ERROR`. -/
theorem stepsHarmless_iff_stepsRight (hfill : ∀ x : ℤ, 0 ≤ x → x < c.max → Valid x)
    (tokens : List CString) : σ.StepsHarmless Valid tokens ↔ σ.StepsRight Valid tokens :=
  Operation.along_harmless_iff hfill (Represents.empty c.max Valid) (σ.ops_wellFormed tokens)

/-- **Accesses.** The selection stays inside its array if and only if every operation does in the
state it is carried out in. -/
theorem run_ne_outOfBounds_iff (tokens : List CString) :
    c.run tokens ≠ .error .outOfBounds ↔ σ.StepsInBounds tokens := by
  rw [StepsInBounds, Operation.along_inBounds_iff (Operation.shaped_empty c.max), ← σ.foldlM_token,
    Selector.run]
  cases tokens.foldlM c.token (Selected.empty c.max) with
  | error e => rfl
  | ok s => simp

end Selector.Spec

end MpiTestSuite
