import Mathlib.Data.List.TakeWhile
import MpiTestSuite.Selection.Main

/-!
# Names in fields and buffers of fixed size

A description is copied into a field of 48 bytes, a name that is deselected into an array of 49, and
the message for a name that is not recognized is printed into a buffer of 128 bytes, which nothing
protects against a longer one.

The copy for a deselection is always terminated, because `main` has rejected a longer token before,
and the message that is made of it fits for the same reason. The other two are not safe: one of the
descriptions has 49 bytes and leaves its field without a NUL, and the token of a selection is not
checked at all.
-/

open MpiTestSuite.Runs MpiTestSuite.CString

namespace MpiTestSuite

/-- The NUL that ends a C string. -/
abbrev nul : Char := Char.ofNat 0

/-- The descriptions that are registered. -/
def registeredDescriptions (cfg : Config) (worldSize : ℕ) : List String :=
  ["MPI_COMM_WORLD", "MPI_COMM_NULL", "MPI_COMM_SELF", "Duplicated MPI_COMM_WORLD",
      "Reversed MPI_COMM_WORLD", "Halved MPI_COMM_WORLD"]
    ++ (if 1 < worldSize then ["2D Cart_comm", "3D Cart_comm"] else [])
    ++ ["Odd/Even split MPI_COMM_WORLD", "Full-connected Topology"]
    ++ (if 1 < worldSize then ["Halved Inter_communicator",
      "Intracomm merged of the Halved Inter_communicator"] else [])
    ++ if 3 ≤ cfg.mpiVersion then ["MPI_COMM_TYPE_SHARED comm"] else []

theorem registered_description (cfg : Config) (worldSize : ℕ) :
    (tstCommsRegister cfg worldSize).registered.map Comm.description
      = (registeredDescriptions cfg worldSize).map fun d ↦ strncpy tstDescriptionLen (lit d) := by
  unfold tstCommsRegister registerIfSeveral registeredDescriptions tstCommRegister commNum
  split_ifs <;> rfl

/-! ## Terminated copies -/

/-- A copy is terminated exactly if the string is shorter than the field. -/
theorem nul_mem_strncpy_iff {n : ℕ} {x : CString} (hx : nul ∉ x) :
    nul ∈ strncpy n x ↔ x.length < n := by
  rw [strncpy, List.mem_append, List.mem_replicate]
  constructor
  · rintro (hmem | ⟨hne, -⟩)
    · exact absurd (List.mem_of_mem_take hmem) hx
    · omega
  · intro h
    exact Or.inr ⟨by omega, rfl⟩

/-- A string that is terminated in its field reads back as it was. -/
theorem read_strncpy_of_lt {n : ℕ} {x : CString} (hx : nul ∉ x) (h : x.length < n) :
    read (strncpy n x) = x := by
  rw [read_strncpy h, CString.read, List.takeWhile_eq_self_iff]
  intro c hc
  rw [decide_eq_true_iff]
  rintro rfl
  exact hx hc

theorem strcasecmp_self (x : CString) : strcasecmp x x = 0 := by
  induction x with
  | nil => rfl
  | cons c x ih => rw [strcasecmp, if_pos rfl, ih]

/-! ## The messages -/

/-- The text that `sprintf` makes of a name that is not recognized, if it is not. -/
def unrecognized (classes names : List CString) (noun : String) (x : CString) : Option String :=
  resolve classes names noun (fun _ ↦ none) (fun _ ↦ none) some x

theorem resolve_of_unrecognized {β : Type*} {classes names : List CString} {noun : String}
    {x : CString} {text : String} (h : unrecognized classes names noun x = some text)
    (onClass onName : ℕ → β) (fail : String → β) :
    resolve classes names noun onClass onName fail x = fail text := by
  unfold unrecognized resolve at h
  unfold resolve
  split at h
  · cases h
  · split at h
    · cases h
    · cases h
      rfl

theorem length_unrecognized {classes names : List CString} {noun : String} {x : CString}
    {text : String} (h : unrecognized classes names noun x = some text) :
    text.length = noun.length + x.length + 16 := by
  unfold unrecognized resolve at h
  split at h
  · cases h
  · split at h
    · cases h
    · cases h
      simp only [String.length_append, String.length_ofList]
      have hspace : " ".length = 1 := rfl
      have hrest : " not recognized".length = 15 := rfl
      omega

/-- The names that the two functions of one selection look for. -/
structure NameTable where
  classes : List CString
  /-- The names that can be selected. -/
  names : List CString
  /-- The names that can be deselected. -/
  deselectNames : List CString
  /-- The word in front of a name that is not recognized. -/
  noun : String

namespace NameTable

/-- The names of `tst_test_select` and `tst_test_deselect`. -/
def tests (tests : List Test) : NameTable :=
  ⟨tstTestClassStrings, tests.map Test.description, tests.map Test.description, "Test"⟩

/-- The names of `tst_comm_select` and `tst_comm_deselect`. -/
def comms (cfg : Config) (t : CommTable) : NameTable :=
  ⟨tstCommsClassStrings cfg, commNames t, slotNames t, "Communicator"⟩

/-- The names of `tst_type_select` and `tst_type_deselect`. -/
def types (cfg : Config) : NameTable :=
  ⟨typeClassNames cfg, typeNames cfg, typeNames cfg, "Datatype"⟩

/-- The token is handed to the select function: it is not `all`, and begins neither with `^` nor
with a digit. -/
def Selects (str : CString) : Prop :=
  strcasecmp (lit "all") str ≠ 0 ∧ str.head? ≠ some '^' ∧ startsWithDigit str = false

instance (str : CString) : Decidable (Selects str) := by
  unfold Selects
  infer_instance

/-- `tmp_str` in the negation branch of `main`, if the branch gets there. -/
def tmpStr (str : CString) : Option (List Char) :=
  if strcasecmp (lit "all") str ≠ 0 ∧ str.head? = some '^' ∧ str.length ≤ tstDescriptionLen then
    some (strncpy tstDescriptionLen str.tail)
  else none

/-- The text that is printed into a buffer of 128 bytes because of a token, if it is. -/
def text (table : NameTable) (str : CString) : Option String :=
  if Selects str then unrecognized table.classes table.names table.noun str
  else (tmpStr str).bind fun tmp ↦
    unrecognized table.classes table.deselectNames table.noun (read tmp)

end NameTable

/-- The loop of `main` with the functions of a table ends with the text that was printed. -/
theorem token_of_text {c : Selector} {table : NameTable} {str : CString} {s : Selected}
    {onClass onName onClass' onName' : ℕ → Selected → Except Stop Selected}
    (hselect : c.select = resolve table.classes table.names table.noun onClass onName
      (fun message _ ↦ .error (.error message)))
    (hdeselect : c.deselect = resolve table.classes table.deselectNames table.noun onClass' onName'
      (fun message _ ↦ .error (.error message))) {text : String}
    (h : table.text str = some text) : c.token s str = .error (.error text) := by
  unfold NameTable.text at h
  split at h
  · rename_i hplain
    obtain ⟨hall, hcaret, hdigit⟩ := hplain
    rw [Selector.token, if_neg hall, if_neg hcaret, hdigit, if_neg Bool.false_ne_true, hselect,
      resolve_of_unrecognized h]
  · obtain ⟨tmp, htmp, h⟩ := Option.bind_eq_some_iff.mp h
    unfold NameTable.tmpStr at htmp
    split at htmp
    · rename_i hbranch
      obtain ⟨hall, hcaret, hlength⟩ := hbranch
      cases htmp
      rw [Selector.token, if_neg hall, if_pos hcaret, if_neg (not_lt.mpr hlength), hdeselect,
        resolve_of_unrecognized h]
    · cases htmp

/-! ## What fits -/

/-- The length of the buffers for the message. -/
def bufferSize : ℕ := 128

/-- A description and a token do no harm: the description is terminated in its field and found
there, the copy for a deselection is terminated, and a message fits into its buffer with its NUL. -/
structure NamesFit (cfg : Config) (t : CommTable) (d : String) (str : CString) : Prop where
  terminated : nul ∈ strncpy tstDescriptionLen (lit d)
  found : strcasecmp (lit d) (read (strncpy tstDescriptionLen (lit d))) = 0
  tmpStr : ∀ tmp ∈ NameTable.tmpStr str, nul ∈ tmp
  text : ∀ table ∈ [NameTable.tests (tstTests cfg), NameTable.comms cfg t, NameTable.types cfg],
    ∀ text ∈ table.text str, text.length + 1 ≤ bufferSize

theorem nul_mem_tmpStr {str tmp : CString} (h : tmp ∈ NameTable.tmpStr str) : nul ∈ tmp := by
  unfold NameTable.tmpStr at h
  split at h
  · rename_i hbranch
    obtain ⟨-, hcaret, hlength⟩ := hbranch
    cases h
    rw [strncpy, List.mem_append, List.mem_replicate]
    cases str with
    | nil => cases hcaret
    | cons c str =>
      rw [List.length_cons] at hlength
      exact Or.inr ⟨by rw [List.tail_cons]; omega, rfl⟩
  · cases h

/-- A name that is deselected is short. -/
theorem length_read_tmpStr {str tmp : CString} (h : tmp ∈ NameTable.tmpStr str) :
    (read tmp).length < tstDescriptionLen := by
  unfold NameTable.tmpStr at h
  split at h
  · rename_i hbranch
    obtain ⟨-, hcaret, hlength⟩ := hbranch
    cases h
    cases str with
    | nil => cases hcaret
    | cons c str =>
      rw [List.length_cons] at hlength
      rw [List.tail_cons, read_strncpy (by omega)]
      exact lt_of_le_of_lt (List.takeWhile_sublist _).length_le (by omega)
  · cases h

/-- The message of a table fits, unless it is for a long token that is selected. -/
theorem text_fits_iff (table : NameTable) (hnoun : table.noun.length ≤ 64) (str : CString) :
    (∀ text ∈ table.text str, text.length + 1 ≤ bufferSize) ↔
      (NameTable.Selects str →
        (unrecognized table.classes table.names table.noun str).isSome →
        table.noun.length + str.length ≤ 111) := by
  unfold NameTable.text bufferSize
  by_cases hselects : NameTable.Selects str
  · rw [if_pos hselects]
    constructor
    · intro h _ hsome
      obtain ⟨text, htext⟩ := Option.isSome_iff_exists.mp hsome
      have hlength := length_unrecognized htext
      have hle := h text htext
      omega
    · intro h text htext
      have hlength := length_unrecognized htext
      have hle := h hselects (Option.isSome_iff_exists.mpr ⟨text, htext⟩)
      omega
  · rw [if_neg hselects]
    refine iff_of_true ?_ fun hc ↦ absurd hc hselects
    intro text htext
    obtain ⟨tmp, htmp, htext⟩ := Option.bind_eq_some_iff.mp htext
    have hlength := length_unrecognized htext
    have hshort := length_read_tmpStr htmp
    rw [tstDescriptionLen] at hshort
    omega

/-- The description of the intra-communicator that is merged from the inter-communicator. -/
def mergedDescription : String := "Intracomm merged of the Halved Inter_communicator"

/-- All descriptions but one are shorter than their field. -/
theorem length_description (cfg : Config) (worldSize : ℕ) :
    ∀ d ∈ registeredDescriptions cfg worldSize,
      nul ∉ lit d ∧ ((lit d).length < tstDescriptionLen ↔ d ≠ mergedDescription) := by
  unfold registeredDescriptions
  split_ifs <;> decide +kernel

/-- The texts are the messages that the three selections of `main` end with. -/
theorem token_eq_text (cfg : Config) (t : CommTable) (s : Selected) (str : CString)
    (text : String) :
    ((NameTable.tests (tstTests cfg)).text str = some text →
        (testSelector (tstTests cfg)).token s str = .error (.error text)) ∧
      ((NameTable.comms cfg t).text str = some text →
        (commSelector cfg t).token s str = .error (.error text)) ∧
      ((NameTable.types cfg).text str = some text →
        (typeSelector cfg).token s str = .error (.error text)) :=
  ⟨token_of_text rfl rfl, token_of_text rfl rfl, token_of_text rfl rfl⟩

/-- **Names.** For every registered description and every token: the description is terminated and
found, the copy is terminated and the messages fit, unless the description is that of the merged
communicator or a select function does not recognize a long token. -/
theorem names_fit_iff (cfg : Config) (worldSize : ℕ) (d : String)
    (hd : d ∈ registeredDescriptions cfg worldSize) (str : CString) :
    NamesFit cfg (tstCommsRegister cfg worldSize) d str ↔
      d ≠ mergedDescription ∧
        ∀ table ∈ [NameTable.tests (tstTests cfg),
            NameTable.comms cfg (tstCommsRegister cfg worldSize), NameTable.types cfg],
          NameTable.Selects str →
            (unrecognized table.classes table.names table.noun str).isSome →
            table.noun.length + str.length ≤ 111 := by
  obtain ⟨hnul, hlength⟩ := length_description cfg worldSize d hd
  have hnouns : ∀ table ∈ [NameTable.tests (tstTests cfg),
      NameTable.comms cfg (tstCommsRegister cfg worldSize), NameTable.types cfg],
      table.noun.length ≤ 64 := by
    simp only [List.forall_mem_cons]
    exact ⟨(by decide : "Test".length ≤ 64), (by decide : "Communicator".length ≤ 64),
      (by decide : "Datatype".length ≤ 64), nofun⟩
  constructor
  · intro h
    refine ⟨hlength.mp ((nul_mem_strncpy_iff hnul).mp h.terminated), fun table htable ↦ ?_⟩
    exact (text_fits_iff table (hnouns table htable) str).mp (h.text table htable)
  · rintro ⟨hne, hshort⟩
    have hlt : (lit d).length < tstDescriptionLen := hlength.mpr hne
    refine ⟨(nul_mem_strncpy_iff hnul).mpr hlt, ?_, fun tmp htmp ↦ nul_mem_tmpStr htmp,
      fun table htable ↦ ?_⟩
    · rw [read_strncpy_of_lt hnul hlt, strcasecmp_self]
    · exact (text_fits_iff table (hnouns table htable) str).mpr (hshort table htable)

/-- The first description and the token `Ring`, which is the name of a test. -/
theorem names_fit_ring :
    "MPI_COMM_WORLD" ∈ registeredDescriptions plainConfig 4 ∧
      NamesFit plainConfig (tstCommsRegister plainConfig 4) "MPI_COMM_WORLD" (lit "Ring") :=
  ⟨by decide, (names_fit_iff plainConfig 4 "MPI_COMM_WORLD" (by decide) (lit "Ring")).mpr
    ⟨by decide, by simp only [List.forall_mem_cons]; decide +kernel⟩⟩

/-- The description of the merged communicator has no NUL, and a token of 108 letters writes 129
bytes. -/
theorem names_fit_fails :
    (¬∀ (cfg : Config) (worldSize : ℕ) (d : String), d ∈ registeredDescriptions cfg worldSize →
      ∀ str, NamesFit cfg (tstCommsRegister cfg worldSize) d str) ∧
      mergedDescription ∈ registeredDescriptions plainConfig 4 ∧
      nul ∉ strncpy tstDescriptionLen (lit mergedDescription) ∧
      ((NameTable.tests (tstTests plainConfig)).text (List.replicate 108 'x')).map
        (fun text ↦ text.length + 1) = some 129 := by
  refine ⟨fun h ↦ ?_, by decide, by decide, by decide +kernel⟩
  have hfit := h plainConfig 4 mergedDescription (by decide) (lit "Ring")
  exact absurd hfit.terminated (by decide)

end MpiTestSuite
