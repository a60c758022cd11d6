import MpiTestSuite.Selection.Token
import MpiTestSuite.Tables.Comms

/-!
# Selecting communicators

`tst_comm_select` and `tst_comm_deselect`, and what the tokens of `-c` amount to.

Classes are looked for in all 32 slots, and every slot is searched for, a member or not. A class is
deselected unless the search returns `1`, where `-1` would be the result of a search that failed:
the entry in the second slot of the array stays, and a member that is not selected is cleared at
index `-1`. A description that begins with a digit is read as a number before anyone looks for it.
-/

open MpiTestSuite.Runs MpiTestSuite.CString

namespace MpiTestSuite

/-- `comms[j].class & (1 << i)`. -/
def inCommClass (t : CommTable) (i j : ℕ) : Bool := (t.slot j).commClass &&& (1#32 <<< i) != 0

/-- The descriptions of the registered communicators. -/
def commNames (t : CommTable) : List CString := t.registered.map Comm.descriptionString

/-- The descriptions of all slots. -/
def slotNames (t : CommTable) : List CString :=
  commNames t ++ List.replicate (commNum - t.num) Comm.zero.descriptionString

/-- The message of a communicator array that is full. -/
def tooManyComms : String := "Too many user selected tests"

/-- The message of a negative counter after a class was deselected. -/
def negativeComms : String := "Negative selected comms: This should not happen"

/-- The message of a negative counter after a communicator was deselected. -/
def negativeComm : String := "Negative selected tests: This should not happen"

/-- The body of the class loop of `tst_comm_deselect`. -/
def deselectCommMember (member : Bool) (v : ℤ) (s : Selected) : Except Stop Selected := do
  let ret ← arraySearch v s.list s.num
  if ret ≠ 1 ∧ member then s.clear negativeComms ret else .ok s

/-- `tst_comm_select`. -/
def tstCommSelect (cfg : Config) (t : CommTable) : CString → Selected → Except Stop Selected :=
  resolve (tstCommsClassStrings cfg) (commNames t) "Communicator"
    (fun i ↦ forEach commNum fun j s ↦
      s.selectMember exactlyFull tooManyComms (inCommClass t i j) j)
    (fun j s ↦ s.select exactlyFull tooManyComms j)
    (fun message _ ↦ .error (.error message))

/-- `tst_comm_deselect`. -/
def tstCommDeselect (cfg : Config) (t : CommTable) : CString → Selected → Except Stop Selected :=
  resolve (tstCommsClassStrings cfg) (slotNames t) "Communicator"
    (fun i ↦ forEach commNum fun j s ↦ deselectCommMember (inCommClass t i j) j s)
    (fun j s ↦ s.deselect negativeComm s.num j)
    (fun message _ ↦ .error (.error message))

/-- The selection of communicators in `main`. -/
def commSelector (cfg : Config) (t : CommTable) : Selector where
  max := t.num
  tooLong := "Name of comm too long for negation"
  outOfRange := "Specified communicator number out of range"
  select := tstCommSelect cfg t
  deselect := tstCommDeselect cfg t

theorem deselectCommMember_true (v : ℤ) (s : Selected) :
    deselectCommMember true v s = (Operation.deselectUnlessSecond negativeComms v).run s := by
  rw [deselectCommMember, Operation.run, Selected.deselectUnlessSecond]
  refine bind_congr fun ret ↦ ?_
  by_cases hret : ret = 1 <;> simp [hret]

theorem deselectCommMember_false (v : ℤ) (s : Selected) :
    deselectCommMember false v s = (Operation.look v).run s := by
  rw [deselectCommMember, Operation.run]
  refine bind_congr fun ret ↦ ?_
  simp only [Bool.false_eq_true, and_false, if_false]
  rfl

/-- A name that is recognized among some of the slots means the same among all of them. -/
theorem denotes_append {classes names more : List CString} {noun : String} {n : ℕ}
    {members : ℕ → ℕ → Bool} {onClass onName : ℕ → List Operation} {x : CString} {s s' : Selected}
    (h : (resolve classes names noun onClass onName (fun m ↦ [.fail m]) x).foldlM Operation.run s
      = .ok s') :
    denotes classes (names ++ more) n members x = denotes classes names n members x := by
  unfold denotes
  unfold resolve at h ⊢
  cases hclass : firstMatch x classes with
  | some i => rfl
  | none =>
    rw [hclass] at h
    cases hname : firstMatch x names with
    | some j =>
      have happend : firstMatch x (names ++ more) = some j := by
        rw [firstMatch, List.findIdx?_append, ← firstMatch, hname, Option.some_or]
      rw [happend]
    | none =>
      rw [hname] at h
      simp [Operation.run] at h

/-- The tokens of `-c`. A description denotes its communicator, also where it begins with a digit.
The slots that are not registered belong to no class, and their empty description is the token `^`
without a name. -/
def commSpec (cfg : Config) (t : CommTable) : (commSelector cfg t).Spec where
  denotes := denotes (tstCommsClassStrings cfg) (slotNames t) commNum (inCommClass t)
  number x := ((firstMatch x (commNames t)).map fun j : ℕ ↦ (j : ℤ)).getD (atoi x)
  selectOps := resolve (tstCommsClassStrings cfg) (commNames t) "Communicator"
    (fun i ↦ classOps commNum (inCommClass t i) (fun j ↦ [.select exactlyFull tooManyComms j])
      (fun j ↦ [.look j]))
    (fun j ↦ [.select exactlyFull tooManyComms j]) (fun message ↦ [.fail message])
  deselectOps := resolve (tstCommsClassStrings cfg) (slotNames t) "Communicator"
    (fun i ↦ classOps commNum (inCommClass t i) (fun j ↦ [.deselectUnlessSecond negativeComms j])
      (fun j ↦ [.look j]))
    (fun j ↦ [.deselect negativeComm j]) (fun message ↦ [.fail message])
  number_nonneg x h := by
    cases firstMatch x (commNames t) with
    | some j => exact Int.natCast_nonneg j
    | none => exact h
  select_eq := resolve_eq
    (fun i ↦ forEach_eq
      (fun j s hj ↦ by rw [hj, foldlM_singleton, Selected.selectMember_true])
      (fun j s hj ↦ by rw [hj, foldlM_singleton, Selected.selectMember_false]))
    (fun j s ↦ (foldlM_singleton (.select exactlyFull tooManyComms j) s).symm)
  deselect_eq := resolve_eq
    (fun i ↦ forEach_eq
      (fun j s hj ↦ by rw [hj, foldlM_singleton, deselectCommMember_true])
      (fun j s hj ↦ by rw [hj, foldlM_singleton, deselectCommMember_false]))
    (fun j s ↦ (foldlM_singleton (.deselect negativeComm j) s).symm)
  select_wellFormed := by
    have hselect : ∀ j : ℕ, ∀ op ∈ [Operation.select exactlyFull tooManyComms j],
        op.WellFormed := by
      intro j op hop
      rw [List.mem_singleton.mp hop]
      exact ⟨Int.natCast_nonneg j, exactlyFull_iff⟩
    refine resolve_induction (P := fun ops ↦ ∀ op ∈ ops, Operation.WellFormed op)
      (fun i ↦ classOps_wellFormed hselect ?_) hselect ?_ <;> simp [Operation.WellFormed]
  deselect_wellFormed := by
    refine resolve_induction (P := fun ops ↦ ∀ op ∈ ops, Operation.WellFormed op)
      (fun i ↦ classOps_wellFormed ?_ ?_) ?_ ?_ <;> simp [Operation.WellFormed]
  select_effect x s s' d h := by
    rw [slotNames, denotes_append h]
    exact resolve_insert (fun _ _ ↦ rfl) (fun _ _ ↦ rfl) (fun _ _ ↦ rfl) x s s' d h
  deselect_effect := resolve_erase (fun _ _ ↦ rfl) (fun _ _ ↦ rfl) (fun _ _ ↦ rfl)

/-- Indices of registered communicators. -/
def ValidComm (t : CommTable) (x : ℤ) : Prop := x < t.num

instance (t : CommTable) : DecidablePred (ValidComm t) :=
  fun x ↦ inferInstanceAs (Decidable (x < t.num))

/-- **Selection of communicators.** If every elementary operation of the tokens is harmless, the
communicators left in the array are those the command line says, each once. The condition is exact:
it says that the array is right after each of the operations. -/
theorem comm_selection (cfg : Config) (t : CommTable) (tokens : List CString) :
    ((commSpec cfg t).StepsHarmless (ValidComm t) tokens →
        (commSpec cfg t).Right (ValidComm t) tokens) ∧
      ((commSpec cfg t).StepsHarmless (ValidComm t) tokens ↔
        (commSpec cfg t).StepsRight (ValidComm t) tokens) :=
  ⟨(commSpec cfg t).right_of_stepsHarmless fun _ _ h ↦ h,
    (commSpec cfg t).stepsHarmless_iff_stepsRight (fun _ _ h ↦ h) tokens⟩

/-- `-c all,^COMM_NULL` leaves `MPI_COMM_NULL` selected, because it is in the second slot. -/
theorem comm_selection_keeps_null :
    ¬∀ (cfg : Config) (t : CommTable) (tokens : List CString),
      (commSpec cfg t).Right (ValidComm t) tokens := by
  intro h
  let cfg : Config := ⟨3, true, true, true, true, true, true, true, true⟩
  exact absurd (h cfg (tstCommsRegister cfg 4) [lit "all", lit "^COMM_NULL"]) (by decide +kernel)

/-- `-c "2D Cart_comm"` selects `MPI_COMM_SELF`, the communicator with number 2. -/
example :
    let cfg : Config := ⟨3, true, true, true, true, true, true, true, true⟩
    ¬(commSpec cfg (tstCommsRegister cfg 4)).Right (ValidComm (tstCommsRegister cfg 4))
      [lit "2D Cart_comm"] := by
  decide +kernel

end MpiTestSuite
