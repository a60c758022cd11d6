import Mathlib.Data.List.ProdSigma
import MpiTestSuite.Selection.Main

/-!
# The schedule of `main`

Four nested loops run every test with every communicator, every datatype and every number of
values, unless `tst_test_check_run` objects. Three of the loops end where the compressed selection
ends. The loop over communicators does not: `num_comms` is overwritten with the number of
*registered* communicators, so it goes on through the slots that compression has left behind
(`executed_eq`).

## The order of the combinations

The intended schedule is the lexicographic product of the selections, filtered. The loops produce
the same product with the whole communicator array in place of the selected part, so the two agree
exactly when nothing behind the selected part is admitted (`schedule_complete`).
-/

open MpiTestSuite.Runs MpiTestSuite.CString

namespace MpiTestSuite

/-- What a schedule depends on besides the options for the selections. -/
structure Setting where
  cfg : Config
  comms : CommTable
  /-- `tst_mode`. -/
  mode : TstMode
  /-- `MPI_Comm_size` of each registered communicator, as this process sees it. -/
  mpiCommSize : ℕ → ℤ
  /-- `tst_tag_ub`. -/
  tagUb : ℤ

/-- The fields of `struct tst_env` that `main` sets. -/
structure Env where
  test : ℤ
  comm : ℤ
  type : ℤ
  valuesNum : ℤ
  tag : ℤ
  deriving DecidableEq, Repr

/-- The combination an environment stands for. -/
def Env.combination (env : Env) : ℤ × ℤ × ℤ × ℤ := (env.test, env.comm, env.type, env.valuesNum)

variable (w : Setting)

/-! ## Admission -/

/-- `tst_test_check_run`, which reads the row of the test, the communicator and the datatype. -/
def tstTestCheckRun (test comm type : ℤ) : Bool :=
  match tstTest w.cfg test with
  | none => false
  | some row =>
    !(row.mode.toInt < w.mode.toInt
      || tstCommGetcommclass w.comms comm &&& row.runWithComm == 0
      || tstCommGetcommsize w.comms w.mpiCommSize comm < row.minCommSize
      || tstTypeGettypeclass w.cfg type &&& row.runWithType == 0)

theorem tstTestCheckRun_iff {test comm type : ℤ} {row : Test}
    (hrow : tstTest w.cfg test = some row) :
    tstTestCheckRun w test comm type = true ↔
      (¬row.mode.toInt < w.mode.toInt ∧ tstCommGetcommclass w.comms comm &&& row.runWithComm ≠ 0
        ∧ tstTypeGettypeclass w.cfg type &&& row.runWithType ≠ 0)
      ∧ ¬tstCommGetcommsize w.comms w.mpiCommSize comm < row.minCommSize := by
  rw [tstTestCheckRun, hrow]
  simp only [Bool.not_eq_true', Bool.or_eq_false_iff, decide_eq_false_iff_not, beq_eq_false_iff_ne]
  tauto

/-- Every test asks for a number of processes, so a hole in the communicator array, whose size is
`-1`, is never admitted. -/
theorem minCommSize_nonneg (cfg : Config) {i : ℤ} {row : Test} (h : tstTest cfg i = some row) :
    0 ≤ row.minCommSize := by
  rcases tstTest_induction cfg (P := fun row ↦ decide (0 ≤ row.minCommSize))
    (by simp only [List.forall_mem_cons]; exact ⟨rfl, rfl, rfl, rfl, rfl, rfl, nofun⟩) h
    with rfl | hmin
  · exact le_refl 0
  · exact of_decide_eq_true hmin

theorem not_checkRun_hole (test type : ℤ) : tstTestCheckRun w test (-1) type = false := by
  unfold tstTestCheckRun
  split
  · rfl
  · rename_i row hrow
    have hmin := minCommSize_nonneg w.cfg hrow
    have hsize : tstCommGetcommsize w.comms w.mpiCommSize (-1) < row.minCommSize := by
      rw [tstCommGetcommsize, if_pos (by omega)]
      omega
    simp [hsize]

/-- What the names of the functions of a test begin with. -/
def testName (cfg : Config) (env : Env) : Option String :=
  (tstTest cfg env.test).bind Test.functions

/-- A test that is admitted has its functions. -/
theorem exists_testName (w : Setting) {env : Env}
    (h : tstTestCheckRun w env.test env.comm env.type = true) :
    ∃ name, testName w.cfg env = some name := by
  unfold tstTestCheckRun at h
  cases hrow : tstTest w.cfg env.test with
  | none => simp [hrow] at h
  | some row =>
    rcases tstTest_induction w.cfg (P := fun row ↦ row.functions.isSome)
      (by simp only [List.forall_mem_cons]; exact ⟨rfl, rfl, rfl, rfl, rfl, rfl, nofun⟩) hrow
      with rfl | hsome
    · -- the last row runs with no communicator
      simp [hrow, noTest] at h
    · obtain ⟨name, hname⟩ := Option.isSome_iff_exists.mp hsome
      exact ⟨name, by rw [testName, hrow, Option.bind_some, hname]⟩

/-! ## The loops -/

variable (sel : Selections)

/-- `list[i]`, for an index the loops have checked. -/
def slotAt (list : List ℤ) (i : ℕ) : ℤ := list[i]?.getD 0

/-- The environment of one iteration. -/
def envAt (i j k l : ℕ) : Env where
  test := slotAt sel.tests.list i
  comm := slotAt sel.comms.list j
  type := slotAt sel.types.list k
  valuesNum := slotAt sel.values l
  tag := (i + j + k + l : ℤ) % w.tagUb

/-- The environments `main` executes, in order. `num_comms` is what `tst_comms_init` returned. -/
def executed : List Env :=
  (List.range sel.tests.num.toNat).flatMap fun i ↦
    (List.range w.comms.num).flatMap fun j ↦
      (List.range sel.types.num.toNat).flatMap fun k ↦
        (List.range sel.values.length).flatMap fun l ↦
          let env := envAt w sel i j k l
          if tstTestCheckRun w env.test env.comm env.type then [env] else []

/-- The environments of all iterations, in order. -/
def iterations : List Env :=
  (List.range sel.tests.num.toNat).flatMap fun i ↦
    (List.range w.comms.num).flatMap fun j ↦
      (List.range sel.types.num.toNat).flatMap fun k ↦
        (List.range sel.values.length).map fun l ↦ envAt w sel i j k l

/-- The environments of all iterations for given options; none if `main` gives up. -/
def iterationsOf (a : Arguments) : List Env :=
  match selections w.cfg w.comms a with
  | .ok sel => iterations w sel
  | .error _ => []

theorem iterationsOf_eq {a : Arguments} {sel : Selections}
    (h : selections w.cfg w.comms a = .ok sel) :
    iterationsOf w a = iterations w sel := by
  rw [iterationsOf, h]

/-- The combinations that the selections call for, in lexicographic order. -/
def crossProduct : List (ℤ × ℤ × ℤ × ℤ) :=
  (sel.tests.entries ×ˢ sel.comms.entries ×ˢ sel.types.entries ×ˢ sel.values).filter
    fun c ↦ tstTestCheckRun w c.1 c.2.1 c.2.2.1

/-- The slots of the communicator array behind the selected ones. -/
def staleComms : List ℤ := sel.comms.list.drop sel.comms.num.toNat

/-- Nothing behind the selected communicators is admitted. -/
def StaleRejected : Prop :=
  ∀ test ∈ sel.tests.entries, ∀ comm ∈ staleComms sel, ∀ type ∈ sel.types.entries,
    sel.values ≠ [] → tstTestCheckRun w test comm type = false

/-- Every admitted combination is executed exactly once and in order, and nothing is executed with
a communicator that was not selected. -/
def ScheduleComplete : Prop :=
  (executed w sel).map Env.combination = crossProduct w sel ∧
    ∀ env ∈ executed w sel, env.comm ∈ sel.comms.entries

instance : Decidable (ScheduleComplete w sel) := by
  unfold ScheduleComplete
  infer_instance

/-! ## Loops over an array -/

/-- A loop over the first slots of an array is a loop over their contents. -/
theorem flatMap_range_slotAt {β : Type*} {list : List ℤ} {n : ℕ} (h : n ≤ list.length)
    (f : ℤ → List β) :
    (List.range n).flatMap (fun i ↦ f (slotAt list i)) = (list.take n).flatMap f := by
  induction n with
  | zero => rfl
  | succ n ih =>
    have hget : slotAt list n = list[n] := by
      rw [slotAt, List.getElem?_eq_getElem h, Option.getD_some]
    rw [List.range_succ, List.flatMap_append, ih (by omega), List.flatMap_singleton, hget,
      List.take_succ_eq_append_getElem h, List.flatMap_append, List.flatMap_singleton]

theorem flatMap_append_eq_iff {α β : Type*} (as : List α) (f g : α → List β) :
    (as.flatMap fun a ↦ f a ++ g a) = as.flatMap f ↔ ∀ a ∈ as, g a = [] := by
  constructor
  · intro h a ha
    have hlen := congrArg List.length h
    have hsum : ∀ bs : List α, (bs.flatMap fun a ↦ f a ++ g a).length
        = (bs.flatMap f).length + (bs.flatMap g).length := by
      intro bs
      induction bs with
      | nil => rfl
      | cons b bs ih =>
        simp only [List.flatMap_cons, List.length_append, ih]
        omega
    rw [hsum] at hlen
    have hnil : as.flatMap g = [] := List.eq_nil_of_length_eq_zero (by omega)
    exact List.flatMap_eq_nil_iff.mp hnil a ha
  · intro h
    exact List.flatMap_congr fun a ha ↦ by rw [h a ha, List.append_nil]

/-! ## The sequence of combinations -/

/-- The admitted combinations of given tests, communicators, datatypes and value counts. -/
def admitted (tests comms types values : List ℤ) : List (ℤ × ℤ × ℤ × ℤ) :=
  tests.flatMap fun test ↦ comms.flatMap fun comm ↦ types.flatMap fun type ↦
    values.flatMap fun valuesNum ↦
      if tstTestCheckRun w test comm type then [(test, comm, type, valuesNum)] else []

theorem filter_product (tests comms types values : List ℤ) :
    ((tests ×ˢ comms ×ˢ types ×ˢ values).filter fun c ↦ tstTestCheckRun w c.1 c.2.1 c.2.2.1)
      = admitted w tests comms types values := by
  have hvalues : ∀ test comm type,
      (values.map fun v ↦ (test, comm, type, v)).filter
          (fun c ↦ tstTestCheckRun w c.1 c.2.1 c.2.2.1)
        = values.flatMap fun v ↦
          if tstTestCheckRun w test comm type then [(test, comm, type, v)] else [] := by
    intro test comm type
    induction values with
    | nil => rfl
    | cons v values ih =>
      rw [List.map_cons, List.filter_cons, List.flatMap_cons, ih]
      split <;> simp_all
  simp only [SProd.sprod, List.product, List.filter_flatMap, List.map_flatMap, List.map_map,
    Function.comp_def, admitted, hvalues]

/-- **What is executed.** The loops run through the selected tests, datatypes and value counts, but
through the whole communicator array. -/
theorem executed_eq (htests : sel.tests.num.toNat ≤ sel.tests.list.length)
    (hcomms : w.comms.num = sel.comms.list.length)
    (htypes : sel.types.num.toNat ≤ sel.types.list.length) :
    (executed w sel).map Env.combination
      = admitted w sel.tests.entries sel.comms.list sel.types.entries sel.values := by
  -- the innermost loop
  have hvalues : ∀ i j k, ((List.range sel.values.length).flatMap fun l ↦
      List.map Env.combination (if tstTestCheckRun w (envAt w sel i j k l).test
        (envAt w sel i j k l).comm (envAt w sel i j k l).type then [envAt w sel i j k l] else []))
      = sel.values.flatMap fun v ↦
        if tstTestCheckRun w (slotAt sel.tests.list i) (slotAt sel.comms.list j)
          (slotAt sel.types.list k) then
          [(slotAt sel.tests.list i, slotAt sel.comms.list j, slotAt sel.types.list k, v)]
        else [] := by
    intro i j k
    rw [← List.take_length (l := sel.values), ← flatMap_range_slotAt (le_refl _), List.take_length]
    refine List.flatMap_congr fun l _ ↦ ?_
    have hite : ∀ b : Bool, List.map Env.combination (if b then [envAt w sel i j k l] else [])
        = if b then [(envAt w sel i j k l).combination] else [] := by
      intro b
      cases b <;> rfl
    exact hite _
  simp only [executed, List.map_flatMap, hvalues, admitted, Selected.entries]
  rw [← flatMap_range_slotAt htests]
  refine List.flatMap_congr fun i _ ↦ ?_
  rw [← List.take_length (l := sel.comms.list), ← flatMap_range_slotAt (le_refl _), hcomms,
    List.take_length]
  refine List.flatMap_congr fun j _ ↦ ?_
  rw [← flatMap_range_slotAt htypes]

theorem executed_eq_filter : executed w sel
    = (iterations w sel).filter fun env ↦ tstTestCheckRun w env.test env.comm env.type := by
  simp only [executed, iterations, List.filter_flatMap]
  refine List.flatMap_congr fun i _ ↦ List.flatMap_congr fun j _ ↦ List.flatMap_congr fun k _ ↦ ?_
  generalize List.range sel.values.length = ls
  induction ls with
  | nil => rfl
  | cons l ls ih =>
    rw [List.flatMap_cons, List.map_cons, List.filter_cons, ih]
    split <;> simp_all

/-- The whole communicator array in place of the selected part makes a difference exactly if
something behind the selected part is admitted. -/
theorem admitted_list_eq_iff :
    admitted w sel.tests.entries sel.comms.list sel.types.entries sel.values
        = crossProduct w sel ↔
      StaleRejected w sel := by
  have hsplit : sel.comms.list = sel.comms.entries ++ staleComms sel :=
    (List.take_append_drop sel.comms.num.toNat sel.comms.list).symm
  rw [crossProduct, filter_product, admitted, hsplit]
  simp only [List.flatMap_append]
  rw [admitted, flatMap_append_eq_iff]
  simp only [List.flatMap_eq_nil_iff, StaleRejected]
  refine forall₂_congr fun test _ ↦ forall₂_congr fun comm _ ↦ forall₂_congr fun type _ ↦ ?_
  cases hrun : tstTestCheckRun w test comm type with
  | false => simp
  | true =>
    cases sel.values with
    | nil => simp
    | cons v values =>
      refine iff_of_false (fun hall ↦ ?_) (fun himp ↦ ?_)
      · exact List.cons_ne_nil _ _ (hall v List.mem_cons_self)
      · exact Bool.noConfusion (himp (List.cons_ne_nil v values))

/-- Behind the selected communicators lie copies of selected ones and holes. -/
theorem mem_list_compress {s : Selected} {x : ℤ} (h : x ∈ s.compress.list) :
    x = -1 ∨ x ∈ s.compress.entries := by
  rw [Selected.entries_compress]
  by_cases hx : x = -1
  · exact Or.inl hx
  · refine Or.inr (List.mem_filter.mpr ⟨?_, by simpa using hx⟩)
    rw [Selected.compress, compress_eq] at h
    rcases List.mem_append.mp h with h | h
    · exact List.mem_of_mem_filter h
    · exact List.mem_of_mem_drop h

theorem mem_executed {env : Env} (h : env ∈ executed w sel) :
    ∃ j < w.comms.num, env.comm = slotAt sel.comms.list j ∧
      tstTestCheckRun w env.test env.comm env.type = true := by
  simp only [executed, List.mem_flatMap, List.mem_range] at h
  obtain ⟨i, -, j, hj, k, -, l, -, hmem⟩ := h
  cases hrun : tstTestCheckRun w (envAt w sel i j k l).test (envAt w sel i j k l).comm
      (envAt w sel i j k l).type with
  | false => simp [hrun] at hmem
  | true =>
    rw [if_pos hrun, List.mem_singleton] at hmem
    subst hmem
    exact ⟨j, hj, rfl, hrun⟩

/-- No hole is admitted, so nothing is executed with a communicator that was not selected. -/
theorem executed_comm_mem {s : Selected} (hs : sel.comms = s.compress)
    (hnum : w.comms.num = sel.comms.list.length) {env : Env} (h : env ∈ executed w sel) :
    env.comm ∈ sel.comms.entries := by
  obtain ⟨j, hj, hcomm, hrun⟩ := mem_executed w sel h
  rw [hnum] at hj
  have hmem : env.comm ∈ sel.comms.list := by
    rw [hcomm, slotAt, List.getElem?_eq_getElem hj, Option.getD_some]
    exact List.getElem_mem hj
  rw [hs] at hmem ⊢
  rcases mem_list_compress hmem with hhole | hentry
  · rw [hhole, not_checkRun_hole] at hrun
    cases hrun
  · exact hentry

theorem num_compress_le (s : Selected) : s.compress.num.toNat ≤ s.compress.list.length := by
  rw [Selected.compress, length_compress, compress_eq]
  exact_mod_cast List.length_filter_le _ _

/-- **The schedule.** For the selections that the options lead to, every admitted combination is
executed exactly once and in order if and only if nothing behind the selected communicators is
admitted. -/
theorem schedule_complete {a : Arguments} {sel : Selections}
    (h : selections w.cfg w.comms a = .ok sel) :
    ScheduleComplete w sel ↔ StaleRejected w sel := by
  obtain ⟨htests, hcomms, htypes, -⟩ := selections_ok h
  obtain ⟨tests, htests, -⟩ := (testSpec (tstTests w.cfg)).run_ok htests
  obtain ⟨comms, hcomms, hlength⟩ := (commSpec w.cfg w.comms).run_ok hcomms
  obtain ⟨types, htypes, -⟩ := (typeSpec w.cfg).run_ok htypes
  have hnum : w.comms.num = sel.comms.list.length := by
    rw [hcomms, Selected.compress, length_compress]
    exact hlength.symm
  rw [ScheduleComplete, and_iff_left fun env ↦ executed_comm_mem w sel hcomms hnum,
    executed_eq w sel (by rw [htests]; exact num_compress_le tests) hnum
      (by rw [htypes]; exact num_compress_le types)]
  exact admitted_list_eq_iff w sel

/-- Four processes under MPI 3, with everything compiled in. -/
def fourProcesses : Setting :=
  let cfg : Config := ⟨3, true, true, true, true, true, true, true, true⟩
  ⟨cfg, tstCommsRegister cfg 4, .relaxed, fun _ ↦ 4, 32767⟩

/-- `-t Ring -c MPI_COMM_WORLD -d MPI_INT -n 1`, where nothing is left behind. -/
theorem schedule_complete_ring : ∃ sel,
    selections fourProcesses.cfg fourProcesses.comms
        ⟨lit "Ring", lit "MPI_COMM_WORLD", lit "MPI_INT", lit "1"⟩ = .ok sel ∧
      (ScheduleComplete fourProcesses sel ↔ StaleRejected fourProcesses sel) := by
  cases hsel : selections fourProcesses.cfg fourProcesses.comms
      ⟨lit "Ring", lit "MPI_COMM_WORLD", lit "MPI_INT", lit "1"⟩ with
  | ok sel => exact ⟨sel, rfl, schedule_complete fourProcesses hsel⟩
  | error e =>
    have hok : (selections fourProcesses.cfg fourProcesses.comms
      ⟨lit "Ring", lit "MPI_COMM_WORLD", lit "MPI_INT", lit "1"⟩).isOk = true := by decide +kernel
    rw [hsel] at hok
    cases hok

/-- `-c all,^MPI_COMM_WORLD` runs every test on the last communicator twice. -/
theorem schedule_runs_last_comm_twice :
    ¬∀ (w : Setting) (a : Arguments) (sel : Selections),
      selections w.cfg w.comms a = .ok sel → ScheduleComplete w sel := by
  intro h
  have hrun := h fourProcesses ⟨lit "Ring", lit "all,^MPI_COMM_WORLD", lit "MPI_INT", lit "1"⟩
  have hfails : (match selections fourProcesses.cfg fourProcesses.comms
      ⟨lit "Ring", lit "all,^MPI_COMM_WORLD", lit "MPI_INT", lit "1"⟩ with
    | .ok sel => decide (ScheduleComplete fourProcesses sel)
    | .error _ => true) = false := by decide +kernel
  cases hsel : selections fourProcesses.cfg fourProcesses.comms
      ⟨lit "Ring", lit "all,^MPI_COMM_WORLD", lit "MPI_INT", lit "1"⟩ with
  | ok sel =>
    rw [hsel] at hfails
    exact of_decide_eq_false hfails (hrun sel hsel)
  | error e =>
    rw [hsel] at hfails
    cases hfails

end MpiTestSuite
