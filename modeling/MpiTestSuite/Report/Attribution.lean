import MpiTestSuite.Report.Failures
import MpiTestSuite.Types.StandardArray

/-!
# What a failure is attributed to

A failure is recorded under the fields of the environment that the functions of the test were
handed. The functions may write to it: most keep their buffers there, and two of them, the
initialisations of the `MPI_Scatterv` tests, overwrite the number of values with the rank of the
process, to make the check look at as many elements as were received.

On these tests a failure is recorded under the rank instead of the number of values the schedule
asked for (`scatterv_merges`). That it is not wrong on every rank has three reasons: rank `0` checks
nothing, the rank may be the number asked for, and elements without bytes never differ.
-/

open MpiTestSuite.CString

namespace MpiTestSuite

/-- What the functions of a test do with the environment, as far as the record of failures sees it.
-/
inductive EnvAction
  /-- An assignment to a field that is no part of the record: buffers, requests, counts. -/
  | assign
  /-- `env->values_num = v`. -/
  | setValuesNum (v : ℤ)
  /-- `tst_test_recordfailure (env)`. -/
  | record
  deriving DecidableEq

/-- The environment, and what the calls of `tst_test_recordfailure` have been handed. -/
structure EnvState where
  env : Env
  recorded : List Env

/-- One action. -/
def EnvAction.step (s : EnvState) : EnvAction → EnvState
  | assign => s
  | setValuesNum v => { s with env := { s.env with valuesNum := v } }
  | record => { s with recorded := s.recorded ++ [s.env] }

/-- The actions of the functions of a test, one after another. -/
def perform (env : Env) (actions : List EnvAction) : EnvState :=
  actions.foldl EnvAction.step ⟨env, []⟩

/-! ## The tests that write to the environment -/

/-- The initialisation of both: two buffers, two arrays of counts, and the number of values. -/
def scattervInit (commRank : ℕ) : List EnvAction :=
  [.assign, .assign, .assign, .assign, .setValuesNum commRank]

/-- `tst_coll_scatterv_init`. -/
def tstCollScattervInit (commRank : ℕ) : List EnvAction := scattervInit commRank

/-- `tst_coll_scatterv_stride_init`. -/
def tstCollScattervStrideInit (commRank : ℕ) : List EnvAction := scattervInit commRank

/-- The loop over the roots in both: `MPI_Scatterv` fills the receive buffer with something, and
`tst_test_checkstandardarray` records a failure if an element differs. With no datatype the first
`MPI_Scatterv` ends the program. -/
def scattervRun (cfg : Config) (t : TypeSlot) (commRank commSize : ℕ) (received : ℕ → Memory)
    (env : Env) : Option (List EnvAction) :=
  if t.datatype = .null then some []
  else (List.range commSize).foldlM (fun actions root ↦ do
    let errors ← tstTypeCheckstandardarray cfg t env.valuesNum.toNat (received root) commRank
    return if errors ≠ 0 then actions ++ [.record] else actions) []

/-- `tst_coll_scatterv_run`. -/
def tstCollScattervRun (cfg : Config) (t : TypeSlot) (commRank commSize : ℕ)
    (received : ℕ → Memory) (env : Env) : Option (List EnvAction) :=
  scattervRun cfg t commRank commSize received env

/-- `tst_coll_scatterv_stride_run`. -/
def tstCollScattervStrideRun (cfg : Config) (t : TypeSlot) (commRank commSize : ℕ)
    (received : ℕ → Memory) (env : Env) : Option (List EnvAction) :=
  scattervRun cfg t commRank commSize received env

/-! ## All tests -/

/-- The names of the two tests. -/
def scattervTests : List String := ["tst_coll_scatterv", "tst_coll_scatterv_stride"]

/-- `types[type]`. -/
def typeSlot (cfg : Config) (type : ℤ) : TypeSlot :=
  (initTypes cfg).getD type.toNat (absentSlot "")

/-- The initialisation, the run and the cleanup of a test, given by the prefix of the names of its
functions, may perform these actions on the process with the given rank. Nothing is known of most
tests but that they do not assign to the fields of the record. -/
inductive Performs (cfg : Config) (commRank commSize : ℕ) (env : Env) :
    String → List EnvAction → Prop
  | scatterv (received : ℕ → Memory) (run : List EnvAction)
      (hrun : tstCollScattervRun cfg (typeSlot cfg env.type) commRank commSize received
        (perform env (tstCollScattervInit commRank)).env = some run) :
      Performs cfg commRank commSize env "tst_coll_scatterv" (tstCollScattervInit commRank ++ run)
  | scattervStride (received : ℕ → Memory) (run : List EnvAction)
      (hrun : tstCollScattervStrideRun cfg (typeSlot cfg env.type) commRank commSize received
        (perform env (tstCollScattervStrideInit commRank)).env = some run) :
      Performs cfg commRank commSize env "tst_coll_scatterv_stride"
        (tstCollScattervStrideInit commRank ++ run)
  | other (name : String) (hname : name ∉ scattervTests) (actions : List EnvAction)
      (hactions : ∀ a ∈ actions, a = .assign ∨ a = .record) :
      Performs cfg commRank commSize env name actions

/-! ## Actions that keep the fields -/

/-- Actions that do not assign to the fields of the record hand the environment to the recorder as
it is. -/
theorem foldl_step_of_keeps {actions : List EnvAction}
    (h : ∀ a ∈ actions, a = .assign ∨ a = .record) (s : EnvState) :
    (actions.foldl EnvAction.step s).env = s.env ∧
      ∃ n, (actions.foldl EnvAction.step s).recorded = s.recorded ++ List.replicate n s.env := by
  induction actions generalizing s with
  | nil => exact ⟨rfl, 0, (List.append_nil _).symm⟩
  | cons a actions ih =>
    have hrest := ih fun b hb ↦ h b (List.mem_cons_of_mem a hb)
    rcases h a List.mem_cons_self with rfl | rfl
    · exact hrest s
    · obtain ⟨henv, n, hrecorded⟩ := hrest (EnvAction.record.step s)
      refine ⟨henv, n + 1, hrecorded.trans ?_⟩
      rw [List.replicate_succ]
      exact List.append_assoc s.recorded [s.env] _

/-! ## The two `MPI_Scatterv` tests -/

/-- What is received from a root differs from the standard array of the rank. -/
def receivedErrors (cfg : Config) (t : TypeSlot) (fields : List FieldStore) (commRank n : ℕ)
    (m : Memory) : ℕ :=
  (List.range n).countP fun i : ℕ ↦
    tstTypeCmpvalue t m (i * t.size) (expected cfg t fields commRank i) 0

/-- The loop over the roots records one failure for each root from which something else than the
standard array was received. -/
theorem Settable.scattervRun_eq {cfg : Config} {t : TypeSlot} {fields : List FieldStore}
    (h : Settable cfg t fields) (hnull : t.datatype ≠ .null) (commRank commSize : ℕ)
    (received : ℕ → Memory) (env : Env) :
    scattervRun cfg t commRank commSize received env
      = some (((List.range commSize).filter fun root ↦ decide
          (receivedErrors cfg t fields commRank env.valuesNum.toNat (received root) ≠ 0)).map
            fun _ ↦ .record) := by
  have hloop : ∀ (roots : List ℕ) (actions : List EnvAction),
      roots.foldlM (fun actions root ↦ do
        let errors ← tstTypeCheckstandardarray cfg t env.valuesNum.toNat (received root) commRank
        return if errors ≠ 0 then actions ++ [.record] else actions) actions
      = some (actions ++ (roots.filter fun root ↦ decide
          (receivedErrors cfg t fields commRank env.valuesNum.toNat (received root) ≠ 0)).map
            fun _ ↦ .record) := by
    intro roots
    induction roots with
    | nil => exact fun actions ↦ congrArg some (List.append_nil actions).symm
    | cons root roots ih =>
      intro actions
      rw [List.foldlM_cons, h.checkstandardarray_eq, ← receivedErrors, List.filter_cons]
      simp only [Option.pure_def, Option.bind_eq_bind, Option.bind_some]
      by_cases herrors : receivedErrors cfg t fields commRank env.valuesNum.toNat
          (received root) = 0
      · rw [if_neg (not_not_intro herrors), if_neg (by simp [herrors])]
        exact ih actions
      · rw [if_pos herrors, if_pos (by simp [herrors]), List.map_cons]
        refine (ih _).trans ?_
        rw [List.append_assoc]
        rfl
  rw [scattervRun, if_neg hnull]
  exact hloop _ []

theorem typeSlot_mem {cfg : Config} {type : ℤ} (h : (typeSlot cfg type).datatype ≠ .null) :
    typeSlot cfg type ∈ initTypes cfg := by
  unfold typeSlot at h ⊢
  by_cases hlt : type.toNat < (initTypes cfg).length
  · rw [List.getD_eq_getElem _ _ hlt]
    exact List.getElem_mem hlt
  · rw [List.getD_eq_default _ _ (not_lt.mp hlt)] at h
    exact absurd rfl h

/-- After the initialisation the environment has the rank in the place of the number of values, and
so have all records. -/
theorem perform_scatterv (env : Env) (commRank : ℕ) {run : List EnvAction}
    (h : ∀ a ∈ run, a = .record) :
    (perform env (scattervInit commRank ++ run)).recorded
      = List.replicate run.length { env with valuesNum := commRank } := by
  have hrun : ∀ s : EnvState, (run.foldl EnvAction.step s).recorded
      = s.recorded ++ List.replicate run.length s.env := by
    induction run with
    | nil => exact fun s ↦ (List.append_nil _).symm
    | cons a run ih =>
      intro s
      obtain rfl := h a List.mem_cons_self
      rw [List.foldl_cons, ih fun b hb ↦ h b (List.mem_cons_of_mem _ hb), List.length_cons,
        List.replicate_succ]
      exact List.append_assoc s.recorded [s.env] _
  rw [perform, List.foldl_append, hrun]
  rfl

/-- **What happens instead.** Failures of two combinations that differ in the number of values only
are recorded as one. -/
theorem scatterv_merges (env env' : Env) (commRank : ℕ) (hcomm : env.comm = env'.comm)
    (htype : env.type = env'.type) (htest : env.test = env'.test) {run run' : List EnvAction}
    (h : ∀ a ∈ run, a = .record) (h' : ∀ a ∈ run', a = .record) :
    ∀ e ∈ (perform env (scattervInit commRank ++ run)).recorded,
      ∀ e' ∈ (perform env' (scattervInit commRank ++ run')).recorded, e.failure = e'.failure := by
  intro e he e' he'
  rw [perform_scatterv env commRank h] at he
  rw [perform_scatterv env' commRank h'] at he'
  rw [List.eq_of_mem_replicate he, List.eq_of_mem_replicate he']
  simp only [Env.failure, hcomm, htype, htest]

/-! ## When a failure is possible -/

/-- There is always something that an element differs from, if it has bytes at all. -/
theorem Settable.exists_differs {cfg : Config} {t : TypeSlot} {fields : List FieldStore}
    (h : Settable cfg t fields) (hsize : t.size ≠ 0) (w : Memory) :
    ∃ m, tstTypeCmpvalue t m 0 w 0 = true := by
  by_cases hclass : t.typeClass = tstMpiLongDouble
  · -- no number
    refine ⟨fun _ ↦ 0xff, ?_⟩
    have hbytes : load (fun _ ↦ (0xff : UInt8)) 0 16 = List.replicate 16 0xff := rfl
    have hnan :
        longDoubleValue (ofLeBytes ((List.replicate 16 (0xff : UInt8)).take 10)) = none := by
      decide +kernel
    rw [tstTypeCmpvalue, if_pos hclass, hbytes, longDoubleNe, hnan]
  · refine ⟨fun p ↦ w p + 1, ?_⟩
    have hpos : 0 < t.size.toNat := by
      have hfit := h.fit.resolve_right hsize
      have hsub : t.size = t.ub - t.lb := rfl
      have hlb := hfit.1
      have hub := hfit.2.1
      omega
    obtain ⟨n, hn⟩ := Nat.exists_eq_succ_of_ne_zero hpos.ne'
    rw [tstTypeCmpvalue, if_neg hclass, bne_iff_ne, hn, load, load, List.range_succ_eq_map,
      List.map_cons, List.map_cons]
    intro heq
    have hhead := (List.cons.inj heq).1
    simp at hhead

/-- A failure is seen on some run exactly if the rank checks an element and elements have bytes. -/
theorem Settable.exists_receivedErrors_iff {cfg : Config} {t : TypeSlot} {fields : List FieldStore}
    (h : Settable cfg t fields) (commRank : ℕ) :
    (∃ m, receivedErrors cfg t fields commRank commRank m ≠ 0) ↔ commRank ≠ 0 ∧ t.size ≠ 0 := by
  constructor
  · rintro ⟨m, herrors⟩
    constructor
    · rintro rfl
      exact herrors rfl
    · intro hzero
      refine herrors (List.countP_eq_zero.mpr fun i _ ↦ ?_)
      have hclass : t.typeClass ≠ tstMpiLongDouble := fun hclass ↦ by
        obtain ⟨hlb, hub, -⟩ := h.longDouble hclass
        rw [TypeSlot.size, hlb, hub] at hzero
        cases hzero
      rw [tstTypeCmpvalue, if_neg hclass, hzero]
      simp [load]
  · rintro ⟨hrank, hsize⟩
    obtain ⟨m, hdiffers⟩ := h.exists_differs hsize (expected cfg t fields commRank 0)
    refine ⟨m, Nat.pos_iff_ne_zero.mp (List.countP_pos_iff.mpr ⟨0, ?_, ?_⟩)⟩
    · exact List.mem_range.mpr (Nat.pos_of_ne_zero hrank)
    · rw [Nat.cast_zero, zero_mul]
      exact hdiffers

/-- Every failure that is seen while the test of an environment runs is recorded under the
combination of the environment. -/
def Attributed (cfg : Config) (commSize : ℕ) (commRank : Fin commSize) (env : Env) : Prop :=
  ∀ name ∈ testName cfg env, ∀ actions, Performs cfg commRank commSize env name actions →
    ∀ e ∈ (perform env actions).recorded, e.failure = env.failure

/-- A run of one of the two tests makes one record for each root from which something else than the
standard array of the rank was received. -/
theorem Settable.recorded_scatterv {cfg : Config} {t : TypeSlot} {fields : List FieldStore}
    (h : Settable cfg t fields) (hnull : t.datatype ≠ .null) (commRank commSize : ℕ) (env : Env)
    (received : ℕ → Memory) :
    ∃ run, scattervRun cfg t commRank commSize received (perform env (scattervInit commRank)).env
        = some run ∧
      (perform env (scattervInit commRank ++ run)).recorded
        = List.replicate ((List.range commSize).filter fun root ↦ decide
            (receivedErrors cfg t fields commRank commRank (received root) ≠ 0)).length
          { env with valuesNum := commRank } := by
  refine ⟨_, h.scattervRun_eq hnull commRank commSize received _, ?_⟩
  rw [perform_scatterv env commRank fun a ha ↦ ?_, List.length_map]
  · rfl
  · obtain ⟨_, -, rfl⟩ := List.mem_map.mp ha
    rfl

/-- For a run of one of the two tests: the records are those of the combination, unless the rank is
another number than was scheduled and something is recorded. -/
theorem scatterv_attributed_iff (cfg : Config) (commSize : ℕ) (commRank : Fin commSize)
    (env : Env) :
    (∀ received run, scattervRun cfg (typeSlot cfg env.type) commRank commSize received
          (perform env (scattervInit commRank)).env = some run →
        ∀ e ∈ (perform env (scattervInit commRank ++ run)).recorded, e.failure = env.failure) ↔
      commRank.val = 0 ∨ (commRank.val : ℤ) = env.valuesNum ∨
        (typeSlot cfg env.type).datatype = .null ∨ (typeSlot cfg env.type).size = 0 := by
  by_cases hnull : (typeSlot cfg env.type).datatype = .null
  · refine iff_of_true (fun received run hrun ↦ ?_) (Or.inr (Or.inr (Or.inl hnull)))
    rw [scattervRun, if_pos hnull] at hrun
    cases hrun
    exact fun e he ↦ absurd he List.not_mem_nil
  obtain ⟨fields, h⟩ := exists_settable cfg (typeSlot_mem hnull) hnull
  have hrecorded := h.recorded_scatterv hnull commRank commSize env
  constructor
  · intro hall
    by_contra hnone
    obtain ⟨hrank, hvalue, -, hsize⟩ := by simpa only [not_or] using hnone
    obtain ⟨m, herrors⟩ := (h.exists_receivedErrors_iff commRank).mpr ⟨hrank, hsize⟩
    -- the same is received from every root
    obtain ⟨run, hrun, hall'⟩ := hrecorded fun _ ↦ m
    rw [List.filter_eq_self.mpr fun _ _ ↦ decide_eq_true herrors, List.length_range] at hall'
    have hmem : { env with valuesNum := (commRank.val : ℤ) }
        ∈ (perform env (scattervInit commRank ++ run)).recorded := by
      rw [hall']
      exact List.mem_replicate.mpr ⟨commRank.pos.ne', rfl⟩
    exact hvalue (congrArg Failure.valuesNum (hall _ run hrun _ hmem))
  · intro hcond received run hrun e he
    obtain ⟨run', hrun', hall⟩ := hrecorded received
    obtain rfl := Option.some_inj.mp (hrun.symm.trans hrun')
    rw [hall] at he
    obtain ⟨hlength, rfl⟩ := List.mem_replicate.mp he
    obtain ⟨root, hroot⟩ := List.exists_mem_of_length_pos (Nat.pos_of_ne_zero hlength)
    have herrors := of_decide_eq_true (List.mem_filter.mp hroot).2
    obtain ⟨hrank, hsize⟩ := (h.exists_receivedErrors_iff commRank).mp ⟨_, herrors⟩
    rcases hcond with hzero | hvalue | hnull' | hzero
    · exact absurd hzero hrank
    · rw [hvalue]
    · exact absurd hnull' hnull
    · exact absurd hzero hsize

/-- A test that keeps the fields of the record has its failures recorded where they belong. -/
theorem attributed_of_keeps {actions : List EnvAction}
    (h : ∀ a ∈ actions, a = .assign ∨ a = .record) (env : Env) :
    ∀ e ∈ (perform env actions).recorded, e.failure = env.failure := by
  intro e he
  obtain ⟨-, n, hrecorded⟩ := foldl_step_of_keeps h ⟨env, []⟩
  rw [perform, hrecorded] at he
  rw [List.eq_of_mem_replicate he]

/-- **Attribution.** Whatever the functions of a test do, the failures seen on a process are
recorded under the combination that is running, exactly if the test is none of the two, or the
process is the first or has the number of values for its rank, or there is no datatype or none with
bytes. -/
theorem failure_attributed_iff (cfg : Config) (commSize : ℕ) (commRank : Fin commSize) (env : Env) :
    Attributed cfg commSize commRank env ↔
      (∀ name ∈ testName cfg env, name ∉ scattervTests) ∨ commRank.val = 0 ∨
        (commRank.val : ℤ) = env.valuesNum ∨ (typeSlot cfg env.type).datatype = .null ∨
        (typeSlot cfg env.type).size = 0 := by
  have hiff := scatterv_attributed_iff cfg commSize commRank env
  constructor
  · intro hall
    refine or_iff_not_imp_left.mpr fun htest ↦ hiff.mp fun received run hrun ↦ ?_
    push Not at htest
    obtain ⟨name, hname, hmem⟩ := htest
    rcases List.mem_pair.mp hmem with rfl | rfl
    · exact hall _ hname _ (.scatterv received run hrun)
    · exact hall _ hname _ (.scattervStride received run hrun)
  · intro hcond name hname actions hperforms
    rcases hcond with htest | hcond
    · cases hperforms with
      | scatterv => exact absurd (by decide) (htest _ hname)
      | scattervStride => exact absurd (by decide) (htest _ hname)
      | other _ _ _ hactions => exact attributed_of_keeps hactions env
    · cases hperforms with
      | scatterv received run hrun => exact hiff.mpr hcond received run hrun
      | scattervStride received run hrun => exact hiff.mpr hcond received run hrun
      | other _ _ _ hactions => exact attributed_of_keeps hactions env

/-- `-t Scatterv -c MPI_COMM_WORLD -d MPI_INT -n 5`, on the second of four processes. -/
theorem failure_not_attributed :
    ¬∀ (w : Setting) (a : Arguments) (sel : Selections),
      selections w.cfg w.comms a = .ok sel → ∀ env ∈ executed w sel,
        ∀ (commSize : ℕ) (commRank : Fin commSize), Attributed w.cfg commSize commRank env := by
  intro h
  have hrun := h fourProcesses ⟨lit "Scatterv", lit "MPI_COMM_WORLD", lit "MPI_INT", lit "5"⟩
  have hscheduled : ((selections fourProcesses.cfg fourProcesses.comms
      ⟨lit "Scatterv", lit "MPI_COMM_WORLD", lit "MPI_INT", lit "5"⟩).toOption.any fun sel ↦
        decide (⟨36, 0, 6, 5, 0⟩ ∈ executed fourProcesses sel)) = true := by
    decide +kernel
  cases hsel : selections fourProcesses.cfg fourProcesses.comms
      ⟨lit "Scatterv", lit "MPI_COMM_WORLD", lit "MPI_INT", lit "5"⟩ with
  | ok sel =>
    rw [hsel] at hscheduled
    have hattributed := hrun sel hsel _ (of_decide_eq_true hscheduled) 4 1
    have hname : testName fourProcesses.cfg ⟨36, 0, 6, 5, 0⟩ = some "tst_coll_scatterv" := by
      decide +kernel
    have hcond := (scatterv_attributed_iff fourProcesses.cfg 4 1 ⟨36, 0, 6, 5, 0⟩).mp
      fun received run hrun ↦ hattributed _ hname _ (.scatterv received run hrun)
    have hfails : ¬((1 : Fin 4).val = 0 ∨ (((1 : Fin 4).val : ℕ) : ℤ) = 5 ∨
        (typeSlot fourProcesses.cfg 6).datatype = .null ∨
        (typeSlot fourProcesses.cfg 6).size = 0) := by decide +kernel
    exact hfails hcond
  | error e =>
    rw [hsel] at hscheduled
    cases hscheduled

end MpiTestSuite
