import MpiTestSuite.Schedule.Main

/-!
# The record of failures

`tst_tests_failed` is an array of 1000 combinations and a counter. `tst_test_recordfailure` searches
the first `tst_tests_failed_num` entries for the combination of the environment it is given and
appends it unless it is there; the call that fills the last entry ends the program with `ERROR`.

What the array stands for is the list of the combinations that failed, each where it first occurred
(`FailedTests.Accounts`). The counter never passes the end of the array: a call that returns leaves
room for at least one more entry, which is why the appending store needs no check of its own.
-/

namespace MpiTestSuite

/-- `TST_TESTS_NUM_FAILED_MAX`. -/
def tstTestsNumFailedMax : ℕ := 1000

/-- The fields of `struct tst_env` that are set in an entry of `tst_tests_failed`. -/
structure Failure where
  comm : ℤ
  type : ℤ
  test : ℤ
  valuesNum : ℤ
  deriving DecidableEq, Repr

/-- What a failure in an environment is recorded by. -/
def Env.failure (env : Env) : Failure := ⟨env.comm, env.type, env.test, env.valuesNum⟩

/-- `tst_tests_failed` and `tst_tests_failed_num`. -/
structure FailedTests where
  entries : Vector Failure tstTestsNumFailedMax
  num : ℕ
  num_le : num ≤ tstTestsNumFailedMax

namespace FailedTests

/-- The entries that are in use. -/
def list (t : FailedTests) : List Failure := t.entries.toList.take t.num

/-- The loop of `tst_test_recordfailure`: the first entry in use that holds the combination, or
`tst_tests_failed_num`. -/
def search (t : FailedTests) (f : Failure) : ℕ :=
  ((List.range t.num).find? fun i ↦ decide (t.entries[i]? = some f)).getD t.num

/-- Store a combination behind the entries in use and count it. -/
def add (t : FailedTests) (f : Failure) (h : t.num < tstTestsNumFailedMax) : FailedTests :=
  ⟨t.entries.set t.num f h, t.num + 1, h⟩

end FailedTests

/-- `tst_test_init`, with what `malloc` left in the block. -/
def tstTestInit (contents : Vector Failure tstTestsNumFailedMax) : FailedTests :=
  ⟨contents, 0, Nat.zero_le _⟩

/-- `tst_test_recordfailure`. If it does not return, the table is kept as the process left it. -/
def tstTestRecordfailure (env : Env) (t : FailedTests) :
    Except (Stop × FailedTests) FailedTests :=
  if t.search env.failure = t.num then
    if h : t.num < tstTestsNumFailedMax then
      let t' := t.add env.failure h
      if t'.num = tstTestsNumFailedMax then
        .error (.error "Maximum Error limit reached", t')
      else .ok t'
    else .error (.outOfBounds, t)
  else .ok t

/-- A sequence of calls, up to the one that does not return. -/
def recordfailures (envs : List Env) (t : FailedTests) : Except (Stop × FailedTests) FailedTests :=
  envs.foldlM (fun t env ↦ tstTestRecordfailure env t) t

/-- What the shell sees of the value that `main` returns. -/
def exitStatus (t : FailedTests) : ℕ :=
  let returned : ℤ := if 0 < t.num then -1 else 0
  (returned % 256).toNat

/-! ## First occurrences -/

section

variable {α : Type*} [DecidableEq α]

/-- An element that comes last counts only if it is new. -/
theorem eraseDups_concat (l : List α) (a : α) :
    (l ++ [a]).eraseDups = if a ∈ l then l.eraseDups else l.eraseDups ++ [a] := by
  rw [List.eraseDups_append, List.removeAll, List.filter_singleton]
  by_cases h : a ∈ l
  · simp [h]
  · simp [h, List.eraseDups_cons]

theorem nodup_eraseDups (l : List α) : l.eraseDups.Nodup := by
  induction l using List.reverseRecOn with
  | nil => exact List.nodup_nil
  | append_singleton l a ih =>
    rw [eraseDups_concat]
    split_ifs with h
    · exact ih
    · have hnew : a ∉ l.eraseDups := mt List.mem_eraseDups.mp h
      exact ih.append (List.nodup_singleton a) (List.disjoint_singleton.mpr hnew)

end

/-- The combinations that have failed, in the order in which they first did. -/
def failures (envs : List Env) : List Failure := (envs.map Env.failure).eraseDups

theorem failures_concat (envs : List Env) (env : Env) :
    failures (envs ++ [env])
      = if env.failure ∈ failures envs then failures envs
        else failures envs ++ [env.failure] := by
  simp only [failures, List.map_append, List.map_cons, List.map_nil, eraseDups_concat,
    List.mem_eraseDups]

/-! ## One call -/

namespace FailedTests

theorem length_list (t : FailedTests) : t.list.length = t.num := by
  rw [list, List.length_take, Vector.length_toList]
  exact min_eq_left t.num_le

/-- The search reaches the counter exactly if the combination is not there. -/
theorem search_eq_num_iff (t : FailedTests) (f : Failure) : t.search f = t.num ↔ f ∉ t.list := by
  have hget : ∀ i < t.num, t.entries[i]? = t.list[i]? := by
    intro i hi
    rw [list, List.getElem?_take_of_lt hi, Vector.getElem?_toList]
  rw [search]
  constructor
  · intro h hmem
    obtain ⟨i, hi, rfl⟩ := List.mem_iff_getElem.mp hmem
    have hnum : i < t.num := t.length_list ▸ hi
    cases hfind : (List.range t.num).find? fun j ↦ decide (t.entries[j]? = some t.list[i]) with
    | none =>
      refine List.find?_eq_none.mp hfind i (List.mem_range.mpr hnum) (decide_eq_true ?_)
      rw [hget i hnum, List.getElem?_eq_getElem hi]
    | some j =>
      rw [hfind, Option.getD_some] at h
      have hj : j < t.num := List.mem_range.mp (List.mem_of_find?_eq_some hfind)
      exact absurd h (Nat.ne_of_lt hj)
  · intro h
    have hnone : ((List.range t.num).find? fun i ↦ decide (t.entries[i]? = some f)) = none := by
      refine List.find?_eq_none.mpr fun i hi heq ↦ h ?_
      rw [decide_eq_true_iff, hget i (List.mem_range.mp hi)] at heq
      exact List.mem_of_getElem? heq
    rw [hnone, Option.getD_none]

/-- The table stands for the failures of a sequence of calls. -/
def Accounts (t : FailedTests) (envs : List Env) : Prop := t.list = failures envs

/-- A combination that is in the table changes nothing. -/
theorem recordfailure_of_mem {t : FailedTests} {env : Env} (h : env.failure ∈ t.list) :
    tstTestRecordfailure env t = .ok t := by
  rw [tstTestRecordfailure, if_neg]
  rw [search_eq_num_iff]
  exact not_not_intro h

theorem list_add (t : FailedTests) (f : Failure) (h : t.num < tstTestsNumFailedMax) :
    (t.add f h).list = t.list ++ [f] := by
  have hlength : t.num < t.entries.toList.length := by rwa [Vector.length_toList]
  rw [add, list, Vector.toList_set, List.take_add_one, List.take_set_of_le (le_refl _),
    List.getElem?_set_self hlength]
  rfl

/-- Any other combination is appended, and the program ends if the table is full then. -/
theorem recordfailure_of_notMem {t : FailedTests} {env : Env} (h : env.failure ∉ t.list)
    (hroom : t.num < tstTestsNumFailedMax) :
    tstTestRecordfailure env t = if t.num + 1 = tstTestsNumFailedMax then
      .error (.error "Maximum Error limit reached", t.add env.failure hroom)
      else .ok (t.add env.failure hroom) := by
  rw [tstTestRecordfailure, if_pos ((search_eq_num_iff _ _).mpr h), dif_pos hroom]
  rfl

/-! ## Sequences of calls -/

theorem recordfailures_concat (envs : List Env) (env : Env) (t : FailedTests) :
    recordfailures (envs ++ [env]) t = recordfailures envs t >>= tstTestRecordfailure env := by
  rw [recordfailures, List.foldlM_append]
  simp only [List.foldlM_cons, List.foldlM_nil, bind_pure]
  rfl

/-- What is known after a sequence of calls. As long as they return, the table stands for their
failures and has room; otherwise some call found a new combination for the last entry. -/
def Outcome (contents : Vector Failure tstTestsNumFailedMax) (envs : List Env) :
    Except (Stop × FailedTests) FailedTests → Prop
  | .ok t => t.Accounts envs ∧ t.num < tstTestsNumFailedMax
  | .error (stop, t) => stop = .error "Maximum Error limit reached" ∧
      t.num = tstTestsNumFailedMax ∧
      ∃ before env after, envs = before ++ env :: after ∧ env.failure ∉ failures before ∧
        (∃ t₀, recordfailures before (tstTestInit contents) = .ok t₀ ∧
          t₀.Accounts before ∧ t₀.num + 1 = tstTestsNumFailedMax) ∧
        t.Accounts (before ++ [env])

/-- **The record.** After every sequence of calls. -/
theorem outcome_recordfailures (contents : Vector Failure tstTestsNumFailedMax) (envs : List Env) :
    Outcome contents envs (recordfailures envs (tstTestInit contents)) := by
  induction envs using List.reverseRecOn with
  | nil => exact ⟨rfl, Nat.succ_pos 999⟩
  | append_singleton envs env ih =>
    rw [recordfailures_concat]
    cases hrun : recordfailures envs (tstTestInit contents) with
    | error stopped =>
      rw [hrun] at ih
      obtain ⟨hstop, hnum, before, last, after, henvs, hrest⟩ := ih
      exact ⟨hstop, hnum, before, last, after ++ [env], by simp [henvs], hrest⟩
    | ok t =>
      rw [hrun] at ih
      obtain ⟨haccounts, hroom⟩ := ih
      have hlist : t.list = failures envs := haccounts
      change Outcome contents _ (tstTestRecordfailure env t)
      by_cases hmem : env.failure ∈ t.list
      · rw [recordfailure_of_mem hmem]
        refine ⟨?_, hroom⟩
        rw [Accounts, failures_concat, if_pos (hlist ▸ hmem), hlist]
      · have hadd : (t.add env.failure hroom).Accounts (envs ++ [env]) := by
          rw [Accounts, list_add, failures_concat, if_neg (hlist ▸ hmem), hlist]
        rw [recordfailure_of_notMem hmem hroom]
        split_ifs with hfull
        · exact ⟨rfl, hfull, envs, env, [], rfl, hlist ▸ hmem, ⟨t, hrun, haccounts, hfull⟩, hadd⟩
        · exact ⟨hadd, lt_of_le_of_ne hroom hfull⟩

theorem exitStatus_ne_zero_iff (t : FailedTests) : exitStatus t ≠ 0 ↔ t.list ≠ [] := by
  rw [← List.length_pos_iff, length_list, exitStatus]
  by_cases h : 0 < t.num
  · simp [h]
  · simp [h]

theorem failures_eq_nil_iff (envs : List Env) : failures envs = [] ↔ envs = [] := by
  constructor
  · intro h
    rcases List.eq_nil_or_concat' envs with hnil | ⟨before, env, rfl⟩
    · exact hnil
    · have hmem : env.failure ∈ failures (before ++ [env]) :=
        List.mem_eraseDups.mpr (List.mem_map_of_mem (by simp))
      rw [h] at hmem
      exact absurd hmem List.not_mem_nil
  · rintro rfl
    rfl

end FailedTests

/-- **The failure record.** After any sequence of calls the table holds the distinct combinations in
the order of their first occurrence, and no write has gone outside of it. The calls all return
exactly if there are fewer than 1000 distinct combinations; otherwise the program ended with `ERROR`
in the call that added the one to fill the table. If `main` returns, its status is not zero exactly
if a failure was recorded. -/
theorem recordfailure_runs (contents : Vector Failure tstTestsNumFailedMax) (envs : List Env) :
    match recordfailures envs (tstTestInit contents) with
    | .ok t =>
      t.list = failures envs ∧ t.list.Nodup ∧ t.num = (failures envs).length ∧
        (failures envs).length < tstTestsNumFailedMax ∧ (exitStatus t ≠ 0 ↔ envs ≠ [])
    | .error (stop, t) =>
      stop = .error "Maximum Error limit reached" ∧
        ∃ before env after, envs = before ++ env :: after ∧ env.failure ∉ failures before ∧
          (failures before).length + 1 = tstTestsNumFailedMax ∧
          (∃ t₀, recordfailures before (tstTestInit contents) = .ok t₀) ∧
          t.list = failures (before ++ [env]) ∧ t.list.Nodup ∧
          t.num = (failures (before ++ [env])).length := by
  have houtcome := FailedTests.outcome_recordfailures contents envs
  cases hrun : recordfailures envs (tstTestInit contents) with
  | ok t =>
    rw [hrun] at houtcome
    obtain ⟨hlist, hroom⟩ := houtcome
    have hnum : t.num = (failures envs).length := by rw [← hlist, t.length_list]
    refine ⟨hlist, ?_, hnum, hnum ▸ hroom, ?_⟩
    · rw [hlist]
      exact nodup_eraseDups _
    · rw [t.exitStatus_ne_zero_iff, hlist, Ne, FailedTests.failures_eq_nil_iff]
  | error stopped =>
    obtain ⟨stop, t⟩ := stopped
    rw [hrun] at houtcome
    obtain ⟨hstop, hfull, before, env, after, henvs, hnew, ⟨t₀, hrun₀, hlist₀, hnum₀⟩, hlist⟩ :=
      houtcome
    refine ⟨hstop, before, env, after, henvs, hnew, ?_, ⟨t₀, hrun₀⟩, hlist, ?_, ?_⟩
    · rw [← hlist₀, t₀.length_list, hnum₀]
    · rw [hlist]
      exact nodup_eraseDups _
    · rw [← hlist, t.length_list]

end MpiTestSuite
