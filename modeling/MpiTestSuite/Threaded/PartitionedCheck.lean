import MpiTestSuite.Report.Oracle
import MpiTestSuite.Threaded.Partitioned
import MpiTestSuite.Types.Buffers

/-!
# What the partitioned tests check

In the end the master calls `tst_test_checkstandardarray`, which compares `env->values_num`
elements. That is a single send partition: rank zero sets that many elements for every worker, and
as many are to be received. So a failure is recorded exactly if one of the first elements is wrong,
and the partitions behind the first one are not looked at.
-/

namespace MpiTestSuite

namespace Threaded

/-! ## Wrong elements -/

/-- Bytes with all bits set are not a number, and differ from everything. -/
theorem longDoubleNe_ones (b : List UInt8) :
    longDoubleNe (load (fun _ ↦ 0xff) 0 16) b = true := by
  have hnan : longDoubleValue (ofLeBytes ((load (fun _ ↦ 0xff) 0 16).take 10)) = none := by
    decide +kernel
  rw [longDoubleNe, hnan]

/-- The elements of an array can all be right up to some place and wrong there. -/
theorem exists_wrong_behind {cfg : Config} {t : TypeSlot} (ht : t ∈ initTypes cfg)
    (hsize : 0 < t.size) {v : ℕ} (hv : v ≤ 2 ^ 32) :
    ∃ buffer, HoldsStandardArray cfg t v 0 buffer ∧
      ∀ n, v < n → ¬HoldsStandardArray cfg t n 0 buffer := by
  obtain ⟨fields, h, hfit⟩ := exists_settable_of_size cfg ht hsize
  have hub : 0 < t.ub := Config.forall_slot (P := fun _ t ↦ 0 < t.size → 0 < t.ub)
    (by decide +kernel) cfg ht hsize
  have hdef : t.size = t.ub - t.lb := rfl
  -- what is behind the array is not what the next element would be
  obtain ⟨c, hclass, hother⟩ : ∃ c : UInt8, (t.typeClass = tstMpiLongDouble → c = 0xff) ∧
      (t.typeClass ≠ tstMpiLongDouble → c ≠ expected cfg t fields 0 v (t.ub - 1)) := by
    by_cases hones : t.typeClass ≠ tstMpiLongDouble ∧ expected cfg t fields 0 v (t.ub - 1) = 0xff
    · exact ⟨0, fun hclass ↦ absurd hclass hones.1, fun _ ↦ by rw [hones.2]; decide⟩
    · exact ⟨0xff, fun _ ↦ rfl, fun hclass heq ↦ hones ⟨hclass, heq.symm⟩⟩
  have hframe : ∀ p, v * t.size ≤ p → written cfg t fields 0 v (fun _ ↦ c) p = c := fun p hp ↦
    Settable.written_frame hfit 0 v _ (.inr hp)
  refine ⟨written cfg t fields 0 v fun _ ↦ c,
    h.holdsStandardArray_written (by norm_num) (by omega) _, fun n hn hholds ↦ ?_⟩
  have hcmp := (h.holdsStandardArray_iff n 0 _).mp hholds v hn
  rw [tstTypeCmpvalue] at hcmp
  split_ifs at hcmp with hlong
  · have hload : load (written cfg t fields 0 v fun _ ↦ c) (v * t.size) 16
        = load (fun _ ↦ 0xff) 0 16 := load_congr fun i _ ↦ by
      rw [hframe (v * t.size + i) (by omega), hclass hlong]
    rw [hload, longDoubleNe_ones] at hcmp
    cases hcmp
  · rw [bne_eq_false_iff_eq] at hcmp
    refine load_ne_of_ne (show (t.size - 1).toNat < t.size.toNat by omega) ?_ hcmp
    have hfirst : v * t.size + t.lb + (t.size - 1).toNat = v * t.size + (t.ub - 1) := by omega
    have hsecond : 0 + t.lb + ((t.size - 1).toNat : ℤ) = t.ub - 1 := by omega
    rw [hfirst, hsecond, hframe _ (by omega)]
    exact hother hlong

/-! ## The checks -/

namespace Partitioned

variable (S : Partitioned)

/-- What the functions `_run` end with: the environments that `tst_test_recordfailure` is called
with. -/
def check (env : Env) (recvBuffer : Memory) (threadNum : ℤ) : Option (List Env) :=
  if threadNum = tstThreadMaster then tstTestCheckstandardarray S.cfg S.t env recvBuffer 0
  else some []

/-- What the threads of a rank record. -/
def recorded (env : Env) (recvBuffer : Memory) : Option (List Env) := do
  let calls ← (List.range (S.n + 1)).mapM fun u ↦
    S.check env recvBuffer (tstThreadGetNum (List.range S.n) u)
  return calls.flatten

/-- A rank records a failure exactly if one of the elements of all partitions is not what rank zero
puts there. -/
def ChecksMessage (env : Env) (sendBuffer recvBuffer : Memory) : Prop :=
  ∃ calls sent, S.recorded env recvBuffer = some calls ∧
    tstTypeSetstandardarray S.cfg S.t (S.n * S.valuesNum).toNat sendBuffer 0 = some sent ∧
    (calls ≠ [] ↔ ∃ e < (S.n * S.valuesNum).toNat, elementDiffers S.t recvBuffer sent e = true)

theorem mapM_record_nothing {α : Type} {us : List α} {f : α → Option (List Env)}
    (h : ∀ u ∈ us, f u = some []) : us.mapM f = some (us.map fun _ ↦ []) := by
  induction us with
  | nil => rfl
  | cons u us ih =>
    rw [List.mapM_cons, h u List.mem_cons_self, ih fun w hw ↦ h w (List.mem_cons_of_mem u hw)]
    rfl

/-- The workers record nothing. -/
theorem recorded_eq (env : Env) (recvBuffer : Memory) :
    S.recorded env recvBuffer = tstTestCheckstandardarray S.cfg S.t env recvBuffer 0 := by
  have hworkers : ∀ u ∈ List.range S.n,
      S.check env recvBuffer (tstThreadGetNum (List.range S.n) u) = some [] := by
    intro u hu
    have hworker : (u : ℤ) ≠ tstThreadMaster := by
      rw [tstThreadMaster]
      omega
    rw [tstThreadGetNum_range, if_pos (List.mem_range.mp hu), check, if_neg hworker]
  have hmaster : S.check env recvBuffer (tstThreadGetNum (List.range S.n) S.n)
      = tstTestCheckstandardarray S.cfg S.t env recvBuffer 0 := by
    rw [tstThreadGetNum_range, if_neg (lt_irrefl _), check]
    exact if_pos rfl
  rw [recorded, List.range_succ, List.mapM_append, mapM_record_nothing hworkers, List.mapM_cons,
    hmaster]
  cases tstTestCheckstandardarray S.cfg S.t env recvBuffer 0 <;> simp

/-- What the check says, without the array. -/
theorem checksMessage_iff_holds {fields : List FieldStore} (h : Settable S.cfg S.t fields)
    (env : Env) (sendBuffer recvBuffer : Memory) : S.ChecksMessage env sendBuffer recvBuffer ↔
      (HoldsStandardArray S.cfg S.t env.valuesNum.toNat 0 recvBuffer ↔
        HoldsStandardArray S.cfg S.t (S.n * S.valuesNum).toNat 0 recvBuffer) := by
  have hwrong : (∃ e < (S.n * S.valuesNum).toNat, elementDiffers S.t recvBuffer
      (written S.cfg S.t fields 0 (S.n * S.valuesNum).toNat sendBuffer) e = true) ↔
      ¬HoldsStandardArray S.cfg S.t (S.n * S.valuesNum).toNat 0 recvBuffer := by
    rw [h.holdsStandardArray_iff]
    push Not
    refine exists_congr fun e ↦ and_congr_right fun he ↦ ?_
    rw [h.cmpvalue_written 0 sendBuffer recvBuffer he, Bool.ne_false_iff]
  have hcalls : (if HoldsStandardArray S.cfg S.t env.valuesNum.toNat 0 recvBuffer then []
      else [env]) ≠ [] ↔ ¬HoldsStandardArray S.cfg S.t env.valuesNum.toNat 0 recvBuffer := by
    split_ifs with hholds <;> simp [hholds]
  rw [ChecksMessage, recorded_eq, h.testCheckstandardarray_eq, h.setstandardarray_eq]
  constructor
  · rintro ⟨_, _, hrecorded, hsent, hiff⟩
    obtain rfl := Option.some_inj.mp hrecorded
    obtain rfl := Option.some_inj.mp hsent
    rwa [hcalls, hwrong, not_iff_not] at hiff
  · exact fun hiff ↦ ⟨_, _, rfl, rfl, by rw [hcalls, hwrong, hiff]⟩

/-- The check finds what is wrong in a message exactly if the elements of the first partition tell
whether it is right. -/
theorem checksMessage_iff {fields : List FieldStore} (h : Settable S.cfg S.t fields) {env : Env}
    (henv : S.valuesNum = env.valuesNum) (sendBuffer recvBuffer : Memory) :
    S.ChecksMessage env sendBuffer recvBuffer ↔
      (S.n = 0 → HoldsStandardArray S.cfg S.t env.valuesNum.toNat 0 recvBuffer) ∧
      (HoldsStandardArray S.cfg S.t env.valuesNum.toNat 0 recvBuffer →
        HoldsStandardArray S.cfg S.t (S.n * env.valuesNum).toNat 0 recvBuffer) := by
  rw [S.checksMessage_iff_holds h, henv]
  rcases Nat.eq_zero_or_pos S.n with hn | hn
  · have hnothing : HoldsStandardArray S.cfg S.t (S.n * env.valuesNum).toNat 0 recvBuffer := by
      rw [h.holdsStandardArray_iff, hn]
      intro i hi
      simp at hi
    rw [iff_true_right hnothing]
    exact ⟨fun hfirst ↦ ⟨fun _ ↦ hfirst, fun _ ↦ hnothing⟩, fun hboth ↦ hboth.1 hn⟩
  · have hle : env.valuesNum.toNat ≤ (S.n * env.valuesNum).toNat := by
      rcases le_total 0 env.valuesNum with hpos | hneg
      · exact Int.toNat_le_toNat (le_mul_of_one_le_left hpos (by exact_mod_cast hn))
      · rw [Int.toNat_of_nonpos hneg]
        exact Nat.zero_le _
    have hfirst := h.holdsStandardArray_mono hle 0 recvBuffer
    constructor
    · exact fun hiff ↦ ⟨fun hzero ↦ absurd hzero hn.ne', hiff.mp⟩
    · exact fun ⟨_, hrest⟩ ↦ ⟨hrest, hfirst⟩

/-- It does so for every message exactly if there is one partition only, or nothing in it. -/
theorem forall_checksMessage_iff {fields : List FieldStore} (h : Settable S.cfg S.t fields)
    (ht : S.t ∈ initTypes S.cfg) {env : Env} (henv : S.valuesNum = env.valuesNum)
    (hvalues : FitsInt env.valuesNum) (sendBuffer : Memory) :
    (∀ recvBuffer, S.ChecksMessage env sendBuffer recvBuffer) ↔
      S.n = 1 ∨ env.valuesNum ≤ 0 ∨ S.t.size = 0 := by
  simp only [S.checksMessage_iff h henv sendBuffer]
  have hlt := hvalues.2
  constructor
  · intro hall
    by_contra! hnot
    obtain ⟨hone, hpos, hsize⟩ := hnot
    have hsizePos : 0 < S.t.size := by
      rcases h.fit with ⟨hlb, hub, -⟩ | hzero
      · rw [TypeSlot.size] at hsize ⊢
        omega
      · exact absurd hzero hsize
    rcases Nat.eq_zero_or_pos S.n with hn | hn
    · obtain ⟨buffer, -, hwrong⟩ := exists_wrong_behind ht hsizePos (Nat.zero_le (2 ^ 32))
      exact hwrong _ (by omega) ((hall buffer).1 hn)
    · obtain ⟨buffer, hholds, hwrong⟩ :=
        exists_wrong_behind ht hsizePos (show env.valuesNum.toNat ≤ 2 ^ 32 by omega)
      have hmore : 2 * env.valuesNum ≤ S.n * env.valuesNum :=
        mul_le_mul_of_nonneg_right (by omega) hpos.le
      exact hwrong _ (by omega) ((hall buffer).2 hholds)
  · rintro (hone | hnone | hsize) recvBuffer
    · rw [hone, Nat.cast_one, one_mul]
      exact ⟨fun hzero ↦ absurd hzero Nat.one_ne_zero, id⟩
    · have hless : S.n * env.valuesNum ≤ 0 :=
        mul_nonpos_of_nonneg_of_nonpos (Int.natCast_nonneg _) hnone
      have hempty : HoldsStandardArray S.cfg S.t 0 0 recvBuffer :=
        (h.holdsStandardArray_iff 0 0 recvBuffer).mpr fun i hi ↦ absurd hi (Nat.not_lt_zero i)
      rw [Int.toNat_of_nonpos hnone, Int.toNat_of_nonpos hless]
      exact ⟨fun _ ↦ hempty, fun _ ↦ hempty⟩
    · exact ⟨fun _ ↦ h.holdsStandardArray_of_size_eq_zero hsize _ _ _,
        fun _ ↦ h.holdsStandardArray_of_size_eq_zero hsize _ _ _⟩

end Partitioned

/-- **The checks of the partitioned tests.** With any number of ranks and workers, and whatever is
in the receive buffer, either test records a failure as it should exactly if the elements behind the
first partition are right whenever those of the first partition are. That is so for everything that
may be in the buffer exactly if there is one worker, or nothing to be compared. -/
theorem partitioned_checks_message_iff (cfg : Config) (t : TypeSlot) (ht : t ∈ initTypes cfg)
    (hnull : t.datatype ≠ .null) (env : Env) (hvalues : FitsInt env.valuesNum) (commClass : Flags)
    (p n : ℕ) (sendBuffer : Memory) :
    ∀ S ∈ [tstThreadedRingPartitioned cfg t env.valuesNum commClass p n,
        tstThreadedRingPartitionedManyToOne cfg t env.valuesNum commClass p n],
      (∀ recvBuffer, S.ChecksMessage env sendBuffer recvBuffer ↔
        (n = 0 → HoldsStandardArray cfg t env.valuesNum.toNat 0 recvBuffer) ∧
        (HoldsStandardArray cfg t env.valuesNum.toNat 0 recvBuffer →
          HoldsStandardArray cfg t (n * env.valuesNum).toNat 0 recvBuffer)) ∧
      ((∀ recvBuffer, S.ChecksMessage env sendBuffer recvBuffer) ↔
        n = 1 ∨ env.valuesNum ≤ 0 ∨ t.size = 0) := by
  obtain ⟨fields, h⟩ := exists_settable cfg ht hnull
  intro S hS
  rcases List.mem_pair.mp hS with rfl | rfl
  · exact ⟨fun recvBuffer ↦ Partitioned.checksMessage_iff _ h rfl sendBuffer recvBuffer,
      Partitioned.forall_checksMessage_iff _ h ht rfl hvalues sendBuffer⟩
  · exact ⟨fun recvBuffer ↦ Partitioned.checksMessage_iff _ h rfl sendBuffer recvBuffer,
      Partitioned.forall_checksMessage_iff _ h ht rfl hvalues sendBuffer⟩

/-- Three values of `MPI_INT` for each of two workers. -/
theorem partitioned_checks_message_iff_two :
    let cfg : Config := ⟨2, true, true, true, true, true, true, true, true⟩
    ∀ S ∈ [tstThreadedRingPartitioned cfg (slotMpi2 6) 3 tstMpiIntraComm 2 2,
        tstThreadedRingPartitionedManyToOne cfg (slotMpi2 6) 3 tstMpiIntraComm 2 2],
      (∀ recvBuffer, S.ChecksMessage ⟨109, 0, 6, 3, 0⟩ (fun _ ↦ 0) recvBuffer ↔
        (2 = 0 → HoldsStandardArray cfg (slotMpi2 6) 3 0 recvBuffer) ∧
        (HoldsStandardArray cfg (slotMpi2 6) 3 0 recvBuffer →
          HoldsStandardArray cfg (slotMpi2 6) 6 0 recvBuffer)) ∧
      ((∀ recvBuffer, S.ChecksMessage ⟨109, 0, 6, 3, 0⟩ (fun _ ↦ 0) recvBuffer) ↔
        2 = 1 ∨ (3 : ℤ) ≤ 0 ∨ (slotMpi2 6).size = 0) :=
  partitioned_checks_message_iff ⟨2, true, true, true, true, true, true, true, true⟩ (slotMpi2 6)
    (by decide +kernel) (by decide +kernel) ⟨109, 0, 6, 3, 0⟩ (by decide) tstMpiIntraComm 2 2
    fun _ ↦ 0

/-- Two workers with one `MPI_INT` each: nothing is recorded if only the second number is wrong. -/
theorem partitioned_checks_prefix : ¬∀ t ∈ initTypes
      ⟨2, true, true, true, true, true, true, true, true⟩, t.datatype ≠ .null → ∀ env : Env,
    0 ≤ env.valuesNum → ∀ commClass : Flags, ∀ p n : ℕ, 1 ≤ p → 1 ≤ n →
    ∀ sendBuffer recvBuffer : Memory,
      (tstThreadedRingPartitioned ⟨2, true, true, true, true, true, true, true, true⟩ t
        env.valuesNum commClass p n).ChecksMessage env sendBuffer recvBuffer ∧
      (tstThreadedRingPartitionedManyToOne ⟨2, true, true, true, true, true, true, true, true⟩ t
        env.valuesNum commClass p n).ChecksMessage env sendBuffer recvBuffer := by
  intro h
  have hmem : slotMpi2 6 ∈ initTypes ⟨2, true, true, true, true, true, true, true, true⟩ := by
    decide +kernel
  have hnull : (slotMpi2 6).datatype ≠ .null := by decide +kernel
  have hring := (h (slotMpi2 6) hmem hnull ⟨109, 0, 6, 1, 0⟩ (by decide) tstMpiIntraComm 2 2
    (by decide) (by decide) (fun _ ↦ 0)
    ((tstTypeSetstandardarray ⟨2, true, true, true, true, true, true, true, true⟩ (slotMpi2 6) 1
      (fun _ ↦ 0) 0).getD fun _ ↦ 0)).1
  obtain ⟨fields, hsettable⟩ := exists_settable
    ⟨2, true, true, true, true, true, true, true, true⟩ hmem hnull
  have hrest := ((Partitioned.checksMessage_iff _ hsettable rfl _ _).mp hring).2
  exact absurd (hrest (by decide +kernel)) (by decide +kernel)

end Threaded

end MpiTestSuite
