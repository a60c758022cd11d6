import Mathlib.Data.List.Sort
import MpiTestSuite.Schedule.Barriers

/-!
# The mappings of the communicators

With each communicator, `tst_comm_register` stores an array that says which process of
`MPI_COMM_WORLD` each rank is, and with an inter-communicator a second one for the other group. MPI
decides the order of some groups: it may renumber the processes of a topology, and two groups that
are merged come one after the other, but not in an order that the caller asks for (`Mpi`).

Several of the arrays do not say what they should. `tst_comm_register_halved_comm_world` lists the
lower half on both sides, and allocates no more than `world_size / 2` entries.
`tst_comm_register_halved_inter_comm` asks for the size of `MPI_COMM_WORLD` where it means that of
its own half, so that the other group appears to be empty. Where MPI decides, the array is right if
MPI keeps the order of `MPI_COMM_WORLD`.
-/

namespace MpiTestSuite

variable {p : ℕ}

/-! ## Communicators -/

/-- A communicator, as one of its processes sees it. -/
structure MpiComm (p : ℕ) where
  /-- The processes of its group, by rank. -/
  group : List (Fin p)
  /-- The processes of the other group of an inter-communicator. -/
  remote : List (Fin p)

/-- What MPI decides. -/
structure Mpi (p : ℕ) where
  /-- The machine that a process runs on. -/
  node : Fin p → ℕ
  /-- The order of the processes in a Cartesian topology with some number of dimensions. -/
  cart : ℕ → List (Fin p)
  /-- The order of the processes in a graph. -/
  graph : List (Fin p)
  /-- Of two groups that are merged, the one with process zero comes first. -/
  lowFirst : Bool
  cart_perm : ∀ ndims, (cart ndims).Perm (List.finRange p)
  graph_perm : graph.Perm (List.finRange p)

/-- `MPI_COMM_WORLD`. -/
def mpiCommWorld : MpiComm p := ⟨List.finRange p, []⟩

/-- `MPI_Comm_split (MPI_COMM_WORLD, color, key, ..)`: ranks are in the order of the keys, and for
equal keys in the order of `MPI_COMM_WORLD`. -/
def mpiCommSplit (color key : Fin p → ℕ) (q : Fin p) : MpiComm p :=
  ⟨((List.finRange p).filter fun r ↦ color r = color q).insertionSort fun r s ↦ key r ≤ key s, []⟩

/-- `MPI_Group_incl` and `MPI_Comm_create`. -/
def mpiCommCreate (c : MpiComm p) (ranks : List ℕ) : MpiComm p :=
  ⟨ranks.filterMap fun i ↦ c.group[i]?, []⟩

/-- `MPI_Intercomm_create (tmp_comm, 0, MPI_COMM_WORLD, remote_leader, ..)`. What the leader of a
group gives for the other leader is all that counts. -/
def mpiIntercommCreate (tmpComm : Fin p → MpiComm p) (remoteLeader : Fin p → ℕ) (q : Fin p) :
    MpiComm p :=
  ⟨(tmpComm q).group, ((tmpComm q).group.head?.bind fun leader ↦
    (List.finRange p)[remoteLeader leader]?).elim [] fun r ↦ (tmpComm r).group⟩

/-- `MPI_Intercomm_merge` with the same `high` on both sides. -/
def mpiIntercommMerge (lowFirst : Bool) (c : MpiComm p) : MpiComm p :=
  if (c.group.any fun r ↦ r.val = 0) = lowFirst then ⟨c.group ++ c.remote, []⟩
  else ⟨c.remote ++ c.group, []⟩

/-! ## Groups in the order of `MPI_COMM_WORLD` -/

theorem mpiCommSplit_eq (color : Fin p → ℕ) (q : Fin p) :
    mpiCommSplit color Fin.val q
      = ⟨(List.finRange p).filter fun r ↦ color r = color q, []⟩ := by
  have hsorted : ((List.finRange p).filter fun r ↦ color r = color q).Pairwise
      fun r s ↦ r.val ≤ s.val :=
    (List.pairwise_le_finRange p).filter _
  rw [mpiCommSplit, hsorted.insertionSort_eq]

/-- The ranks of a group in that order are determined by its members. -/
theorem map_val_filter_eq {P : Fin p → Bool} {l : List ℕ} (hsorted : l.SortedLT)
    (hmem : ∀ i, i ∈ l ↔ ∃ r : Fin p, P r = true ∧ r.val = i) :
    ((List.finRange p).filter P).map Fin.val = l := by
  have hranks : (((List.finRange p).filter P).map Fin.val).SortedLT :=
    (((List.pairwise_lt_finRange p).filter P).map Fin.val fun _ _ h ↦ h).sortedLT
  have hiff : ∀ i, i ∈ ((List.finRange p).filter P).map Fin.val ↔ i ∈ l := by
    intro i
    rw [hmem i, List.mem_map]
    simp only [List.mem_filter, List.mem_finRange, true_and]
  exact List.Subset.antisymm_of_sortedLT (fun i ↦ (hiff i).mp) (fun i ↦ (hiff i).mpr) hranks hsorted

/-- Such a group has the ranks below its size if nobody before a member is left out. -/
theorem map_val_filter_eq_range_iff {P : Fin p → Bool} :
    ((List.finRange p).filter P).map Fin.val = List.range ((List.finRange p).filter P).length ↔
      ∀ r s : Fin p, r ≤ s → P s = true → P r = true := by
  have hmem : ∀ r : Fin p, r.val ∈ ((List.finRange p).filter P).map Fin.val ↔ P r = true := by
    intro r
    simp only [List.mem_map, List.mem_filter, List.mem_finRange, true_and]
    exact ⟨fun ⟨s, hs, heq⟩ ↦ Fin.ext heq ▸ hs, fun h ↦ ⟨r, h, rfl⟩⟩
  constructor
  · intro heq r s hrs hs
    rw [← hmem, heq, List.mem_range] at hs ⊢
    exact lt_of_le_of_lt hrs hs
  · intro hdown
    -- The members are those below the first process that is not one.
    obtain ⟨k, hk⟩ : ∃ k ≤ p, ∀ r : Fin p, P r = true ↔ r.val < k := by
      by_cases hall : ∀ r, P r = true
      · exact ⟨p, le_rfl, fun r ↦ ⟨fun _ ↦ r.isLt, fun _ ↦ hall r⟩⟩
      · have hex : ∃ i, ∃ h : i < p, P ⟨i, h⟩ = false := by
          simp only [not_forall, Bool.not_eq_true] at hall
          exact hall.elim fun r hr ↦ ⟨r, r.isLt, hr⟩
        obtain ⟨hlt, hfalse⟩ := Nat.find_spec hex
        refine ⟨Nat.find hex, hlt.le, fun r ↦ ⟨fun hr ↦ ?_, fun hr ↦ ?_⟩⟩
        · by_contra hge
          have htrue := hdown ⟨Nat.find hex, hlt⟩ r (not_lt.mp hge) hr
          rw [hfalse] at htrue
          cases htrue
        · have hnot := Nat.find_min hex hr
          simp only [not_exists, Bool.not_eq_false] at hnot
          exact hnot r.isLt
    have hrange : ((List.finRange p).filter P).map Fin.val = List.range k := by
      refine map_val_filter_eq (List.sortedLT_range k) fun i ↦ ?_
      rw [List.mem_range]
      constructor
      · intro hi
        exact ⟨⟨i, hi.trans_le hk.1⟩, (hk.2 _).mpr hi, rfl⟩
      · rintro ⟨r, hr, rfl⟩
        exact (hk.2 r).mp hr
    have hlength := congrArg List.length hrange
    rw [List.length_map, List.length_range] at hlength
    rw [hrange, hlength]

/-! ## Registration -/

/-- The arguments of `tst_comm_register`; `MPI_COMM_NULL` and `NULL` are `none`. -/
structure CommRow (p : ℕ) where
  description : String
  mpiComm : Option (MpiComm p)
  commClass : Flags
  size : ℕ
  mapping : Option (List ℕ)
  otherSize : ℕ
  otherMapping : Option (List ℕ)

namespace CommRow

/-- What selection and scheduling read of it. -/
def comm (row : CommRow p) : Comm :=
  ⟨CString.strncpy tstDescriptionLen (CString.lit row.description), row.commClass,
    row.mpiComm.isNone⟩

end CommRow

section

variable (mpi : Mpi p) (q : Fin p)

/-- `tst_comm_register_comm_world`. -/
def tstCommRegisterCommWorld : CommRow p :=
  ⟨"MPI_COMM_WORLD", some mpiCommWorld, tstMpiIntraComm, p, some (List.range p), 0, none⟩

/-- `tst_comm_register_comm_null`. -/
def tstCommRegisterCommNull : CommRow p :=
  ⟨"MPI_COMM_NULL", none, tstMpiCommNull, 0, none, 0, none⟩

/-- `tst_comm_register_comm_self`. -/
def tstCommRegisterCommSelf : CommRow p :=
  ⟨"MPI_COMM_SELF", some ⟨[q], []⟩, tstMpiCommSelf, 1, none, 0, none⟩

/-- `tst_comm_register_duplicate_comm_world`. -/
def tstCommRegisterDuplicateCommWorld : CommRow p :=
  let comm : MpiComm p := mpiCommWorld
  ⟨"Duplicated MPI_COMM_WORLD", some comm, tstMpiIntraComm, comm.group.length,
    some (List.range comm.group.length), 0, none⟩

/-- `tst_comm_register_reversed_comm_world`. -/
def tstCommRegisterReversedCommWorld : CommRow p :=
  let mapping := (List.range p).map fun i ↦ p - (i + 1)
  let comm : MpiComm p := mpiCommCreate mpiCommWorld mapping
  ⟨"Reversed MPI_COMM_WORLD", some comm, tstMpiIntraComm, comm.group.length, some mapping, 0, none⟩

/-- `world_rank >= world_size / 2`, the color of both halves. -/
def halvesColor (r : Fin p) : ℕ := if p / 2 ≤ r.val then 1 else 0

/-- `tst_comm_register_halved_comm_world`. -/
def tstCommRegisterHalvedCommWorld : CommRow p :=
  let mapping := List.range (p / 2)
  let comm := mpiCommSplit halvesColor Fin.val q
  ⟨"Halved MPI_COMM_WORLD", some comm, tstMpiIntraComm, comm.group.length, some mapping, 0, none⟩

/-- `tst_comm_register_2D_cart_comm`. -/
def tstCommRegister2DCartComm : CommRow p :=
  ⟨"2D Cart_comm", some ⟨mpi.cart 2, []⟩, tstMpiCartComm, p, some (List.range p), 0, none⟩

/-- `tst_comm_register_3D_cart_comm`. -/
def tstCommRegister3DCartComm : CommRow p :=
  ⟨"3D Cart_comm", some ⟨mpi.cart 3, []⟩, tstMpiCartComm, p, some (List.range p), 0, none⟩

/-- `tst_comm_register_odd_even_split`. -/
def tstCommRegisterOddEvenSplit : CommRow p :=
  let comm := mpiCommSplit (fun r ↦ r.val % 2) Fin.val q
  ⟨"Odd/Even split MPI_COMM_WORLD", some comm, tstMpiIntraComm, comm.group.length,
    some ((List.range comm.group.length).map fun i ↦ i * 2 + q % 2), 0, none⟩

/-- `tst_comm_register_fully_connected_topology`. -/
def tstCommRegisterFullyConnectedTopology : CommRow p :=
  ⟨"Full-connected Topology", some ⟨mpi.graph, []⟩, tstMpiTopoComm, p, some (List.range p), 0, none⟩

/-- `tst_comm_register_halved_inter_comm`, whose `comm_size` is that of `MPI_COMM_WORLD`. -/
def tstCommRegisterHalvedInterComm : CommRow p :=
  let tmpComm := mpiCommSplit halvesColor Fin.val
  let commSize := p
  let otherSize := p - commSize
  let comm := mpiIntercommCreate tmpComm (fun r ↦ if r.val = 0 then p / 2 else 0) q
  ⟨"Halved Inter_communicator", some comm, tstMpiInterComm, commSize, some (List.range commSize),
    otherSize, some ((List.range otherSize).map fun i ↦ commSize + i)⟩

/-- `tst_comm_register_merged_inter_comm`, which looks for the inter-communicator among the
communicators that are there. -/
def tstCommRegisterMergedInterComm (rows : List (CommRow p)) : CommRow p :=
  let comm := ((rows.find? fun row ↦ row.description = "Halved Inter_communicator").bind
    CommRow.mpiComm).map (mpiIntercommMerge mpi.lowFirst)
  let commSize := comm.elim 0 fun c ↦ c.group.length
  ⟨"Intracomm merged of the Halved Inter_communicator", comm, tstMpiIntraComm, commSize,
    some (List.range commSize), 0, none⟩

/-- `tst_comm_register_split_type_shared`. -/
def tstCommRegisterSplitTypeShared : CommRow p :=
  let comm := mpiCommSplit mpi.node Fin.val q
  ⟨"MPI_COMM_TYPE_SHARED comm", some comm, tstMpiSharedComm ||| tstMpiIntraComm,
    comm.group.length, some (List.range comm.group.length), 0, none⟩

/-- `tst_comms_register`, for the caller `q`. -/
def commRows (cfg : Config) : List (CommRow p) :=
  let rows := [tstCommRegisterCommWorld, tstCommRegisterCommNull, tstCommRegisterCommSelf q,
    tstCommRegisterDuplicateCommWorld, tstCommRegisterReversedCommWorld,
    tstCommRegisterHalvedCommWorld q]
    ++ (if 1 < p then [tstCommRegister2DCartComm mpi, tstCommRegister3DCartComm mpi] else [])
    ++ [tstCommRegisterOddEvenSplit q, tstCommRegisterFullyConnectedTopology mpi]
    ++ if 1 < p then [tstCommRegisterHalvedInterComm q] else []
  rows ++ (if 1 < p then [tstCommRegisterMergedInterComm mpi rows] else [])
    ++ if 3 ≤ cfg.mpiVersion then [tstCommRegisterSplitTypeShared mpi q] else []

end

/-- The inter-communicator is there when it is to be merged. -/
theorem commRows_of_one_lt (mpi : Mpi p) (q : Fin p) (cfg : Config) (hp : 1 < p) :
    commRows mpi q cfg = [tstCommRegisterCommWorld, tstCommRegisterCommNull,
      tstCommRegisterCommSelf q, tstCommRegisterDuplicateCommWorld,
      tstCommRegisterReversedCommWorld, tstCommRegisterHalvedCommWorld q,
      tstCommRegister2DCartComm mpi, tstCommRegister3DCartComm mpi, tstCommRegisterOddEvenSplit q,
      tstCommRegisterFullyConnectedTopology mpi, tstCommRegisterHalvedInterComm q,
      tstCommRegisterMergedInterComm mpi [tstCommRegisterHalvedInterComm q]]
      ++ if 3 ≤ cfg.mpiVersion then [tstCommRegisterSplitTypeShared mpi q] else [] := by
  simp only [commRows, if_pos hp]
  rfl

/-- The table that selection and scheduling work with is made of these rows. -/
theorem registered_eq_map_comm (cfg : Config) (mpi : Mpi p) (q : Fin p) :
    (tstCommsRegister cfg p).registered = (commRows mpi q cfg).map CommRow.comm := by
  by_cases hp : 1 < p
  · rw [commRows_of_one_lt mpi q cfg hp]
    simp only [tstCommsRegister, registerIfSeveral, if_pos hp]
    split_ifs <;> rfl
  · simp only [tstCommsRegister, registerIfSeveral, commRows, if_neg hp]
    split_ifs <;> rfl

/-! ## The groups of the rows -/

/-- The lower half. -/
theorem map_val_low {q : Fin p} (hq : q.val < p / 2) :
    ((List.finRange p).filter fun r ↦ halvesColor r = halvesColor q).map Fin.val
      = List.range (p / 2) := by
  refine map_val_filter_eq (List.sortedLT_range _) fun i ↦ ?_
  simp only [halvesColor, if_neg (not_le.mpr hq), decide_eq_true_iff, List.mem_range]
  constructor
  · intro hi
    exact ⟨⟨i, by omega⟩, if_neg (not_le.mpr hi), rfl⟩
  · rintro ⟨r, hr, rfl⟩
    by_contra hge
    rw [if_pos (not_lt.mp hge)] at hr
    cases hr

/-- The upper half. -/
theorem map_val_high {q : Fin p} (hq : p / 2 ≤ q.val) :
    ((List.finRange p).filter fun r ↦ halvesColor r = halvesColor q).map Fin.val
      = List.range' (p / 2) (p - p / 2) := by
  refine map_val_filter_eq (List.sortedLT_range' _ _ one_ne_zero) fun i ↦ ?_
  simp only [halvesColor, if_pos hq, decide_eq_true_iff, List.mem_range'_1]
  constructor
  · rintro ⟨hle, hlt⟩
    exact ⟨⟨i, by omega⟩, if_pos hle, rfl⟩
  · rintro ⟨r, hr, rfl⟩
    have hle : p / 2 ≤ r.val := by
      by_contra hlt
      rw [if_neg hlt] at hr
      cases hr
    exact ⟨hle, by omega⟩

/-- The ranks in one group of the split by parity. -/
theorem map_val_parity (q : Fin p) :
    ((List.finRange p).filter fun r ↦ r.val % 2 = q.val % 2).map Fin.val
      = (List.range ((List.finRange p).filter fun r ↦ r.val % 2 = q.val % 2).length).map
        fun i ↦ i * 2 + q.val % 2 := by
  have hmono : StrictMono fun i ↦ i * 2 + q.val % 2 := fun i j hij ↦ by
    simp only
    omega
  have hlist : ((List.finRange p).filter fun r ↦ r.val % 2 = q.val % 2).map Fin.val
      = (List.range ((p + 1 - q.val % 2) / 2)).map fun i ↦ i * 2 + q.val % 2 := by
    refine map_val_filter_eq ?_ fun i ↦ ?_
    · exact (List.pairwise_lt_range.map _ fun _ _ h ↦ hmono h).sortedLT
    · simp only [List.mem_map, List.mem_range, decide_eq_true_iff]
      constructor
      · rintro ⟨j, hj, rfl⟩
        exact ⟨⟨j * 2 + q.val % 2, by omega⟩, by simp only; omega, rfl⟩
      · rintro ⟨r, hr, rfl⟩
        have hlt := r.isLt
        exact ⟨r.val / 2, by omega, by omega⟩
  have hlength := congrArg List.length hlist
  rw [List.length_map, List.length_map, List.length_range] at hlength
  rw [hlist, hlength]

/-- The first process of a group with known ranks. -/
theorem head?_of_map_val {l : List (Fin p)} {i : ℕ} {is : List ℕ} (h : l.map Fin.val = i :: is) :
    ∃ r, l.head? = some r ∧ r.val = i := by
  obtain ⟨r, t, rfl, hr, -⟩ := List.map_eq_cons_iff.mp h
  exact ⟨r, rfl, hr⟩

theorem halvesColor_ne_iff (r q : Fin p) :
    halvesColor r ≠ halvesColor q ↔ (r.val < p / 2 ↔ p / 2 ≤ q.val) := by
  unfold halvesColor
  split_ifs <;> omega

/-- There are two halves. -/
theorem halvesColor_eq_iff {q s : Fin p} (h : halvesColor s ≠ halvesColor q) (t : Fin p) :
    halvesColor t = halvesColor s ↔ halvesColor t ≠ halvesColor q := by
  have heq : halvesColor t = halvesColor s ↔ ¬(t.val < p / 2 ↔ p / 2 ≤ s.val) := by
    rw [← halvesColor_ne_iff, not_not]
  rw [heq, halvesColor_ne_iff]
  have hs := (halvesColor_ne_iff s q).mp h
  omega

/-- The leaders find each other, although only process zero is told to look for the upper half. -/
theorem interComm_eq (hp : 1 < p) (q : Fin p) :
    mpiIntercommCreate (mpiCommSplit halvesColor Fin.val)
        (fun r ↦ if r.val = 0 then p / 2 else 0) q
      = ⟨(List.finRange p).filter fun r ↦ halvesColor r = halvesColor q,
        (List.finRange p).filter fun r ↦ halvesColor r ≠ halvesColor q⟩ := by
  -- What the leader `r` of this half says is a process of the other half.
  have hremote : ∀ r s : Fin p,
      ((List.finRange p).filter fun r ↦ halvesColor r = halvesColor q).head? = some r →
      (if r.val = 0 then p / 2 else 0) = s.val → halvesColor s ≠ halvesColor q →
      mpiIntercommCreate (mpiCommSplit halvesColor Fin.val)
          (fun r ↦ if r.val = 0 then p / 2 else 0) q
        = ⟨(List.finRange p).filter fun r ↦ halvesColor r = halvesColor q,
          (List.finRange p).filter fun r ↦ halvesColor r ≠ halvesColor q⟩ := by
    intro r s hhead hs hcolor
    have hget : (List.finRange p)[s.val]? = some s := by
      rw [List.getElem?_eq_getElem (by rw [List.length_finRange]; exact s.isLt),
        List.getElem_finRange]
      rfl
    rw [mpiIntercommCreate]
    simp only [mpiCommSplit_eq, hhead, Option.bind_some, hs, hget, Option.elim_some]
    exact congrArg (MpiComm.mk _) (List.filter_congr fun t _ ↦
      decide_eq_decide.mpr (halvesColor_eq_iff hcolor t))
  by_cases hq : q.val < p / 2
  · have hranks := map_val_low hq
    obtain ⟨m, hm⟩ : ∃ m, p / 2 = m + 1 := ⟨p / 2 - 1, by omega⟩
    rw [hm, List.range_succ_eq_map] at hranks
    obtain ⟨r, hhead, hr⟩ := head?_of_map_val hranks
    exact hremote r ⟨p / 2, by omega⟩ hhead (if_pos hr)
      ((halvesColor_ne_iff _ _).mpr (by simp only; omega))
  · have hranks := map_val_high (not_lt.mp hq)
    obtain ⟨m, hm⟩ : ∃ m, p - p / 2 = m + 1 := ⟨p - p / 2 - 1, by omega⟩
    rw [hm, List.range'_succ] at hranks
    obtain ⟨r, hhead, hr⟩ := head?_of_map_val hranks
    exact hremote r ⟨0, by omega⟩ hhead (if_neg (by omega))
      ((halvesColor_ne_iff _ _).mpr (by simp only; omega))

/-- A group is that of a division if it has the same members. -/
theorem perm_group {node : Fin p → ℕ} {d : Division} {q : Fin p} {l : List (Fin p)}
    (hnodup : l.Nodup) (hmem : ∀ r, r ∈ l ↔ d ≠ .null ∧ d.color node r = d.color node q) :
    l.Perm (d.group node q) := by
  have hgroup : (d.group node q).Nodup := by
    rw [Division.group]
    split_ifs
    exacts [List.nodup_nil, (List.nodup_finRange p).filter _]
  rw [List.perm_ext_iff_of_nodup hnodup hgroup]
  exact fun r ↦ (hmem r).trans Division.mem_group.symm

/-- So is a group of all processes. -/
theorem perm_world (node : Fin p → ℕ) (q : Fin p) {l : List (Fin p)}
    (h : l.Perm (List.finRange p)) : l.Perm (Division.world.group node q) := by
  refine perm_group (h.nodup_iff.mpr (List.nodup_finRange p)) fun r ↦ ?_
  exact ⟨fun _ ↦ ⟨nofun, rfl⟩, fun _ ↦ h.mem_iff.mpr (List.mem_finRange r)⟩

/-- Two groups that are merged are all processes. -/
theorem merge_perm (lowFirst : Bool) (q : Fin p) :
    (mpiIntercommMerge lowFirst
      ⟨(List.finRange p).filter fun r ↦ halvesColor r = halvesColor q,
        (List.finRange p).filter fun r ↦ halvesColor r ≠ halvesColor q⟩).group.Perm
      (List.finRange p) := by
  have hsplit : ((List.finRange p).filter (fun r ↦ halvesColor r = halvesColor q)
      ++ (List.finRange p).filter fun r ↦ halvesColor r ≠ halvesColor q).Perm
      (List.finRange p) := by
    have hnot : (fun r : Fin p ↦ decide (halvesColor r ≠ halvesColor q))
        = fun r ↦ !decide (halvesColor r = halvesColor q) :=
      funext fun r ↦ decide_not
    rw [hnot]
    exact List.filter_append_perm _ _
  rw [mpiIntercommMerge]
  split_ifs
  · exact hsplit
  · exact List.perm_append_comm.trans hsplit

/-- `MPI_Group_incl` takes the processes in the order that it is given. -/
theorem map_val_create {ranks : List ℕ} (h : ∀ i ∈ ranks, i < p) :
    (mpiCommCreate (mpiCommWorld : MpiComm p) ranks).group.map Fin.val = ranks := by
  unfold mpiCommCreate mpiCommWorld
  induction ranks with
  | nil => rfl
  | cons i ranks ih =>
    rw [List.forall_mem_cons] at h
    have hget : (List.finRange p)[i]? = some ⟨i, h.1⟩ := by
      rw [List.getElem?_eq_getElem (by rw [List.length_finRange]; exact h.1),
        List.getElem_finRange]
      rfl
    rw [List.filterMap_cons_some hget, List.map_cons, ih h.2]

theorem lt_of_mem_reversed : ∀ i ∈ (List.range p).map fun i ↦ p - (i + 1), i < p := by
  intro i hi
  obtain ⟨j, hj, rfl⟩ := List.mem_map.mp hi
  rw [List.mem_range] at hj
  omega

theorem reversed_perm :
    (mpiCommCreate (mpiCommWorld : MpiComm p) ((List.range p).map fun i ↦ p - (i + 1))).group.Perm
      (List.finRange p) := by
  have hreverse : (List.range p).map (fun i ↦ p - (i + 1)) = (List.range p).reverse := by
    refine List.ext_getElem (by simp) fun i h₁ h₂ ↦ ?_
    simp only [List.getElem_map, List.getElem_range, List.getElem_reverse, List.length_range]
    omega
  refine (List.map_perm_map_iff Fin.val_injective).mp ?_
  rw [map_val_create lt_of_mem_reversed, hreverse, List.map_coe_finRange_eq_range]
  exact List.reverse_perm _

/-- The world that the schedule goes through has the same groups, up to the order of ranks. -/
theorem groups_commRows (mpi : Mpi p) (q : Fin p) (cfg : Config) :
    List.Forall₂ (fun row d ↦ (row.mpiComm.elim [] MpiComm.group).Perm (d.group mpi.node q))
      (commRows mpi q cfg) (tstCommsDivisions cfg p) := by
  have hworld : (mpiCommWorld : MpiComm p).group.Perm (Division.world.group mpi.node q) :=
    perm_world mpi.node q (.refl _)
  have hself : [q].Perm (Division.self.group mpi.node q) := by
    refine perm_group (List.nodup_singleton q) fun r ↦ ?_
    rw [List.mem_singleton, Fin.ext_iff]
    exact ⟨fun h ↦ ⟨by decide, h⟩, fun h ↦ h.2⟩
  have hreversed := perm_world mpi.node q (reversed_perm (p := p))
  have hsplit : ∀ d : Division, d ≠ .null →
      (mpiCommSplit (d.color mpi.node) Fin.val q).group.Perm (d.group mpi.node q) := by
    intro d hd
    rw [mpiCommSplit_eq, Division.group, if_neg hd]
  have hshared : List.Forall₂ (fun row d ↦
      (row.mpiComm.elim [] MpiComm.group).Perm (d.group mpi.node q))
      (if 3 ≤ cfg.mpiVersion then [tstCommRegisterSplitTypeShared mpi q] else [])
      (if 3 ≤ cfg.mpiVersion then [Division.nodes] else []) := by
    split_ifs
    exacts [.cons (hsplit .nodes (by decide)) .nil, .nil]
  have hhalves := hsplit .halves (by decide)
  have hparity := hsplit .parity (by decide)
  by_cases hp : 1 < p
  · have hinter : ((tstCommRegisterHalvedInterComm q).mpiComm.elim [] MpiComm.group).Perm
        (Division.halves.group mpi.node q) := by
      rw [tstCommRegisterHalvedInterComm, Option.elim_some, interComm_eq hp]
      exact .refl _
    have hmerged := perm_world mpi.node q (merge_perm mpi.lowFirst q)
    rw [← interComm_eq hp] at hmerged
    rw [commRows_of_one_lt mpi q cfg hp, tstCommsDivisions, if_pos hp, if_pos hp]
    refine List.rel_append ?_ hshared
    simp only [List.cons_append, List.nil_append, List.forall₂_cons]
    exact ⟨hworld, .refl _, hself, hworld, hreversed, hhalves,
      perm_world mpi.node q (mpi.cart_perm 2), perm_world mpi.node q (mpi.cart_perm 3),
      hparity, perm_world mpi.node q mpi.graph_perm, hinter, hmerged, .nil⟩
  · simp only [commRows, tstCommsDivisions, if_neg hp, List.append_nil]
    refine List.rel_append ?_ hshared
    simp only [List.cons_append, List.nil_append, List.forall₂_cons]
    exact ⟨hworld, .refl _, hself, hworld, hreversed, hhalves, hparity,
      perm_world mpi.node q mpi.graph_perm, .nil⟩

/-! ## True mappings -/

/-- An array of at least `size` entries lists the processes of a group that has this size. -/
structure Lists (mapping : List ℕ) (size : ℕ) (group : List (Fin p)) : Prop where
  size_eq : size = group.length
  le_length : size ≤ mapping.length
  rank : ∀ i < size, mapping[i]? = group[i]?.map Fin.val
  injective : (mapping.take size).Nodup

/-- What is stored with a communicator is true, if there is a mapping. -/
def CommRow.MappingTrue (row : CommRow p) : Prop :=
  ∀ c mapping, row.mpiComm = some c → row.mapping = some mapping →
    Lists mapping row.size c.group ∧
    (row.commClass = tstMpiInterComm → ∃ otherMapping, row.otherMapping = some otherMapping ∧
      Lists otherMapping row.otherSize c.remote ∧
      (mapping.take row.size ++ otherMapping.take row.otherSize).Perm (List.range p))

theorem lists_iff {mapping : List ℕ} {size : ℕ} {group : List (Fin p)} (hnodup : group.Nodup) :
    Lists mapping size group ↔ size = group.length ∧ mapping.take size = group.map Fin.val := by
  constructor
  · intro h
    refine ⟨h.size_eq, List.ext_getElem? fun i ↦ ?_⟩
    by_cases hi : i < size
    · rw [List.getElem?_take_of_lt hi, List.getElem?_map, h.rank i hi]
    · rw [List.getElem?_take_eq_none (not_lt.mp hi), eq_comm, List.getElem?_eq_none]
      rw [List.length_map, ← h.size_eq]
      exact not_lt.mp hi
  · rintro ⟨hsize, htake⟩
    have hlength := congrArg List.length htake
    rw [List.length_take, List.length_map] at hlength
    refine ⟨hsize, by omega, fun i hi ↦ ?_, ?_⟩
    · rw [← List.getElem?_map, ← htake, List.getElem?_take_of_lt hi]
    · rw [htake]
      exact hnodup.map Fin.val_injective

/-- A mapping that has the ranks in order is true of a group that is in the order of
`MPI_COMM_WORLD`. -/
theorem lists_range_iff {group : List (Fin p)} (hperm : group.Perm (List.finRange p)) :
    Lists (List.range p) p group ↔ group = List.finRange p := by
  have hlength : p = group.length := by rw [hperm.length_eq, List.length_finRange]
  have htake : (List.range p).take p = List.range p :=
    List.take_of_length_le List.length_range.le
  rw [lists_iff (hperm.nodup_iff.mpr (List.nodup_finRange p)), and_iff_right hlength, htake,
    ← List.map_coe_finRange_eq_range, (List.map_injective_iff.mpr Fin.val_injective).eq_iff,
    eq_comm]

/-- Of a communicator that is not an inter-communicator, the mapping is all there is. -/
theorem mappingTrue_iff {row : CommRow p} {c : MpiComm p} {mapping : List ℕ}
    (hcomm : row.mpiComm = some c) (hmapping : row.mapping = some mapping)
    (hclass : row.commClass ≠ tstMpiInterComm) :
    row.MappingTrue ↔ Lists mapping row.size c.group := by
  constructor
  · exact fun h ↦ (h c mapping hcomm hmapping).1
  · intro h c' mapping' hcomm' hmapping'
    cases hcomm.symm.trans hcomm'
    cases hmapping.symm.trans hmapping'
    exact ⟨h, fun hinter ↦ absurd hinter hclass⟩

theorem mappingTrue_of_isNone {row : CommRow p} (h : row.mapping = none) : row.MappingTrue :=
  fun _ _ _ hmapping ↦ by cases h.symm.trans hmapping

/-! ## The conditions -/

section

variable (mpi : Mpi p) (q : Fin p)

/-- No process of another machine comes before one of this machine. -/
def NodeFirst : Prop := ∀ r s : Fin p, r ≤ s → mpi.node s = mpi.node q → mpi.node r = mpi.node q

/-- When the mapping of a communicator is true, in the order in which they are registered. -/
def mappingConditions (cfg : Config) : List Prop :=
  [True, True, True, True, True, q.val < p / 2]
    ++ (if 1 < p then [mpi.cart 2 = List.finRange p, mpi.cart 3 = List.finRange p] else [])
    ++ [True, mpi.graph = List.finRange p]
    ++ (if 1 < p then [False, mpi.lowFirst = true] else [])
    ++ if 3 ≤ cfg.mpiVersion then [NodeFirst mpi q] else []

variable {mpi} {q}

theorem intra_ne_inter : tstMpiIntraComm ≠ tstMpiInterComm := by decide

theorem mappingTrue_world : (tstCommRegisterCommWorld : CommRow p).MappingTrue :=
  (mappingTrue_iff rfl rfl intra_ne_inter).mpr ((lists_range_iff (.refl _)).mpr rfl)

theorem mappingTrue_duplicate : (tstCommRegisterDuplicateCommWorld : CommRow p).MappingTrue := by
  refine (mappingTrue_iff rfl rfl intra_ne_inter).mpr ?_
  have hlength : (mpiCommWorld : MpiComm p).group.length = p := List.length_finRange
  change Lists (List.range _) _ _
  rw [tstCommRegisterDuplicateCommWorld, hlength]
  exact (lists_range_iff (.refl _)).mpr rfl

theorem mappingTrue_reversed : (tstCommRegisterReversedCommWorld : CommRow p).MappingTrue := by
  refine (mappingTrue_iff rfl rfl intra_ne_inter).mpr ?_
  rw [lists_iff (reversed_perm.nodup_iff.mpr (List.nodup_finRange p))]
  refine ⟨rfl, ?_⟩
  rw [map_val_create lt_of_mem_reversed, tstCommRegisterReversedCommWorld, reversed_perm.length_eq,
    List.length_finRange]
  exact List.take_of_length_le (by rw [List.length_map, List.length_range])

theorem mappingTrue_halved_iff :
    (tstCommRegisterHalvedCommWorld q).MappingTrue ↔ q.val < p / 2 := by
  rw [mappingTrue_iff rfl rfl intra_ne_inter]
  change Lists (List.range (p / 2)) (mpiCommSplit halvesColor Fin.val q).group.length
    (mpiCommSplit halvesColor Fin.val q).group ↔ _
  rw [mpiCommSplit_eq, lists_iff ((List.nodup_finRange p).filter _), and_iff_right rfl]
  constructor
  · intro htake
    by_contra hq
    rw [map_val_high (not_lt.mp hq)] at htake
    have hlast : q.val ∈ List.range' (p / 2) (p - p / 2) := by
      rw [List.mem_range'_1]
      omega
    rw [← htake] at hlast
    exact hq (List.mem_range.mp (List.mem_of_mem_take hlast))
  · intro hq
    have hlength := congrArg List.length (map_val_low hq)
    rw [List.length_map, List.length_range] at hlength
    rw [map_val_low hq, hlength]
    exact List.take_of_length_le List.length_range.le

theorem mappingTrue_parity : (tstCommRegisterOddEvenSplit q).MappingTrue := by
  refine (mappingTrue_iff rfl rfl intra_ne_inter).mpr ?_
  change Lists ((List.range (mpiCommSplit (fun r : Fin p ↦ r.val % 2) Fin.val q).group.length).map
    fun i ↦ i * 2 + q % 2) (mpiCommSplit (fun r : Fin p ↦ r.val % 2) Fin.val q).group.length _
  rw [mpiCommSplit_eq, lists_iff ((List.nodup_finRange p).filter _)]
  refine ⟨rfl, ?_⟩
  rw [map_val_parity]
  exact List.take_of_length_le (by rw [List.length_map, List.length_range])

/-- A topology is listed in the order of `MPI_COMM_WORLD`. -/
theorem mappingTrue_topology_iff {row : CommRow p} {group : List (Fin p)}
    (hcomm : row.mpiComm = some ⟨group, []⟩) (hmapping : row.mapping = some (List.range p))
    (hsize : row.size = p) (hclass : row.commClass ≠ tstMpiInterComm)
    (hperm : group.Perm (List.finRange p)) :
    row.MappingTrue ↔ group = List.finRange p := by
  rw [mappingTrue_iff hcomm hmapping hclass, hsize]
  exact lists_range_iff hperm

/-- The other group of the inter-communicator is not empty, as `other_size` says. -/
theorem not_mappingTrue_inter (hp : 1 < p) : ¬(tstCommRegisterHalvedInterComm q).MappingTrue := by
  intro htrue
  obtain ⟨-, hother⟩ := htrue _ _ rfl rfl
  obtain ⟨otherMapping, -, hlists, -⟩ := hother rfl
  have hsize := hlists.size_eq
  simp only [tstCommRegisterHalvedInterComm, interComm_eq hp, Nat.sub_self] at hsize
  have hnone := List.eq_nil_of_length_eq_zero hsize.symm
  obtain ⟨r, hr⟩ : ∃ r : Fin p, halvesColor r ≠ halvesColor q := by
    by_cases hq : q.val < p / 2
    · exact ⟨⟨p / 2, by omega⟩, (halvesColor_ne_iff _ _).mpr (by simp only; omega)⟩
    · exact ⟨⟨0, by omega⟩, (halvesColor_ne_iff _ _).mpr (by simp only; omega)⟩
  exact List.not_mem_nil (hnone ▸ List.mem_filter.mpr ⟨List.mem_finRange r, decide_eq_true hr⟩)

/-- The halves are merged in the order of `MPI_COMM_WORLD`, or in the other one. -/
theorem map_val_merge (hp : 1 < p) (lowFirst : Bool) (q : Fin p) :
    (mpiIntercommMerge lowFirst
      ⟨(List.finRange p).filter fun r ↦ halvesColor r = halvesColor q,
        (List.finRange p).filter fun r ↦ halvesColor r ≠ halvesColor q⟩).group.map Fin.val
      = if lowFirst then List.range p
        else List.range' (p / 2) (p - p / 2) ++ List.range (p / 2) := by
  have hrange : List.range (p / 2) ++ List.range' (p / 2) (p - p / 2) = List.range p := by
    rw [List.range_eq_range', List.range_eq_range']
    have happend : List.range' 0 (p / 2) ++ List.range' (0 + p / 2) (p - p / 2) = _ :=
      List.range'_append_1
    rwa [zero_add, Nat.add_sub_cancel' (Nat.div_le_self p 2)] at happend
  -- The other half is that of any process in it.
  have hother : ∀ s : Fin p, halvesColor s ≠ halvesColor q →
      (List.finRange p).filter (fun r ↦ halvesColor r ≠ halvesColor q)
        = (List.finRange p).filter fun r ↦ halvesColor r = halvesColor s := by
    intro s hs
    exact List.filter_congr fun t _ ↦ decide_eq_decide.mpr (halvesColor_eq_iff hs t).symm
  have hany : ((List.finRange p).filter fun r ↦ halvesColor r = halvesColor q).any
      (fun r ↦ r.val = 0) = decide (q.val < p / 2) := by
    have hmem : ((List.finRange p).filter fun r ↦ halvesColor r = halvesColor q).any
        (fun r ↦ r.val = 0) = true ↔
        0 ∈ ((List.finRange p).filter fun r ↦ halvesColor r = halvesColor q).map Fin.val := by
      rw [List.any_eq_true, List.mem_map]
      simp only [decide_eq_true_iff]
    rw [Bool.eq_iff_iff, hmem, decide_eq_true_iff]
    by_cases hq : q.val < p / 2
    · rw [map_val_low hq, List.mem_range]
      omega
    · rw [map_val_high (not_lt.mp hq), List.mem_range'_1]
      omega
  rw [mpiIntercommMerge, hany]
  by_cases hq : q.val < p / 2
  · have hs : halvesColor (⟨p / 2, by omega⟩ : Fin p) ≠ halvesColor q :=
      (halvesColor_ne_iff _ _).mpr (by simp only; omega)
    have hhigh := map_val_high (le_refl (⟨p / 2, by omega⟩ : Fin p).val)
    cases lowFirst <;> simp only [hq, decide_true, reduceIte, Bool.true_eq_false,
      Bool.false_eq_true, List.map_append, hother _ hs, hhigh, map_val_low hq, hrange]
  · have hs : halvesColor (⟨0, by omega⟩ : Fin p) ≠ halvesColor q :=
      (halvesColor_ne_iff _ _).mpr (by simp only; omega)
    have hlow := map_val_low (p := p) (q := ⟨0, by omega⟩) (by simp only; omega)
    cases lowFirst <;> simp only [hq, decide_false, reduceIte, Bool.false_eq_true,
      List.map_append, hother _ hs, hlow, map_val_high (not_lt.mp hq), hrange]

theorem mappingTrue_merged_iff (hp : 1 < p) :
    (tstCommRegisterMergedInterComm mpi [tstCommRegisterHalvedInterComm q]).MappingTrue ↔
      mpi.lowFirst = true := by
  have hperm := merge_perm mpi.lowFirst q
  have hlength := hperm.length_eq.trans List.length_finRange
  have hrow : tstCommRegisterMergedInterComm mpi [tstCommRegisterHalvedInterComm q]
      = ⟨"Intracomm merged of the Halved Inter_communicator",
        some (mpiIntercommMerge mpi.lowFirst
          ⟨(List.finRange p).filter fun r ↦ halvesColor r = halvesColor q,
            (List.finRange p).filter fun r ↦ halvesColor r ≠ halvesColor q⟩),
        tstMpiIntraComm, p, some (List.range p), 0, none⟩ := by
    rw [← interComm_eq hp q] at hlength ⊢
    change CommRow.mk _ _ _ (mpiIntercommMerge _ _).group.length
      (some (List.range (mpiIntercommMerge _ _).group.length)) _ _ = _
    rw [hlength]
    rfl
  rw [hrow, mappingTrue_iff rfl rfl intra_ne_inter, lists_range_iff hperm,
    ← (List.map_injective_iff.mpr Fin.val_injective).eq_iff, map_val_merge hp,
    List.map_coe_finRange_eq_range]
  split_ifs with hlow
  · exact iff_of_true rfl hlow
  · refine iff_of_false (fun heq ↦ ?_) hlow
    have hhead := congrArg List.head? heq
    rw [List.head?_append_of_ne_nil _ (by simp; omega), List.head?_range', List.head?_range,
      if_neg (by omega), if_neg (by omega), Option.some_inj] at hhead
    omega

theorem mappingTrue_shared_iff :
    (tstCommRegisterSplitTypeShared mpi q).MappingTrue ↔ NodeFirst mpi q := by
  rw [mappingTrue_iff rfl rfl
    (by decide : tstMpiSharedComm ||| tstMpiIntraComm ≠ tstMpiInterComm)]
  change Lists (List.range (mpiCommSplit mpi.node Fin.val q).group.length)
    (mpiCommSplit mpi.node Fin.val q).group.length (mpiCommSplit mpi.node Fin.val q).group ↔ _
  rw [mpiCommSplit_eq, lists_iff ((List.nodup_finRange p).filter _), and_iff_right rfl,
    List.take_of_length_le List.length_range.le, eq_comm, map_val_filter_eq_range_iff]
  simp only [decide_eq_true_iff]
  rfl

end

/-- **The mappings.** For every number of processes and every caller: what is stored with a
communicator is true exactly under its condition. -/
theorem mappings_true_iff (cfg : Config) (mpi : Mpi p) (q : Fin p) :
    List.Forall₂ (fun row condition ↦ row.MappingTrue ↔ condition) (commRows mpi q cfg)
      (mappingConditions mpi q cfg) := by
  have htrue : ∀ {row : CommRow p}, row.MappingTrue → (row.MappingTrue ↔ True) :=
    fun h ↦ iff_true_intro h
  have hshared : List.Forall₂ (fun (row : CommRow p) condition ↦ row.MappingTrue ↔ condition)
      (if 3 ≤ cfg.mpiVersion then [tstCommRegisterSplitTypeShared mpi q] else [])
      (if 3 ≤ cfg.mpiVersion then [NodeFirst mpi q] else []) := by
    split_ifs
    exacts [.cons mappingTrue_shared_iff .nil, .nil]
  have hgraph : (tstCommRegisterFullyConnectedTopology mpi).MappingTrue ↔
      mpi.graph = List.finRange p :=
    mappingTrue_topology_iff rfl rfl rfl (by decide : tstMpiTopoComm ≠ _) mpi.graph_perm
  have hcart : tstMpiCartComm ≠ tstMpiInterComm := by decide
  by_cases hp : 1 < p
  · have hcart2 : (tstCommRegister2DCartComm mpi).MappingTrue ↔ mpi.cart 2 = List.finRange p :=
      mappingTrue_topology_iff rfl rfl rfl hcart (mpi.cart_perm 2)
    have hcart3 : (tstCommRegister3DCartComm mpi).MappingTrue ↔ mpi.cart 3 = List.finRange p :=
      mappingTrue_topology_iff rfl rfl rfl hcart (mpi.cart_perm 3)
    rw [commRows_of_one_lt mpi q cfg hp, mappingConditions, if_pos hp, if_pos hp]
    refine List.rel_append ?_ hshared
    simp only [List.cons_append, List.nil_append, List.forall₂_cons]
    exact ⟨htrue mappingTrue_world, htrue (mappingTrue_of_isNone rfl),
      htrue (mappingTrue_of_isNone rfl), htrue mappingTrue_duplicate, htrue mappingTrue_reversed,
      mappingTrue_halved_iff, hcart2, hcart3, htrue mappingTrue_parity, hgraph,
      iff_false_intro (not_mappingTrue_inter hp), mappingTrue_merged_iff hp, .nil⟩
  · simp only [commRows, mappingConditions, if_neg hp, List.append_nil]
    refine List.rel_append ?_ hshared
    simp only [List.cons_append, List.nil_append, List.forall₂_cons]
    exact ⟨htrue mappingTrue_world, htrue (mappingTrue_of_isNone rfl),
      htrue (mappingTrue_of_isNone rfl), htrue mappingTrue_duplicate, htrue mappingTrue_reversed,
      mappingTrue_halved_iff, htrue mappingTrue_parity, hgraph, .nil⟩

/-- The second of two processes has a half of its own, and is told that it is process zero. -/
theorem mappings_upper_half :
    ¬∀ (cfg : Config) (p : ℕ) (mpi : Mpi p) (q : Fin p), ∀ row ∈ commRows mpi q cfg,
      row.MappingTrue := by
  intro h
  let mpi : Mpi 2 := ⟨fun _ ↦ 0, fun _ ↦ List.finRange 2, List.finRange 2, true, fun _ ↦ .refl _,
    .refl _⟩
  have hmem : tstCommRegisterHalvedCommWorld 1
      ∈ commRows mpi 1 ⟨3, true, true, true, true, true, true, true, true⟩ := by
    rw [commRows_of_one_lt _ _ _ (by decide)]
    simp only [List.cons_append, List.mem_cons, true_or, or_true]
  obtain ⟨hlists, -⟩ := h _ 2 mpi 1 _ hmem _ _ rfl rfl
  exact absurd (hlists.rank 0 (by decide)) (by decide)

end MpiTestSuite
