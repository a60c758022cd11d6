import MpiTestSuite.Coding.CInt
import MpiTestSuite.P2P.Messages

/-!
# The fully connected graph

`tst_comm_register_fully_connected_topology` makes a communicator in which everybody is the
neighbour of everybody else, and in the test `"Alltoall with topo comm"` every rank exchanges arrays
with its neighbours by `MPI_Sendrecv`, one after the other.

The neighbours of a rank are in increasing order. The exchange of ranks `i` and `j` has level
`i + j`: a rank that waits for it has been through with all its exchanges of lower levels, and has
started none of a higher one.

The entries of the array `index` are of type `int`, though, and the last one is the number of edges.
Up to 46341 processes it is an `int`.
-/

open MpiTestSuite.Runs.Requests

namespace MpiTestSuite

namespace P2P

/-! ## Registration -/

/-- An array of `int`s from `malloc`. There is nothing in its places until something is stored. -/
abbrev IntArray := List (Option ℕ)

/-- An array with values in its first places, and `room` places behind them. -/
def IntArray.filled (values : List ℕ) (room : ℕ) : IntArray :=
  values.map some ++ List.replicate room none

/-- `a[i] = x`, within the array. -/
def IntArray.store (a : IntArray) (i x : ℕ) : Option IntArray :=
  if i < a.length then some (a.set i (some x)) else none

/-- `index[i] = (i+1)*(comm_size-1)`. -/
def graphIndexStep (commSize : ℕ) (index : IntArray) (i : ℕ) : Option IntArray := do
  let x ← checkedInt ((i + 1) * (commSize - 1))
  index.store i x

/-- The first loop, on an array of `comm_size` `int`s. -/
def graphIndex (commSize : ℕ) : Option IntArray :=
  (List.range commSize).foldlM (graphIndexStep commSize) (.filled [] commSize)

/-- The body of the second loop, on `edges` and `num`. -/
def graphEdgesStep (i : ℕ) (state : IntArray × ℕ) (j : ℕ) : Option (IntArray × ℕ) :=
  if j = i then some state
  else do
    let edges ← state.1.store state.2 j
    let num ← checkedInt (state.2 + 1)
    return (edges, num)

/-- The second loop, on an array of `comm_size * (comm_size - 1)` `int`s. -/
def graphEdges (commSize : ℕ) : Option IntArray := do
  let state ← (List.range commSize).foldlM
    (fun state i ↦ (List.range commSize).foldlM (graphEdgesStep i) state)
    (.filled [] (commSize * (commSize - 1)), 0)
  return state.1

/-- The arguments `index` and `edges` of `MPI_Graph_create` in
`tst_comm_register_fully_connected_topology`. -/
def tstCommRegisterFullyConnectedTopology (commSize : ℕ) : Option (IntArray × IntArray) := do
  let index ← graphIndex commSize
  let edges ← graphEdges commSize
  return (index, edges)

/-- Where the edges of a rank begin: where those of the rank before end. -/
def firstEdge (index : IntArray) (rank : ℕ) : Option ℕ :=
  if rank = 0 then some 0 else index[rank - 1]?.join

/-- `MPI_Graph_neighbors`: the edges of a rank, which end at its entry in `index`. -/
def mpiGraphNeighbors (index edges : IntArray) (rank : ℕ) : Option (List ℕ) := do
  let first ← firstEdge index rank
  let last ← index[rank]?.join
  ((edges.drop first).take (last - first)).mapM id

/-! ## The test -/

/-- `MPI_Sendrecv` with a neighbour, in round `j` of the loop. -/
def mpiSendrecv (packet : Packet) (tag : ℤ) (neighbor j : ℕ) : List (Instr ℕ ℤ Packet) :=
  [.send (2 * j) .standard neighbor tag packet, .recv (2 * j + 1) neighbor tag,
    .wait [2 * j, 2 * j + 1]]

/-- The calls of a rank. -/
def graphCalls (packet : Packet) (tag : ℤ) (neighbors : List ℕ) : List (Instr ℕ ℤ Packet) :=
  neighbors.zipIdx.flatMap fun x ↦ mpiSendrecv packet tag x.1 x.2

section

variable (cfg : Config) (t : TypeSlot) (env : Env) (mode : TstMode)

/-- `tst_p2p_alltoall_graph_run` after the calls: the environments that `tst_test_recordfailure` is
called with. -/
def tstP2pAlltoallGraphRun (neighbors : List ℕ) (arrival : ℕ → Option Arrival) :
    Except Stop (List Env) :=
  judgeAll neighbors.zipIdx fun x ↦
    judge env (arrival x.2) x.1 fun a ↦ a.check cfg t env mode "Error in Count" x.1

end

/-! ## The arrays -/

theorem pairwise_others (p i : ℕ) : (others p i).Pairwise (· < ·) :=
  List.pairwise_lt_range.filter _

theorem IntArray.store_filled (values : List ℕ) (room x : ℕ) :
    (filled values (room + 1)).store values.length x = some (filled (values ++ [x]) room) := by
  rw [store, if_pos (by simp [filled])]
  simp [filled, List.replicate_succ]

/-- The first loop stores the ends of the neighbours of each rank. -/
theorem foldlM_graphIndexStep {p : ℕ} (hfits : p * (p - 1) < 2 ^ 31) {k : ℕ} (hk : k ≤ p) :
    (List.range k).foldlM (graphIndexStep p) (.filled [] p)
      = some (.filled ((List.range k).map fun i ↦ (i + 1) * (p - 1)) (p - k)) := by
  induction k with
  | zero => rfl
  | succ k ih =>
    have hentry : (k + 1) * (p - 1) < 2 ^ 31 := (Nat.mul_le_mul_right _ hk).trans_lt hfits
    have hstore := IntArray.store_filled ((List.range k).map fun i ↦ (i + 1) * (p - 1))
      (p - (k + 1)) ((k + 1) * (p - 1))
    rw [List.length_map, List.length_range, show p - (k + 1) + 1 = p - k by omega] at hstore
    rw [List.range_succ, List.foldlM_append, ih (by omega), List.map_append]
    simp [graphIndexStep, checkedInt_of_lt hentry, hstore]

/-- The number of edges is the last entry, so if it is too large, the loop does not get through. -/
theorem graphIndex_eq_none {p : ℕ} (hp : 1 ≤ p) (hoverflow : ¬p * (p - 1) < 2 ^ 31) :
    graphIndex p = none := by
  obtain ⟨k, rfl⟩ : ∃ k, p = k + 1 := ⟨p - 1, by omega⟩
  have hstep : ∀ index, graphIndexStep (k + 1) index k = none := by
    intro index
    rw [graphIndexStep, checkedInt, if_neg hoverflow]
    rfl
  rw [graphIndex, List.range_succ, List.foldlM_append]
  cases (List.range k).foldlM (graphIndexStep (k + 1)) (.filled [] (k + 1)) with
  | none => rfl
  | some index => simp [hstep]

/-- An edge is stored behind those before. -/
theorem graphEdgesStep_of_ne {i j : ℕ} (hj : j ≠ i) (values : List ℕ) (room : ℕ)
    (hfits : values.length + 1 < 2 ^ 31) :
    graphEdgesStep i (.filled values (room + 1), values.length) j
      = some (.filled (values ++ [j]) room, (values ++ [j]).length) := by
  rw [graphEdgesStep, if_neg hj, IntArray.store_filled]
  simp [checkedInt_of_lt hfits]

/-- The edges of one rank. -/
theorem foldlM_graphEdgesStep (i : ℕ) (js values : List ℕ) (room : ℕ)
    (hfits : values.length + (js.filter (· != i)).length < 2 ^ 31) :
    js.foldlM (graphEdgesStep i)
        (.filled values (room + (js.filter (· != i)).length), values.length)
      = some (.filled (values ++ js.filter (· != i)) room,
        (values ++ js.filter (· != i)).length) := by
  induction js generalizing values with
  | nil => simp
  | cons j js ih =>
    rw [List.foldlM_cons]
    by_cases hj : j = i
    · rw [List.filter_cons_of_neg (by simp [hj])] at hfits ⊢
      rw [graphEdgesStep, if_pos hj]
      exact ih values hfits
    · rw [List.filter_cons_of_pos (by simp [hj]), List.length_cons] at hfits ⊢
      have hnext := ih (values ++ [j]) (by simp; omega)
      rw [← Nat.add_assoc, graphEdgesStep_of_ne hj values _ (by omega)]
      simpa using hnext

/-- The edges of several ranks. -/
theorem foldlM_graphEdges {p : ℕ} {is : List ℕ} (his : ∀ i ∈ is, i < p) (values : List ℕ)
    (room : ℕ) (hfits : values.length + is.length * (p - 1) < 2 ^ 31) :
    is.foldlM (fun state i ↦ (List.range p).foldlM (graphEdgesStep i) state)
        (.filled values (room + is.length * (p - 1)), values.length)
      = some (.filled (values ++ is.flatMap (others p)) room,
        (values ++ is.flatMap (others p)).length) := by
  induction is generalizing values with
  | nil => simp
  | cons i is ih =>
    have hlength := length_others (his i List.mem_cons_self)
    rw [List.length_cons, Nat.succ_mul] at hfits ⊢
    have hrow := foldlM_graphEdgesStep i (List.range p) values (room + is.length * (p - 1)) (by
      rw [← others, hlength]
      omega)
    have hrest := ih (fun i hi ↦ his i (List.mem_cons_of_mem _ hi)) (values ++ others p i) (by
      rw [List.length_append, hlength]
      omega)
    rw [← others, hlength, Nat.add_assoc] at hrow
    rw [List.foldlM_cons, hrow, Option.bind_eq_bind, Option.bind_some, hrest, List.flatMap_cons,
      List.append_assoc]

/-- **Registration.** As long as the number of edges is an `int`, both loops stay within their
arrays and fill them. -/
theorem register_eq {p : ℕ} (hfits : p * (p - 1) < 2 ^ 31) :
    tstCommRegisterFullyConnectedTopology p
      = some (.filled ((List.range p).map fun i ↦ (i + 1) * (p - 1)) 0,
        .filled ((List.range p).flatMap (others p)) 0) := by
  have hindex := foldlM_graphIndexStep hfits le_rfl
  have hedges := foldlM_graphEdges (fun i (hi : i ∈ List.range p) ↦ List.mem_range.mp hi) [] 0
    (by simpa using hfits)
  rw [List.length_range, Nat.zero_add] at hedges
  rw [tstCommRegisterFullyConnectedTopology, graphIndex, graphEdges, hindex, Nat.sub_self]
  simp only [List.length_nil] at hedges
  simp [hedges]

/-- A row of a list of rows that all have the same length. -/
theorem take_drop_flatMap {α β : Type*} {l : List α} {f : α → List β} {c : ℕ}
    (hlength : ∀ a ∈ l, (f a).length = c) {i : ℕ} {a : α} (ha : l[i]? = some a) :
    ((l.flatMap f).drop (i * c)).take c = f a := by
  induction l generalizing i with
  | nil => cases ha
  | cons b l ih =>
    have hb := hlength b List.mem_cons_self
    rw [List.flatMap_cons]
    cases i with
    | zero =>
      obtain rfl := Option.some_inj.mp ha
      rw [Nat.zero_mul, List.drop_zero, List.take_left' hb]
    | succ i =>
      rw [Nat.succ_mul, Nat.add_comm, ← List.drop_drop, List.drop_left' hb]
      exact ih (fun a ha ↦ hlength a (List.mem_cons_of_mem b ha)) ha

theorem mapM_id_map_some (values : List ℕ) : (values.map some).mapM id = some values := by
  induction values with
  | nil => rfl
  | cons x values ih => simp [List.mapM_cons, ih]

/-- **Neighbours.** What `MPI_Graph_neighbors` returns for a rank are all the others. -/
theorem mpiGraphNeighbors_eq {p i : ℕ} (hi : i < p) :
    mpiGraphNeighbors (.filled ((List.range p).map fun i ↦ (i + 1) * (p - 1)) 0)
      (.filled ((List.range p).flatMap (others p)) 0) i = some (others p i) := by
  have hentry : ∀ k < p, (IntArray.filled ((List.range p).map fun i ↦ (i + 1) * (p - 1)) 0)[k]?.join
      = some ((k + 1) * (p - 1)) := by
    intro k hk
    simp [IntArray.filled, hk]
  have hfirst : firstEdge (.filled ((List.range p).map fun i ↦ (i + 1) * (p - 1)) 0) i
      = some (i * (p - 1)) := by
    rw [firstEdge]
    split_ifs with hzero
    · rw [hzero, Nat.zero_mul]
    · rw [hentry _ (by omega), Nat.sub_add_cancel (by omega)]
  have hrow := take_drop_flatMap (f := others p) (l := List.range p)
    (fun a ha ↦ length_others (List.mem_range.mp ha)) (i := i) (a := i) (by simp [hi])
  rw [mpiGraphNeighbors, hfirst, hentry i hi, Option.bind_eq_bind, Option.bind_some,
    Option.bind_some, Nat.succ_mul, Nat.add_sub_cancel_left, IntArray.filled, List.replicate_zero,
    List.append_nil, ← List.map_drop, ← List.map_take, hrow, mapM_id_map_some]

/-! ## The exchanges -/

/-- The calls of all ranks. -/
def graphProgram (neighbors : ℕ → List ℕ) (commSize : ℕ) (tag : ℤ) (packet : ℕ → Packet) (r : ℕ) :
    List (Instr ℕ ℤ Packet) :=
  if r < commSize then graphCalls (packet r) tag (neighbors r) else []

section

variable {packet : Packet} {tag : ℤ} {neighbors : List ℕ}

theorem mem_graphCalls {a : Instr ℕ ℤ Packet} :
    a ∈ graphCalls packet tag neighbors ↔ ∃ q j, neighbors[j]? = some q ∧
      (a = .send (2 * j) .standard q tag packet ∨ a = .recv (2 * j + 1) q tag ∨
        a = .wait [2 * j, 2 * j + 1]) := by
  simp [graphCalls, mpiSendrecv, List.mem_zipIdx_iff_getElem?]

/-- Later rounds have larger indices and larger neighbours. -/
theorem pairwise_zipIdx (h : neighbors.Pairwise (· < ·)) :
    neighbors.zipIdx.Pairwise fun x y ↦ x.1 < y.1 ∧ x.2 < y.2 := by
  rw [List.pairwise_iff_getElem] at h ⊢
  intro i j hi hj hij
  rw [List.length_zipIdx] at hi hj
  simpa [hij] using h i j hi hj hij

/-- What holds of any two calls of a round, and of any calls of two rounds, holds of any two calls.
-/
theorem pairwise_graphCalls {R : Instr ℕ ℤ Packet → Instr ℕ ℤ Packet → Prop}
    (h : neighbors.Pairwise (· < ·))
    (hround : ∀ q j, (mpiSendrecv packet tag q j).Pairwise R)
    (hrounds : ∀ q j q' j', q < q' → j < j' → neighbors[j]? = some q →
      ∀ a ∈ mpiSendrecv packet tag q j, ∀ b ∈ mpiSendrecv packet tag q' j', R a b) :
    (graphCalls packet tag neighbors).Pairwise R := by
  rw [graphCalls, List.pairwise_flatMap]
  refine ⟨fun x _ ↦ hround x.1 x.2, (pairwise_zipIdx h).imp_of_mem fun {x y} hx _ hlt ↦ ?_⟩
  exact hrounds x.1 x.2 y.1 y.2 hlt.1 hlt.2 (List.mem_zipIdx_iff_getElem?.mp hx)

theorem slots_graphCalls (h : neighbors.Pairwise (· < ·)) :
    (graphCalls packet tag neighbors).Pairwise fun a b ↦ ∀ i ∈ a.slot?, i ∉ b.slot? := by
  refine pairwise_graphCalls h (fun q j ↦ by simp [mpiSendrecv, Instr.slot?]) ?_
  intro q j q' j' _ hj _ a ha b hb i hi hi'
  simp only [mpiSendrecv, List.mem_cons, List.not_mem_nil, or_false] at ha hb
  rcases ha with rfl | rfl | rfl <;> rcases hb with rfl | rfl | rfl <;>
    simp [Instr.slot?] at hi hi' <;> omega

theorem envelopes_graphCalls (h : neighbors.Pairwise (· < ·)) :
    (graphCalls packet tag neighbors).Pairwise fun a b ↦
      ∀ e ∈ a.envelope?, e ∉ b.envelope? := by
  refine pairwise_graphCalls h (fun q j ↦ by simp [mpiSendrecv, Instr.envelope?]) ?_
  intro q j q' j' hq _ _ a ha b hb e he he'
  simp only [mpiSendrecv, List.mem_cons, List.not_mem_nil, or_false] at ha hb
  rcases ha with rfl | rfl | rfl <;> rcases hb with rfl | rfl | rfl <;>
    simp [Instr.envelope?] at he he' <;> grind

end

section

variable {p : ℕ} {tag : ℤ} {packet : ℕ → Packet}

theorem graphProgram_of_lt {neighbors : ℕ → List ℕ} {r : ℕ} (hr : r < p) :
    graphProgram neighbors p tag packet r = graphCalls (packet r) tag (neighbors r) := if_pos hr

theorem mem_graphProgram {r : ℕ} {a : Instr ℕ ℤ Packet} :
    a ∈ graphProgram (others p) p tag packet r ↔ r < p ∧ ∃ q j, (others p r)[j]? = some q ∧
      (a = .send (2 * j) .standard q tag (packet r) ∨ a = .recv (2 * j + 1) q tag ∨
        a = .wait [2 * j, 2 * j + 1]) := by
  rw [graphProgram]
  split_ifs with hr
  · rw [mem_graphCalls, and_iff_right hr]
  · exact iff_of_false List.not_mem_nil fun h ↦ hr h.1

theorem send_mem_graphProgram {r i : ℕ} {mode : Mode} {q : ℕ} {k : ℤ} {x : Packet} :
    .send i mode q k x ∈ graphProgram (others p) p tag packet r ↔ r < p ∧ mode = .standard ∧
      k = tag ∧ x = packet r ∧ ∃ j, i = 2 * j ∧ (others p r)[j]? = some q := by
  rw [mem_graphProgram]
  refine and_congr_right fun _ ↦ ?_
  simp only [Instr.send.injEq, reduceCtorEq, or_false]
  constructor
  · rintro ⟨q', j, hj, rfl, rfl, rfl, rfl, rfl⟩
    exact ⟨rfl, rfl, rfl, j, rfl, hj⟩
  · rintro ⟨rfl, rfl, rfl, j, rfl, hj⟩
    exact ⟨q, j, hj, rfl, rfl, rfl, rfl, rfl⟩

theorem recv_mem_graphProgram {q i r : ℕ} {k : ℤ} :
    .recv i r k ∈ graphProgram (others p) p tag packet q ↔ q < p ∧ k = tag ∧
      ∃ j, i = 2 * j + 1 ∧ (others p q)[j]? = some r := by
  rw [mem_graphProgram]
  refine and_congr_right fun _ ↦ ?_
  simp only [Instr.recv.injEq, reduceCtorEq, or_false, false_or]
  constructor
  · rintro ⟨r', j, hj, rfl, rfl, rfl⟩
    exact ⟨rfl, j, rfl, hj⟩
  · rintro ⟨rfl, j, rfl, hj⟩
    exact ⟨r, j, hj, rfl, rfl, rfl⟩

theorem exists_getElem?_others {r q : ℕ} :
    (∃ j : ℕ, (others p r)[j]? = some q) ↔ q < p ∧ q ≠ r := by
  rw [← List.mem_iff_getElem?, mem_others]

theorem slots_graphProgram (r : ℕ) : (graphProgram (others p) p tag packet r).Pairwise fun a b ↦
    ∀ i ∈ a.slot?, i ∉ b.slot? := by
  by_cases hr : r < p
  · rw [graphProgram_of_lt hr]
    exact slots_graphCalls (pairwise_others p r)
  · rw [graphProgram, if_neg hr]
    exact .nil

/-- The two parts of an exchange, which are waited for in its round. -/
theorem exists_part {r q j i : ℕ} (hr : r < p) (hj : (others p r)[j]? = some q)
    (hi : i ∈ [2 * j, 2 * j + 1]) :
    ∃ a ∈ graphProgram (others p) p tag packet r, a.slot? = some i ∧
      ∀ m ∈ a.level? (fun r q _ ↦ r + q) r, m = r + q := by
  simp only [List.mem_cons, List.not_mem_nil, or_false] at hi
  rcases hi with rfl | rfl
  · refine ⟨_, send_mem_graphProgram.mpr ⟨hr, rfl, rfl, rfl, j, rfl, hj⟩, rfl, fun m hm ↦ ?_⟩
    exact (Option.some_inj.mp hm).symm
  · refine ⟨_, recv_mem_graphProgram.mpr ⟨hr, rfl, j, rfl, hj⟩, rfl, fun m hm ↦ ?_⟩
    exact (Option.some_inj.mp hm).symm.trans (Nat.add_comm q r)

/-- Whoever waits for an exchange may have to start one with a larger neighbour later. -/
theorem behind_later {r q j q' j' : ℕ} (hr : r < p) (hq : q < q') (hj : j < j')
    (hget : (others p r)[j]? = some q) {b : Instr ℕ ℤ Packet} (hb : b.isBarrier = false)
    (hslot : ∀ i ∈ b.slot?, 2 * j' ≤ i)
    (hlevel : ∀ n ∈ b.level? (fun r q _ ↦ r + q) r, n = r + q') :
    Behind (fun r q _ ↦ r + q) (graphProgram (others p) p tag packet) r
      (.wait [2 * j, 2 * j + 1]) b := by
  refine behind_of_lt (slots_graphProgram r) hb fun i hi ↦ ⟨fun hbi ↦ ?_, ?_⟩
  · have hle := hslot i hbi
    simp only [List.mem_cons, List.not_mem_nil, or_false] at hi
    omega
  · obtain ⟨a, ha, hai, hm⟩ := exists_part hr hget hi
    refine ⟨a, ha, hai, fun m hm' n hn ↦ ?_⟩
    rw [hm m hm', hlevel n hn]
    omega

/-- A rank that waits for an exchange has yet to start those with larger neighbours only. -/
theorem behind_graphProgram (r : ℕ) : (graphProgram (others p) p tag packet r).Pairwise
    (Behind (fun r q _ ↦ r + q) (graphProgram (others p) p tag packet) r) := by
  by_cases hr : r < p
  swap
  · rw [graphProgram, if_neg hr]
    exact .nil
  rw [graphProgram_of_lt hr]
  refine pairwise_graphCalls (pairwise_others p r) (fun q j ↦ ?_) ?_
  · simp only [mpiSendrecv, List.pairwise_cons, List.mem_cons, List.not_mem_nil, or_false,
      forall_eq_or_imp, forall_eq]
    exact ⟨⟨behind_of_slot rfl, behind_of_slot rfl⟩, behind_of_slot rfl, nofun, .nil⟩
  · intro q j q' j' hq hj hget a ha b hb
    simp only [mpiSendrecv, List.mem_cons, List.not_mem_nil, or_false] at ha hb
    rcases ha with rfl | rfl | rfl
    · exact behind_of_slot rfl
    · exact behind_of_slot rfl
    rcases hb with rfl | rfl | rfl
    · exact behind_later hr hq hj hget rfl (fun i hi ↦ (Option.some_inj.mp hi).le)
        fun n hn ↦ (Option.some_inj.mp hn).symm
    · refine behind_later hr hq hj hget rfl (fun i hi ↦ ?_) fun n hn ↦ ?_
      · exact (Nat.le_succ _).trans (Option.some_inj.mp hi).le
      · exact (Option.some_inj.mp hn).symm.trans (Nat.add_comm q' r)
    · exact behind_wait _

/-- The exchange of two ranks has the sum of the ranks as its level. -/
theorem leveled_graphProgram (p : ℕ) (tag : ℤ) (packet : ℕ → Packet) :
    Leveled (fun r q _ ↦ r + q) (graphProgram (others p) p tag packet) := by
  have hnoBarrier : ∀ r, (graphProgram (others p) p tag packet r).countP Instr.isBarrier = 0 := by
    intro r
    refine List.countP_eq_zero.mpr fun a ha ↦ ?_
    obtain ⟨-, q, j, -, rfl | rfl | rfl⟩ := mem_graphProgram.mp ha <;> exact Bool.false_ne_true
  refine ⟨⟨slots_graphProgram, fun r ↦ ?_, fun r q k ↦ ?_⟩, fun r slots hwait i hi ↦ ?_,
    behind_graphProgram, fun r q ↦ by rw [hnoBarrier, hnoBarrier]⟩
  · rw [graphProgram]
    split_ifs
    · exact envelopes_graphCalls (pairwise_others p r)
    · exact .nil
  · simp only [send_mem_graphProgram, recv_mem_graphProgram]
    constructor
    · rintro ⟨i, mode, x, hr, -, rfl, -, j, -, hj⟩
      obtain ⟨hq, hne⟩ := exists_getElem?_others.mp ⟨j, hj⟩
      obtain ⟨j', hj'⟩ := exists_getElem?_others.mpr ⟨hr, hne.symm⟩
      exact ⟨_, hq, rfl, j', rfl, hj'⟩
    · rintro ⟨i, hq, rfl, j, -, hj⟩
      obtain ⟨hr, hne⟩ := exists_getElem?_others.mp ⟨j, hj⟩
      obtain ⟨j', hj'⟩ := exists_getElem?_others.mpr ⟨hq, hne.symm⟩
      exact ⟨_, _, _, hr, rfl, rfl, rfl, j', rfl, hj'⟩
  · obtain ⟨hr, q, j, hj, hwait⟩ := mem_graphProgram.mp hwait
    simp only [reduceCtorEq, false_or, Instr.wait.injEq] at hwait
    subst hwait
    obtain ⟨a, ha, hslot, -⟩ := exists_part hr hj hi
    exact ⟨a, ha, hslot⟩

end

/-! ## Every run -/

/-- What the test promises of a state that is reached with `p` ranks. -/
structure GraphExchanges (cfg : Config) (t : TypeSlot) (env : Env) (mode : TstMode) (p : ℕ)
    (s : State ℕ ℤ Packet) : Prop where
  /-- As long as a rank has something left to do, there is a step. -/
  noDeadlock : ∀ r, s.todo r ≠ [] → ∃ s', Step s s'
  delivered : ∀ d ∈ s.delivered, d.source < p ∧ d.dest < p ∧ d.source ≠ d.dest
  /-- A rank that is through has received one message from each of the others. -/
  once : ∀ r < p, ∀ q < p, r ≠ q → s.todo q = [] →
    s.delivered.countP (fun d ↦ d.source = r ∧ d.dest = q) = 1
  /-- What has been received in a buffer is the array of the neighbour. -/
  array : ∀ q < p, ∀ j r, (others p q)[j]? = some r → ∀ a ∈ arrival? s id q (2 * j + 1),
    a.source = r ∧ IsStandardArray cfg t env.valuesNum.toNat r (a.buffer t env)
  /-- No `ERROR` is raised and no failure is recorded. -/
  quiet : ∀ q < p, s.todo q = [] → tstP2pAlltoallGraphRun cfg t env mode (others p q)
    (fun j ↦ arrival? s id q (2 * j + 1)) = .ok []

/-- What is promised for `p` processes: the arrays of the graph, the neighbours that MPI finds in
them, and all runs of the test. -/
def GraphWorks (cfg : Config) (t : TypeSlot) (env : Env) (mode : TstMode) (p : ℕ) : Prop :=
  ∃ index edges, tstCommRegisterFullyConnectedTopology p = some (index, edges) ∧
    (∀ r < p, mpiGraphNeighbors index edges r = some (others p r)) ∧
    ∃ sendBuffer : ℕ → Memory, (∀ r < p, standardBuffer cfg t env r = some (sendBuffer r)) ∧
      -- a rank without neighbours has no count to hand to MPI
      (∀ r < p, others p r ≠ [] → sendArray cfg t env r = some (.values t env (sendBuffer r))) ∧
      ∀ s, Reachable (graphProgram (fun r ↦ (mpiGraphNeighbors index edges r).getD []) p env.tag
        fun r ↦ .values t env (sendBuffer r)) s → GraphExchanges cfg t env mode p s

theorem graphProgram_congr {neighbors neighbors' : ℕ → List ℕ} {p : ℕ}
    (h : ∀ r < p, neighbors r = neighbors' r) (tag : ℤ) (packet : ℕ → Packet) :
    graphProgram neighbors p tag packet = graphProgram neighbors' p tag packet := by
  funext r
  rw [graphProgram, graphProgram]
  split_ifs with hr
  · rw [h r hr]
  · rfl

section

variable {cfg : Config} {t : TypeSlot} {env : Env} {p : ℕ} {s : State ℕ ℤ Packet}

theorem graphExchanges_of_reachable (ht : t ∈ initTypes cfg) (hnull : t.datatype ≠ .null)
    (hvalues : FitsInt env.valuesNum) (hsize : FitsInt p) (mode : TstMode)
    {sendBuffer : ℕ → Memory}
    (hset : ∀ r : ℕ, standardBuffer cfg t env r = some (sendBuffer r))
    (h : Reachable (graphProgram (others p) p env.tag fun r ↦ .values t env (sendBuffer r)) s) :
    GraphExchanges cfg t env mode p s := by
  have hgenuine := h.genuine
  have hleveled := leveled_graphProgram p env.tag fun r ↦ .values t env (sendBuffer r)
  -- the message from `r` that `q` receives in round `j`
  have harrival : ∀ q < p, ∀ j r, (others p q)[j]? = some r → s.Complete q (2 * j + 1) →
      arrival? s id q (2 * j + 1) = some ⟨r, env.tag, .values t env (sendBuffer r)⟩ := by
    intro q hq j r hj hcomplete
    obtain ⟨hr, hne⟩ := exists_getElem?_others.mp ⟨j, hj⟩
    obtain ⟨j', hj'⟩ := exists_getElem?_others.mpr ⟨hq, hne.symm⟩
    exact arrival?_eq hgenuine hleveled.toPaired
      (send_mem_graphProgram.mpr ⟨hr, rfl, rfl, rfl, j', rfl, hj'⟩)
      (recv_mem_graphProgram.mpr ⟨hq, rfl, j, rfl, hj⟩) hcomplete
  have hcomplete : ∀ q < p, s.todo q = [] → ∀ j r, (others p q)[j]? = some r →
      s.Complete q (2 * j + 1) := by
    intro q hq htodo j r hj
    exact hgenuine.complete_of_todo htodo
      (mem_graphProgram.mpr ⟨hq, r, j, hj, Or.inr (Or.inr rfl)⟩) (by simp)
  refine ⟨fun r ↦ hleveled.exists_step hgenuine, fun d hd ↦ ?_, fun r hr q hq hne htodo ↦ ?_,
    fun q hq j r hj a ha ↦ ?_, fun q hq htodo ↦ judgeAll_eq_nil fun x hx ↦ ?_⟩
  · obtain ⟨mode', hsent⟩ := hgenuine.sent d hd
    obtain ⟨hsource, -, -, -, j, -, hj⟩ := send_mem_graphProgram.mp (hgenuine.mem_of_done hsent)
    obtain ⟨hdest, hne⟩ := exists_getElem?_others.mp ⟨j, hj⟩
    exact ⟨hsource, hdest, hne.symm⟩
  · obtain ⟨j, hj⟩ := exists_getElem?_others.mpr ⟨hr, hne⟩
    refine hgenuine.countP_source hleveled.toPaired
      (recv_mem_graphProgram.mpr ⟨hq, rfl, j, rfl, hj⟩) (hcomplete q hq htodo j r hj)
      (fun d hd ↦ ?_) fun d _ ↦ decide_eq_true_iff
    exact (recv_mem_graphProgram.mp (hgenuine.mem_of_done (hgenuine.received d hd))).2.1
  · rw [harrival q hq j r hj (complete_of_arrival? ha)] at ha
    obtain rfl := Option.some_inj.mp ha
    exact ⟨rfl, Arrival.isStandardArray_buffer ht hnull (hset r) rfl⟩
  · have hj := List.mem_zipIdx_iff_getElem?.mp hx
    show judge env (arrival? s id q (2 * x.2 + 1)) x.1 _ = _
    rw [harrival q hq x.2 x.1 hj (hcomplete q hq htodo x.2 x.1 hj), judge, if_neg (by simp)]
    have hbound := rank_add_values_le hvalues hsize (exists_getElem?_others.mp ⟨x.2, hj⟩).1
    exact Arrival.check_eq_nil ht hnull (hset x.1) rfl mode "Error in Count" (by omega) (by omega)

/-- Up to 46341 processes the number of edges is an `int`. -/
theorem edges_lt_iff {p : ℕ} : p * (p - 1) < 2 ^ 31 ↔ p ≤ 46341 := by
  constructor
  · intro hfits
    by_contra hlarge
    have hle : 46342 * 46341 ≤ p * (p - 1) := Nat.mul_le_mul (by omega) (by omega)
    omega
  · intro hsmall
    calc p * (p - 1) ≤ 46341 * 46340 := Nat.mul_le_mul hsmall (by omega)
      _ < 2 ^ 31 := by norm_num

end

/-- **The graph.** The arrays of the graph are built, the neighbours of every rank are all others in
increasing order, and in every run of the test no rank is ever stuck, every two ranks exchange their
arrays once, and nothing is reported, exactly if there are at most 46341 processes, the array has a
block and, where there is somebody to exchange it with, its length is a count. With more processes
the number of edges, which is the last entry of `index`, is no `int`. -/
theorem graph_works_iff (cfg : Config) (t : TypeSlot) (ht : t ∈ initTypes cfg)
    (hnull : t.datatype ≠ .null) (env : Env) (hvalues : FitsInt env.valuesNum) (mode : TstMode)
    (p : ℕ) (hp : 1 ≤ p) : GraphWorks cfg t env mode p ↔
      p ≤ 46341 ∧ HasBlock t env.valuesNum ∧ (1 < p → 0 ≤ env.valuesNum) := by
  rw [← edges_lt_iff]
  constructor
  · rintro ⟨index, edges, hregister, -, sendBuffer, hset, hsend, -⟩
    refine ⟨?_, hasBlock_of_standardBuffer (hset 0 hp), fun hmany ↦ ?_⟩
    · by_contra hoverflow
      rw [tstCommRegisterFullyConnectedTopology, graphIndex_eq_none hp hoverflow] at hregister
      cases hregister
    · have hother : 1 ∈ others p 0 := mem_others.mpr ⟨hmany, Nat.one_ne_zero⟩
      exact (sendArray_eq_some_iff.mp (hsend 0 hp (List.ne_nil_of_mem hother))).1
  · rintro ⟨hfits, hblock, hcount⟩
    have hsize : FitsInt p := ⟨by omega, by have hsmall := edges_lt_iff.mp hfits; omega⟩
    choose sendBuffer hset using fun r : ℕ ↦ exists_standardBuffer ht hnull hblock r
    refine ⟨_, _, register_eq hfits, fun r hr ↦ mpiGraphNeighbors_eq hr, sendBuffer,
      fun r _ ↦ hset r, fun r hr hne ↦ ?_, fun s h ↦ ?_⟩
    · obtain ⟨q, hq⟩ := List.exists_mem_of_ne_nil _ hne
      have hother := mem_others.mp hq
      exact sendArray_eq_some_iff.mpr ⟨hcount (by omega), _, hset r, rfl⟩
    rw [graphProgram_congr fun r hr ↦ by rw [mpiGraphNeighbors_eq hr, Option.getD_some]] at h
    exact graphExchanges_of_reachable ht hnull hvalues hsize mode hset h

/-- Five processes and three values of `MPI_INT`. -/
theorem graph_works_iff_five :
    GraphWorks ⟨2, true, true, true, true, true, true, true, true⟩ (slotMpi2 6) ⟨29, 9, 6, 3, 0⟩
      .strict 5 ↔ 5 ≤ 46341 ∧ HasBlock (slotMpi2 6) 3 ∧ (1 < 5 → (0 : ℤ) ≤ 3) :=
  graph_works_iff ⟨2, true, true, true, true, true, true, true, true⟩ (slotMpi2 6)
    (by decide +kernel) (by decide +kernel) ⟨29, 9, 6, 3, 0⟩ (by decide) .strict 5 (by decide)

/-- With 46342 processes the graph is not built. -/
theorem graph_overflows :
    ¬GraphWorks ⟨2, true, true, true, true, true, true, true, true⟩ (slotMpi2 6) ⟨29, 9, 6, 3, 0⟩
      .strict 46342 := by
  rintro ⟨index, edges, hregister, -⟩
  rw [tstCommRegisterFullyConnectedTopology, graphIndex_eq_none (by decide) (by decide)]
    at hregister
  cases hregister

end P2P

end MpiTestSuite
