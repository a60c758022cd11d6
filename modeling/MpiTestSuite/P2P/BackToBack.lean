import Mathlib.Data.Fintype.Card
import MpiTestSuite.P2P.Neighbours
import MpiTestSuite.Runs.Numbering
import MpiTestSuite.Runs.Renaming
import MpiTestSuite.Schedule.Barriers

/-!
# Combinations back to back

Between the combinations of a test that asks for no barrier nothing keeps the processes together.
The tag of a combination, the sum of four loop counters, is that of many others, so messages of
different combinations look the same. In tests that name the sender of a message this does no harm,
because messages from one process to another do not overtake each other: a combination receives what
was sent in it, and nobody gets stuck, however far some processes are ahead of others, and also if
the processes of a communicator are in several groups.

This is so for all rings and exchanges that do without a barrier of their own. It is not so for
tests that receive from anybody, which keep apart by a tag that is computed with care.
-/

open MpiTestSuite.Runs MpiTestSuite.Runs.Requests

namespace MpiTestSuite

namespace P2P

variable {p : ℕ}

/-! ## The tests -/

/-- A test that names the senders of its messages. -/
inductive PlainTest
  | neighbour (test : NeighbourTest)
  | alltoall (test : AlltoallTest)

namespace PlainTest

/-- What the names of the functions begin with. -/
def functions : PlainTest → String
  | neighbour test => test.functions
  | alltoall test => test.functions

/-- What a rank sends when `_init` gets through. The buffer is at some address. -/
def init (mpi : Surroundings) (cfg : Config) (t : TypeSlot) (env : Env) (address commRank : ℤ) :
    PlainTest → Option Packet
  | neighbour test => test.init mpi cfg t env address commRank
  | alltoall test => test.packet cfg t env commRank

/-- The sizes of a test are such that its `_init` gets through. -/
def Fits (mpi : Surroundings) (t : TypeSlot) (env : Env) : PlainTest → Prop
  | neighbour test => test.Fits mpi t env
  | alltoall _ => ArrayFits t env.valuesNum

end PlainTest

/-- The tests that do without a barrier of their own. -/
def plainTests : List PlainTest :=
  (allNeighbourTests.filter fun test ↦ !(test.calls true).contains .barrier).map .neighbour
    ++ (alltoallTests.filter fun test ↦ !test.separate).map .alltoall

/-- The test of a combination, if it is one of them. -/
def plainTest? (cfg : Config) (env : Env) : Option PlainTest :=
  (testName cfg env).bind fun name ↦ plainTests.find? fun test ↦ test.functions = name

/-! ## The calls -/

section

variable (w : World p)

/-- A communicator, as the process `q` sees it. -/
def communicatorOf (c : ℤ) (q : Fin p) : Communicator where
  groups :=
    if tstCommGetcommclass w.base.comms c &&& tstMpiIntraComm ≠ 0 then
      .intra (w.group c q).length
    else .inter (w.group c q).length (w.peers c q).length
  commClass := tstCommGetcommclass w.base.comms c
  intra_iff := by
    split_ifs with h
    · exact iff_of_true h rfl
    · exact iff_of_false h Bool.false_ne_true

theorem size_communicatorOf (c : ℤ) (q : Fin p) :
    (communicatorOf w c q).groups.size false = (w.group c q).length := by
  rw [communicatorOf]
  split_ifs <;> rfl

theorem commSize_communicatorOf (c : ℤ) (q : Fin p) :
    (communicatorOf w c q).commSize false = (w.peers c q).length := by
  rw [← w.commSize_eq, Communicator.commSize, World.commSize, communicatorOf]
  dsimp only
  split_ifs <;> rfl

/-- The rank of a process in its group. -/
def rankAt (c : ℤ) (q : Fin p) (h : w.commRank c q < (w.group c q).length) :
    Fin (w.group c q).length := ⟨w.commRank c q, h⟩

/-- The process as a member of the communicator. -/
def memberAt (c : ℤ) (q : Fin p) (h : w.commRank c q < (w.group c q).length) :
    (communicatorOf w c q).Member :=
  ⟨false, (rankAt w c q h).cast (size_communicatorOf w c q).symm⟩

/-- The process that a process means by a rank. -/
def peerAt (c : ℤ) (q : Fin p) (k : ℕ) : Fin p := (w.peers c q)[k]?.getD q

/-- The calls of a process in a combination. Messages are matched by communicator and tag. -/
def PlainTest.calls (env : Env) (packet : Packet) (q : Fin p)
    (h : w.commRank env.comm q < (w.group env.comm q).length) :
    PlainTest → List (Instr (Fin p) (ℤ × ℤ) Packet)
  | neighbour test =>
    (test.program (tstCommGetcommclass w.base.comms env.comm) env.tag (fun _ ↦ packet)
      (rankAt w env.comm q h)).map
        (Instr.rename (fun k : Fin _ ↦ peerAt w env.comm q k) (env.comm, ·))
  | alltoall test =>
    (test.program (communicatorOf w env.comm q) (fun _ ↦ packet) env.tag
      (memberAt w env.comm q h)).map
        (Instr.rename (fun y ↦ peerAt w env.comm q y.2) (env.comm, ·))

/-- What a process does in an iteration of `main`. -/
def exchange (env : Env) (packet : Packet) (q : Fin p) :
    List (Instr (Fin p) (ℤ × ℤ) Packet) :=
  if w.admits q env then
    match plainTest? w.base.cfg env with
    | some test =>
      if h : w.commRank env.comm q < (w.group env.comm q).length then
        test.calls w env packet q h
      else []
    | none => []
  else []

end

/-! ## Ranks and processes -/

section

variable {w : World p} {c : ℤ} {q r : Fin p} {k : ℕ}

theorem peerAt_eq (hk : k < (w.peers c q).length) : peerAt w c q k = (w.peers c q)[k] := by
  rw [peerAt, List.getElem?_eq_getElem hk, Option.getD_some]

theorem peerAt_inj {k' : ℕ} (hk : k < (w.peers c q).length) (hk' : k' < (w.peers c q).length)
    (heq : peerAt w c q k = peerAt w c q k') : k = k' := by
  rw [peerAt_eq hk, peerAt_eq hk'] at heq
  exact (w.nodup c q).getElem_inj_iff.mp heq

/-- The rank of a peer is the one that it is meant by. -/
theorem eq_peerAt_iff (hk : k < (w.peers c q).length) :
    r = peerAt w c q k ↔ r ∈ w.peers c q ∧ w.commRank c r = k := by
  rw [peerAt_eq hk]
  constructor
  · rintro rfl
    have hmem := List.getElem_mem hk
    refine ⟨hmem, ?_⟩
    rw [World.commRank, (w.of_mem_peers c q _ hmem).2.1]
    exact (w.nodup c q).idxOf_getElem k hk
  · rintro ⟨hmem, rfl⟩
    have hgroup := (w.of_mem_peers c q r hmem).2.1
    simp only [World.commRank, hgroup, List.getElem_idxOf]

/-- Everybody is a peer of its peers. -/
theorem mem_peers_comm : r ∈ w.peers c q ↔ q ∈ w.peers c r := by
  have himp : ∀ {q r : Fin p}, r ∈ w.peers c q → q ∈ w.peers c r := fun {q r} h ↦ by
    obtain ⟨hpeers, -, hmem⟩ := w.of_mem_peers c q r h
    exact hpeers ▸ hmem
  exact ⟨himp, himp⟩

theorem commRank_lt (h : w.group c q ≠ []) : w.commRank c q < (w.group c q).length :=
  List.idxOf_lt_length_of_mem (w.mem_group c q h)

end

/-! ## Admission -/

section

variable {cfg : Config} {env : Env} {test : PlainTest}

theorem exists_row_of_plainTest? (h : plainTest? cfg env = some test) :
    test ∈ plainTests ∧ ∃ row, tstTest cfg env.test = some row ∧
      row.functions = some test.functions := by
  obtain ⟨name, hname, hfind⟩ := Option.bind_eq_some_iff.mp h
  obtain ⟨row, hrow, hfunctions⟩ := Option.bind_eq_some_iff.mp hname
  have heq : test.functions = name := by simpa using List.find?_some hfind
  exact ⟨List.mem_of_find?_eq_some hfind, row, hrow, heq ▸ hfunctions⟩

/-- None of these tests asks for more than one process. -/
theorem row_of_plainTest {i : ℤ} {row : Test} (hrow : tstTest cfg i = some row)
    (htest : test ∈ plainTests) (hname : row.functions = some test.functions) :
    row.minCommSize = 1 := by
  rcases tstTest_induction cfg
    (P := fun row ↦ decide (∀ test ∈ plainTests, row.functions = some test.functions →
      row.minCommSize = 1))
    (by simp only [List.forall_mem_cons]; exact ⟨rfl, rfl, rfl, rfl, rfl, rfl, nofun⟩) hrow
    with rfl | h
  · cases hname
  · exact of_decide_eq_true h test htest hname

variable {w : World p}

/-- Who admits a combination has a group. -/
theorem group_ne_nil (h : plainTest? w.base.cfg env = some test) {q : Fin p}
    (hq : w.admits q env = true) : w.group env.comm q ≠ [] := by
  obtain ⟨htest, row, hrow, hname⟩ := exists_row_of_plainTest? h
  obtain ⟨-, hsize⟩ := (tstTestCheckRun_iff (w.setting q) hrow).mp hq
  rw [row_of_plainTest hrow htest hname] at hsize
  exact fun hnil ↦ hsize ((w.commsize_lt_one_iff env.comm q).mpr (.inr (.inr hnil)))

/-- What a process with a group admits, everybody with a group admits. -/
theorem admits_of_group (h : plainTest? w.base.cfg env = some test) {q r : Fin p}
    (hq : w.admits q env = true) (hr : w.group env.comm r ≠ []) : w.admits r env = true := by
  obtain ⟨htest, row, hrow, hname⟩ := exists_row_of_plainTest? h
  obtain ⟨hall, hsize⟩ := (tstTestCheckRun_iff (w.setting q) hrow).mp hq
  refine (tstTestCheckRun_iff (w.setting r) hrow).mpr ⟨hall, ?_⟩
  rw [row_of_plainTest hrow htest hname] at hsize ⊢
  intro hlt
  refine hsize ((w.commsize_lt_one_iff env.comm q).mpr ?_)
  rcases (w.commsize_lt_one_iff env.comm r).mp hlt with hneg | hnull | hnil
  · exact .inl hneg
  · exact .inr (.inl hnull)
  · exact absurd hnil hr

end

/-! ## What is sent and received -/

section

variable {w : World p} {env : Env} {packet : Packet} {q : Fin p}
  {h : w.commRank env.comm q < (w.group env.comm q).length} {i j : ℕ} {mode : Mode} {q' : Fin p}
  {k : ℤ × ℤ} {x : Packet}

section

variable {test : NeighbourTest} (hproper : test.Proper)
  (hclass : tstCommGetcommclass w.base.comms env.comm &&& (tstMpiCommSelf ||| tstMpiIntraComm) ≠ 0)
  (hself : tstCommGetcommclass w.base.comms env.comm &&& tstMpiCommSelf ≠ 0 →
    (w.group env.comm q).length = 1)

include hproper hclass hself

theorem send_mem_neighbour :
    .send i mode q' k x ∈ (PlainTest.neighbour test).calls w env packet q h ↔
      test.Linked (tstCommGetcommclass w.base.comms env.comm) (w.group env.comm q).length ∧
        i = 0 ∧ mode = test.mode ∧
        q' = peerAt w env.comm q ((w.commRank env.comm q + 1) % (w.group env.comm q).length) ∧
        k = (env.comm, env.tag) ∧ x = packet := by
  simp only [PlainTest.calls, List.mem_map, Instr.rename_eq_send]
  constructor
  · rintro ⟨a, ha, q', k, rfl, rfl, rfl⟩
    obtain ⟨hlinked, rfl, rfl, rfl, rfl, rfl⟩ :=
      (NeighbourTest.send_mem_program hclass hself hproper).mp ha
    exact ⟨hlinked, rfl, rfl, rfl, rfl, rfl⟩
  · rintro ⟨hlinked, rfl, rfl, rfl, rfl, rfl⟩
    exact ⟨_, (NeighbourTest.send_mem_program hclass hself hproper).mpr
      ⟨hlinked, rfl, rfl, rfl, rfl, rfl⟩, _, _, rfl, rfl, rfl⟩

theorem recv_mem_neighbour :
    .recv j q' k ∈ (PlainTest.neighbour test).calls w env packet q h ↔
      test.Linked (tstCommGetcommclass w.base.comms env.comm) (w.group env.comm q).length ∧
        j = 1 ∧
        q' = peerAt w env.comm q ((w.commRank env.comm q + (w.group env.comm q).length - 1)
          % (w.group env.comm q).length) ∧
        k = (env.comm, env.tag) := by
  simp only [PlainTest.calls, List.mem_map, Instr.rename_eq_recv]
  constructor
  · rintro ⟨a, ha, q', k, rfl, rfl, rfl⟩
    obtain ⟨hlinked, rfl, rfl, rfl⟩ :=
      (NeighbourTest.recv_mem_program hclass hself hproper).mp ha
    exact ⟨hlinked, rfl, rfl, rfl⟩
  · rintro ⟨hlinked, rfl, rfl, rfl⟩
    exact ⟨_, (NeighbourTest.recv_mem_program hclass hself hproper).mpr
      ⟨hlinked, rfl, rfl, rfl⟩, _, _, rfl, rfl, rfl⟩

end

section

variable {test : AlltoallTest}

theorem send_mem_alltoall :
    .send i mode q' k x ∈ (PlainTest.alltoall test).calls w env packet q h ↔
      mode = test.mode ∧ k = (env.comm, env.tag) ∧ x = packet ∧
        ∃ n < (w.peers env.comm q).length, i = 2 * n ∧ q' = peerAt w env.comm q n := by
  simp only [PlainTest.calls, List.mem_map, Instr.rename_eq_send]
  constructor
  · rintro ⟨a, ha, y, k, rfl, rfl, rfl⟩
    obtain ⟨rfl, rfl, rfl, n, rfl, rfl⟩ := AlltoallTest.send_mem_program.mp ha
    exact ⟨rfl, rfl, rfl, n, n.isLt.trans_eq (commSize_communicatorOf w _ _), rfl, rfl⟩
  · rintro ⟨rfl, rfl, rfl, n, hn, rfl, rfl⟩
    exact ⟨_, AlltoallTest.send_mem_program.mpr ⟨rfl, rfl, rfl,
      ⟨n, hn.trans_eq (commSize_communicatorOf w _ _).symm⟩, rfl, rfl⟩, _, _, rfl, rfl, rfl⟩

theorem recv_mem_alltoall :
    .recv j q' k ∈ (PlainTest.alltoall test).calls w env packet q h ↔
      k = (env.comm, env.tag) ∧
        ∃ n < (w.peers env.comm q).length, j = 2 * n + 1 ∧
          q' = peerAt w env.comm q ((w.peers env.comm q).length - n - 1) := by
  have hrev : ∀ n : Fin ((communicatorOf w env.comm q).commSize false),
      (n.rev : ℕ) = (w.peers env.comm q).length - n - 1 := fun n ↦ by
    have hsize := commSize_communicatorOf w env.comm q
    rw [Fin.val_rev]
    omega
  simp only [PlainTest.calls, List.mem_map, Instr.rename_eq_recv]
  constructor
  · rintro ⟨a, ha, y, k, rfl, rfl, rfl⟩
    obtain ⟨rfl, n, rfl, rfl⟩ := AlltoallTest.recv_mem_program.mp ha
    exact ⟨rfl, n, n.isLt.trans_eq (commSize_communicatorOf w _ _), rfl,
      congrArg (peerAt w env.comm q) (hrev n)⟩
  · rintro ⟨rfl, n, hn, rfl, rfl⟩
    have hlt := hn.trans_eq (commSize_communicatorOf w env.comm q).symm
    exact ⟨_, AlltoallTest.recv_mem_program.mpr ⟨rfl, ⟨n, hlt⟩, rfl, rfl⟩, _, _, rfl,
      congrArg (peerAt w env.comm q) (hrev ⟨n, hlt⟩), rfl⟩

end

/-! ## Levels -/

/-- The levels of the messages of a test. -/
def PlainTest.level (w : World p) (env : Env) : PlainTest → Fin p → Fin p → ℤ × ℤ → ℕ
  | neighbour _, r, _, _ => w.commRank env.comm r
  | alltoall _, _, _, _ => 0

section

variable {test : NeighbourTest} (hproper : test.Proper)
  (hclass : tstCommGetcommclass w.base.comms env.comm &&& (tstMpiCommSelf ||| tstMpiIntraComm) ≠ 0)
  (hself : tstCommGetcommclass w.base.comms env.comm &&& tstMpiCommSelf ≠ 0 →
    (w.group env.comm q).length = 1)

include hclass in
/-- Neighbours are in one group. -/
theorem peers_of_linked {n : ℕ}
    (hlinked : test.Linked (tstCommGetcommclass w.base.comms env.comm) n) (q : Fin p) :
    w.peers env.comm q = w.group env.comm q := by
  refine w.peers_of_intra env.comm q fun hzero ↦ hclass ?_
  rw [BitVec.and_or_distrib_left, hlinked.1, hzero]
  rfl

include hproper hclass hself in
theorem part_neighbour (hbarrier : .barrier ∉ test.calls true) :
    Part ((PlainTest.neighbour test).level w env) q
      ((PlainTest.neighbour test).calls w env packet q h) := by
  have hnone : ∀ zero, (test.calls zero).count .barrier = 0 := by
    intro zero
    cases zero with
    | true => exact List.count_eq_zero.mpr hbarrier
    | false => exact hproper.barriers.symm.trans (List.count_eq_zero.mpr hbarrier)
  have hleveled : Leveled (fun (y : Fin (w.group env.comm q).length) _ _ ↦ (y : ℕ))
      (test.program (tstCommGetcommclass w.base.comms env.comm) env.tag fun _ ↦ packet) :=
    NeighbourTest.leveled hclass hself hproper
  have hcount : (test.program (tstCommGetcommclass w.base.comms env.comm) env.tag
      (fun _ ↦ packet) (rankAt w env.comm q h)).countP Instr.isBarrier = 0 :=
    (NeighbourTest.countP_barrier_program hclass hself).trans (hnone _)
  have hpart := hleveled.part (rankAt w env.comm q h) fun a ha ↦
    Bool.eq_false_iff.mpr (List.countP_eq_zero.mp hcount a ha)
  -- who is meant is in the group
  have hlinked : ∀ a ∈ test.program (tstCommGetcommclass w.base.comms env.comm) env.tag
      (fun _ ↦ packet) (rankAt w env.comm q h), ∀ e ∈ a.envelope?,
      w.peers env.comm q = w.group env.comm q := by
    intro a ha e he
    obtain ⟨d, y, k⟩ := e
    cases d with
    | true =>
      obtain ⟨i, mode, x, rfl⟩ := Instr.mem_envelope?_send.mp he
      exact peers_of_linked hclass
        ((NeighbourTest.send_mem_program hclass hself hproper).mp ha).1 q
    | false =>
      obtain ⟨j, rfl⟩ := Instr.mem_envelope?_recv.mp he
      exact peers_of_linked hclass
        ((NeighbourTest.recv_mem_program hclass hself hproper).mp ha).1 q
  refine hpart.rename (Prod.mk_right_injective env.comm) ?_ fun a ha ↦ ?_
  · rintro y ⟨a, ha, d, k, he⟩ z - heq
    have hpeers := hlinked a ha _ he
    exact Fin.ext (peerAt_inj (y.isLt.trans_eq (by rw [hpeers])) (z.isLt.trans_eq (by rw [hpeers]))
      heq)
  · cases a with
    | send => rfl
    | recv slot source key =>
      have hpeers := hlinked _ ha _ rfl
      have hlt : (source : ℕ) < (w.peers env.comm q).length := source.isLt.trans_eq (by rw [hpeers])
      exact congrArg some ((eq_peerAt_iff hlt).mp rfl).2
    | wait => rfl
    | barrier => rfl

end

theorem part_alltoall {test : AlltoallTest} (hseparate : test.separate = false) :
    Part ((PlainTest.alltoall test).level w env) q
      ((PlainTest.alltoall test).calls w env packet q h) := by
  have hleveled : Leveled (fun _ _ _ ↦ 0) (test.program (communicatorOf w env.comm q)
      (fun _ ↦ packet) env.tag) := AlltoallTest.leveled_program
  have hpart := hleveled.part (memberAt w env.comm q h) fun a ha ↦ by
    cases a with
    | barrier => rw [AlltoallTest.barrier_mem_program, hseparate] at ha; cases ha
    | _ => rfl
  have hpeer : ∀ a ∈ test.program (communicatorOf w env.comm q) (fun _ ↦ packet) env.tag
      (memberAt w env.comm q h), ∀ e ∈ a.envelope?,
      ∃ n, e.2.1 = (communicatorOf w env.comm q).peer (memberAt w env.comm q h) n := by
    intro a ha e he
    obtain ⟨d, y, k⟩ := e
    cases d with
    | true =>
      obtain ⟨i, mode, x, rfl⟩ := Instr.mem_envelope?_send.mp he
      obtain ⟨-, -, -, n, -, hy⟩ := AlltoallTest.send_mem_program.mp ha
      exact ⟨n, hy⟩
    | false =>
      obtain ⟨j, rfl⟩ := Instr.mem_envelope?_recv.mp he
      obtain ⟨-, n, -, hy⟩ := AlltoallTest.recv_mem_program.mp ha
      exact ⟨n.rev, hy⟩
  refine hpart.rename (Prod.mk_right_injective env.comm) ?_ fun a _ ↦ by cases a <;> rfl
  rintro y ⟨a, ha, d, k, he⟩ z ⟨b, hb, d', k', he'⟩ heq
  obtain ⟨n, rfl⟩ := hpeer a ha _ he
  obtain ⟨n', rfl⟩ := hpeer b hb _ he'
  have hsize := commSize_communicatorOf w env.comm q
  exact congrArg _ (Fin.ext (peerAt_inj (n.isLt.trans_eq hsize) (n'.isLt.trans_eq hsize) heq))

end

/-! ## The exchange of a combination -/

/-- What MPI and the registration promise of the groups. -/
structure WellGrouped (w : World p) : Prop where
  nodup : ∀ c q, (w.group c q).Nodup
  /-- In a communicator like `MPI_COMM_SELF` everybody is alone. -/
  alone : ∀ c q, tstCommGetcommclass w.base.comms c &&& tstMpiCommSelf ≠ 0 →
    (w.group c q).length ≤ 1

theorem cases_plainTests {test : PlainTest} (htest : test ∈ plainTests) :
    (∃ t ∈ allNeighbourTests, test = .neighbour t ∧ .barrier ∉ t.calls true) ∨
      ∃ t ∈ alltoallTests, test = .alltoall t ∧ t.separate = false := by
  rcases List.mem_append.mp htest with hmem | hmem
  · obtain ⟨t, ht, rfl⟩ := List.mem_map.mp hmem
    obtain ⟨ht, hbarrier⟩ := List.mem_filter.mp ht
    exact .inl ⟨t, ht, rfl, by simpa using hbarrier⟩
  · obtain ⟨t, ht, rfl⟩ := List.mem_map.mp hmem
    obtain ⟨ht, hseparate⟩ := List.mem_filter.mp ht
    exact .inr ⟨t, ht, rfl, by simpa using hseparate⟩

section

variable {w : World p} {env : Env} {test : PlainTest} {q r : Fin p}

theorem exchange_eq (h : plainTest? w.base.cfg env = some test) (hq : w.admits q env = true)
    (packet : Packet) : exchange w env packet q
      = test.calls w env packet q (commRank_lt (group_ne_nil h hq)) := by
  rw [exchange, if_pos hq, h]
  exact dif_pos _

theorem mem_exchange {packet : Packet} {a : Instr (Fin p) (ℤ × ℤ) Packet} :
    a ∈ exchange w env packet q ↔ ∃ test, plainTest? w.base.cfg env = some test ∧
      w.admits q env = true ∧ ∃ h, a ∈ test.calls w env packet q h := by
  constructor
  · intro ha
    rw [exchange] at ha
    by_cases hq : w.admits q env = true
    · rw [if_pos hq] at ha
      cases htest : plainTest? w.base.cfg env with
      | some test =>
        rw [htest] at ha
        by_cases h : w.commRank env.comm q < (w.group env.comm q).length
        · exact ⟨test, rfl, hq, h, by simpa only [dif_pos h] using ha⟩
        · simp only [dif_neg h, List.not_mem_nil] at ha
      | none => simp only [htest, List.not_mem_nil] at ha
    · rw [if_neg hq] at ha
      cases ha
  · rintro ⟨test, htest, hq, h, ha⟩
    rwa [exchange_eq htest hq]

/-- The communicators of the rings. -/
theorem class_of_neighbour {t : NeighbourTest} (ht : t ∈ allNeighbourTests)
    (h : plainTest? w.base.cfg env = some (.neighbour t)) (hq : w.admits q env = true) :
    tstCommGetcommclass w.base.comms env.comm &&& (tstMpiCommSelf ||| tstMpiIntraComm) ≠ 0 := by
  obtain ⟨-, row, hrow, hname⟩ := exists_row_of_plainTest? h
  have hclass := ((tstTestCheckRun_iff (w.setting q) hrow).mp hq).1.2.1
  rwa [runWithComm_neighbours hrow ht hname] at hclass

theorem length_of_self (hgroups : WellGrouped w) (h : plainTest? w.base.cfg env = some test)
    (hq : w.admits q env = true)
    (hclass : tstCommGetcommclass w.base.comms env.comm &&& tstMpiCommSelf ≠ 0) :
    (w.group env.comm q).length = 1 := by
  have hle := hgroups.alone env.comm q hclass
  have hpos := List.length_pos_iff.mpr (group_ne_nil h hq)
  omega

/-- The process `r` sends to `q`. -/
def Meets (w : World p) (env : Env) (r q : Fin p) : PlainTest → Prop
  | .neighbour test => q ∈ w.peers env.comm r ∧
      test.Linked (tstCommGetcommclass w.base.comms env.comm) (w.group env.comm r).length ∧
      w.commRank env.comm q = (w.commRank env.comm r + 1) % (w.group env.comm r).length
  | .alltoall _ => q ∈ w.peers env.comm r

theorem Meets.mem_peers (h : Meets w env r q test) : q ∈ w.peers env.comm r := by
  cases test with
  | neighbour => exact h.1
  | alltoall => exact h

variable (hgroups : WellGrouped w) {packet : Packet} {k : ℤ × ℤ}

include hgroups

/-- Who sends to whom. -/
theorem send_mem_exchange :
    (∃ i mode x, .send i mode q k x ∈ exchange w env packet r) ↔
      ∃ test, plainTest? w.base.cfg env = some test ∧ w.admits r env = true ∧
        k = (env.comm, env.tag) ∧ Meets w env r q test := by
  have hmod : ∀ n, w.group env.comm r ≠ [] → n % (w.group env.comm r).length
      < (w.group env.comm r).length := fun n h ↦ Nat.mod_lt n (List.length_pos_iff.mpr h)
  simp only [mem_exchange]
  constructor
  · rintro ⟨i, mode, x, test, htest, hr, hrank, ha⟩
    refine ⟨test, htest, hr, ?_⟩
    rcases cases_plainTests (exists_row_of_plainTest? htest).1 with
      ⟨t, ht, rfl, -⟩ | ⟨t, ht, rfl, -⟩
    · have hclass := class_of_neighbour ht htest hr
      obtain ⟨hlinked, -, -, hq, hk, -⟩ := (send_mem_neighbour (proper_of_mem ht) hclass
        (length_of_self hgroups htest hr)).mp ha
      obtain ⟨hmem, hrank⟩ := (eq_peerAt_iff (by
        rw [peers_of_linked hclass hlinked]
        exact hmod _ (group_ne_nil htest hr))).mp hq
      exact ⟨hk, hmem, hlinked, hrank⟩
    · obtain ⟨-, hk, -, n, hn, -, hq⟩ := send_mem_alltoall.mp ha
      exact ⟨hk, ((eq_peerAt_iff hn).mp hq).1⟩
  · rintro ⟨test, htest, hr, hk, hmeets⟩
    have hrank := commRank_lt (group_ne_nil htest hr)
    rcases cases_plainTests (exists_row_of_plainTest? htest).1 with
      ⟨t, ht, rfl, -⟩ | ⟨t, ht, rfl, -⟩
    · have hclass := class_of_neighbour ht htest hr
      obtain ⟨hmem, hlinked, hnext⟩ := hmeets
      have hlt := (hmod (w.commRank env.comm r + 1) (group_ne_nil htest hr)).trans_eq
        (congrArg List.length (peers_of_linked hclass hlinked r).symm)
      exact ⟨0, t.mode, packet, _, htest, hr, hrank, (send_mem_neighbour (proper_of_mem ht) hclass
        (length_of_self hgroups htest hr)).mpr
          ⟨hlinked, rfl, rfl, (eq_peerAt_iff hlt).mpr ⟨hmem, hnext⟩, hk, rfl⟩⟩
    · have hlt : w.commRank env.comm q < (w.peers env.comm r).length := by
        rw [World.commRank, (w.of_mem_peers _ _ _ hmeets).2.1]
        exact List.idxOf_lt_length_of_mem hmeets
      exact ⟨_, t.mode, packet, _, htest, hr, hrank, send_mem_alltoall.mpr
        ⟨rfl, hk, rfl, _, hlt, rfl, (eq_peerAt_iff hlt).mpr ⟨hmeets, rfl⟩⟩⟩

/-- Who receives from whom. -/
theorem recv_mem_exchange :
    (∃ j, .recv j r k ∈ exchange w env packet q) ↔
      ∃ test, plainTest? w.base.cfg env = some test ∧ w.admits q env = true ∧
        k = (env.comm, env.tag) ∧ Meets w env r q test := by
  have hprevious : ∀ t, t ∈ allNeighbourTests →
      plainTest? w.base.cfg env = some (.neighbour t) → w.admits q env = true →
      t.Linked (tstCommGetcommclass w.base.comms env.comm) (w.group env.comm q).length →
      (r = peerAt w env.comm q ((w.commRank env.comm q + (w.group env.comm q).length - 1)
        % (w.group env.comm q).length) ↔ Meets w env r q (.neighbour t)) := by
    intro t ht htest hq hlinked
    have hpeers := peers_of_linked (class_of_neighbour ht htest hq) hlinked
    have hpos := List.length_pos_iff.mpr (group_ne_nil htest hq)
    have hlt := (Nat.mod_lt (w.commRank env.comm q + (w.group env.comm q).length - 1)
      hpos).trans_eq (congrArg List.length (hpeers q).symm)
    rw [eq_peerAt_iff hlt, mem_peers_comm]
    refine and_congr_right fun hmem ↦ ?_
    have hgroup : w.group env.comm r = w.group env.comm q := by
      rw [← (w.of_mem_peers _ _ _ hmem).1, hpeers]
    have hrank := commRank_lt (hgroup ▸ group_ne_nil htest hq : w.group env.comm r ≠ [])
    rw [hgroup] at hrank ⊢
    rw [and_iff_right hlinked]
    exact (next_eq_iff hrank (commRank_lt (group_ne_nil htest hq))).symm
  simp only [mem_exchange]
  constructor
  · rintro ⟨j, test, htest, hq, hrank, ha⟩
    refine ⟨test, htest, hq, ?_⟩
    rcases cases_plainTests (exists_row_of_plainTest? htest).1 with
      ⟨t, ht, rfl, -⟩ | ⟨t, ht, rfl, -⟩
    · obtain ⟨hlinked, -, hr, hk⟩ := (recv_mem_neighbour (proper_of_mem ht)
        (class_of_neighbour ht htest hq) (length_of_self hgroups htest hq)).mp ha
      exact ⟨hk, (hprevious t ht htest hq hlinked).mp hr⟩
    · obtain ⟨hk, n, hn, -, hr⟩ := recv_mem_alltoall.mp ha
      exact ⟨hk, mem_peers_comm.mp ((eq_peerAt_iff (by omega)).mp hr).1⟩
  · rintro ⟨test, htest, hq, hk, hmeets⟩
    have hrank := commRank_lt (group_ne_nil htest hq)
    rcases cases_plainTests (exists_row_of_plainTest? htest).1 with
      ⟨t, ht, rfl, -⟩ | ⟨t, ht, rfl, -⟩
    · have hclass := class_of_neighbour ht htest hq
      have hgroup : w.group env.comm r = w.group env.comm q := by
        rw [(w.of_mem_peers _ _ _ hmeets.1).2.1, peers_of_linked hclass hmeets.2.1]
      have hlinked := hmeets.2.1
      rw [hgroup] at hlinked
      exact ⟨1, _, htest, hq, hrank, (recv_mem_neighbour (proper_of_mem ht) hclass
        (length_of_self hgroups htest hq)).mpr
          ⟨hlinked, rfl, (hprevious t ht htest hq hlinked).mpr hmeets, hk⟩⟩
    · have hmem : r ∈ w.peers env.comm q := mem_peers_comm.mp hmeets
      have hlt : w.commRank env.comm r < (w.peers env.comm q).length := by
        rw [World.commRank, (w.of_mem_peers _ _ _ hmem).2.1]
        exact List.idxOf_lt_length_of_mem hmem
      refine ⟨_, _, htest, hq, hrank, recv_mem_alltoall.mpr ⟨hk,
        (w.peers env.comm q).length - w.commRank env.comm r - 1, by omega, rfl, ?_⟩⟩
      exact (eq_peerAt_iff (by omega)).mpr ⟨hmem, by omega⟩

/-- **Partners.** A process sends to another exactly if that one has a receive for it. -/
theorem partner_exchange (packet : Fin p → Packet) :
    (∃ i mode x, .send i mode q k x ∈ exchange w env (packet r) r) ↔
      ∃ j, .recv j r k ∈ exchange w env (packet q) q := by
  rw [send_mem_exchange hgroups, recv_mem_exchange hgroups]
  refine exists_congr fun test ↦ and_congr_right fun htest ↦ ?_
  have hadmits : Meets w env r q test → (w.admits r env = true ↔ w.admits q env = true) := by
    intro hmeets
    obtain ⟨hpeers, hgroup, hmem⟩ := w.of_mem_peers _ _ _ hmeets.mem_peers
    exact ⟨fun hr ↦ admits_of_group htest hr (hgroup ▸ List.ne_nil_of_mem hmeets.mem_peers),
      fun hq ↦ admits_of_group htest hq (List.ne_nil_of_mem hmem)⟩
  constructor
  · rintro ⟨hr, hk, hmeets⟩
    exact ⟨(hadmits hmeets).mp hr, hk, hmeets⟩
  · rintro ⟨hq, hk, hmeets⟩
    exact ⟨(hadmits hmeets).mpr hq, hk, hmeets⟩

/-! ## Levels of a combination -/

omit hgroups

/-- The levels of the messages of a combination. -/
def levelAt (w : World p) (env : Env) : Fin p → Fin p → ℤ × ℤ → ℕ :=
  match plainTest? w.base.cfg env with
  | some test => test.level w env
  | none => fun _ _ _ ↦ 0

theorem levelAt_le (w : World p) (env : Env) (r q : Fin p) (k : ℤ × ℤ) :
    levelAt w env r q k ≤ w.commRank env.comm r := by
  rw [levelAt]
  cases plainTest? w.base.cfg env with
  | some test => cases test <;> simp [PlainTest.level]
  | none => exact Nat.zero_le _

/-- Ranks are below the number of processes. -/
theorem Meets.commRank_lt (h : Meets w env r q test) : w.commRank env.comm r < p := by
  obtain ⟨hpeers, -, hmem⟩ := w.of_mem_peers _ _ _ h.mem_peers
  calc w.commRank env.comm r < (w.group env.comm r).length := List.idxOf_lt_length_of_mem hmem
    _ = (w.peers env.comm q).length := by rw [hpeers]
    _ ≤ Fintype.card (Fin p) := (w.nodup _ _).length_le_card
    _ = p := Fintype.card_fin p

include hgroups

theorem part_exchange : Part (levelAt w env) q (exchange w env packet q) := by
  by_cases hq : w.admits q env = true
  · cases htest : plainTest? w.base.cfg env with
    | some test =>
      rw [exchange_eq htest hq, levelAt, htest]
      rcases cases_plainTests (exists_row_of_plainTest? htest).1 with
        ⟨t, ht, rfl, hbarrier⟩ | ⟨t, -, rfl, hseparate⟩
      · exact part_neighbour (proper_of_mem ht) (class_of_neighbour ht htest hq)
          (length_of_self hgroups htest hq) hbarrier
      · exact part_alltoall hseparate
    | none =>
      rw [exchange, if_pos hq, htest]
      exact .nil
  · rw [exchange, if_neg hq]
    exact .nil

/-- The exchange of a combination has levels, below the number of processes. -/
theorem leveled_exchange (packet : Fin p → Packet) :
    Leveled (levelAt w env) (fun q ↦ exchange w env (packet q) q) :=
  .of_parts (fun _ ↦ part_exchange hgroups) fun _ _ _ ↦ partner_exchange hgroups packet

theorem level_lt {a : Instr (Fin p) (ℤ × ℤ) Packet} (ha : a ∈ exchange w env packet q) {m : ℕ}
    (hm : m ∈ a.level? (levelAt w env) q) : m < p := by
  cases a with
  | send slot mode dest key x =>
    obtain rfl := Option.some_inj.mp hm
    obtain ⟨test, -, -, -, hmeets⟩ := (send_mem_exchange hgroups).mp ⟨_, _, _, ha⟩
    exact (levelAt_le w env q dest key).trans_lt hmeets.commRank_lt
  | recv slot source key =>
    obtain rfl := Option.some_inj.mp hm
    obtain ⟨test, -, -, -, hmeets⟩ := (recv_mem_exchange hgroups).mp ⟨_, ha⟩
    exact (levelAt_le w env source q key).trans_lt hmeets.commRank_lt
  | wait => cases hm
  | barrier => cases hm

end

/-! ## What is checked -/

/-- The function `_run` of a test after the calls of a process, given what has been received in each
slot: the environments that `tst_test_recordfailure` is called with. -/
def PlainTest.run (w : World p) (t : TypeSlot) (env : Env) (checkBuffer : ℕ → Memory)
    (packet : Packet) (q : Fin p) (h : w.commRank env.comm q < (w.group env.comm q).length)
    (arrival : ℕ → Option Arrival) : PlainTest → Except Stop (List Env)
  | neighbour test =>
    test.run w.base.cfg t env w.base.mode (checkBuffer 0)
      (tstCommGetcommclass w.base.comms env.comm) (w.commRank env.comm q)
      (w.group env.comm q).length (arrival 1)
  | alltoall test =>
    test.run w.base.cfg t env w.base.mode (w.commSize env.comm q) checkBuffer
      (test.program (communicatorOf w env.comm q) (fun _ ↦ packet) env.tag
        (memberAt w env.comm q h)) arrival

/-- What a rank sends arrives, and nothing is recorded about it. -/
def PlainTest.Sound (cfg : Config) (t : TypeSlot) (env : Env) (commRank : ℕ) (packet : Packet) :
    PlainTest → Prop
  | neighbour test => test.Sound cfg t env commRank packet
  | alltoall test => test.Sound cfg t env commRank packet

section

variable {w : World p} {env : Env} {q : Fin p} {t : TypeSlot}

theorem PlainTest.exists_init_iff (ht : t ∈ initTypes w.base.cfg) (hnull : t.datatype ≠ .null)
    {test : PlainTest} (htest : test ∈ plainTests) (mpi : Surroundings) (address : ℤ)
    (commRank : ℕ) : (∃ packet, test.init mpi w.base.cfg t env address commRank = some packet) ↔
      test.Fits mpi t env := by
  rcases cases_plainTests htest with ⟨t', ht', rfl, -⟩ | ⟨t', ht', rfl, -⟩
  · exact t'.exists_init_iff ht hnull ht' mpi address
  · exact exists_packet_iff ht hnull ht'

theorem PlainTest.Fits.arrayFits {mpi : Surroundings} {test : PlainTest}
    (h : test.Fits mpi t env) : ArrayFits t env.valuesNum := by
  cases test with
  | neighbour test => exact h.1
  | alltoall test => exact h

/-- What `_init` leaves to be sent is what the test promises. -/
theorem PlainTest.sound_init (ht : t ∈ initTypes w.base.cfg) (hnull : t.datatype ≠ .null)
    {commRank : ℕ} (hbound : commRank + env.valuesNum.toNat ≤ 2 ^ 32) {test : PlainTest}
    (htest : test ∈ plainTests) {mpi : Surroundings} {address : ℤ} {packet : Packet}
    (hinit : test.init mpi w.base.cfg t env address commRank = some packet) :
    test.Sound w.base.cfg t env commRank packet := by
  rcases cases_plainTests htest with ⟨t', ht', rfl, -⟩ | ⟨t', ht', rfl, -⟩
  · exact NeighbourTest.sound_init ht hnull hbound ht' hinit
  · exact sound_packet ht hnull hbound ht' hinit

/-- Nothing wrong is found with what the peers have sent. -/
theorem AlltoallTest.run_eq_nil {test : AlltoallTest} {c : Communicator}
    {packet : c.Member → Packet} {x : c.Member} {cfg : Config} (mode : TstMode)
    (checkBuffer : ℕ → Memory) (sent : ℕ → Packet) {arrival : ℕ → Option Arrival}
    (harrival : ∀ k < c.commSize x.1, arrival (2 * k + 1)
      = some ⟨c.commSize x.1 - k - 1, env.tag, sent (c.commSize x.1 - k - 1)⟩)
    (hsound : ∀ k < c.commSize x.1, test.Sound cfg t env k (sent k)) :
    test.run cfg t env mode (c.commSize x.1) checkBuffer (test.program c packet env.tag x) arrival
      = .ok [] := by
  rw [AlltoallTest.run_program]
  refine judgeAll_eq_nil fun k hk ↦ ?_
  have hlt := List.mem_range.mp hk
  have hrank : c.commSize x.1 - k - 1 < c.commSize x.1 := by omega
  rw [harrival k hlt, judge, if_neg (by simp), (hsound _ hrank).compare _ _ rfl]
  exact Arrival.checkWith_eq_nil mode _ (hsound _ hrank).count

end

/-! ## Every run -/

section

variable (w : World p) (envs : List Env) (packet : ℕ → Fin p → Packet)
  (s : State (Fin p) (ℤ × ℤ) Packet)

/-- What the processes do in the combination with number `c`. -/
def exchangeAt (c : ℕ) (q : Fin p) : List (Instr (Fin p) (ℤ × ℤ) Packet) :=
  match envs[c]? with
  | some env => exchange w env (packet c q) q
  | none => []

/-- What a process has received with the request in a slot of a combination. -/
def arrivalAt (env : Env) (c : ℕ) (q : Fin p) (slot : ℕ) : Option Arrival :=
  (s.got q (Nat.pair c slot)).map fun x ↦ ⟨w.commRank env.comm x.1, x.2.1.2, x.2.2⟩

/-- All messages of a combination have arrived at a process. -/
def Arrived (c : ℕ) (q : Fin p) : Prop :=
  ∀ j r k, .recv j r k ∈ exchangeAt w envs packet c q → s.Complete q (Nat.pair c j)

/-- What combinations promise that follow each other. -/
structure BackToBack : Prop where
  /-- As long as a process has something left to do, there is a step. -/
  noDeadlock : ∀ q, s.todo q ≠ [] → ∃ s', Step s s'
  /-- What is received in a combination has been sent in it. -/
  own : ∀ d ∈ s.delivered, ∃ c, ∃ env ∈ envs[c]?, (Nat.unpair d.sendSlot).1 = c ∧
    (Nat.unpair d.recvSlot).1 = c ∧ d.key = (env.comm, env.tag) ∧ d.payload = packet c d.source
  /-- A process that is through has received everything. -/
  arrived : ∀ q, s.todo q = [] → ∀ c, Arrived w envs packet s c q
  /-- No `ERROR` is raised and no failure is recorded. -/
  quiet : ∀ c, ∀ env ∈ envs[c]?, ∀ t ∈ (initTypes w.base.cfg)[env.type.toNat]?,
    ∀ q, w.admits q env = true → Arrived w envs packet s c q →
      ∃ test h, plainTest? w.base.cfg env = some test ∧ ∀ checkBuffer,
        test.run w t env checkBuffer (packet c q) q h (arrivalAt w s env c q) = .ok []

end

section

variable {w : World p} {envs : List Env} {packet : ℕ → Fin p → Packet}
  {s : State (Fin p) (ℤ × ℤ) Packet} (hgroups : WellGrouped w)

include hgroups

theorem leveled_exchangeAt (c : ℕ) :
    Leveled (match envs[c]? with | some env => levelAt w env | none => fun _ _ _ ↦ 0)
      (exchangeAt w envs packet c) := by
  have hexchange : exchangeAt w envs packet c = match envs[c]? with
      | some env => fun q ↦ exchange w env (packet c q) q
      | none => fun _ ↦ [] := by
    funext q
    rw [exchangeAt]
    cases envs[c]? <;> rfl
  rw [hexchange]
  cases envs[c]? with
  | some env => exact leveled_exchange hgroups (packet c)
  | none => exact .of_parts (fun _ ↦ .nil) fun _ _ _ ↦ by simp

omit hgroups in
theorem exchangeAt_eq {c : ℕ} {env : Env} (henv : envs[c]? = some env) (q : Fin p) :
    exchangeAt w envs packet c q = exchange w env (packet c q) q := by
  rw [exchangeAt, henv]

omit hgroups in
theorem mem_exchangeAt {c : ℕ} {q : Fin p} {a : Instr (Fin p) (ℤ × ℤ) Packet}
    (ha : a ∈ exchangeAt w envs packet c q) :
    c < envs.length ∧ ∃ env, envs[c]? = some env ∧ a ∈ exchange w env (packet c q) q := by
  rw [exchangeAt] at ha
  cases henv : envs[c]? with
  | some env =>
    rw [henv] at ha
    exact ⟨(List.getElem?_eq_some_iff.mp henv).1, env, rfl, ha⟩
  | none =>
    rw [henv] at ha
    cases ha

/-- What is sent. -/
theorem eq_of_send_mem_exchange {env : Env} {x y : Packet} {q r : Fin p} {i : ℕ} {mode : Mode}
    {k : ℤ × ℤ} (hsend : .send i mode q k y ∈ exchange w env x r) :
    k = (env.comm, env.tag) ∧ y = x := by
  obtain ⟨test, htest, hr, hrank, ha⟩ := mem_exchange.mp hsend
  rcases cases_plainTests (exists_row_of_plainTest? htest).1 with
    ⟨t, ht, rfl, -⟩ | ⟨t, -, rfl, -⟩
  · exact ((send_mem_neighbour (proper_of_mem ht) (class_of_neighbour ht htest hr)
      (length_of_self hgroups htest hr)).mp ha).2.2.2.2
  · obtain ⟨-, hk, hy, -⟩ := send_mem_alltoall.mp ha
    exact ⟨hk, hy⟩

/-- Receives are waited for. -/
theorem exists_wait_of_recv {env : Env} {x : Packet} {q r : Fin p} {j : ℕ} {k : ℤ × ℤ}
    (hrecv : .recv j r k ∈ exchange w env x q) :
    ∃ slots, .wait slots ∈ exchange w env x q ∧ j ∈ slots := by
  obtain ⟨test, htest, hq, hrank, ha⟩ := mem_exchange.mp hrecv
  rw [exchange_eq htest hq]
  rcases cases_plainTests (exists_row_of_plainTest? htest).1 with
    ⟨t, ht, rfl, -⟩ | ⟨t, -, rfl, -⟩
  · have hclass := class_of_neighbour ht htest hq
    have hlength := length_of_self hgroups htest hq
    obtain ⟨hlinked, rfl, -⟩ := (recv_mem_neighbour (proper_of_mem ht) hclass hlength).mp ha
    obtain ⟨b, hb, hone⟩ := (proper_of_mem ht).received ((w.commRank env.comm q : ℕ) == 0)
    cases b with
    | wait slots =>
      refine ⟨slots, List.mem_map.mpr ⟨.wait slots, ?_, rfl⟩, hone⟩
      exact (NeighbourTest.wait_mem_program hclass hlength).mpr
        ⟨slots, hb, by rw [if_pos hlinked]⟩
    | send => cases hone
    | recv => cases hone
    | barrier => cases hone
  · obtain ⟨-, n, hn, rfl, -⟩ := recv_mem_alltoall.mp ha
    refine ⟨_, List.mem_map.mpr ⟨_, AlltoallTest.mem_program.mpr (.inr rfl), rfl⟩, ?_⟩
    have hsize := commSize_communicatorOf w env.comm q
    exact List.mem_range.mpr (by show _ < (communicatorOf w env.comm q).commSize false * 2; omega)

theorem paired_exchangeAt : ∀ c < envs.length, Paired (exchangeAt w envs packet c) :=
  fun c _ ↦ (leveled_exchangeAt hgroups c).toPaired

theorem exists_step_backToBack (h : Reachable (plainSequence envs.length
    (exchangeAt w envs packet)) s) {q : Fin p} (hq : s.todo q ≠ []) : ∃ s', Step s s' := by
  refine exists_step_sequence (M := p) (fun c _ ↦ leveled_exchangeAt hgroups c)
    (fun c _ r a ha ↦ ?_) (fun c _ r a ha m hm ↦ ?_) h hq
  · obtain ⟨-, env, -, ha⟩ := mem_exchangeAt ha
    exact (part_exchange hgroups).noBarrier a ha
  · obtain ⟨-, env, henv, ha⟩ := mem_exchangeAt ha
    rw [henv] at hm
    exact level_lt hgroups ha hm

/-- What has arrived is what the peer has sent in this combination. -/
theorem arrivalAt_eq (h : Reachable (plainSequence envs.length (exchangeAt w envs packet)) s)
    {c : ℕ} {env : Env} (henv : envs[c]? = some env) {q r : Fin p} {j : ℕ} {k : ℤ × ℤ}
    (hrecv : .recv j r k ∈ exchange w env (packet c q) q)
    (hcomplete : s.Complete q (Nat.pair c j)) :
    arrivalAt w s env c q j = some ⟨w.commRank env.comm r, env.tag, packet c r⟩ := by
  obtain ⟨i, mode, x, hsend⟩ := (partner_exchange hgroups (packet c)).mpr ⟨j, hrecv⟩
  obtain ⟨rfl, rfl⟩ := eq_of_send_mem_exchange hgroups hsend
  rw [arrivalAt, got_sequence (paired_exchangeAt hgroups) h (List.getElem?_eq_some_iff.mp henv).1
    ((exchangeAt_eq henv r).symm ▸ hsend) ((exchangeAt_eq henv q).symm ▸ hrecv)
    hcomplete]
  rfl

/-- Nothing arrives without a receive. -/
theorem exists_recv_of_arrivalAt
    (h : Reachable (plainSequence envs.length (exchangeAt w envs packet)) s) {c : ℕ} {env : Env}
    (henv : envs[c]? = some env) {q : Fin p} {j : ℕ} {a : Arrival}
    (ha : arrivalAt w s env c q j = some a) :
    ∃ r k, .recv j r k ∈ exchange w env (packet c q) q := by
  obtain ⟨y, hgot, -⟩ := Option.map_eq_some_iff.mp ha
  obtain ⟨d, hfind, -⟩ := Option.map_eq_some_iff.mp hgot
  obtain ⟨hdest, hslot⟩ : d.dest = q ∧ d.recvSlot = Nat.pair c j := by
    simpa using List.find?_some hfind
  obtain ⟨c', -, i, j', mode, -, hrecvSlot, -, hrecv⟩ := exists_exchange_of_delivered
    (paired_exchangeAt hgroups) h (List.mem_of_find?_eq_some hfind)
  obtain ⟨rfl, rfl⟩ := Nat.pair_eq_pair.mp (hrecvSlot.symm.trans hslot)
  rw [hdest, exchangeAt_eq henv] at hrecv
  exact ⟨_, _, hrecv⟩

theorem quiet_backToBack (h : Reachable (plainSequence envs.length (exchangeAt w envs packet)) s)
    {c : ℕ} {env : Env} (henv : envs[c]? = some env) {test : PlainTest}
    (htest : plainTest? w.base.cfg env = some test) {t : TypeSlot}
    (hsound : ∀ q, w.admits q env = true →
      test.Sound w.base.cfg t env (w.commRank env.comm q) (packet c q)) {q : Fin p}
    (hrank : w.commRank env.comm q < (w.group env.comm q).length) (hq : w.admits q env = true)
    (harrived : Arrived w envs packet s c q) (checkBuffer : ℕ → Memory) :
    test.run w t env checkBuffer (packet c q) q hrank (arrivalAt w s env c q) = .ok [] := by
  have hrecv : ∀ j r k, .recv j r k ∈ test.calls w env (packet c q) q hrank →
      arrivalAt w s env c q j = some ⟨w.commRank env.comm r, env.tag, packet c r⟩ := by
    intro j r k hmem
    have hmem' : .recv j r k ∈ exchange w env (packet c q) q := by rwa [exchange_eq htest hq]
    exact arrivalAt_eq hgroups h henv hmem'
      (harrived j r k ((exchangeAt_eq henv q).symm ▸ hmem'))
  have hpeers : ∀ {r : Fin p}, r ∈ w.peers env.comm q → w.admits r env = true := fun {r} hr ↦ by
    refine admits_of_group htest hq ?_
    rw [(w.of_mem_peers _ _ _ hr).2.1]
    exact List.ne_nil_of_mem hr
  rcases cases_plainTests (exists_row_of_plainTest? htest).1 with
    ⟨t', ht', rfl, -⟩ | ⟨t', -, rfl, -⟩
  · have hproper := proper_of_mem ht'
    have hclass := class_of_neighbour ht' htest hq
    have hlength := length_of_self hgroups htest hq
    show t'.run w.base.cfg t env w.base.mode (checkBuffer 0) _ (rankAt w env.comm q hrank) _ _
      = .ok []
    by_cases hlinked : t'.Linked (tstCommGetcommclass w.base.comms env.comm)
        (w.group env.comm q).length
    · have hprevious : ((NeighbourTest.previous (rankAt w env.comm q hrank) : Fin _) : ℕ)
          < (w.peers env.comm q).length := by
        rw [peers_of_linked hclass hlinked]
        exact Fin.isLt _
      obtain ⟨hmem, hcommRank⟩ := (eq_peerAt_iff hprevious).mp rfl
      rw [hrecv 1 _ _ ((recv_mem_neighbour hproper hclass hlength).mpr ⟨hlinked, rfl, rfl, rfl⟩)]
      have hpeer := hsound _ (hpeers hmem)
      rw [hcommRank] at hpeer
      refine (congrArg (fun n ↦ t'.run w.base.cfg t env w.base.mode (checkBuffer 0) _ _ _
        (some ⟨n, env.tag, _⟩)) hcommRank).trans ?_
      exact NeighbourTest.run_linked hclass hlength hproper hlinked w.base.mode hpeer
        (checkBuffer 0)
    · have hnone : arrivalAt w s env c q 1 = none := by
        by_contra hne
        obtain ⟨a, ha⟩ := Option.ne_none_iff_exists'.mp hne
        obtain ⟨r, k, hmem⟩ := exists_recv_of_arrivalAt hgroups h henv ha
        rw [exchange_eq htest hq] at hmem
        exact hlinked ((recv_mem_neighbour hproper hclass hlength).mp hmem).1
      rw [hnone]
      exact NeighbourTest.run_unlinked hclass hlength hproper hlinked w.base.mode (checkBuffer 0)
  · have hsize := commSize_communicatorOf w env.comm q
    have hcommSize : w.commSize env.comm q = (communicatorOf w env.comm q).commSize false :=
      (w.commSize_eq env.comm q).trans hsize.symm
    show t'.run w.base.cfg t env w.base.mode (w.commSize env.comm q) checkBuffer _ _ = .ok []
    rw [hcommSize]
    refine AlltoallTest.run_eq_nil (x := memberAt w env.comm q hrank) w.base.mode checkBuffer
      (fun k ↦ packet c (peerAt w env.comm q k)) (fun k hk ↦ ?_) fun k hk ↦ ?_
    · have hk' : k < (w.peers env.comm q).length := hk.trans_eq hsize
      have hlt : (w.peers env.comm q).length - k - 1 < (w.peers env.comm q).length := by omega
      rw [hrecv _ _ _ (recv_mem_alltoall.mpr ⟨rfl, k, hk', rfl, rfl⟩),
        ((eq_peerAt_iff hlt).mp rfl).2]
      exact congrArg (fun n ↦ some (Arrival.mk (n - k - 1) env.tag
        (packet c (peerAt w env.comm q (n - k - 1))))) hsize.symm
    · have hk' : k < (w.peers env.comm q).length := hk.trans_eq hsize
      obtain ⟨hmem, hcommRank⟩ := (eq_peerAt_iff hk').mp rfl
      have hpeer := hsound _ (hpeers hmem)
      rwa [hcommRank] at hpeer

theorem backToBack_of_reachable
    (hplain : ∀ env ∈ envs, ∀ q, w.admits q env = true →
      ∃ test, plainTest? w.base.cfg env = some test)
    (hsound : ∀ c : ℕ, ∀ env ∈ envs[c]?, ∀ test ∈ plainTest? w.base.cfg env,
      ∀ t ∈ (initTypes w.base.cfg)[env.type.toNat]?, ∀ q, w.admits q env = true →
        test.Sound w.base.cfg t env (w.commRank env.comm q) (packet c q))
    (h : Reachable (plainSequence envs.length (exchangeAt w envs packet)) s) :
    BackToBack w envs packet s := by
  refine ⟨fun q ↦ exists_step_backToBack hgroups h, fun d hd ↦ ?_, fun q hq c j r k hrecv ↦ ?_,
    fun c env henv t ht q hq harrived ↦ ?_⟩
  · obtain ⟨c, hc, i, j, mode, hsendSlot, hrecvSlot, hsend, -⟩ :=
      exists_exchange_of_delivered (paired_exchangeAt hgroups) h hd
    obtain ⟨-, env, henv, hmem⟩ := mem_exchangeAt hsend
    obtain ⟨hkey, hpayload⟩ := eq_of_send_mem_exchange hgroups hmem
    refine ⟨c, env, henv, ?_, ?_, hkey, hpayload⟩
    · rw [hsendSlot, Nat.unpair_pair]
    · rw [hrecvSlot, Nat.unpair_pair]
  · obtain ⟨hc, env, henv, hmem⟩ := mem_exchangeAt hrecv
    obtain ⟨slots, hwait, hj⟩ := exists_wait_of_recv hgroups hmem
    rw [← exchangeAt_eq henv] at hwait
    exact complete_sequence (paired_exchangeAt hgroups) h hc hq hwait hj
  · obtain ⟨test, htest⟩ := hplain env (List.mem_of_getElem? henv) q hq
    have hrank := commRank_lt (group_ne_nil htest hq)
    exact ⟨test, hrank, htest, fun checkBuffer ↦ quiet_backToBack hgroups h henv htest
      (fun q hq ↦ hsound c env henv test htest t ht q hq) hrank hq harrived checkBuffer⟩

end

/-! ## The registered communicators -/

/-- The communicator like `MPI_COMM_SELF` is made of single processes. -/
theorem division_self (cfg : Config) (worldSize : ℕ) :
    ∀ c ∈ (tstCommsRegister cfg worldSize).registered.zip (tstCommsDivisions cfg worldSize),
      c.1.commClass &&& tstMpiCommSelf ≠ 0 → c.2 = .self := by
  unfold tstCommsRegister registerIfSeveral tstCommsDivisions tstCommRegister commNum
  split_ifs <;> decide +kernel

theorem divisionAt_self {cfg : Config} {worldSize : ℕ} {c : ℤ} (hc : ¬c < 0)
    (h : tstCommGetcommclass (tstCommsRegister cfg worldSize) c &&& tstMpiCommSelf ≠ 0) :
    divisionAt cfg worldSize c = .self := by
  rw [tstCommGetcommclass, if_neg hc] at h
  by_cases hlt : c.toNat < (tstCommsRegister cfg worldSize).num
  · have hdiv : c.toNat < (tstCommsDivisions cfg worldSize).length :=
      hlt.trans_eq (length_divisions cfg worldSize).symm
    rw [CommTable.slot, List.getElem?_eq_getElem hlt, Option.getD_some] at h
    rw [divisionAt, if_neg hc, List.getD_eq_getElem _ _ hdiv]
    refine division_self cfg worldSize (_, _) ?_ h
    have hzip : c.toNat < ((tstCommsRegister cfg worldSize).registered.zip
        (tstCommsDivisions cfg worldSize)).length := by
      rw [List.length_zip]
      exact lt_min hlt hdiv
    exact List.mem_iff_getElem.mpr ⟨_, hzip, List.getElem_zip⟩
  · rw [slot_of_num_le (not_lt.mp hlt)] at h
    exact absurd rfl h

/-- The communicators of `tst_comms_register` are as they should be. -/
theorem wellGrouped_registeredWorld (cfg : Config) (mode : TstMode) (tagUb : ℤ)
    (node : Fin p → ℕ) : WellGrouped (registeredWorld cfg mode tagUb node) where
  nodup c q := by
    show ((divisionAt cfg p c).group node q).Nodup
    rw [Division.group]
    split_ifs
    exacts [List.nodup_nil, (List.nodup_finRange p).filter _]
  alone c q h := by
    show ((divisionAt cfg p c).group node q).length ≤ 1
    by_cases hc : c < 0
    · rw [divisionAt, if_pos hc, Division.group, if_pos rfl]
      exact Nat.zero_le 1
    · rw [divisionAt_self hc h]
      have hall : ∀ r ∈ Division.self.group node q, r = q := fun r hr ↦
        Fin.ext (Division.mem_group.mp hr).2
      have hnodup : (Division.self.group node q).Nodup := by
        rw [Division.group, if_neg (by decide)]
        exact (List.nodup_finRange p).filter _
      rw [List.eq_replicate_of_mem hall] at hnodup
      exact List.nodup_replicate.mp hnodup

/-- What the functions `_init` of all combinations leave to be sent. -/
def Prepared (w : World p) (mpi : Env → Surroundings) (address : Fin p → ℤ) (envs : List Env)
    (packet : ℕ → Fin p → Packet) : Prop :=
  ∀ c : ℕ, ∀ env ∈ envs[c]?, ∀ test ∈ plainTest? w.base.cfg env,
    ∀ t ∈ (initTypes w.base.cfg)[env.type.toNat]?, ∀ q, w.admits q env = true →
      test.init (mpi env) w.base.cfg t env (address q) (w.commRank env.comm q)
        = some (packet c q)

/-- The sizes in all combinations that somebody admits are such that `_init` gets through. -/
def AllFit (w : World p) (mpi : Env → Surroundings) (envs : List Env) : Prop :=
  ∀ env ∈ envs, ∀ test ∈ plainTest? w.base.cfg env,
    ∀ t ∈ (initTypes w.base.cfg)[env.type.toNat]?, (∃ q, w.admits q env = true) →
      test.Fits (mpi env) t env

/-- The types that there are belong to combinations that are admitted. -/
def AllTyped (w : World p) (envs : List Env) : Prop :=
  ∀ env ∈ envs, ∀ q, w.admits q env = true → env.type.toNat < numTypes w.base.cfg ∧ 0 ≤ env.type

section

variable {w : World p} {mpi : Env → Surroundings} {address : Fin p → ℤ} {envs : List Env}
  {packet : ℕ → Fin p → Packet}

/-- The type of a combination that is admitted. -/
theorem datatype_ne_null_of_admits (htypes : AllTyped w envs) {env : Env} (henv : env ∈ envs)
    {test : PlainTest} (htest : plainTest? w.base.cfg env = some test) {t : TypeSlot}
    (ht : (initTypes w.base.cfg)[env.type.toNat]? = some t) {q : Fin p}
    (hq : w.admits q env = true) : t.datatype ≠ .null := by
  obtain ⟨hlt, hnonneg⟩ := htypes env henv q hq
  obtain ⟨-, row, hrow, -⟩ := exists_row_of_plainTest? htest
  refine datatype_ne_null w.base.cfg hlt ht fun hzero ↦ ?_
  have hand := ((tstTestCheckRun_iff (w.setting q) hrow).mp hq).1.2.2
  rw [tstTypeGettypeclass, if_neg (by omega)] at hand
  rw [show (initTypes (w.setting q).cfg)[env.type.toNat]? = some t from ht] at hand
  simp [hzero] at hand

/-- The packets that have been prepared are what the tests promise. -/
theorem Prepared.sound (hgroups : WellGrouped w) (hsize : FitsInt p) (htypes : AllTyped w envs)
    (h : Prepared w mpi address envs packet) : ∀ c : ℕ, ∀ env ∈ envs[c]?,
      ∀ test ∈ plainTest? w.base.cfg env, ∀ t ∈ (initTypes w.base.cfg)[env.type.toNat]?,
      ∀ q, w.admits q env = true →
        test.Sound w.base.cfg t env (w.commRank env.comm q) (packet c q) := by
  intro c env henv test htest t ht q hq
  have hnull := datatype_ne_null_of_admits htypes (List.mem_of_getElem? henv) htest ht hq
  have hslot := List.mem_of_getElem? ht
  have hplainTest := (exists_row_of_plainTest? htest).1
  have hinit := h c env henv test htest t ht q hq
  have hfits := (PlainTest.exists_init_iff hslot hnull hplainTest _ _ _).mp ⟨_, hinit⟩
  have hrank : w.commRank env.comm q < p :=
    calc w.commRank env.comm q < (w.group env.comm q).length :=
          commRank_lt (group_ne_nil htest hq)
      _ ≤ Fintype.card (Fin p) := (hgroups.nodup _ _).length_le_card
      _ = p := Fintype.card_fin p
  exact PlainTest.sound_init hslot hnull (rank_add_values_le hfits.arrayFits.fitsInt hsize hrank)
    hplainTest hinit

/-- **Sizes.** Everything can be prepared exactly if the sizes fit. -/
theorem exists_prepared_iff (htypes : AllTyped w envs) :
    (∃ packet, Prepared w mpi address envs packet) ↔ AllFit w mpi envs := by
  constructor
  · rintro ⟨packet, h⟩ env henv test htest t ht ⟨q, hq⟩
    obtain ⟨c, hc⟩ := List.mem_iff_getElem?.mp henv
    have hnull := datatype_ne_null_of_admits htypes henv htest ht hq
    exact (PlainTest.exists_init_iff (List.mem_of_getElem? ht) hnull
      (exists_row_of_plainTest? htest).1 _ _ _).mp ⟨_, h c env hc test htest t ht q hq⟩
  · intro hfits
    have hexists : ∀ (c : ℕ) q, ∃ packet : Packet, ∀ env ∈ envs[c]?,
        ∀ test ∈ plainTest? w.base.cfg env, ∀ t ∈ (initTypes w.base.cfg)[env.type.toNat]?,
        w.admits q env = true → test.init (mpi env) w.base.cfg t env (address q)
          (w.commRank env.comm q) = some packet := by
      intro c q
      by_cases hall : ∃ env ∈ envs[c]?, ∃ test ∈ plainTest? w.base.cfg env,
          ∃ t ∈ (initTypes w.base.cfg)[env.type.toNat]?, w.admits q env = true
      · obtain ⟨env, henv, test, htest, t, ht, hq⟩ := hall
        have hmem := List.mem_of_getElem? henv
        have hnull := datatype_ne_null_of_admits htypes hmem htest ht hq
        obtain ⟨packet, hpacket⟩ := (PlainTest.exists_init_iff (List.mem_of_getElem? ht) hnull
          (exists_row_of_plainTest? htest).1 (mpi env) (address q)
          (w.commRank env.comm q)).mpr (hfits env hmem test htest t ht ⟨q, hq⟩)
        refine ⟨packet, fun env' henv' test' htest' t' ht' _ ↦ ?_⟩
        cases henv.symm.trans henv'
        cases htest.symm.trans htest'
        cases ht.symm.trans ht'
        exact hpacket
      · exact ⟨⟨fun _ ↦ 0, 0, 0⟩, fun env henv test htest t ht hq ↦
          absurd ⟨env, henv, test, htest, t, ht, hq⟩ hall⟩
    choose packet hpacket using hexists
    exact ⟨packet, fun c env henv test htest t ht q hq ↦
      hpacket c q env henv test htest t ht hq⟩

end

/-- **Back to back.** Processes that run any combinations of these tests one after the other, on
communicators of any shape, with tags that may all be the same and without a barrier between them,
get through exactly if the sizes fit: nobody is ever stuck, what a combination receives has been
sent in the same combination, and no test finds anything wrong. -/
theorem back_to_back_iff (w : World p) (hgroups : WellGrouped w) (hsize : FitsInt p)
    (envs : List Env) (hplain : ∀ env ∈ envs, ∀ q, w.admits q env = true →
      ∃ test, plainTest? w.base.cfg env = some test)
    (htypes : AllTyped w envs) (mpi : Env → Surroundings) (address : Fin p → ℤ) :
    (∃ packet : ℕ → Fin p → Packet, Prepared w mpi address envs packet ∧
      ∀ s, Reachable (plainSequence envs.length (exchangeAt w envs packet)) s →
        BackToBack w envs packet s) ↔ AllFit w mpi envs := by
  have hprepared : (∃ packet, Prepared w mpi address envs packet) ↔ AllFit w mpi envs :=
    exists_prepared_iff htypes
  rw [← hprepared]
  refine exists_congr fun packet ↦ and_iff_left_of_imp fun h s hs ↦ ?_
  exact backToBack_of_reachable hgroups hplain (h.sound hgroups hsize htypes) hs

/-- `"Ring Bsend"` and `"Alltoall xIsend"` on the halves of four processes, with the same tag. -/
theorem back_to_back_iff_four :
    let cfg : Config := ⟨2, true, true, true, true, true, true, true, true⟩
    let w : World 4 := registeredWorld cfg .strict 32767 fun _ ↦ 0
    let envs : List Env := [⟨11, 5, 6, 3, 1⟩, ⟨24, 5, 6, 2, 1⟩]
    let mpi : Env → Surroundings := fun env ↦ ⟨0, 128, 4 * env.valuesNum.toNat⟩
    (∃ packet : ℕ → Fin 4 → Packet, Prepared w mpi (fun _ ↦ 0) envs packet ∧
      ∀ s, Reachable (plainSequence 2 (exchangeAt w envs packet)) s →
        BackToBack w envs packet s) ↔ AllFit w mpi envs := by
  refine back_to_back_iff _ (wellGrouped_registeredWorld
    ⟨2, true, true, true, true, true, true, true, true⟩ .strict 32767 fun _ ↦ 0) (by decide)
    [⟨11, 5, 6, 3, 1⟩, ⟨24, 5, 6, 2, 1⟩] ?_
    (by rw [AllTyped]; decide +kernel) (fun env ↦ ⟨0, 128, 4 * env.valuesNum.toNat⟩) fun _ ↦ 0
  rintro env henv q -
  refine Option.isSome_iff_exists.mp ?_
  revert env
  decide +kernel

end P2P

end MpiTestSuite
