import MpiTestSuite.Coding.OpenFile
import MpiTestSuite.P2P.Exchange
import MpiTestSuite.P2P.Ring

/-!
# The other rings

There are ten more tests in which every rank sends to the next one and receives from the one before
it. They differ in the calls: in some the requests are waited for together, in others a barrier
stands in front of ready sends, in others the calls block, as in `"Ring"`. In some of them a single
rank is its own neighbour and sends to itself, which it must not do with calls that block.

The order of the calls of rank zero, and that of the other ranks, is all that it depends on whether
somebody gets stuck (`NeighbourTest.Proper`).
-/

open MpiTestSuite.Runs.Requests

namespace MpiTestSuite

namespace P2P

/-! ## The calls -/

/-- A call of a test. The send has its request in slot 0, the receive in slot 1. -/
inductive RingCall
  | send
  | recv
  | wait (slots : List ℕ)
  | barrier
  deriving DecidableEq

namespace RingCall

/-- The slot of a call that starts something. -/
def slot? : RingCall → Option ℕ
  | send => some 0
  | recv => some 1
  | _ => none

/-- Whether the call `b` may stand behind the call `w`. Rank zero has sent when it waits for the
message that has gone round; the others send on what they have received. -/
def mayFollow (zero : Bool) : RingCall → RingCall → Bool
  | wait slots, send => !zero && slots.all (· == 1)
  | wait slots, recv => zero && slots.all (· == 0)
  | wait _, barrier => false
  | _, _ => true

def isWait : RingCall → Bool
  | wait _ => true
  | _ => false

end RingCall

/-- A test of this kind. -/
structure NeighbourTest where
  /-- What the names of its functions begin with. -/
  functions : String
  mode : Mode
  /-- Whether a single rank is its own neighbour. -/
  withItself : Bool
  /-- The calls of rank zero, and of another rank. -/
  calls : Bool → List RingCall
  /-- Whether the requests are persistent. -/
  persistent : Bool
  /-- The requests that are looked at then. -/
  requests : List ℕ
  /-- The errors if the communicator is of another class, if a request is not what it should be,
  and if the status or the count is wrong. -/
  commMessage : String
  requestMessage : String
  statusMessage : String
  countMessage : String
  /-- Whether a buffer is attached. -/
  attaches : Bool
  /-- What a rank sends. The buffer is at some address. -/
  packet : Config → TypeSlot → Env → ℤ → ℤ → Option Packet
  /-- What is recorded about an arrival from a rank. The buffer of the check may hold anything. -/
  compare : Config → TypeSlot → Env → Memory → Arrival → ℤ → Option (List Env)

/-! ## What is sent -/

/-- `env->extra_type_send` in `"Ring Send Bottom"`: one element at an address. -/
def bottomType (t : TypeSlot) (address : ℤ) : Typemap :=
  .struct [(1, address, t.datatype.typemap)]

/-- The array of the rank, which lies at an address. `MPI_BOTTOM` is where addresses begin. -/
def sendBottom (cfg : Config) (t : TypeSlot) (env : Env) (address commRank : ℤ) :
    Option Packet := do
  let sendBuffer ← standardBuffer cfg t env commRank
  let count ← elementCount env.valuesNum
  return ⟨(sendBuffer.shift (-address)).shift address, (bottomType t address).extent, count⟩

/-- If an element differs from the value, it is recorded once. -/
def compareOnce (cfg : Config) (t : TypeSlot) (env : Env) (checkBuffer : Memory) (a : Arrival)
    (commRank : ℤ) : Option (List Env) := do
  let differing ← compareSameValue cfg t env checkBuffer a commRank
  return if differing = [] then [] else [env]

/-! ## The tests -/

/-- A test with requests that sends standard arrays. -/
def requestTest (functions : String) (mode : Mode) (calls : List RingCall) : NeighbourTest where
  functions := functions
  mode := mode
  withItself := true
  calls _ := calls
  persistent := false
  requests := [0, 1]
  commMessage := functions ++ " cannot run with this kind of communicator"
  requestMessage := "Error in requests"
  statusMessage := "Error in statuses"
  countMessage := "Error in count"
  attaches := false
  packet cfg t env _ commRank := sendArray cfg t env commRank
  compare := compareArray

/-- A test without requests. -/
def blockingTest (functions : String) (calls : Bool → List RingCall)
    (packet : Config → TypeSlot → Env → ℤ → ℤ → Option Packet)
    (compare : Config → TypeSlot → Env → Memory → Arrival → ℤ → Option (List Env)) :
    NeighbourTest where
  functions := functions
  mode := .standard
  withItself := false
  calls := calls
  persistent := false
  requests := []
  commMessage := "tst_p2p_simple_ring cannot run with this kind of communicator"
  requestMessage := ""
  statusMessage := "Error in status"
  countMessage := "Error in Count"
  attaches := false
  packet := packet
  compare := compare

/-- The calls of `"Ring"`. -/
def sendAndRecv (zero : Bool) : List RingCall :=
  if zero then [.send, .wait [0], .recv, .wait [1]] else [.recv, .wait [1], .send, .wait [0]]

def tstP2pSimpleRingIsend : NeighbourTest :=
  requestTest "tst_p2p_simple_ring_isend" .standard [.send, .recv, .wait [0, 1]]

/-- What is sent with `MPI_Ibsend` has left the attached buffer when the latter is detached. -/
def tstP2pSimpleRingIbsend : NeighbourTest :=
  { requestTest "tst_p2p_simple_ring_ibsend" .synchronous
      [.recv, .send, .wait [1], .wait [0]] with
    attaches := true }

def tstP2pSimpleRingIrsend : NeighbourTest :=
  requestTest "tst_p2p_simple_ring_irsend" .ready [.recv, .barrier, .send, .wait [0, 1]]

def tstP2pSimpleRingIssend : NeighbourTest :=
  requestTest "tst_p2p_simple_ring_issend" .synchronous [.recv, .send, .wait [0, 1]]

/-- `MPI_Rsend` leaves no request. -/
def tstP2pSimpleRingRsend : NeighbourTest :=
  { requestTest "tst_p2p_simple_ring_rsend" .ready
      [.recv, .barrier, .send, .wait [0], .wait [1]] with
    requests := [1]
    requestMessage := "Error in request"
    statusMessage := "Error in status" }

/-- `MPI_Startall` and `MPI_Waitall`. -/
def tstP2pSimpleRingPersistent : NeighbourTest :=
  { requestTest "tst_p2p_simple_ring_persistent" .standard [.send, .recv, .wait [0, 1]] with
    persistent := true }

/-- What is sent with `MPI_Bsend` has left the attached buffer when the latter is detached. -/
def tstP2pSimpleRingBsend : NeighbourTest :=
  { blockingTest "tst_p2p_simple_ring_bsend"
      (fun zero ↦ (if zero then [.send, .recv, .wait [1]] else [.recv, .wait [1], .send])
        ++ [.wait [0]])
      (fun cfg t env _ commRank ↦ sendArray cfg t env commRank) compareArray with
    mode := .synchronous
    attaches := true }

def tstP2pSimpleRingSendrecv : NeighbourTest :=
  blockingTest "tst_p2p_simple_ring_sendrecv" (fun _ ↦ [.send, .recv, .wait [0, 1]])
    (fun cfg t env _ commRank ↦ sendArray cfg t env commRank) compareArray

def tstP2pSimpleRingBottom : NeighbourTest :=
  blockingTest "tst_p2p_simple_ring_bottom" sendAndRecv sendBottom compareArray

def tstP2pSimpleRingXsend : NeighbourTest :=
  blockingTest "tst_p2p_simple_ring_xsend" sendAndRecv
    (fun cfg t env _ commRank ↦ sendSameValue cfg t env commRank) compareOnce

def neighbourTests : List NeighbourTest :=
  [tstP2pSimpleRingIsend, tstP2pSimpleRingIbsend, tstP2pSimpleRingIrsend, tstP2pSimpleRingIssend,
    tstP2pSimpleRingRsend, tstP2pSimpleRingPersistent, tstP2pSimpleRingBsend,
    tstP2pSimpleRingSendrecv, tstP2pSimpleRingBottom, tstP2pSimpleRingXsend]

/-- `"Ring"` and `"Ring Ssend"` are of this kind as well. -/
def RingTest.asNeighbour (test : RingTest) : NeighbourTest :=
  { blockingTest test.functions sendAndRecv
      (fun cfg t env _ commRank ↦ sendArray cfg t env commRank) compareArray with
    mode := test.mode
    countMessage := "Error in count" }

/-- All of them. -/
def allNeighbourTests : List NeighbourTest :=
  neighbourTests ++ ringTests.map RingTest.asNeighbour

/-- The bytes of the buffer that `"Ring Ibsend"` and `"Ring Bsend"` attach: `env->mpi_buffer_size`,
with room for the array of each thread. -/
def ringBufferBytes (mpi : Surroundings) (t : TypeSlot) (env : Env) : Option ℕ := do
  let num ← checkedSigned (1 + mpi.numThreads)
  let values ← checkedSigned (t.size * env.valuesNum)
  let bytes ← checkedSigned (values + mpi.bsendOverhead)
  let size ← checkedSigned (num * bytes)
  mallocInt size

namespace NeighbourTest

variable (test : NeighbourTest)

/-- What a rank sends when `_init` gets through. The attached buffer has room for it. -/
def init (mpi : Surroundings) (cfg : Config) (t : TypeSlot) (env : Env) (address commRank : ℤ) :
    Option Packet := do
  let packet ← test.packet cfg t env address commRank
  if test.attaches then
    let room ← ringBufferBytes mpi t env
    if mpi.packSize + mpi.bsendOverhead ≤ room then some packet else none
  else some packet

/-- The variables that depend on the class of the communicator. -/
def place (commClass : Flags) (commRank commSize : ℕ) : Except Stop RingPlace :=
  if commClass &&& tstMpiCommSelf ≠ 0 then .ok ⟨0, none, none⟩
  else if commClass &&& tstMpiIntraComm ≠ 0 then
    if test.withItself ∨ 1 < commSize then
      .ok ⟨commRank, some ((commRank + 1) % commSize),
        some ((commRank + commSize - 1) % commSize)⟩
    else .ok ⟨commRank, none, none⟩
  else .error (.error test.commMessage)

/-- What a call does. One with `MPI_PROC_NULL` is complete at once. -/
def instr? {p : ℕ} (place : RingPlace) (packet : Packet) (tag : ℤ) :
    RingCall → Option (Instr (Fin p) ℤ Packet)
  | .send => (place.sendTo.bind (toRank p)).map fun q ↦ .send 0 test.mode q tag packet
  | .recv => (place.recvFrom.bind (toRank p)).map fun q ↦ .recv 1 q tag
  | .wait slots => some <| .wait <| slots.filter fun i ↦
      if i = 0 then place.sendTo.isSome else place.recvFrom.isSome
  | .barrier => some .barrier
where
  toRank (p q : ℕ) : Option (Fin p) := if h : q < p then some ⟨q, h⟩ else none

/-- The calls of all ranks. -/
def program (commClass : Flags) {p : ℕ} (tag : ℤ) (packet : Fin p → Packet) (r : Fin p) :
    List (Instr (Fin p) ℤ Packet) :=
  match test.place commClass r p with
  | .ok place => (test.calls (place.commRank == 0)).filterMap (test.instr? place (packet r) tag)
  | .error _ => []

/-! ## The checks -/

/-- Whether a request is not `MPI_REQUEST_NULL` after a call. -/
def request (requests : ℕ → Bool) : RingCall → ℕ → Bool
  | .send => Function.update requests 0 true
  | .recv => Function.update requests 1 true
  | .wait slots => fun i ↦ requests i && (test.persistent || !slots.contains i)
  | .barrier => requests

end NeighbourTest

/-- What the status of the receive says. -/
inductive RingStatus
  /-- `MPI_ANY_SOURCE` and `MPI_ANY_TAG`. -/
  | empty
  /-- `MPI_PROC_NULL` and `MPI_ANY_TAG`. -/
  | procNull
  | message (a : Arrival)

/-- The status that a rank finds. -/
def ringStatus (place : RingPlace) : Option Arrival → RingStatus
  | some a => .message a
  | none => if place.recvFrom = none then .procNull else .empty

/-- Source or tag are not those of the message that is expected. -/
def RingStatus.wrong (status : RingStatus) (place : RingPlace) (tag : ℤ) : Bool :=
  match status with
  | empty => true
  | procNull => place.recvFrom ≠ none
  | message a => place.recvFrom ≠ some a.source || a.tag ≠ tag

namespace NeighbourTest

variable (test : NeighbourTest) (cfg : Config) (t : TypeSlot) (env : Env) (mode : TstMode)
  (checkBuffer : Memory)

/-- With persistent requests an empty status is let pass. -/
def tolerates : RingStatus → Bool
  | .empty => test.persistent
  | _ => false

/-- The rest of the function `_run`. The count of an empty status is zero, and the buffer is as it
was. -/
def check (place : RingPlace) (status : RingStatus) : Except Stop (List Env) :=
  if test.requests.any fun i ↦
      ((test.calls (place.commRank == 0)).foldl test.request fun _ ↦ false) i != test.persistent
    then .error (.error test.requestMessage)
  else if status.wrong place env.tag && !test.tolerates status then
    .error (.error test.statusMessage)
  else
    match place.recvFrom with
    | none => .ok []
    | some source =>
      let a : Arrival := match status with
        | .message a => a
        | _ => ⟨source, env.tag, ⟨fun _ ↦ 0, 0, 0⟩⟩
      a.checkWith env mode test.countMessage (test.compare cfg t env checkBuffer a source)

/-- The function `_run` after the calls: the environments that `tst_test_recordfailure` is called
with. -/
def run (commClass : Flags) (commRank commSize : ℕ) (arrival : Option Arrival) :
    Except Stop (List Env) := do
  let place ← test.place commClass commRank commSize
  test.check cfg t env mode checkBuffer place (ringStatus place arrival)

end NeighbourTest

/-! ## Proper tests -/

/-- The slots that a call waits for. -/
def RingCall.slots : RingCall → List ℕ
  | wait slots => slots
  | _ => []

/-- What is asked of the calls of a test. -/
structure NeighbourTest.Proper (test : NeighbourTest) : Prop where
  send : ∀ zero, .send ∈ test.calls zero
  recv : ∀ zero, .recv ∈ test.calls zero
  /-- Nothing is started twice. -/
  once : ∀ zero, (test.calls zero).Pairwise fun a b ↦ a.slot? = none ∨ a.slot? ≠ b.slot?
  slots : ∀ zero, ∀ a ∈ test.calls zero, ∀ i ∈ a.slots, i = 0 ∨ i = 1
  received : ∀ zero, ∃ a ∈ test.calls zero, 1 ∈ a.slots
  behind : ∀ zero, (test.calls zero).Pairwise fun w b ↦ w.mayFollow zero b = true
  /-- Who sends to itself waits last. -/
  withItself : test.withItself = true →
    ∀ zero, (test.calls zero).Pairwise fun w b ↦ w.isWait = true → b.isWait = true
  barriers : (test.calls true).count .barrier = (test.calls false).count .barrier
  /-- Ready sends stand behind a barrier, and receives in front of it. -/
  ready : test.mode = .ready → ∀ zero, .barrier ∈ test.calls zero
  sends : ∀ zero, (test.calls zero).Pairwise fun a b ↦ a = .send → b ≠ .barrier
  recvs : ∀ zero, (test.calls zero).Pairwise fun a b ↦ a = .barrier → b ≠ .recv
  /-- After the calls the requests are what they should be. -/
  requests : ∀ zero, ∀ i ∈ test.requests,
    (test.calls zero).foldl test.request (fun _ ↦ false) i = test.persistent

theorem proper_of_mem {test : NeighbourTest} (htest : test ∈ allNeighbourTests) :
    test.Proper := by
  simp only [allNeighbourTests, neighbourTests, ringTests, List.map_cons, List.map_nil,
    List.cons_append, List.nil_append, List.mem_cons, List.not_mem_nil, or_false] at htest
  rcases htest with rfl | rfl | rfl | rfl | rfl | rfl | rfl | rfl | rfl | rfl | rfl | rfl
  all_goals constructor <;> decide

theorem mem_allNeighbourTests {test : NeighbourTest} (htest : test ∈ neighbourTests) :
    test ∈ allNeighbourTests := List.mem_append_left _ htest

/-! ## The calls of the ranks -/

namespace NeighbourTest

/-- Whether the ranks have neighbours. -/
def Linked (test : NeighbourTest) (commClass : Flags) (p : ℕ) : Prop :=
  commClass &&& tstMpiCommSelf = 0 ∧ (test.withItself = true ∨ 1 < p)

instance (test : NeighbourTest) (commClass : Flags) (p : ℕ) :
    Decidable (test.Linked commClass p) := by
  unfold Linked
  infer_instance

theorem next_lt {p : ℕ} (r : Fin p) : (r + 1) % p < p := Nat.mod_lt _ r.pos

/-- The next rank. -/
def next {p : ℕ} (r : Fin p) : Fin p := ⟨(r + 1) % p, next_lt r⟩

theorem previous_lt {p : ℕ} (r : Fin p) : (r + p - 1) % p < p := Nat.mod_lt _ r.pos

/-- The rank before. -/
def previous {p : ℕ} (r : Fin p) : Fin p := ⟨(r + p - 1) % p, previous_lt r⟩

theorem eq_next_iff {p : ℕ} {r q : Fin p} : q = next r ↔ r = previous q := by
  rw [Fin.ext_iff, Fin.ext_iff]
  exact next_eq_iff r.isLt q.isLt

theorem toRank_val {p : ℕ} (r : Fin p) : instr?.toRank p r = some r := dif_pos r.isLt

/-- The variables of a rank. -/
def neighbours (test : NeighbourTest) (commClass : Flags) {p : ℕ} (r : Fin p) : RingPlace :=
  if test.Linked commClass p then ⟨r, some (next r), some (previous r)⟩ else ⟨r, none, none⟩

section

variable (test : NeighbourTest) (commClass : Flags) {p : ℕ} (r : Fin p) (packet : Packet) (tag : ℤ)

theorem instr?_send : test.instr? (test.neighbours commClass r) packet tag .send
    = if test.Linked commClass p then some (.send 0 test.mode (next r) tag packet) else none := by
  rw [neighbours]
  split_ifs
  · simp [instr?, toRank_val]
  · rfl

theorem instr?_recv : test.instr? (test.neighbours commClass r) packet tag .recv
    = if test.Linked commClass p then some (.recv 1 (previous r) tag) else none := by
  rw [neighbours]
  split_ifs
  · simp [instr?, toRank_val]
  · rfl

theorem instr?_wait (slots : List ℕ) :
    test.instr? (p := p) (test.neighbours commClass r) packet tag (.wait slots)
      = some (.wait (if test.Linked commClass p then slots else [])) := by
  rw [neighbours]
  split_ifs <;> simp [instr?]

/-- What a call may do. -/
theorem instr?_cases {c : RingCall} {a : Instr (Fin p) ℤ Packet}
    (ha : test.instr? (test.neighbours commClass r) packet tag c = some a) :
    (c = .send ∧ test.Linked commClass p ∧ a = .send 0 test.mode (next r) tag packet) ∨
      (c = .recv ∧ test.Linked commClass p ∧ a = .recv 1 (previous r) tag) ∨
      (∃ slots, c = .wait slots ∧ a = .wait (if test.Linked commClass p then slots else [])) ∨
      c = .barrier ∧ a = .barrier := by
  cases c with
  | send =>
    rw [instr?_send, Option.ite_none_right_eq_some] at ha
    exact .inl ⟨rfl, ha.1, (Option.some_inj.mp ha.2).symm⟩
  | recv =>
    rw [instr?_recv, Option.ite_none_right_eq_some] at ha
    exact .inr (.inl ⟨rfl, ha.1, (Option.some_inj.mp ha.2).symm⟩)
  | wait slots =>
    rw [instr?_wait] at ha
    exact .inr (.inr (.inl ⟨slots, rfl, (Option.some_inj.mp ha).symm⟩))
  | barrier => exact .inr (.inr (.inr ⟨rfl, (Option.some_inj.mp ha).symm⟩))

end

section

variable {test : NeighbourTest} {commClass : Flags} {p : ℕ}
  (hclass : commClass &&& (tstMpiCommSelf ||| tstMpiIntraComm) ≠ 0)
  (hself : commClass &&& tstMpiCommSelf ≠ 0 → p = 1)

include hclass hself

/-- The variables of an admitted communicator. -/
theorem place_eq (test : NeighbourTest) (r : Fin p) :
    test.place commClass r p = .ok (test.neighbours commClass r) := by
  rw [place, neighbours]
  by_cases hone : commClass &&& tstMpiCommSelf = 0
  · have hintra : commClass &&& tstMpiIntraComm ≠ 0 := by
      intro hzero
      exact hclass (by rw [BitVec.and_or_distrib_left, hone, hzero]; rfl)
    rw [if_neg (not_not.mpr hone), if_pos hintra]
    by_cases hlinked : test.withItself = true ∨ 1 < p
    · rw [if_pos hlinked, if_pos ⟨hone, hlinked⟩]
      rfl
    · rw [if_neg hlinked, if_neg fun h ↦ hlinked h.2]
  · obtain rfl := hself hone
    rw [if_pos hone, if_neg fun h ↦ hone h.1, Fin.val_eq_zero]

variable {tag : ℤ} {packet : Fin p → Packet} {r : Fin p}

theorem program_eq : test.program commClass tag packet r
    = (test.calls ((r : ℕ) == 0)).filterMap
      (test.instr? (test.neighbours commClass r) (packet r) tag) := by
  rw [program, place_eq hclass hself, neighbours]
  split_ifs <;> rfl

theorem mem_program {a : Instr (Fin p) ℤ Packet} : a ∈ test.program commClass tag packet r ↔
    ∃ c ∈ test.calls ((r : ℕ) == 0),
      test.instr? (test.neighbours commClass r) (packet r) tag c = some a := by
  rw [program_eq hclass hself, List.mem_filterMap]

/-- What holds of any two calls holds of what they do. -/
theorem pairwise_program {R : Instr (Fin p) ℤ Packet → Instr (Fin p) ℤ Packet → Prop}
    {S : RingCall → RingCall → Prop} (hcalls : (test.calls ((r : ℕ) == 0)).Pairwise S)
    (h : ∀ c ∈ test.calls ((r : ℕ) == 0), ∀ d ∈ test.calls ((r : ℕ) == 0), S c d →
      ∀ a, test.instr? (test.neighbours commClass r) (packet r) tag c = some a →
      ∀ b, test.instr? (test.neighbours commClass r) (packet r) tag d = some b → R a b) :
    (test.program commClass tag packet r).Pairwise R := by
  rw [program_eq hclass hself, List.pairwise_filterMap]
  exact hcalls.imp_of_mem fun {c d} hc hd hcd a ha b hb ↦ h c hc d hd hcd a ha b hb

theorem send_mem_program (hproper : test.Proper) {i : ℕ} {m : Mode} {q : Fin p} {k : ℤ}
    {y : Packet} : .send i m q k y ∈ test.program commClass tag packet r ↔
      test.Linked commClass p ∧ i = 0 ∧ m = test.mode ∧ q = next r ∧ k = tag ∧ y = packet r := by
  rw [mem_program hclass hself]
  constructor
  · rintro ⟨c, -, hc⟩
    rcases test.instr?_cases commClass r _ tag hc with
      ⟨-, hlinked, ha⟩ | ⟨-, -, ha⟩ | ⟨slots, -, ha⟩ | ⟨-, ha⟩
    · obtain ⟨rfl, rfl, rfl, rfl, rfl⟩ := Instr.send.inj ha
      exact ⟨hlinked, rfl, rfl, rfl, rfl, rfl⟩
    all_goals cases ha
  · rintro ⟨hlinked, rfl, rfl, rfl, rfl, rfl⟩
    exact ⟨.send, hproper.send _, by rw [instr?_send, if_pos hlinked]⟩

theorem recv_mem_program (hproper : test.Proper) {j : ℕ} {q : Fin p} {k : ℤ} :
    .recv j q k ∈ test.program commClass tag packet r ↔
      test.Linked commClass p ∧ j = 1 ∧ q = previous r ∧ k = tag := by
  rw [mem_program hclass hself]
  constructor
  · rintro ⟨c, -, hc⟩
    rcases test.instr?_cases commClass r _ tag hc with
      ⟨-, -, ha⟩ | ⟨-, hlinked, ha⟩ | ⟨slots, -, ha⟩ | ⟨-, ha⟩
    · cases ha
    · obtain ⟨rfl, rfl, rfl⟩ := Instr.recv.inj ha
      exact ⟨hlinked, rfl, rfl, rfl⟩
    all_goals cases ha
  · rintro ⟨hlinked, rfl, rfl, rfl⟩
    exact ⟨.recv, hproper.recv _, by rw [instr?_recv, if_pos hlinked]⟩

/-- Only something that is started is waited for. -/
theorem wait_mem_program {slots : List ℕ} :
    .wait slots ∈ test.program commClass tag packet r ↔
      ∃ slots', .wait slots' ∈ test.calls ((r : ℕ) == 0) ∧
        slots = if test.Linked commClass p then slots' else [] := by
  rw [mem_program hclass hself]
  constructor
  · rintro ⟨c, hmem, hc⟩
    rcases test.instr?_cases commClass r _ tag hc with
      ⟨-, -, ha⟩ | ⟨-, -, ha⟩ | ⟨slots', rfl, ha⟩ | ⟨-, ha⟩
    case inr.inr.inl => exact ⟨slots', hmem, Instr.wait.inj ha⟩
    all_goals cases ha
  · rintro ⟨slots', hmem, rfl⟩
    exact ⟨.wait slots', hmem, instr?_wait test commClass r (packet r) tag slots'⟩

theorem slots_program (hproper : test.Proper) :
    (test.program commClass tag packet r).Pairwise fun a b ↦ ∀ i ∈ a.slot?, i ∉ b.slot? := by
  have hslot : ∀ c (a : Instr (Fin p) ℤ Packet),
      test.instr? (test.neighbours commClass r) (packet r) tag c = some a → a.slot? = c.slot? := by
    intro c a ha
    rcases test.instr?_cases commClass r _ tag ha with
      ⟨rfl, -, rfl⟩ | ⟨rfl, -, rfl⟩ | ⟨slots, rfl, rfl⟩ | ⟨rfl, rfl⟩ <;> rfl
  refine pairwise_program hclass hself (hproper.once _) fun c _ d _ hcd a ha b hb i hi hi' ↦ ?_
  rw [hslot c a ha] at hi
  rw [hslot d b hb] at hi'
  rcases hcd with hnone | hne
  · rw [hnone] at hi
    cases hi
  · exact hne (hi.trans hi'.symm)

theorem envelopes_program (hproper : test.Proper) :
    (test.program commClass tag packet r).Pairwise fun a b ↦
      ∀ e ∈ a.envelope?, e ∉ b.envelope? := by
  have henvelope : ∀ c (a : Instr (Fin p) ℤ Packet),
      test.instr? (test.neighbours commClass r) (packet r) tag c = some a →
      ∀ e ∈ a.envelope?, c.slot? = some (if e.1 then 0 else 1) := by
    intro c a ha e he
    rcases test.instr?_cases commClass r _ tag ha with
      ⟨rfl, -, rfl⟩ | ⟨rfl, -, rfl⟩ | ⟨slots, rfl, rfl⟩ | ⟨rfl, rfl⟩
    · obtain rfl := Option.some_inj.mp he
      rfl
    · obtain rfl := Option.some_inj.mp he
      rfl
    all_goals cases he
  refine pairwise_program hclass hself (hproper.once _) fun c _ d _ hcd a ha b hb e he he' ↦ ?_
  have hslot := henvelope c a ha e he
  have hslot' := henvelope d b hb e he'
  rcases hcd with hnone | hne
  · rw [hnone] at hslot
    cases hslot
  · exact hne (hslot.trans hslot'.symm)

/-- What a rank waits for is below what it starts then. -/
theorem behind_program (hproper : test.Proper) :
    (test.program commClass tag packet r).Pairwise
      (Behind (fun (q : Fin p) _ _ ↦ (q : ℕ)) (test.program commClass tag packet) r) := by
  have hslots : (test.program commClass tag packet r).Pairwise fun a b ↦
      ∀ i ∈ a.slot?, i ∉ b.slot? := slots_program hclass hself hproper
  have hcalls : (test.calls ((r : ℕ) == 0)).Pairwise fun w b ↦
      w.mayFollow ((r : ℕ) == 0) b = true ∧
        (test.withItself = true → w.isWait = true → b.isWait = true) := by
    refine List.Pairwise.and (hproper.behind _) ?_
    cases hwith : test.withItself with
    | true => exact (hproper.withItself hwith _).imp fun h _ ↦ h
    | false => exact List.pairwise_of_forall fun _ _ ↦ nofun
  refine pairwise_program hclass hself hcalls fun c _ d _ hcd a ha b hb ↦ ?_
  obtain ⟨hfollow, hwait⟩ := hcd
  rcases test.instr?_cases commClass r _ tag ha with
    ⟨-, -, rfl⟩ | ⟨-, -, rfl⟩ | ⟨slots, rfl, rfl⟩ | ⟨-, rfl⟩
  · exact behind_of_slot rfl
  · exact behind_of_slot rfl
  · rcases test.instr?_cases commClass r _ tag hb with
      ⟨rfl, hlinked, rfl⟩ | ⟨rfl, hlinked, rfl⟩ | ⟨slots', -, rfl⟩ | ⟨rfl, -⟩
    · -- the message that is sent on is above the one that has been received
      obtain ⟨hzero, hall⟩ := Bool.and_eq_true_iff.mp hfollow
      refine behind_of_lt hslots rfl fun i hi ↦ ?_
      rw [if_pos hlinked] at hi
      obtain rfl : i = 1 := by simpa using List.all_eq_true.mp hall i hi
      refine ⟨nofun, _, (recv_mem_program hclass hself hproper).mpr ⟨hlinked, rfl, rfl, rfl⟩, rfl,
        fun m hm n hn ↦ ?_⟩
      obtain rfl := Option.some_inj.mp hm
      obtain rfl := Option.some_inj.mp hn
      have hr : (r : ℕ) ≠ 0 := by simpa using hzero
      show (r + p - 1) % p < r
      rw [previous_eq r.isLt, if_neg hr]
      omega
    · -- the message that comes last is above the first one
      obtain ⟨hzero, hall⟩ := Bool.and_eq_true_iff.mp hfollow
      refine behind_of_lt hslots rfl fun i hi ↦ ?_
      rw [if_pos hlinked] at hi
      obtain rfl : i = 0 := by simpa using List.all_eq_true.mp hall i hi
      refine ⟨nofun, _, (send_mem_program hclass hself hproper).mpr
        ⟨hlinked, rfl, rfl, rfl, rfl, rfl⟩, rfl, fun m hm n hn ↦ ?_⟩
      obtain rfl := Option.some_inj.mp hm
      obtain rfl := Option.some_inj.mp hn
      have hr : (r : ℕ) = 0 := by simpa using hzero
      have hp : 1 < p := hlinked.2.resolve_left fun hwith ↦ absurd (hwait hwith rfl) nofun
      show (r : ℕ) < (r + p - 1) % p
      rw [previous_eq r.isLt, if_pos hr]
      omega
    · exact behind_wait _
    · cases hfollow
  · exact behind_barrier

/-- Everybody comes to as many barriers. -/
theorem countP_barrier_program : (test.program commClass tag packet r).countP Instr.isBarrier
    = (test.calls ((r : ℕ) == 0)).count .barrier := by
  rw [program_eq hclass hself, List.countP_filterMap]
  refine List.countP_congr fun c _ ↦ ?_
  cases c with
  | send =>
    rw [instr?_send]
    split_ifs <;> simp [Instr.isBarrier]
  | recv =>
    rw [instr?_recv]
    split_ifs <;> simp [Instr.isBarrier]
  | wait => simp [instr?, Instr.isBarrier]
  | barrier => simp [instr?, Instr.isBarrier]

/-- The message of a rank has its number as its level. -/
theorem leveled (hproper : test.Proper) :
    Leveled (fun (q : Fin p) _ _ ↦ (q : ℕ)) (test.program commClass tag packet) := by
  refine ⟨⟨fun r ↦ slots_program hclass hself hproper,
    fun r ↦ envelopes_program hclass hself hproper, fun r q k ↦ ?_⟩,
    fun r slots hwait i hi ↦ ?_, fun r ↦ behind_program hclass hself hproper, fun r q ↦ ?_⟩
  · simp only [send_mem_program hclass hself hproper, recv_mem_program hclass hself hproper]
    constructor
    · rintro ⟨i, mode, y, hlinked, rfl, rfl, hq, rfl, rfl⟩
      exact ⟨1, hlinked, rfl, eq_next_iff.mp hq, rfl⟩
    · rintro ⟨j, hlinked, rfl, hr, rfl⟩
      exact ⟨0, test.mode, packet r, hlinked, rfl, rfl, eq_next_iff.mpr hr, rfl, rfl⟩
  · obtain ⟨slots', hmem, rfl⟩ := (wait_mem_program hclass hself).mp hwait
    split_ifs at hi with hlinked
    · rcases hproper.slots _ _ hmem i hi with rfl | rfl
      · exact ⟨_, (send_mem_program hclass hself hproper).mpr
          ⟨hlinked, rfl, rfl, rfl, rfl, rfl⟩, rfl⟩
      · exact ⟨_, (recv_mem_program hclass hself hproper).mpr ⟨hlinked, rfl, rfl, rfl⟩, rfl⟩
    · cases hi
  · have hcount : ∀ zero, (test.calls zero).count .barrier = (test.calls true).count .barrier := by
      intro zero
      cases zero with
      | true => rfl
      | false => exact hproper.barriers.symm
    rw [countP_barrier_program hclass hself, countP_barrier_program hclass hself, hcount,
      hcount ((q : ℕ) == 0)]

/-- A test with ready sends has a barrier in front of them, and the receive in front of the
barrier. -/
theorem readyInTime (hproper : test.Proper) {s : State (Fin p) ℤ Packet}
    (h : Genuine (test.program commClass tag packet) s) : s.ReadyInTime := by
  have hpaired : Paired (test.program commClass tag packet) :=
    (leveled hclass hself hproper).toPaired
  refine h.readyInTime hpaired (fun r a ha hready ↦ ?_) (fun r ↦ ?_) fun r ↦ ?_
  · obtain ⟨c, -, hc⟩ := (mem_program hclass hself).mp ha
    have hmode : test.mode = .ready := by
      rcases test.instr?_cases commClass r _ tag hc with
        ⟨-, -, rfl⟩ | ⟨-, -, rfl⟩ | ⟨slots, -, rfl⟩ | ⟨-, rfl⟩
      · cases hmode : test.mode with
        | ready => rfl
        | standard => simp [hmode, Instr.isReady] at hready
        | synchronous => simp [hmode, Instr.isReady] at hready
      all_goals cases hready
    exact ⟨.barrier, (mem_program hclass hself).mpr ⟨.barrier, hproper.ready hmode _, rfl⟩, rfl⟩
  · refine pairwise_program hclass hself (hproper.sends _) fun c _ d _ hcd a ha b hb hready ↦ ?_
    rcases test.instr?_cases commClass r _ tag ha with
      ⟨rfl, -, rfl⟩ | ⟨-, -, rfl⟩ | ⟨slots, -, rfl⟩ | ⟨-, rfl⟩
    · rcases test.instr?_cases commClass r _ tag hb with
        ⟨-, -, rfl⟩ | ⟨-, -, rfl⟩ | ⟨slots, -, rfl⟩ | ⟨rfl, -⟩
      case inr.inr.inr => exact absurd rfl (hcd rfl)
      all_goals rfl
    all_goals cases hready
  · refine pairwise_program hclass hself (hproper.recvs _) fun c _ d _ hcd a ha b hb hbarrier ↦ ?_
    rcases test.instr?_cases commClass r _ tag ha with
      ⟨-, -, rfl⟩ | ⟨-, -, rfl⟩ | ⟨slots, -, rfl⟩ | ⟨rfl, rfl⟩
    case inr.inr.inr =>
      rcases test.instr?_cases commClass r _ tag hb with
        ⟨-, -, rfl⟩ | ⟨rfl, -⟩ | ⟨slots, -, rfl⟩ | ⟨-, rfl⟩
      case inr.inl => exact absurd rfl (hcd rfl)
      all_goals rfl
    all_goals cases hbarrier

end

end NeighbourTest

/-! ## What is sent and what is expected -/

/-- What a rank sends arrives, and nothing is recorded about it. -/
structure NeighbourTest.Sound (test : NeighbourTest) (cfg : Config) (t : TypeSlot) (env : Env)
    (commRank : ℕ) (packet : Packet) : Prop where
  count : packet.count = env.valuesNum
  elements : ∀ a : Arrival, a.packet = packet → ∀ i < env.valuesNum.toNat,
    window t (a.buffer t env) i = packet.element t i
  compare : ∀ checkBuffer, ∀ a : Arrival, a.packet = packet →
    test.compare cfg t env checkBuffer a commRank = some []

section

variable {cfg : Config} {t : TypeSlot}

/-- The elements of every datatype consist of something. -/
theorem scalars_ne_nil (ht : t ∈ initTypes cfg) (hnull : t.datatype ≠ .null) :
    t.datatype.typemap.scalars ≠ [] :=
  Config.forall_slot (P := fun _ t ↦ t.datatype ≠ .null → t.datatype.typemap.scalars ≠ [])
    (by decide +kernel) cfg ht hnull

/-- **Addresses.** What is sent from an address is what is sent from a buffer there. -/
theorem sendBottom_eq (ht : t ∈ initTypes cfg) (hnull : t.datatype ≠ .null) (env : Env)
    (address commRank : ℤ) :
    sendBottom cfg t env address commRank = sendArray cfg t env commRank := by
  have hextent : (bottomType t address).extent = t.datatype.typemap.extent := by
    rw [bottomType, Typemap.struct_singleton, Typemap.extent_shift _ (scalars_ne_nil ht hnull)]
  have hmemory : ∀ m : Memory, (m.shift (-address)).shift address = m := by
    intro m
    rw [Memory.shift_shift, neg_add_cancel]
    funext q
    rw [Memory.shift, zero_add]
  simp only [sendBottom, sendArray, hextent, hmemory]

variable {env : Env} {commRank : ℕ}

/-- What a rank sends is what its test promises. -/
theorem sound_neighbour (ht : t ∈ initTypes cfg) (hnull : t.datatype ≠ .null)
    (hbound : commRank + env.valuesNum.toNat ≤ 2 ^ 32) {test : NeighbourTest}
    (htest : test ∈ allNeighbourTests) {address : ℤ} {packet : Packet}
    (hpacket : test.packet cfg t env address commRank = some packet) :
    test.Sound cfg t env commRank packet := by
  have harray : ∀ test : NeighbourTest, test.compare = compareArray →
      sendArray cfg t env commRank = some packet → test.Sound cfg t env commRank packet := by
    intro test hcompare hpacket
    have halltoall : tstP2pAlltoall.Sound cfg t env commRank packet :=
      sound_array ht hnull rfl hbound hpacket
    exact ⟨halltoall.count, halltoall.elements, by rw [hcompare]; exact halltoall.compare⟩
  simp only [allNeighbourTests, neighbourTests, ringTests, List.map_cons, List.map_nil,
    List.cons_append, List.nil_append, List.mem_cons, List.not_mem_nil, or_false] at htest
  rcases htest with rfl | rfl | rfl | rfl | rfl | rfl | rfl | rfl | rfl | rfl | rfl | rfl
  case inr.inr.inr.inr.inr.inr.inr.inr.inl =>
    exact harray _ rfl ((sendBottom_eq ht hnull env address commRank).symm.trans hpacket)
  case inr.inr.inr.inr.inr.inr.inr.inr.inr.inl =>
    have hxisend : tstP2pAlltoallXisend.Sound cfg t env commRank packet :=
      sound_sameValue ht hnull rfl (by omega) hpacket
    refine ⟨hxisend.count, hxisend.elements, fun checkBuffer a ha ↦ ?_⟩
    have hsame : compareSameValue cfg t env checkBuffer a commRank = some [] :=
      hxisend.compare checkBuffer a ha
    show compareOnce cfg t env checkBuffer a commRank = some []
    rw [compareOnce, hsame]
    rfl
  all_goals exact harray _ rfl hpacket

/-- **Sizes.** A rank has something to send exactly if the arrays fit. -/
theorem exists_packet_neighbour_iff (ht : t ∈ initTypes cfg) (hnull : t.datatype ≠ .null)
    {test : NeighbourTest} (htest : test ∈ allNeighbourTests) (address : ℤ) :
    (∃ packet, test.packet cfg t env address commRank = some packet) ↔
      ArrayFits t env.valuesNum := by
  simp only [allNeighbourTests, neighbourTests, ringTests, List.map_cons, List.map_nil,
    List.cons_append, List.nil_append, List.mem_cons, List.not_mem_nil, or_false] at htest
  rcases htest with rfl | rfl | rfl | rfl | rfl | rfl | rfl | rfl | rfl | rfl | rfl | rfl
  case inr.inr.inr.inr.inr.inr.inr.inr.inl =>
    show (∃ packet, sendBottom cfg t env address commRank = some packet) ↔ _
    rw [sendBottom_eq ht hnull]
    exact exists_sendArray_iff ht hnull
  case inr.inr.inr.inr.inr.inr.inr.inr.inr.inl =>
    have hmem : tstP2pAlltoallXisend ∈ alltoallTests := by simp [alltoallTests]
    exact exists_packet_iff ht hnull hmem
  all_goals exact exists_sendArray_iff ht hnull

/-- The attached buffer of a ring has a size that is an `int`, and room for an array. -/
structure AttachFits (mpi : Surroundings) (t : TypeSlot) (env : Env) : Prop where
  num : 1 + mpi.numThreads < 2 ^ 31
  bytes : (1 + mpi.numThreads) * (t.size * env.valuesNum + mpi.bsendOverhead) < 2 ^ 31
  room : mpi.packSize + mpi.bsendOverhead
    ≤ (1 + mpi.numThreads) * (t.size * env.valuesNum + mpi.bsendOverhead)

theorem attachFits_iff {mpi : Surroundings} (hfits : ArrayFits t env.valuesNum) :
    AttachFits mpi t env ↔ ∃ room, ringBufferBytes mpi t env = some room ∧
      mpi.packSize + mpi.bsendOverhead ≤ room := by
  have hvalues : 0 ≤ t.size * env.valuesNum := mul_nonneg hfits.size.le hfits.count
  have hlt := hfits.mul_size_lt
  rw [mul_comm] at hlt
  have hle : t.size * env.valuesNum + mpi.bsendOverhead
      ≤ (1 + mpi.numThreads) * (t.size * env.valuesNum + mpi.bsendOverhead) :=
    le_mul_of_one_le_left (by omega) (by omega)
  simp only [ringBufferBytes, Option.bind_eq_bind, Option.bind_eq_some_iff,
    checkedSigned_eq_some_iff, mallocInt_eq_some_iff]
  constructor
  · rintro ⟨hnum, hbytes, hroom⟩
    refine ⟨_, ⟨_, ⟨⟨by omega, by exact_mod_cast hnum⟩, rfl⟩, _, ⟨⟨by omega, hlt⟩, rfl⟩, _,
      ⟨⟨by omega, by omega⟩, rfl⟩, _, ⟨⟨by omega, hbytes⟩, rfl⟩,
      (Int.toNat_of_nonneg (by omega)).symm⟩, by omega⟩
  · rintro ⟨room, ⟨_, ⟨hnum, rfl⟩, _, ⟨-, rfl⟩, _, ⟨-, rfl⟩, _, ⟨hbytes, rfl⟩, hroom⟩, hle⟩
    exact ⟨by exact_mod_cast hnum.2, hbytes.2, by rw [hroom]; exact_mod_cast hle⟩

/-- The sizes of a test are such that its `_init` gets through. -/
def NeighbourTest.Fits (test : NeighbourTest) (mpi : Surroundings) (t : TypeSlot) (env : Env) :
    Prop :=
  ArrayFits t env.valuesNum ∧ (test.attaches = true → AttachFits mpi t env)

theorem NeighbourTest.init_eq_some_iff {test : NeighbourTest} {mpi : Surroundings} {address : ℤ}
    {packet : Packet} (hfits : ArrayFits t env.valuesNum) :
    test.init mpi cfg t env address commRank = some packet ↔
      test.packet cfg t env address commRank = some packet ∧
        (test.attaches = true → AttachFits mpi t env) := by
  rw [init, attachFits_iff hfits]
  cases hpacket : test.packet cfg t env address commRank with
  | none => simp
  | some packet' =>
    cases hattaches : test.attaches with
    | false => simp
    | true =>
      cases hroom : ringBufferBytes mpi t env with
      | none => simp
      | some room => simp [and_comm]

/-- `_init` gets through exactly if the sizes are what they should be. -/
theorem NeighbourTest.exists_init_iff (ht : t ∈ initTypes cfg) (hnull : t.datatype ≠ .null)
    {test : NeighbourTest} (htest : test ∈ allNeighbourTests) (mpi : Surroundings) (address : ℤ) :
    (∃ packet, test.init mpi cfg t env address commRank = some packet) ↔ test.Fits mpi t env := by
  have hexists : (∃ packet, test.packet cfg t env address commRank = some packet) ↔
      ArrayFits t env.valuesNum := exists_packet_neighbour_iff ht hnull htest address
  constructor
  · rintro ⟨packet, hinit⟩
    obtain ⟨packet', hpacket, -⟩ := Option.bind_eq_some_iff.mp hinit
    have hfits := hexists.mp ⟨packet', hpacket⟩
    exact ⟨hfits, ((init_eq_some_iff hfits).mp hinit).2⟩
  · rintro ⟨hfits, hattach⟩
    obtain ⟨packet, hpacket⟩ := hexists.mpr hfits
    exact ⟨packet, (init_eq_some_iff hfits).mpr ⟨hpacket, hattach⟩⟩

/-- What `_init` leaves to be sent is what the test promises. -/
theorem NeighbourTest.sound_init (ht : t ∈ initTypes cfg) (hnull : t.datatype ≠ .null)
    (hbound : commRank + env.valuesNum.toNat ≤ 2 ^ 32) {test : NeighbourTest}
    (htest : test ∈ allNeighbourTests) {mpi : Surroundings} {address : ℤ} {packet : Packet}
    (hinit : test.init mpi cfg t env address commRank = some packet) :
    test.Sound cfg t env commRank packet := by
  have hfits := ((exists_init_iff ht hnull htest mpi address).mp ⟨packet, hinit⟩).1
  exact sound_neighbour ht hnull hbound htest ((init_eq_some_iff hfits).mp hinit).1

end

/-! ## Every run -/

/-- The rows of the tests ask for the same classes of communicators. -/
theorem runWithComm_neighbours {cfg : Config} {i : ℤ} {row : Test}
    (hrow : tstTest cfg i = some row) {test : NeighbourTest} (htest : test ∈ allNeighbourTests)
    (hname : row.functions = some test.functions) :
    row.runWithComm = tstMpiCommSelf ||| tstMpiIntraComm := by
  rcases tstTest_induction cfg
    (P := fun row ↦ decide (∀ test ∈ allNeighbourTests, row.functions = some test.functions →
      row.runWithComm = tstMpiCommSelf ||| tstMpiIntraComm))
    (by simp only [List.forall_mem_cons]; exact ⟨rfl, rfl, rfl, rfl, rfl, rfl, nofun⟩) hrow
    with rfl | h
  · cases hname
  · exact of_decide_eq_true h test htest hname

/-- What the tests promise of a state that is reached on a communicator of `p` ranks. -/
structure NeighbourWorks (cfg : Config) (t : TypeSlot) (env : Env) (mode : TstMode)
    (test : NeighbourTest) (commClass : Flags) {p : ℕ} (packet : Fin p → Packet)
    (s : State (Fin p) ℤ Packet) : Prop where
  /-- As long as a rank has something left to do, there is a step. -/
  noDeadlock : ∀ r, s.todo r ≠ [] → ∃ s', Step s s'
  /-- A ready send is not started before its receive. -/
  ready : s.ReadyInTime
  /-- Messages go from neighbour to neighbour. -/
  delivered : ∀ d ∈ s.delivered, test.Linked commClass p ∧
    (d.dest : ℕ) = (d.source + 1) % p
  /-- A rank that is through has received one message, if it has neighbours. -/
  once : ∀ r, s.todo r = [] →
    s.delivered.countP (fun d ↦ d.dest = r) = if test.Linked commClass p then 1 else 0
  /-- What has been received is what the rank before has sent. -/
  elements : ∀ r : Fin p, ∀ a ∈ arrival? s Fin.val r 1, ∃ q : Fin p, a.source = q ∧
    (q : ℕ) = (r + p - 1) % p ∧
      ∀ i < env.valuesNum.toNat, window t (a.buffer t env) i = (packet q).element t i
  /-- No `ERROR` is raised and no failure is recorded. -/
  quiet : ∀ r, s.todo r = [] ∨ s.Complete r 1 → ∀ checkBuffer,
    test.run cfg t env mode checkBuffer commClass r p (arrival? s Fin.val r 1) = .ok []

section

variable {cfg : Config} {t : TypeSlot} {env : Env} {commClass : Flags} {p : ℕ}
  {s : State (Fin p) ℤ Packet} {packet : Fin p → Packet} {test : NeighbourTest}

open NeighbourTest

/-- After the calls the requests are what they should be. -/
theorem NeighbourTest.Proper.any_requests (hproper : test.Proper) (zero : Bool) :
    (test.requests.any fun i ↦
      ((test.calls zero).foldl test.request fun _ ↦ false) i != test.persistent) = false := by
  refine List.any_eq_false.mpr fun i hi ↦ ?_
  rw [hproper.requests _ i hi, bne_self_eq_false]
  exact Bool.false_ne_true

section

variable (hclass : commClass &&& (tstMpiCommSelf ||| tstMpiIntraComm) ≠ 0)
  (hself : commClass &&& tstMpiCommSelf ≠ 0 → p = 1) (hproper : test.Proper) {r : Fin p}

include hclass hself hproper

/-- Nothing wrong is found with what the rank before has sent. -/
theorem NeighbourTest.run_linked (hlinked : test.Linked commClass p) (mode : TstMode)
    {y : Packet} (hsound : test.Sound cfg t env (previous r) y) (checkBuffer : Memory) :
    test.run cfg t env mode checkBuffer commClass r p (some ⟨previous r, env.tag, y⟩)
      = .ok [] := by
  rw [run, place_eq hclass hself, Runs.ok_bind, check, hproper.any_requests, neighbours,
    if_pos hlinked, if_neg Bool.false_ne_true, if_neg (by simp [ringStatus, RingStatus.wrong])]
  show Arrival.checkWith env mode ⟨previous r, env.tag, y⟩ test.countMessage
    (test.compare cfg t env checkBuffer _ _) = .ok []
  rw [hsound.compare checkBuffer _ rfl]
  exact Arrival.checkWith_eq_nil mode _ hsound.count

/-- Nothing is expected of `MPI_PROC_NULL`. -/
theorem NeighbourTest.run_unlinked (hlinked : ¬test.Linked commClass p) (mode : TstMode)
    (checkBuffer : Memory) :
    test.run cfg t env mode checkBuffer commClass r p none = .ok [] := by
  rw [run, place_eq hclass hself, Runs.ok_bind, check, hproper.any_requests, neighbours,
    if_neg hlinked, if_neg Bool.false_ne_true, if_neg (by simp [ringStatus, RingStatus.wrong])]

end

theorem neighbourWorks_of_reachable (mode : TstMode) (htest : test ∈ allNeighbourTests)
    (hclass : commClass &&& (tstMpiCommSelf ||| tstMpiIntraComm) ≠ 0)
    (hself : commClass &&& tstMpiCommSelf ≠ 0 → p = 1)
    (hsound : ∀ r : Fin p, test.Sound cfg t env r (packet r))
    (h : Reachable (test.program commClass env.tag packet) s) :
    NeighbourWorks cfg t env mode test commClass packet s := by
  have hproper := proper_of_mem htest
  have hgenuine := h.genuine
  have hleveled : Leveled (fun (q : Fin p) _ _ ↦ (q : ℕ))
      (test.program commClass env.tag packet) := leveled hclass hself hproper
  have hsend : ∀ {r : Fin p} {i m q k y},
      .send i m q k y ∈ test.program commClass env.tag packet r ↔
      test.Linked commClass p ∧ i = 0 ∧ m = test.mode ∧ q = next r ∧ k = env.tag ∧ y = packet r :=
    send_mem_program hclass hself hproper
  have hrecv : ∀ {r : Fin p} {j q k}, .recv j q k ∈ test.program commClass env.tag packet r ↔
      test.Linked commClass p ∧ j = 1 ∧ q = previous r ∧ k = env.tag :=
    recv_mem_program hclass hself hproper
  have hcomplete : ∀ r, test.Linked commClass p → s.todo r = [] → s.Complete r 1 := by
    intro r hlinked htodo
    obtain ⟨c, hc, hone⟩ := hproper.received ((r : ℕ) == 0)
    cases c with
    | wait slots =>
      refine hgenuine.complete_of_todo htodo
        ((wait_mem_program hclass hself).mpr ⟨slots, hc, rfl⟩) ?_
      rwa [if_pos hlinked]
    | send => cases hone
    | recv => cases hone
    | barrier => cases hone
  -- a request is complete in slot 1 only if there is a receive
  have hlinked : ∀ r, s.Complete r 1 → test.Linked commClass p := by
    rintro r (⟨d, hd, -⟩ | ⟨d, hd, -⟩ | hbuffered)
    · exact (hrecv.mp (hgenuine.mem_of_done (hgenuine.received d hd))).1
    · exact (hrecv.mp (hgenuine.mem_of_done (hgenuine.received d hd))).1
    · obtain ⟨q, k, y, hmem⟩ := hgenuine.buffered _ hbuffered
      exact (hsend.mp (hgenuine.mem_of_done hmem)).1
  have harrival : ∀ r, s.Complete r 1 → arrival? s Fin.val r 1
      = some ⟨previous r, env.tag, packet (previous r)⟩ := by
    intro r hr
    exact arrival?_eq hgenuine hleveled.toPaired
      (hsend.mpr ⟨hlinked r hr, rfl, rfl, eq_next_iff.mpr rfl, rfl, rfl⟩)
      (hrecv.mpr ⟨hlinked r hr, rfl, rfl, rfl⟩) hr
  refine ⟨fun r ↦ hleveled.exists_step hgenuine, readyInTime hclass hself hproper hgenuine,
    fun d hd ↦ ?_, fun r htodo ↦ ?_, fun r a ha ↦ ?_, fun r hr checkBuffer ↦ ?_⟩
  · obtain ⟨mode', hsent⟩ := hgenuine.sent d hd
    obtain ⟨hlink, -, -, hdest, -⟩ := hsend.mp (hgenuine.mem_of_done hsent)
    exact ⟨hlink, congrArg Fin.val hdest⟩
  · split_ifs with hlink
    · refine hgenuine.countP_delivered hleveled.toPaired (hrecv.mpr ⟨hlink, rfl, rfl, rfl⟩)
        (hcomplete r hlink htodo) fun d hd ↦ ?_
      obtain ⟨-, hslot, -⟩ := hrecv.mp (hgenuine.mem_of_done (hgenuine.received d hd))
      simp [hslot]
    · refine List.countP_eq_zero.mpr fun d hd _ ↦ hlink ?_
      exact (hrecv.mp (hgenuine.mem_of_done (hgenuine.received d hd))).1
  · rw [harrival r (complete_of_arrival? ha)] at ha
    obtain rfl := Option.some_inj.mp ha
    exact ⟨previous r, rfl, rfl, (hsound (previous r)).elements _ rfl⟩
  · by_cases hlink : test.Linked commClass p
    · rw [harrival r (hr.elim (hcomplete r hlink) id)]
      exact run_linked hclass hself hproper hlink mode (hsound (previous r)) checkBuffer
    · have hnone : arrival? s Fin.val r 1 = none := by
        by_contra hne
        obtain ⟨a, ha⟩ := Option.ne_none_iff_exists'.mp hne
        exact hlink (hlinked r (complete_of_arrival? ha))
      rw [hnone]
      exact run_unlinked hclass hself hproper hlink mode checkBuffer

end

/-- **Neighbours.** On every communicator that the tests are admitted on, of whatever size, they
work exactly if the arrays, and what is attached, have sizes that fit: no state is reached in which
a rank is stuck, and no ready send is started before its receive. A rank with neighbours receives
one message, which is from the rank before it and holds what that rank has sent, and there is no
`ERROR` and no failure. -/
theorem neighbours_work_iff (cfg : Config) (t : TypeSlot) (ht : t ∈ initTypes cfg)
    (hnull : t.datatype ≠ .null) (env : Env) (mode : TstMode) (mpi : Surroundings)
    (test : NeighbourTest) (htest : test ∈ neighbourTests) (row : Test)
    (hrow : tstTest cfg env.test = some row) (hname : row.functions = some test.functions)
    (commClass : Flags) (hadmitted : commClass &&& row.runWithComm ≠ 0) (p : ℕ) (hpos : 1 ≤ p)
    (hsize : FitsInt p) (hself : commClass &&& tstMpiCommSelf ≠ 0 → p = 1)
    (address : Fin p → ℤ) :
    (∃ packet : Fin p → Packet,
      (∀ r : Fin p, test.init mpi cfg t env (address r) r = some (packet r)) ∧
      ∀ s, Reachable (test.program commClass env.tag packet) s →
        NeighbourWorks cfg t env mode test commClass packet s) ↔
      test.Fits mpi t env := by
  rw [runWithComm_neighbours hrow (mem_allNeighbourTests htest) hname] at hadmitted
  constructor
  · rintro ⟨packet, hinit, -⟩
    exact (test.exists_init_iff ht hnull (mem_allNeighbourTests htest) mpi _).mp
      ⟨_, hinit ⟨0, hpos⟩⟩
  · intro hfits
    have hexists : ∀ r : Fin p, ∃ packet, test.init mpi cfg t env (address r) r = some packet :=
      fun r ↦ (test.exists_init_iff ht hnull (mem_allNeighbourTests htest) mpi _).mpr hfits
    choose packet hinit using hexists
    exact ⟨packet, hinit, fun s h ↦ neighbourWorks_of_reachable mode (mem_allNeighbourTests htest)
      hadmitted hself (fun r ↦ NeighbourTest.sound_init ht hnull
        (rank_add_values_le hfits.1.fitsInt hsize r.isLt) (mem_allNeighbourTests htest)
        (hinit r)) h⟩

/-- `"Ring Ibsend"` on three ranks. -/
theorem neighbours_work_iff_three :
    let cfg : Config := ⟨2, true, true, true, true, true, true, true, true⟩
    let env : Env := ⟨8, 0, 6, 3, 0⟩
    let mpi : Surroundings := ⟨0, 128, 12⟩
    (∃ packet : Fin 3 → Packet,
      (∀ r : Fin 3, tstP2pSimpleRingIbsend.init mpi cfg (slotMpi2 6) env 0 r = some (packet r)) ∧
      ∀ s, Reachable (tstP2pSimpleRingIbsend.program tstMpiIntraComm 0 packet) s →
        NeighbourWorks cfg (slotMpi2 6) env .strict tstP2pSimpleRingIbsend tstMpiIntraComm packet
          s) ↔ tstP2pSimpleRingIbsend.Fits mpi (slotMpi2 6) env :=
  neighbours_work_iff ⟨2, true, true, true, true, true, true, true, true⟩ (slotMpi2 6)
    (by decide +kernel) (by decide +kernel) ⟨8, 0, 6, 3, 0⟩ .strict ⟨0, 128, 12⟩
    tstP2pSimpleRingIbsend (by simp [neighbourTests]) _ rfl rfl tstMpiIntraComm (by decide) 3
    (by decide) (by decide) (by decide) fun _ ↦ 0

end P2P

end MpiTestSuite
