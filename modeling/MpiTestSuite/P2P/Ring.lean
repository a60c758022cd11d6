import MpiTestSuite.P2P.Messages
import MpiTestSuite.Tables.Comms

/-!
# The ring

In `"Ring"` and `"Ring Ssend"` every rank sends its array to the next one and receives that of the
one before it. All ranks but the first receive before they send, so that if `MPI_Send` waits for the
receive, the messages go round one after the other: the message of rank `r` is the one that rank
`r + 1` waits for before it sends its own. It is rank zero that starts, and rank zero that receives
last.
-/

open MpiTestSuite.Runs.Requests

namespace MpiTestSuite

namespace P2P

/-- A test of this kind: what the names of its functions begin with, and the mode of its sends. -/
structure RingTest where
  functions : String
  mode : Mode

def tstP2pSimpleRing : RingTest := ⟨"tst_p2p_simple_ring", .standard⟩

def tstP2pSimpleRingSsend : RingTest := ⟨"tst_p2p_simple_ring_ssend", .synchronous⟩

def ringTests : List RingTest := [tstP2pSimpleRing, tstP2pSimpleRingSsend]

/-- The variables that depend on the class of the communicator. A partner `none` is `MPI_PROC_NULL`.
-/
structure RingPlace where
  commRank : ℕ
  sendTo : Option ℕ
  recvFrom : Option ℕ
  deriving DecidableEq

/-- Their values. The message is the same in both tests. -/
def ringPlace (commClass : Flags) (commRank commSize : ℕ) : Except Stop RingPlace :=
  if commClass &&& tstMpiCommSelf ≠ 0 then .ok ⟨0, none, none⟩
  else if commClass &&& tstMpiIntraComm ≠ 0 then
    if 1 < commSize then
      .ok ⟨commRank, some ((commRank + 1) % commSize),
        some ((commRank + commSize - 1) % commSize)⟩
    else .ok ⟨commRank, none, none⟩
  else .error (.error "tst_p2p_simple_ring cannot run with this kind of communicator")

/-- `MPI_Send` or `MPI_Ssend`, with its request in slot 0. -/
def mpiSend (mode : Mode) (packet : Packet) (dest : Option ℕ) (tag : ℤ) :
    List (Instr ℕ ℤ Packet) :=
  match dest with
  | some q => [.send 0 mode q tag packet, .wait [0]]
  | none => []

/-- `MPI_Recv`, with its request in slot 1. -/
def mpiRecv (source : Option ℕ) (tag : ℤ) : List (Instr ℕ ℤ Packet) :=
  match source with
  | some q => [.recv 1 q tag, .wait [1]]
  | none => []

/-- The calls of a rank. -/
def RingTest.calls (test : RingTest) (place : RingPlace) (packet : Packet) (tag : ℤ) :
    List (Instr ℕ ℤ Packet) :=
  if place.commRank = 0 then
    mpiSend test.mode packet place.sendTo tag ++ mpiRecv place.recvFrom tag
  else mpiRecv place.recvFrom tag ++ mpiSend test.mode packet place.sendTo tag

/-- What is checked then. If nothing was received, the status is that of a receive from
`MPI_PROC_NULL`, with `MPI_ANY_TAG`. -/
def ringCheck (cfg : Config) (t : TypeSlot) (env : Env) (mode : TstMode) (place : RingPlace)
    (arrival : Option Arrival) : Except Stop (List Env) :=
  if arrival.map Arrival.source ≠ place.recvFrom
      ∨ (place.recvFrom ≠ none ∧ arrival.map Arrival.tag ≠ some env.tag)
      ∨ (place.recvFrom = none ∧ arrival.map Arrival.tag ≠ none) then
    .error (.error "Error in status")
  else
    match arrival, place.recvFrom with
    | some a, some source => a.check cfg t env mode "Error in count" source
    | _, _ => .ok []

/-- `tst_p2p_simple_ring_run` and `tst_p2p_simple_ring_ssend_run` after the calls: the environments
that `tst_test_recordfailure` is called with. -/
def ringRun (cfg : Config) (t : TypeSlot) (env : Env) (mode : TstMode) (commClass : Flags)
    (commRank commSize : ℕ) (arrival : Option Arrival) : Except Stop (List Env) := do
  let place ← ringPlace commClass commRank commSize
  ringCheck cfg t env mode place arrival

/-- The calls of all ranks. -/
def RingTest.program (test : RingTest) (commClass : Flags) (commSize : ℕ) (tag : ℤ)
    (packet : ℕ → Packet) (r : ℕ) : List (Instr ℕ ℤ Packet) :=
  if r < commSize then
    match ringPlace commClass r commSize with
    | .ok place => test.calls place (packet r) tag
    | .error _ => []
  else []

/-! ## The neighbours -/

theorem next_eq {r p : ℕ} (hr : r < p) : (r + 1) % p = if r + 1 = p then 0 else r + 1 := by
  split_ifs with h
  · rw [h, Nat.mod_self]
  · exact Nat.mod_eq_of_lt (by omega)

theorem previous_eq {q p : ℕ} (hq : q < p) :
    (q + p - 1) % p = if q = 0 then p - 1 else q - 1 := by
  split_ifs with h
  · subst h
    rw [Nat.zero_add]
    exact Nat.mod_eq_of_lt (by omega)
  · rw [show q + p - 1 = q - 1 + p by omega, Nat.add_mod_right]
    exact Nat.mod_eq_of_lt (by omega)

/-- Each is the neighbour of its neighbour. -/
theorem next_eq_iff {r q p : ℕ} (hr : r < p) (hq : q < p) :
    q = (r + 1) % p ↔ r = (q + p - 1) % p := by
  rw [next_eq hr, previous_eq hq]
  split_ifs <;> omega

/-! ## Admission -/

/-- The rows of both tests ask for the same classes of communicators. -/
theorem runWithComm_ring {cfg : Config} {i : ℤ} {row : Test} (hrow : tstTest cfg i = some row)
    {test : RingTest} (htest : test ∈ ringTests) (hname : row.functions = some test.functions) :
    row.runWithComm = tstMpiCommSelf ||| tstMpiIntraComm := by
  rcases tstTest_induction cfg
    (P := fun row ↦ decide (∀ test ∈ ringTests, row.functions = some test.functions →
      row.runWithComm = tstMpiCommSelf ||| tstMpiIntraComm))
    (by simp only [List.forall_mem_cons]; exact ⟨rfl, rfl, rfl, rfl, rfl, rfl, nofun⟩) hrow
    with rfl | h
  · cases hname
  · exact of_decide_eq_true h test htest hname

section

variable {commClass : Flags} {p : ℕ}
  (hclass : commClass &&& (tstMpiCommSelf ||| tstMpiIntraComm) ≠ 0)
  (hself : commClass &&& tstMpiCommSelf ≠ 0 → p = 1)

include hclass hself

/-- The variables of an admitted communicator. A communicator like `MPI_COMM_SELF` has one rank. -/
theorem ringPlace_eq {r : ℕ} (hr : r < p) :
    ringPlace commClass r p = .ok (if 1 < p then
      ⟨r, some ((r + 1) % p), some ((r + p - 1) % p)⟩ else ⟨r, none, none⟩) := by
  rw [ringPlace]
  by_cases hone : commClass &&& tstMpiCommSelf ≠ 0
  · obtain rfl := hself hone
    obtain rfl : r = 0 := by omega
    rw [if_pos hone, if_neg (Nat.lt_irrefl 1)]
  · have hintra : commClass &&& tstMpiIntraComm ≠ 0 := by
      intro hzero
      rw [not_not] at hone
      exact hclass (by rw [BitVec.and_or_distrib_left, hone, hzero]; rfl)
    rw [if_neg hone, if_pos hintra]
    split_ifs <;> rfl

/-- A single rank does not communicate. -/
theorem RingTest.program_one (test : RingTest) (tag : ℤ) (packet : ℕ → Packet) (hp : ¬1 < p)
    (r : ℕ) : test.program commClass p tag packet r = [] := by
  rw [RingTest.program]
  split_ifs with hr
  · rw [ringPlace_eq hclass hself hr, if_neg hp]
    show test.calls ⟨r, none, none⟩ (packet r) tag = []
    rw [RingTest.calls]
    split_ifs <;> rfl
  · rfl

theorem RingTest.program_eq (test : RingTest) (tag : ℤ) (packet : ℕ → Packet) (hp : 1 < p) (r : ℕ) :
    test.program commClass p tag packet r =
      if r < p then
        if r = 0 then
          [.send 0 test.mode ((r + 1) % p) tag (packet r), .wait [0],
            .recv 1 ((r + p - 1) % p) tag, .wait [1]]
        else
          [.recv 1 ((r + p - 1) % p) tag, .wait [1],
            .send 0 test.mode ((r + 1) % p) tag (packet r), .wait [0]]
      else [] := by
  rw [RingTest.program]
  split_ifs with hr hzero
  · rw [ringPlace_eq hclass hself hr, if_pos hp]
    show test.calls _ (packet r) tag = _
    rw [RingTest.calls, if_pos hzero]
    rfl
  · rw [ringPlace_eq hclass hself hr, if_pos hp]
    show test.calls _ (packet r) tag = _
    rw [RingTest.calls, if_neg hzero]
    rfl
  · rfl

theorem RingTest.mem_program (test : RingTest) (tag : ℤ) (packet : ℕ → Packet) (hp : 1 < p)
    {r : ℕ} {a : Instr ℕ ℤ Packet} :
    a ∈ test.program commClass p tag packet r ↔ r < p ∧
      (a = .send 0 test.mode ((r + 1) % p) tag (packet r) ∨ a = .wait [0] ∨
        a = .recv 1 ((r + p - 1) % p) tag ∨ a = .wait [1]) := by
  rw [test.program_eq hclass hself tag packet hp]
  split_ifs with hr hzero
  · simp [hr]
  · simp only [List.mem_cons, List.not_mem_nil, or_false, hr, true_and]
    tauto
  · simp [hr]

theorem RingTest.send_mem (test : RingTest) (tag : ℤ) (packet : ℕ → Packet) (hp : 1 < p) {r : ℕ}
    {i : ℕ} {m : Mode} {q : ℕ} {k : ℤ} {x : Packet} :
    .send i m q k x ∈ test.program commClass p tag packet r ↔
      r < p ∧ i = 0 ∧ m = test.mode ∧ q = (r + 1) % p ∧ k = tag ∧ x = packet r := by
  simp [test.mem_program hclass hself tag packet hp]

theorem RingTest.recv_mem (test : RingTest) (tag : ℤ) (packet : ℕ → Packet) (hp : 1 < p) {q : ℕ}
    {j r : ℕ} {k : ℤ} :
    .recv j r k ∈ test.program commClass p tag packet q ↔
      q < p ∧ j = 1 ∧ r = (q + p - 1) % p ∧ k = tag := by
  simp [test.mem_program hclass hself tag packet hp]

theorem RingTest.slots_program (test : RingTest) (tag : ℤ) (packet : ℕ → Packet) (hp : 1 < p)
    (r : ℕ) :
    (test.program commClass p tag packet r).Pairwise fun a b ↦ ∀ i ∈ a.slot?, i ∉ b.slot? := by
  rw [test.program_eq hclass hself tag packet hp]
  split_ifs <;> simp [Instr.slot?]

/-- A rank waits for the message of a rank below it before it sends its own, or for its own message
before it receives that of a rank above it. -/
theorem RingTest.behind_program (test : RingTest) (tag : ℤ) (packet : ℕ → Packet) (hp : 1 < p)
    (r : ℕ) :
    (test.program commClass p tag packet r).Pairwise
      (Behind (fun r _ _ ↦ r) (test.program commClass p tag packet) r) := by
  have hslots := test.slots_program hclass hself tag packet hp r
  have hprogram := test.program_eq hclass hself tag packet hp r
  split_ifs at hprogram with hr hzero
  · refine pairwise_behind_of_blocking hslots hprogram rfl rfl Nat.zero_ne_one fun m hm n hn ↦ ?_
    obtain rfl := Option.some_inj.mp hm
    obtain rfl := Option.some_inj.mp hn
    show r < (r + p - 1) % p
    rw [previous_eq hr, if_pos hzero]
    omega
  · refine pairwise_behind_of_blocking hslots hprogram rfl rfl Nat.one_ne_zero fun m hm n hn ↦ ?_
    obtain rfl := Option.some_inj.mp hm
    obtain rfl := Option.some_inj.mp hn
    show (r + p - 1) % p < r
    rw [previous_eq hr, if_neg hzero]
    omega
  · rw [hprogram]
    exact .nil

/-- The message of rank `r` has level `r`. -/
theorem RingTest.leveled (test : RingTest) (tag : ℤ) (packet : ℕ → Packet) (hp : 1 < p) :
    Leveled (fun r _ _ ↦ r) (test.program commClass p tag packet) := by
  have hsend := fun {r i m q k x} ↦ test.send_mem hclass hself tag packet hp (r := r) (i := i)
    (m := m) (q := q) (k := k) (x := x)
  have hrecv := fun {q j r k} ↦ test.recv_mem hclass hself tag packet hp (q := q) (j := j)
    (r := r) (k := k)
  have hprogram := test.program_eq hclass hself tag packet hp
  have hnoBarrier : ∀ r, (test.program commClass p tag packet r).countP Instr.isBarrier = 0 := by
    intro r
    rw [hprogram]
    split_ifs <;> rfl
  refine ⟨⟨test.slots_program hclass hself tag packet hp, fun r ↦ ?_, fun r q k ↦ ?_⟩,
    fun r slots hwait i hi ↦ ?_, test.behind_program hclass hself tag packet hp,
    fun r q ↦ by rw [hnoBarrier, hnoBarrier]⟩
  · rw [hprogram]
    split_ifs <;> simp [Instr.envelope?]
  · simp only [hsend, hrecv]
    constructor
    · rintro ⟨i, mode, x, hr, rfl, rfl, hq, rfl, rfl⟩
      have hlt : q < p := hq ▸ Nat.mod_lt _ (by omega)
      exact ⟨1, hlt, rfl, (next_eq_iff hr hlt).mp hq, rfl⟩
    · rintro ⟨j, hq, rfl, hr, rfl⟩
      have hlt : r < p := hr ▸ Nat.mod_lt _ (by omega)
      exact ⟨0, test.mode, packet r, hlt, rfl, rfl, (next_eq_iff hlt hq).mpr hr, rfl, rfl⟩
  · obtain ⟨hr, hslots⟩ := (test.mem_program hclass hself tag packet hp).mp hwait
    rcases (by simpa using hslots : slots = [0] ∨ slots = [1]) with rfl | rfl
    · obtain rfl := List.mem_singleton.mp hi
      exact ⟨_, hsend.mpr ⟨hr, rfl, rfl, rfl, rfl, rfl⟩, rfl⟩
    · obtain rfl := List.mem_singleton.mp hi
      exact ⟨_, hrecv.mpr ⟨hr, rfl, rfl, rfl⟩, rfl⟩

end

/-! ## Every run -/

/-- What the tests promise of a state that is reached on a communicator of `p` ranks. -/
structure RingWorks (cfg : Config) (t : TypeSlot) (env : Env) (mode : TstMode) (commClass : Flags)
    (p : ℕ) (s : State ℕ ℤ Packet) : Prop where
  /-- As long as a rank has something left to do, there is a step. -/
  noDeadlock : ∀ r, s.todo r ≠ [] → ∃ s', Step s s'
  /-- A single rank sends nothing and receives nothing. -/
  alone : ¬1 < p → ∀ r, s.done r = [] ∧ s.todo r = []
  /-- Messages go to the next rank. -/
  delivered : ∀ d ∈ s.delivered, 1 < p ∧ d.source < p ∧ d.dest = (d.source + 1) % p
  /-- A rank that is through has received one message, if there are others. -/
  once : ∀ r < p, s.todo r = [] →
    s.delivered.countP (fun d ↦ d.dest = r) = if 1 < p then 1 else 0
  /-- What has been received is the array of the rank before. -/
  array : ∀ r < p, ∀ a ∈ arrival? s id r 1, a.source = (r + p - 1) % p ∧
    IsStandardArray cfg t env.valuesNum.toNat a.source (a.buffer t env)
  /-- No `ERROR` is raised and no failure is recorded. -/
  quiet : ∀ r < p, s.todo r = [] →
    ringRun cfg t env mode commClass r p (arrival? s id r 1) = .ok []

section

variable {cfg : Config} {t : TypeSlot} {env : Env} {commClass : Flags} {p : ℕ}
  {s : State ℕ ℤ Packet}

/-- One rank. -/
theorem ringWorks_one (mode : TstMode) (test : RingTest)
    (hclass : commClass &&& (tstMpiCommSelf ||| tstMpiIntraComm) ≠ 0)
    (hself : commClass &&& tstMpiCommSelf ≠ 0 → p = 1) {packet : ℕ → Packet} (hp : ¬1 < p)
    (h : Reachable (test.program commClass p env.tag packet) s) :
    RingWorks cfg t env mode commClass p s := by
  have hgenuine := h.genuine
  have hprogram := test.program_one hclass hself env.tag packet hp
  have hnothing : ∀ r, s.done r = [] ∧ s.todo r = [] := fun r ↦
    List.append_eq_nil_iff.mp ((hgenuine.split r).trans (hprogram r))
  have hdelivered : s.delivered = [] := List.eq_nil_iff_forall_not_mem.mpr fun d hd ↦ by
    have hreceived := hgenuine.received d hd
    rw [(hnothing d.dest).1] at hreceived
    cases hreceived
  have harrival : ∀ r, arrival? s id r 1 = none := by
    intro r
    rw [arrival?, State.got, Runs.Delivery.got, hdelivered]
    rfl
  refine ⟨fun r hr ↦ absurd (hnothing r).2 hr, fun _ ↦ hnothing, ?_, fun r _ _ ↦ ?_, ?_,
    fun r hr _ ↦ ?_⟩
  · rw [hdelivered]
    exact fun d hd ↦ absurd hd List.not_mem_nil
  · rw [hdelivered, if_neg hp]
    rfl
  · intro r _ a ha
    rw [harrival] at ha
    cases ha
  · rw [ringRun, ringPlace_eq hclass hself hr, if_neg hp, harrival]
    rfl

/-- Several ranks. -/
theorem ringWorks_several (ht : t ∈ initTypes cfg) (hnull : t.datatype ≠ .null)
    (hfits : ArrayFits t env.valuesNum) (hsize : FitsInt p) (mode : TstMode) (test : RingTest)
    (hclass : commClass &&& (tstMpiCommSelf ||| tstMpiIntraComm) ≠ 0)
    (hself : commClass &&& tstMpiCommSelf ≠ 0 → p = 1) {sendBuffer : ℕ → Memory}
    (hset : ∀ r : ℕ, standardBuffer cfg t env r = some (sendBuffer r)) (hp : 1 < p)
    (h : Reachable (test.program commClass p env.tag fun r ↦ .values t env (sendBuffer r)) s) :
    RingWorks cfg t env mode commClass p s := by
  have hgenuine := h.genuine
  have hleveled := test.leveled hclass hself env.tag (fun r ↦ .values t env (sendBuffer r)) hp
  have hsend := fun {r i m q k x} ↦ test.send_mem hclass hself env.tag
    (fun r ↦ .values t env (sendBuffer r)) hp (r := r) (i := i) (m := m) (q := q) (k := k) (x := x)
  have hrecv := fun {q j r k} ↦ test.recv_mem hclass hself env.tag
    (fun r ↦ .values t env (sendBuffer r)) hp (q := q) (j := j) (r := r) (k := k)
  have hprev : ∀ r < p, (r + p - 1) % p < p := fun r _ ↦ Nat.mod_lt _ (by omega)
  -- what a rank has received if it has received something
  have harrival : ∀ r < p, s.Complete r 1 → arrival? s id r 1
      = some ⟨(r + p - 1) % p, env.tag, .values t env (sendBuffer ((r + p - 1) % p))⟩ := by
    intro r hr hcomplete
    have hnext := (next_eq_iff (hprev r hr) hr).mpr rfl
    exact arrival?_eq hgenuine hleveled.toPaired
      (hsend.mpr ⟨hprev r hr, rfl, rfl, hnext, rfl, rfl⟩) (hrecv.mpr ⟨hr, rfl, rfl, rfl⟩) hcomplete
  have hcomplete : ∀ r < p, s.todo r = [] → s.Complete r 1 := by
    intro r hr htodo
    refine hgenuine.complete_of_todo htodo ?_ (List.mem_singleton_self 1)
    exact (test.mem_program hclass hself env.tag _ hp).mpr ⟨hr, by simp⟩
  refine ⟨fun r ↦ hleveled.exists_step hgenuine, fun hnot ↦ absurd hp hnot, fun d hd ↦ ?_,
    fun r hr htodo ↦ ?_, fun r hr a ha ↦ ?_, fun r hr htodo ↦ ?_⟩
  · obtain ⟨mode', hsent⟩ := hgenuine.sent d hd
    obtain ⟨hsource, -, -, hdest, -⟩ := hsend.mp (hgenuine.mem_of_done hsent)
    exact ⟨hp, hsource, hdest⟩
  · rw [if_pos hp]
    refine hgenuine.countP_delivered hleveled.toPaired (hrecv.mpr ⟨hr, rfl, rfl, rfl⟩)
      (hcomplete r hr htodo) fun d hd ↦ ?_
    obtain ⟨-, hslot, -⟩ := hrecv.mp (hgenuine.mem_of_done (hgenuine.received d hd))
    simp [hslot]
  · rw [harrival r hr (complete_of_arrival? ha)] at ha
    obtain rfl := Option.some_inj.mp ha
    exact ⟨rfl, Arrival.isStandardArray_buffer ht hnull (hset _) rfl⟩
  · rw [ringRun, ringPlace_eq hclass hself hr, if_pos hp,
      harrival r hr (hcomplete r hr htodo)]
    show ringCheck cfg t env mode _ _ = _
    unfold ringCheck
    rw [if_neg (by simp)]
    have hbound := rank_add_values_le hfits.fitsInt hsize (hprev r hr)
    exact Arrival.check_eq_nil ht hnull (hset _) rfl mode "Error in count" (by omega) (by omega)

end

/-- **The ring.** On every communicator that the tests are admitted on, of whatever size, they work
exactly if the arrays fit: no state is reached in which a rank is stuck, whether or not the system
buffers what is sent with `MPI_Send`. If there are several ranks, every rank receives one message,
which is from the rank before it and holds the array of this rank; a single rank exchanges nothing.
There is no `ERROR` and no failure. -/
theorem simple_ring_works_iff (cfg : Config) (t : TypeSlot) (ht : t ∈ initTypes cfg)
    (hnull : t.datatype ≠ .null) (env : Env) (mode : TstMode)
    (test : RingTest) (htest : test ∈ ringTests) (row : Test)
    (hrow : tstTest cfg env.test = some row) (hname : row.functions = some test.functions)
    (commClass : Flags) (hadmitted : commClass &&& row.runWithComm ≠ 0) (p : ℕ) (hpos : 1 ≤ p)
    (hsize : FitsInt p) (hself : commClass &&& tstMpiCommSelf ≠ 0 → p = 1) :
    (∃ sendBuffer : ℕ → Memory,
      (∀ r < p, sendArray cfg t env r = some (.values t env (sendBuffer r))) ∧
      ∀ s, Reachable (test.program commClass p env.tag fun r ↦ .values t env (sendBuffer r)) s →
        RingWorks cfg t env mode commClass p s) ↔
      ArrayFits t env.valuesNum := by
  rw [runWithComm_ring hrow htest hname] at hadmitted
  constructor
  · rintro ⟨sendBuffer, hsend, -⟩
    exact (exists_sendArray_iff ht hnull).mp ⟨_, hsend 0 hpos⟩
  · intro hfits
    obtain ⟨sendBuffer, hset, hsend⟩ := exists_sendArrays ht hnull hfits fun r : ℕ ↦ (r : ℤ)
    refine ⟨sendBuffer, fun r _ ↦ hsend r, fun s h ↦ ?_⟩
    by_cases hp : 1 < p
    · exact ringWorks_several ht hnull hfits hsize mode test hadmitted hself hset hp h
    · exact ringWorks_one mode test hadmitted hself hp h

/-- Two ranks and `"Ring Ssend"`, at the start. -/
theorem simple_ring_works_iff_two :
    let cfg : Config := ⟨2, true, true, true, true, true, true, true, true⟩
    let env : Env := ⟨13, 0, 6, 3, 0⟩
    (∃ sendBuffer : ℕ → Memory,
      (∀ r < (2 : ℕ), sendArray cfg (slotMpi2 6) env r
        = some (.values (slotMpi2 6) env (sendBuffer r))) ∧
      ∀ s, Reachable (tstP2pSimpleRingSsend.program tstMpiIntraComm 2 0
          fun r ↦ .values (slotMpi2 6) env (sendBuffer r)) s →
        RingWorks cfg (slotMpi2 6) env .strict tstMpiIntraComm 2 s) ↔
      ArrayFits (slotMpi2 6) 3 :=
  simple_ring_works_iff ⟨2, true, true, true, true, true, true, true, true⟩ (slotMpi2 6)
    (by decide +kernel) (by decide +kernel) ⟨13, 0, 6, 3, 0⟩ .strict
    tstP2pSimpleRingSsend (by simp [ringTests]) _ rfl rfl tstMpiIntraComm (by decide) 2 (by decide)
    (by decide) (by decide)

/-- Arrays of 300000000 values of `MPI_DOUBLE` are larger than an `int` can say. -/
theorem simple_ring_fails :
    let cfg : Config := ⟨2, true, true, true, true, true, true, true, true⟩
    let env : Env := ⟨13, 0, 11, 300000000, 0⟩
    ¬∃ sendBuffer : ℕ → Memory,
      (∀ r < (2 : ℕ), sendArray cfg (slotMpi2 11) env r
        = some (.values (slotMpi2 11) env (sendBuffer r))) ∧
      ∀ s, Reachable (tstP2pSimpleRingSsend.program tstMpiIntraComm 2 0
          fun r ↦ .values (slotMpi2 11) env (sendBuffer r)) s →
        RingWorks cfg (slotMpi2 11) env .strict tstMpiIntraComm 2 s := by
  rintro cfg env ⟨sendBuffer, hsend, -⟩
  have hfits := (exists_sendArray_iff (by decide +kernel) (by decide +kernel)).mp
    ⟨_, hsend 0 (by decide)⟩
  exact absurd hfits (by decide +kernel)

end P2P

end MpiTestSuite
