import Mathlib.Algebra.BigOperators.Group.Finset.Piecewise
import MpiTestSuite.Threaded.Ring

/-!
# The ring of buffered sends

In `"Threaded ring bsend"` the workers zero and one of every process share the buffer that worker
zero attaches and worker one detaches. Worker zero sends to the next rank, wakes worker one up and
receives; worker one receives, sends and detaches the buffer. The other threads do nothing.

The tags are meant to lead from thread to thread, as in the ring of all threads. But
`tst_comm_getcomm` gives every worker a communicator of its own, so that with two workers or more
nobody sends what is received. With a single worker nobody detaches the buffer.
-/

open MpiTestSuite.Runs MpiTestSuite.Runs.Threads

namespace MpiTestSuite

namespace Threaded

/-! ## The test -/

def bsendPlace : Flags → ℕ → ℕ → Except Stop P2P.RingPlace :=
  threadedPlace "tst_threaded_ring_bsend cannot run with this kind of communicator" true

/-- `thread_tag_to` in `tst_threaded_ring_bsend_run`. -/
def bsendTagTo (tag : ℤ) (numThreads thread : ℕ) : ℤ :=
  tag + (tstThreadGetNum (List.range numThreads) thread + 1).tmod numThreads

/-- `thread_tag_from` in `tst_threaded_ring_bsend_run`. -/
def bsendTagFrom (tag : ℤ) (numThreads thread : ℕ) : ℤ :=
  tag + tstThreadGetNum (List.range numThreads) thread

/-- `MPI_Bsend`, with slot 0 of the thread. -/
def mpiBsend (thread : ℕ) (packet : P2P.Packet) (dest : Option ℕ) (key : Key) : Calls :=
  [.send (thread, 0) true dest key packet]

/-- The calls of a thread with its place. -/
def bsendCalls (numThreads : ℕ) (tag : ℤ) (packet : P2P.Packet) (place : P2P.RingPlace)
    (thread : ℕ) : Calls :=
  let comm := tstCommGetcomm (List.range numThreads) thread
  let send := mpiBsend thread packet place.sendTo (comm, bsendTagTo tag numThreads thread)
  let recv := mpiRecv thread place.recvFrom (comm, bsendTagFrom tag numThreads thread)
  if tstThreadGetNum (List.range numThreads) thread = 0 then
    [.attach] ++ send ++ [.signal 0] ++ recv
  else if tstThreadGetNum (List.range numThreads) thread = 1 then
    [.await 0] ++ recv ++ send ++ [.detach]
  else []

/-- The calls of `tst_threaded_ring_bsend_run`. -/
def tstThreadedRingBsendRun (commClass : Flags) (commSize numThreads : ℕ) (tag : ℤ)
    (packet : P2P.Packet) (commRank thread : ℕ) : Except Stop Calls := do
  let place ← bsendPlace commClass commRank commSize
  return bsendCalls numThreads tag packet place thread

/-- What is checked of a message. -/
def bsendCheckReceived (cfg : Config) (t : TypeSlot) (env : Env) (mode : TstMode)
    (recvFrom : Option ℕ) (arrival : Option P2P.Arrival) : Except Stop (List Env) :=
  match recvFrom, arrival with
  | some source, some a => a.check cfg t env mode "Error in count" source
  | _, _ => .ok []

/-- `tst_threaded_ring_bsend_run` after the calls, with the address and the size of the buffer that
has been detached and of the global buffer: the environments that `tst_test_recordfailure` is called
with. -/
def tstThreadedRingBsendCheck (cfg : Config) (t : TypeSlot) (env : Env) (mode : TstMode)
    (commClass : Flags) (commSize numThreads commRank thread : ℕ) (arrival : Option P2P.Arrival)
    (detached globalBuffer : ℕ × ℤ) : Except Stop (List Env) := do
  let place ← bsendPlace commClass commRank commSize
  if tstThreadGetNum (List.range numThreads) thread = 0 then
    bsendCheckReceived cfg t env mode place.recvFrom arrival
  else if tstThreadGetNum (List.range numThreads) thread = 1 then do
    let calls ← bsendCheckReceived cfg t env mode place.recvFrom arrival
    if detached.1 ≠ globalBuffer.1 then .error (.error "Error in buffer adress")
    else if detached.2 ≠ globalBuffer.2 then .error (.error "Error in buffer size")
    else return calls
  else .ok []

/-- The bytes of the buffer that worker zero allocates in `tst_threaded_ring_bsend_init`. -/
def bsendBufferBytes (bsendOverhead : ℕ) (t : TypeSlot) (env : Env) (numThreads : ℕ) :
    Option ℕ := do
  let values ← checkedSigned (env.valuesNum + 8)
  let bytes ← checkedSigned (values * t.size)
  let bytes ← checkedSigned (bytes + bsendOverhead)
  let size ← checkedSigned (numThreads * bytes)
  mallocInt size

/-- What `tst_threaded_ring_bsend_init` leaves to be sent. -/
def tstThreadedRingBsendInit (bsendOverhead : ℕ) (cfg : Config) (t : TypeSlot) (env : Env)
    (numThreads commRank : ℕ) : Option P2P.Packet := do
  let packet ← P2P.sendArray cfg t env commRank
  let _ ← bsendBufferBytes bsendOverhead t env numThreads
  return packet

/-- The program of all threads. -/
def bsendProgram (commClass : Flags) (p n : ℕ) (tag : ℤ) (packet : ℕ → P2P.Packet) :
    ℕ × ℕ → Calls :=
  partyProgram p n fun r u ↦ tstThreadedRingBsendRun commClass p n tag (packet r) r u

def isDetach : Instr ℕ Slot Key P2P.Packet → Bool
  | .detach => true
  | _ => false

/-- What the test promises of a state that is reached with `p` ranks and `n` workers each. -/
structure BsendWorks (p n : ℕ) (s : State ℕ ℕ Slot Key P2P.Packet) : Prop where
  /-- As long as a thread has something left to do, there is a step. -/
  noDeadlock : ∀ x, s.todo x ≠ [] → ∃ s', Step s s'
  /-- Who comes to an `MPI_Bsend` finds a buffer attached. -/
  attached : ∀ x i q k y rest, s.todo x = .send i true q k y :: rest → s.Attached x.1
  /-- In the end the buffer of each process has been detached once. -/
  detached : (∀ x, s.todo x = []) → ∀ r < p,
    ∑ u ∈ Finset.range (n + 1), (s.done (r, u)).countP isDetach = 1
  /-- In the end every message has been received once, by the one thread that has asked for its
  communicator and tag. -/
  received : (∀ x, s.todo x = []) → ∀ x i q k y, .send i true (some q) k y ∈ s.done x →
    ∃! d, d ∈ s.delivered ∧ d.source = x.1 ∧ d.sendSlot = i ∧
      ∃! u, .recv d.recvSlot (some x.1) k ∈ s.done (q, u)

section

variable {commClass : Flags} {p n : ℕ} {tag : ℤ} {packet : ℕ → P2P.Packet}
  {place : ℕ → P2P.RingPlace} {s : State ℕ ℕ Slot Key P2P.Packet}

/-! ## The two workers -/

section

variable (hplace : ∀ r, bsendPlace commClass r p = .ok (place r))

include hplace

theorem bsendProgram_eq (x : ℕ × ℕ) : bsendProgram commClass p n tag packet x
    = if x.1 < p ∧ x.2 < n + 1 then bsendCalls n tag (packet x.1) (place x.1) x.2 else [] := by
  rw [bsendProgram, partyProgram, tstThreadedRingBsendRun, hplace]
  rfl

theorem mem_bsendProgram {x : ℕ × ℕ} {a : Instr ℕ Slot Key P2P.Packet} :
    a ∈ bsendProgram commClass p n tag packet x ↔ x.1 < p ∧ x.2 < n ∧
      (x.2 = 0 ∧ (a = .attach ∨ a = .signal 0) ∨
        x.2 = 1 ∧ (a = .await 0 ∨ a = .detach) ∨
        x.2 < 2 ∧ (a = .send (x.2, 0) true (place x.1).sendTo
            (.worker x.2, bsendTagTo tag n x.2) (packet x.1) ∨
          a = .recv (x.2, 1) (place x.1).recvFrom (.worker x.2, bsendTagFrom tag n x.2) ∨
          a = .wait [(x.2, 1)])) := by
  rw [bsendProgram_eq hplace]
  by_cases hn : x.2 < n
  · have hcomm : tstCommGetcomm (List.range n) x.2 = .worker x.2 := by
      rw [tstCommGetcomm_range, if_pos hn]
    have hnum : tstThreadGetNum (List.range n) x.2 = x.2 := by
      rw [tstThreadGetNum_range, if_pos hn]
    have hlt : x.2 < n + 1 := by omega
    rw [bsendCalls, hcomm, hnum]
    by_cases h0 : x.2 = 0
    · simp [h0, mpiBsend, mpiRecv]
      grind
    · by_cases h1 : x.2 = 1
      · simp [h1, mpiBsend, mpiRecv]
        grind
      · have h2 : ¬x.2 < 2 := by omega
        simp [h0, h1, h2]
  · have h0 : ¬tstThreadGetNum (List.range n) x.2 = 0 := by
      rw [tstThreadGetNum_range, if_neg hn]
      decide
    have h1 : ¬tstThreadGetNum (List.range n) x.2 = 1 := by
      rw [tstThreadGetNum_range, if_neg hn]
      decide
    simp [bsendCalls, h0, h1, hn]

/-- A slot belongs to the thread that has started its request. -/
theorem slot_bsendProgram {r u : ℕ} {a : Instr ℕ Slot Key P2P.Packet}
    (ha : a ∈ bsendProgram commClass p n tag packet (r, u)) {i : Slot} (hi : a.slot? = some i) :
    i = (u, 0) ∧ a = .send (u, 0) true (place r).sendTo (.worker u, bsendTagTo tag n u)
        (packet r) ∨
      i = (u, 1) ∧ a = .recv (u, 1) (place r).recvFrom (.worker u, bsendTagFrom tag n u) := by
  obtain ⟨-, -, ⟨-, rfl | rfl⟩ | ⟨-, rfl | rfl⟩ | ⟨-, rfl | rfl | rfl⟩⟩ :=
    (mem_bsendProgram hplace).mp ha
  case inr.inr.inl => exact .inl ⟨(Option.some_inj.mp hi).symm, rfl⟩
  case inr.inr.inr.inl => exact .inr ⟨(Option.some_inj.mp hi).symm, rfl⟩
  all_goals cases hi

theorem slots_bsendProgram {r t u : ℕ} {a b : Instr ℕ Slot Key P2P.Packet}
    (ha : a ∈ bsendProgram commClass p n tag packet (r, t))
    (hb : b ∈ bsendProgram commClass p n tag packet (r, u)) {i : Slot} (hi : a.slot? = some i)
    (hj : b.slot? = some i) : t = u ∧ a = b := by
  rcases slot_bsendProgram hplace ha hi with ⟨rfl, rfl⟩ | ⟨rfl, rfl⟩
  · rcases slot_bsendProgram hplace hb hj with ⟨h, rfl⟩ | ⟨h, -⟩
    · obtain rfl : t = u := (Prod.mk.inj h).1
      exact ⟨rfl, rfl⟩
    · cases (Prod.mk.inj h).2
  · rcases slot_bsendProgram hplace hb hj with ⟨h, -⟩ | ⟨h, rfl⟩
    · cases (Prod.mk.inj h).2
    · obtain rfl : t = u := (Prod.mk.inj h).1
      exact ⟨rfl, rfl⟩

/-- Worker `u` has the communicator `u`. -/
theorem envelope_bsendProgram {r u : ℕ} {a : Instr ℕ Slot Key P2P.Packet}
    (ha : a ∈ bsendProgram commClass p n tag packet (r, u)) {isSend : Bool} {q : ℕ}
    {k : Key} (he : a.envelope? = some (isSend, q, k)) : k.1 = .worker u ∧
      (isSend = true ∧ a.slot? = some (u, 0) ∧ k.2 = bsendTagTo tag n u ∨
        isSend = false ∧ a.slot? = some (u, 1) ∧ k.2 = bsendTagFrom tag n u) := by
  cases isSend with
  | true =>
    obtain ⟨i, m, y, rfl⟩ := Instr.mem_envelope?_send.mp he
    rcases slot_bsendProgram hplace ha rfl with ⟨rfl, h⟩ | ⟨-, h⟩
    · obtain ⟨-, -, -, rfl, -⟩ := Instr.send.inj h
      exact ⟨rfl, .inl ⟨rfl, rfl, rfl⟩⟩
    · cases h
  | false =>
    obtain ⟨j, rfl⟩ := Instr.mem_envelope?_recv.mp he
    rcases slot_bsendProgram hplace ha rfl with ⟨-, h⟩ | ⟨rfl, h⟩
    · cases h
    · obtain ⟨-, -, rfl⟩ := Instr.recv.inj h
      exact ⟨rfl, .inr ⟨rfl, rfl, rfl⟩⟩

theorem paired_bsendProgram : Paired (bsendProgram commClass p n tag packet) := by
  refine ⟨fun r t u a ha b hb i hi hj ↦ slots_bsendProgram hplace ha hb hi hj,
    fun r t u a ha b hb e he he' ↦ ?_⟩
  obtain ⟨isSend, q, k⟩ := e
  obtain ⟨hcomm, hcase⟩ := envelope_bsendProgram hplace ha he
  obtain ⟨hcomm', hcase'⟩ := envelope_bsendProgram hplace hb he'
  obtain rfl : t = u := ThreadComm.worker.inj (hcomm.symm.trans hcomm')
  rcases hcase with ⟨rfl, hslot, -⟩ | ⟨rfl, hslot, -⟩
  · rcases hcase' with ⟨-, hslot', -⟩ | ⟨h, -⟩
    · exact slots_bsendProgram hplace ha hb hslot hslot'
    · cases h
  · rcases hcase' with ⟨h, -⟩ | ⟨-, hslot', -⟩
    · cases h
    · exact slots_bsendProgram hplace ha hb hslot hslot'

end

/-! ## Without partners -/

/-- Worker one starts when worker zero has sent. -/
def bsendLevel (x : ℕ × ℕ) : Instr ℕ Slot Key P2P.Packet → ℕ
  | .attach => 0
  | .send _ _ _ _ _ => if x.2 = 0 then 1 else 5
  | .signal _ => 2
  | .await _ => 3
  | .recv _ _ _ => 3
  | .wait _ => 4
  | .detach => 6

section

variable {rankOf : ℕ → ℕ} (hplace : ∀ r, bsendPlace commClass r p = .ok ⟨rankOf r, none, none⟩)

include hplace

theorem local_bsendProgram (x : ℕ × ℕ) (a : Instr ℕ Slot Key P2P.Packet)
    (ha : a ∈ bsendProgram commClass p n tag packet x) : a.envelope? = none := by
  obtain ⟨-, -, ⟨-, rfl | rfl⟩ | ⟨-, rfl | rfl⟩ | ⟨-, rfl | rfl | rfl⟩⟩ :=
    (mem_bsendProgram hplace).mp ha <;> rfl

theorem served_bsendProgram : Served (bsendProgram commClass p n tag packet) := by
  have hmem := @mem_bsendProgram commClass p n tag packet _ hplace
  refine served_of_local (local_bsendProgram hplace)
    (fun r t u a ha b hb i hi hj ↦ slots_bsendProgram hplace ha hb hi hj)
    (fun x slots hwait i hi ↦ ?_) fun x k hawait ↦ ?_
  · obtain ⟨hr, hu, hcase⟩ := hmem.mp hwait
    have hslots : x.2 < 2 ∧ slots = [(x.2, 1)] := by simpa using hcase
    obtain ⟨hlt, rfl⟩ := hslots
    obtain rfl := List.mem_singleton.mp hi
    exact ⟨x.2, _, hmem.mpr ⟨hr, hu, .inr (.inr ⟨hlt, .inr (.inl rfl)⟩)⟩, rfl⟩
  · obtain ⟨hr, hu, hcase⟩ := hmem.mp hawait
    have hone : x.2 = 1 ∧ k = 0 := by simpa using hcase
    obtain ⟨hone, rfl⟩ := hone
    exact ⟨0, hmem.mpr ⟨hr, Nat.zero_lt_of_lt hu, .inl ⟨rfl, .inr rfl⟩⟩⟩

theorem leveled_bsendProgram : Conditions.Leveled
    (Condition.waits (bsendProgram commClass p n tag packet))
    (Condition.needs (bsendProgram commClass p n tag packet)) bsendLevel
    (bsendProgram commClass p n tag packet) := by
  refine leveled_of_local (local_bsendProgram hplace) (fun x ↦ ?_)
    (fun r t u slots hwait i hi a ha hslot ↦ ?_) fun r t u k hawait hsignal ↦ ?_
  · rw [bsendProgram_eq hplace]
    split_ifs with hx
    · have h0 := fun h : tstThreadGetNum (List.range n) x.2 = 0 ↦ (eq_of_tstThreadGetNum h).1
      have h1 := fun h : tstThreadGetNum (List.range n) x.2 = 1 ↦ (eq_of_tstThreadGetNum h).1
      rw [bsendCalls]
      split_ifs with hzero hone
      · simp [mpiBsend, mpiRecv, bsendLevel, h0 hzero]
      · simp [mpiBsend, mpiRecv, bsendLevel, h1 hone]
      · exact .nil
    · exact .nil
  · obtain ⟨-, -, hcase⟩ := (mem_bsendProgram hplace).mp hwait
    have hslots : t < 2 ∧ slots = [(t, 1)] := by simpa using hcase
    obtain ⟨-, rfl⟩ := hslots
    obtain rfl := List.mem_singleton.mp hi
    rcases slot_bsendProgram hplace ha hslot with ⟨h, -⟩ | ⟨-, rfl⟩
    · cases (Prod.mk.inj h).2
    · exact Nat.lt_succ_self 3
  · exact Nat.lt_succ_self 2

/-- Who comes to its send finds the buffer attached. -/
theorem attached_bsendProgram (h : Genuine (bsendProgram commClass p n tag packet) s) {x : ℕ × ℕ}
    {i : Slot} {q : Option ℕ} {k : Key} {y : P2P.Packet} {rest : Calls}
    (htodo : s.todo x = .send i true q k y :: rest) : s.Attached x.1 := by
  have hmem := @mem_bsendProgram commClass p n tag packet _ hplace
  have hlevel := @leveled_bsendProgram commClass p n tag packet _ hplace
  have hsend : .send i true q k y ∈ bsendProgram commClass p n tag packet x := by
    rw [← h.split x, htodo]
    exact List.mem_append_right _ List.mem_cons_self
  obtain ⟨hr, hu, hcase⟩ := hmem.mp hsend
  have hlt : x.2 < 2 := by
    simp at hcase
    omega
  have hn : 0 < n := Nat.zero_lt_of_lt hu
  obtain ⟨r, u⟩ := x
  -- worker one has waited for worker zero
  have hsignal : .await 0 ∈ s.done (r, 1) → .signal 0 ∈ s.done (r, 0) := by
    intro hawait
    obtain ⟨t, ht⟩ := h.signaled _ _ hawait
    obtain ⟨-, -, hcase⟩ := hmem.mp (h.mem_of_done ht)
    obtain rfl : t = 0 := by simpa using hcase
    exact ht
  have hattach : .attach ∈ bsendProgram commClass p n tag packet (r, 0) :=
    hmem.mpr ⟨hr, hn, .inl ⟨rfl, .inl rfl⟩⟩
  have hdetach : ∀ {t}, .detach ∈ s.done (r, t) → t = 1 ∧
      .await 0 ∈ bsendProgram commClass p n tag packet (r, 1) := by
    intro t ht
    obtain ⟨-, hone, hcase⟩ := hmem.mp (h.mem_of_done ht)
    obtain rfl : t = 1 := by simpa using hcase
    exact ⟨rfl, hmem.mpr ⟨hr, hone, .inr (.inl ⟨rfl, .inl rfl⟩)⟩⟩
  obtain rfl | rfl : u = 0 ∨ u = 1 := by omega
  · refine ⟨⟨0, hlevel.mem_done h.split htodo hattach Nat.one_pos⟩, fun t ht ↦ ?_⟩
    obtain ⟨rfl, hawait⟩ := hdetach ht
    exact hlevel.not_mem_done h.split htodo (by simp [bsendLevel])
      (hsignal (hlevel.mem_done_of_done h.split ht hawait (by simp [bsendLevel])))
  · have hawait : .await 0 ∈ bsendProgram commClass p n tag packet (r, 1) :=
      hmem.mpr ⟨hr, hu, .inr (.inl ⟨rfl, .inl rfl⟩)⟩
    have hstarted := hsignal (hlevel.mem_done h.split htodo hawait (by simp [bsendLevel]))
    refine ⟨⟨0, hlevel.mem_done_of_done h.split hstarted hattach (by simp [bsendLevel])⟩,
      fun t ht ↦ ?_⟩
    obtain ⟨rfl, -⟩ := hdetach ht
    exact hlevel.not_mem_done h.split htodo (by simp [bsendLevel]) ht

end

/-! ## The buffer -/

/-- Only worker one detaches the buffer. -/
theorem countP_isDetach (hplace : ∀ r, bsendPlace commClass r p = .ok (place r)) {r u : ℕ}
    (hr : r < p) : (bsendProgram commClass p n tag packet (r, u)).countP isDetach
      = if u = 1 ∧ 1 < n then 1 else 0 := by
  rw [bsendProgram_eq hplace]
  have h0 := fun h : tstThreadGetNum (List.range n) u = 0 ↦ eq_of_tstThreadGetNum h
  have h1 := fun h : tstThreadGetNum (List.range n) u = 1 ↦ eq_of_tstThreadGetNum h
  split_ifs with hx hdetach hdetach
  · obtain ⟨rfl, hn⟩ := hdetach
    have hnum : tstThreadGetNum (List.range n) 1 = 1 := by
      rw [tstThreadGetNum_range, if_pos hn]
      rfl
    rw [bsendCalls, hnum]
    rfl
  · rw [bsendCalls]
    split_ifs with hzero hone
    · rfl
    · exact absurd (h1 hone) hdetach
    · rfl
  · omega
  · rfl

/-- In the end it has been detached once if there is a worker one, and else not at all. -/
theorem sum_countP_isDetach (hplace : ∀ r, bsendPlace commClass r p = .ok (place r))
    (h : Genuine (bsendProgram commClass p n tag packet) s) (htodo : ∀ x, s.todo x = []) {r : ℕ}
    (hr : r < p) : ∑ u ∈ Finset.range (n + 1), (s.done (r, u)).countP isDetach
      = if 1 < n then 1 else 0 := by
  have hcount : ∀ u ∈ Finset.range (n + 1), (s.done (r, u)).countP isDetach
      = if u = 1 then if 1 < n then 1 else 0 else 0 := by
    intro u _
    rw [h.done_eq (htodo _), countP_isDetach hplace hr]
    split_ifs <;> simp_all
  rw [Finset.sum_congr rfl hcount, Finset.sum_ite_eq']
  simp only [Finset.mem_range]
  split_ifs <;> omega

/-! ## With partners -/

/-- With two workers or more nobody sends what worker zero receives. -/
theorem not_finished (hself : commClass &&& tstMpiCommSelf = 0)
    (hintra : commClass &&& tstMpiIntraComm ≠ 0) (hp : 1 < p) (hn : 1 < n)
    (h : Genuine (bsendProgram commClass p n tag packet) s) : ¬∀ x, s.todo x = [] := by
  intro htodo
  have hplace : ∀ r, bsendPlace commClass r p = _ := fun r ↦
    threadedPlace_intra hself hintra r p
  simp only [if_pos (show true = false ∨ 1 < p from .inr hp)] at hplace
  have hmem := @mem_bsendProgram commClass p n tag packet _ hplace
  have hwait : .wait [(0, 1)] ∈ s.done (0, 0) := by
    rw [h.done_eq (htodo _), hmem]
    exact ⟨by omega, by omega, .inr (.inr ⟨Nat.two_pos, .inr (.inr rfl)⟩)⟩
  have hrecv : .recv (0, 1) (some ((0 + p - 1) % p)) (.worker 0, bsendTagFrom tag n 0)
      ∈ bsendProgram commClass p n tag packet (0, 0) := by
    rw [hmem]
    exact ⟨by omega, by omega, .inr (.inr ⟨Nat.two_pos, .inr (.inl rfl)⟩)⟩
  obtain ⟨d, hd, hdest, hslot⟩ := h.got_of_complete (paired_bsendProgram hplace) hrecv
    (h.waited _ _ hwait _ rfl _ (List.mem_singleton_self _))
  obtain ⟨t, m, hsent⟩ := h.sent d hd
  obtain ⟨u, hreceived⟩ := h.received d hd
  obtain ⟨hcomm, ⟨-, -, htag⟩ | ⟨hfalse, -⟩⟩ :=
    envelope_bsendProgram hplace (h.mem_of_done hsent) (Instr.mem_envelope?_send.mpr ⟨_, _, _, rfl⟩)
  · obtain ⟨hcomm', ⟨htrue, -⟩ | ⟨-, hslot', htag'⟩⟩ :=
      envelope_bsendProgram hplace (h.mem_of_done hreceived) (Instr.mem_envelope?_recv.mpr ⟨_, rfl⟩)
    · cases htrue
    · obtain rfl : t = u := ThreadComm.worker.inj (hcomm.symm.trans hcomm')
      obtain rfl : t = 0 := by
        rw [hslot] at hslot'
        exact (Prod.mk.inj (Option.some_inj.mp hslot')).1.symm
      -- the tags of worker zero differ
      have hlt : (1 : ℤ) < n := by omega
      rw [htag, bsendTagTo, bsendTagFrom, tstThreadGetNum_range, if_pos (by omega)] at htag'
      simp only [Nat.cast_zero, zero_add, add_zero] at htag'
      rw [Int.tmod_eq_emod_of_nonneg (by omega), Int.emod_eq_of_lt (by omega) hlt] at htag'
      omega
  · cases hfalse

/-! ## Every run -/

/-- Whatever has been received is what the rank before has sent. -/
theorem bsendCheckReceived_eq_nil {cfg : Config} {t : TypeSlot} (ht : t ∈ initTypes cfg)
    (hnull : t.datatype ≠ .null) {env : Env} (hfits : ArrayFits t env.valuesNum) (mode : TstMode)
    (hsize : FitsInt p) (hplace : ∀ r, bsendPlace commClass r p = .ok (place r))
    {sendBuffer : ℕ → Memory}
    (hset : ∀ r : ℕ, P2P.standardBuffer cfg t env r = some (sendBuffer r))
    (h : Genuine (bsendProgram commClass p n env.tag fun r ↦ .values t env (sendBuffer r)) s)
    (r u : ℕ) :
    bsendCheckReceived cfg t env mode (place r).recvFrom (arrivalAt s r (u, 1)) = .ok [] := by
  cases harrival : arrivalAt s r (u, 1) with
  | none => cases (place r).recvFrom <;> rfl
  | some a =>
    obtain ⟨y, hgot, rfl⟩ := Option.map_eq_some_iff.mp harrival
    obtain ⟨d, hfind, rfl⟩ := Option.map_eq_some_iff.mp hgot
    have hd := List.mem_of_find?_eq_some hfind
    have hdest : d.dest = r ∧ d.recvSlot = (u, 1) := by simpa using List.find?_some hfind
    obtain ⟨t', m, hsent⟩ := h.sent d hd
    obtain ⟨u', hreceived⟩ := h.received d hd
    have hmem := h.mem_of_done hsent
    obtain ⟨hlt, -⟩ := (mem_bsendProgram hplace).mp hmem
    have hpayload : d.payload = .values t env (sendBuffer d.source) := by
      rcases slot_bsendProgram hplace hmem rfl with ⟨-, hsend⟩ | ⟨-, hsend⟩
      · exact (Instr.send.inj hsend).2.2.2.2
      · cases hsend
    have hfrom : (place r).recvFrom = some d.source := by
      rcases slot_bsendProgram hplace (h.mem_of_done hreceived) rfl with ⟨-, hrecv⟩ | ⟨-, hrecv⟩
      · cases hrecv
      · rw [← hdest.1]
        exact (Instr.recv.inj hrecv).2.1.symm
    have hbound := P2P.rank_add_values_le hfits.fitsInt hsize hlt
    rw [hfrom, hpayload]
    exact P2P.Arrival.check_eq_nil ht hnull (hset _) rfl mode "Error in count" (by omega) (by omega)

/-- **No false alarm.** In no state that is reached does a thread find something wrong. -/
theorem bsendCheck_eq_nil {cfg : Config} {t : TypeSlot} (ht : t ∈ initTypes cfg)
    (hnull : t.datatype ≠ .null) {env : Env} (hfits : ArrayFits t env.valuesNum) (mode : TstMode)
    (hsize : FitsInt p) (hplace : ∀ r, bsendPlace commClass r p = .ok (place r))
    {sendBuffer : ℕ → Memory}
    (hset : ∀ r : ℕ, P2P.standardBuffer cfg t env r = some (sendBuffer r))
    (h : Reachable (bsendProgram commClass p n env.tag fun r ↦ .values t env (sendBuffer r)) s)
    (r u : ℕ) (globalBuffer : ℕ × ℤ) :
    tstThreadedRingBsendCheck cfg t env mode commClass p n r u (arrivalAt s r (u, 1)) globalBuffer
      globalBuffer = .ok [] := by
  have hcheck := bsendCheckReceived_eq_nil ht hnull hfits mode hsize hplace hset h.genuine r u
  rw [tstThreadedRingBsendCheck, hplace, ok_bind, hcheck]
  simp only [ok_bind, ne_eq, not_true_eq_false, if_false]
  split_ifs <;> rfl

/-- On a communicator without partners the test does what it promises if there are two workers. -/
theorem bsendWorks_local {rankOf : ℕ → ℕ}
    (hplace : ∀ r, bsendPlace commClass r p = .ok ⟨rankOf r, none, none⟩) (hn : 1 < n)
    (h : Reachable (bsendProgram commClass p n tag packet) s) : BsendWorks p n s := by
  have hgenuine := h.genuine
  refine ⟨fun x ↦ hgenuine.exists_step (served_bsendProgram hplace) (leveled_bsendProgram hplace),
    fun x i q k y rest htodo ↦ attached_bsendProgram hplace hgenuine htodo,
    fun htodo r hr ↦ ?_, fun _ x i q k y hsend ↦ ?_⟩
  · rw [sum_countP_isDetach hplace hgenuine htodo hr, if_pos hn]
  · cases local_bsendProgram hplace _ _ (hgenuine.mem_of_done hsend)

/-- If it does what it promises, there are two workers and no partners. -/
theorem of_bsendWorks
    (hclass : commClass &&& tstMpiCommSelf = 0 → commClass &&& tstMpiIntraComm ≠ 0)
    (hp : 0 < p) (hworks : ∀ s, Reachable (bsendProgram commClass p n tag packet) s →
      BsendWorks p n s) : 2 ≤ n ∧ (commClass &&& tstMpiCommSelf ≠ 0 ∨ p = 1) := by
  obtain ⟨place, hplace, -⟩ := exists_around
    "tst_threaded_ring_bsend cannot run with this kind of communicator" true hclass p
  obtain ⟨s, hreach, htodo⟩ := exists_finished partyProgram_eq_nil
    fun s hs ↦ (hworks s hs).noDeadlock
  have hn : 1 < n := by
    have hsum := (hworks s hreach).detached htodo 0 hp
    rw [sum_countP_isDetach hplace hreach.genuine htodo hp] at hsum
    by_contra hn
    rw [if_neg hn] at hsum
    cases hsum
  refine ⟨hn, Classical.or_iff_not_imp_left.mpr fun hself ↦ ?_⟩
  rw [not_not] at hself
  by_contra hone
  exact not_finished hself (hclass hself) (by omega) hn hreach.genuine htodo

end

/-- The size of the buffer that is attached is an `int`. -/
def BsendFits (bsendOverhead : ℕ) (t : TypeSlot) (env : Env) (n : ℕ) : Prop :=
  n * ((env.valuesNum + 8) * t.size + bsendOverhead) < 2 ^ 31

instance (bsendOverhead : ℕ) (t : TypeSlot) (env : Env) (n : ℕ) :
    Decidable (BsendFits bsendOverhead t env n) := by
  unfold BsendFits
  infer_instance

section

variable {cfg : Config} {t : TypeSlot} {env : Env} {bsendOverhead n : ℕ}

theorem bsendFits_iff (hfits : ArrayFits t env.valuesNum) (hn : 1 ≤ n) :
    BsendFits bsendOverhead t env n ↔
      ∃ room, bsendBufferBytes bsendOverhead t env n = some room := by
  have hint := hfits.fitsInt
  have hsize := hfits.size
  have hbytes : (env.valuesNum + 8) * t.size < 2 ^ 31 := hfits.bytes
  have hvalues : env.valuesNum + 8 ≤ (env.valuesNum + 8) * t.size :=
    le_mul_of_one_le_right (by have := hfits.count; omega) hsize
  have hcount := hfits.count
  have hle : (env.valuesNum + 8) * t.size + bsendOverhead
      ≤ n * ((env.valuesNum + 8) * t.size + bsendOverhead) :=
    le_mul_of_one_le_left (by omega) (by exact_mod_cast hn)
  simp only [bsendBufferBytes, Option.bind_eq_bind, Option.bind_eq_some_iff,
    checkedSigned_eq_some_iff, mallocInt_eq_some_iff]
  constructor
  · intro hlt
    rw [BsendFits] at hlt
    exact ⟨_, _, ⟨⟨by omega, by omega⟩, rfl⟩, _, ⟨⟨by omega, hbytes⟩, rfl⟩, _,
      ⟨⟨by omega, by omega⟩, rfl⟩, _, ⟨⟨by omega, hlt⟩, rfl⟩,
      (Int.toNat_of_nonneg (by omega)).symm⟩
  · rintro ⟨room, _, ⟨-, rfl⟩, _, ⟨-, rfl⟩, _, ⟨-, rfl⟩, _, ⟨hlt, rfl⟩, -⟩
    exact hlt.2

theorem exists_bsendInit_iff (ht : t ∈ initTypes cfg) (hnull : t.datatype ≠ .null) (hn : 1 ≤ n)
    (commRank : ℕ) :
    (∃ packet, tstThreadedRingBsendInit bsendOverhead cfg t env n commRank = some packet) ↔
      ArrayFits t env.valuesNum ∧ BsendFits bsendOverhead t env n := by
  have harray : (∃ packet, P2P.sendArray cfg t env commRank = some packet) ↔
      ArrayFits t env.valuesNum := P2P.exists_sendArray_iff ht hnull
  constructor
  · rintro ⟨packet, hinit⟩
    obtain ⟨packet', hpacket, hinit⟩ := Option.bind_eq_some_iff.mp hinit
    obtain ⟨room, hroom, -⟩ := Option.bind_eq_some_iff.mp hinit
    have hfits := harray.mp ⟨_, hpacket⟩
    exact ⟨hfits, (bsendFits_iff hfits hn).mpr ⟨room, hroom⟩⟩
  · rintro ⟨hfits, hbsend⟩
    obtain ⟨packet, hpacket⟩ := harray.mpr hfits
    obtain ⟨room, hroom⟩ := (bsendFits_iff hfits hn).mp hbsend
    exact ⟨packet, by rw [tstThreadedRingBsendInit, hpacket, hroom]; rfl⟩

end

/-- **The ring of buffered sends.** With any number of ranks and workers the test does what it
promises, in every state that is reached, exactly if the arrays and the buffer fit, there are at
least two workers and the communicator is like `MPI_COMM_SELF` or has a single rank. -/
theorem bsend_ring_works_iff (cfg : Config) (t : TypeSlot) (ht : t ∈ initTypes cfg)
    (hnull : t.datatype ≠ .null) (env : Env) (bsendOverhead : ℕ) (row : Test)
    (hrow : tstTest cfg env.test = some row)
    (hname : row.functions = some "tst_threaded_ring_bsend") (commClass : Flags)
    (hadmitted : commClass &&& row.runWithComm ≠ 0) (p : ℕ) (hp : 1 ≤ p) (n : ℕ) (hn : 1 ≤ n) :
    (∃ packet : ℕ → P2P.Packet,
      (∀ r < p, tstThreadedRingBsendInit bsendOverhead cfg t env n r = some (packet r)) ∧
      ∀ s, Reachable (bsendProgram commClass p n env.tag packet) s → BsendWorks p n s) ↔
      ArrayFits t env.valuesNum ∧ BsendFits bsendOverhead t env n ∧
        2 ≤ n ∧ (commClass &&& tstMpiCommSelf ≠ 0 ∨ p = 1) := by
  rw [runWithComm_threaded hrow (by simp [threadedFunctions]) hname] at hadmitted
  have hinit : ∀ r : ℕ,
      (∃ packet, tstThreadedRingBsendInit bsendOverhead cfg t env n r = some packet) ↔
        ArrayFits t env.valuesNum ∧ BsendFits bsendOverhead t env n :=
    fun r ↦ exists_bsendInit_iff ht hnull hn r
  constructor
  · rintro ⟨packet, hpacket, hworks⟩
    obtain ⟨hfits, hbsend⟩ := (hinit 0).mp ⟨_, hpacket 0 hp⟩
    exact ⟨hfits, hbsend, of_bsendWorks (intra_of_admitted hadmitted) hp hworks⟩
  · rintro ⟨hfits, hbsend, htwo, hclass⟩
    choose packet hpacket using fun r ↦ (hinit r).mpr ⟨hfits, hbsend⟩
    refine ⟨packet, fun r _ ↦ hpacket r, fun s h ↦ ?_⟩
    by_cases hself : commClass &&& tstMpiCommSelf = 0
    · obtain rfl := hclass.resolve_left (not_not_intro hself)
      have hintra := intra_of_admitted hadmitted hself
      exact bsendWorks_local (fun r ↦ threadedPlace_intra hself hintra r 1) htwo h
    · exact bsendWorks_local (fun r ↦ threadedPlace_self hself r p) htwo h

/-- Two ranks with two workers each. -/
theorem bsend_ring_works_iff_two :
    let cfg : Config := ⟨2, true, true, true, true, true, true, true, true⟩
    let env : Env := ⟨106, 0, 6, 3, 0⟩
    (∃ packet : ℕ → P2P.Packet,
      (∀ r < (2 : ℕ), tstThreadedRingBsendInit 128 cfg (slotMpi2 6) env 2 r = some (packet r)) ∧
      ∀ s, Reachable (bsendProgram tstMpiIntraComm 2 2 0 packet) s → BsendWorks 2 2 s) ↔
      ArrayFits (slotMpi2 6) 3 ∧ BsendFits 128 (slotMpi2 6) env 2 ∧
        2 ≤ 2 ∧ (tstMpiIntraComm &&& tstMpiCommSelf ≠ 0 ∨ 2 = 1) :=
  bsend_ring_works_iff ⟨2, true, true, true, true, true, true, true, true⟩ (slotMpi2 6)
    (by decide +kernel) (by decide +kernel) ⟨106, 0, 6, 3, 0⟩ 128 _ rfl rfl tstMpiIntraComm
    (by decide) 2 (by decide) 2 (by decide)

/-- Two ranks with two workers each come to a state in which they are stuck. -/
theorem bsend_ring_fails : ¬∀ (commClass : Flags),
    commClass &&& (tstMpiCommSelf ||| tstMpiIntraComm) ≠ 0 → ∀ p : ℕ, 1 ≤ p → ∀ n : ℕ, 1 ≤ n →
    ∀ packet : ℕ → P2P.Packet,
      (∀ r < p, tstThreadedRingBsendInit 128 ⟨2, true, true, true, true, true, true, true, true⟩
        (slotMpi2 6) ⟨106, 0, 6, 3, 0⟩ n r = some (packet r)) →
      ∀ s, Reachable (bsendProgram commClass p n 0 packet) s → BsendWorks p n s := by
  intro h
  have hmem : slotMpi2 6 ∈ initTypes ⟨2, true, true, true, true, true, true, true, true⟩ := by
    decide +kernel
  have hfits : ArrayFits (slotMpi2 6) (⟨106, 0, 6, 3, 0⟩ : Env).valuesNum := by decide +kernel
  have hbsend : BsendFits 128 (slotMpi2 6) ⟨106, 0, 6, 3, 0⟩ 2 := by decide +kernel
  choose packet hpacket using fun r : ℕ ↦
    (exists_bsendInit_iff hmem (by decide +kernel) (by decide) r).mpr ⟨hfits, hbsend⟩
  obtain ⟨-, hself | hone⟩ := of_bsendWorks (fun _ ↦ by decide) Nat.two_pos
    (h tstMpiIntraComm (by decide) 2 (by decide) 2 (by decide) packet fun r _ ↦ hpacket r)
  · exact hself (by decide)
  · exact absurd hone (by decide)

end Threaded

end MpiTestSuite
