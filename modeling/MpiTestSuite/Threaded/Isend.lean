import MpiTestSuite.Threaded.Ring

/-!
# The ring of global requests

In `"Threaded ring isend"` two threads of every process share two requests. Thread zero starts a
receive from the rank before and a send to the next rank, and wakes thread one up, which waits for
both and tells thread zero. The threads are numbered as in the ring of all threads, so thread one is
the master if there is one worker only.

What is received goes to the buffer of thread zero. But all threads, also those that have done
nothing, compare their own receive buffers with the array of the rank before.
-/

open MpiTestSuite.Runs MpiTestSuite.Runs.Threads

namespace MpiTestSuite

namespace Threaded

/-! ## The test -/

/-- `tst_thread_get_global_request`: thread zero starts the global requests. -/
def tstThreadGetGlobalRequest (num : ℕ) : Slot := (0, num)

def isendPlace : Flags → ℕ → ℕ → Except Stop P2P.RingPlace :=
  threadedPlace "tst_threaded_ring_isend cannot run with this kind of communicator" false

/-- The calls of a thread with its place. -/
def isendCalls (numThreads : ℕ) (tag : ℤ) (packet : P2P.Packet) (place : P2P.RingPlace)
    (thread : ℕ) : Calls :=
  if ringThreadNum numThreads thread = 0 then
    [.recv (tstThreadGetGlobalRequest 0) place.recvFrom (tstCommGetmastercomm, tag),
      .send (tstThreadGetGlobalRequest 1) false place.sendTo (tstCommGetmastercomm, tag) packet,
      .signal 0, .await 1]
  else if 0 < ringNumThreads numThreads ∧ ringThreadNum numThreads thread = 1 then
    [.await 0, .wait [tstThreadGetGlobalRequest 0, tstThreadGetGlobalRequest 1], .signal 1]
  else []

/-- The calls of `tst_threaded_ring_isend_run`. -/
def tstThreadedRingIsendRun (commClass : Flags) (commSize numThreads : ℕ) (tag : ℤ)
    (packet : P2P.Packet) (commRank thread : ℕ) : Except Stop Calls := do
  let place ← isendPlace commClass commRank commSize
  return isendCalls numThreads tag packet place thread

/-- What thread one checks: its requests, of which those that are `MPI_REQUEST_NULL` are `none`, and
the first status. -/
def isendCheckRequests (requests : Option Slot × Option Slot) (recvFrom : Option ℕ) (tag : ℤ)
    (status : Option P2P.Arrival) : Except Stop (List Env) :=
  if requests.1.isSome ∨ requests.2.isSome then .error (.error "Error in requests")
  else checkArrival "Error in statuses" recvFrom tag status fun _ _ ↦ .ok []

/-- `tst_threaded_ring_isend_run` after the calls, where `recvCount` is what the second status
yields: the environments that `tst_test_recordfailure` is called with. -/
def tstThreadedRingIsendCheck (cfg : Config) (t : TypeSlot) (env : Env) (mode : TstMode)
    (commClass : Flags) (commSize numThreads commRank thread : ℕ)
    (requests : Option Slot × Option Slot) (status : Option P2P.Arrival) (recvCount : ℤ)
    (recvBuffer : Memory) : Except Stop (List Env) := do
  let place ← isendPlace commClass commRank commSize
  let calls ← if ringThreadNum numThreads thread = 1
    then isendCheckRequests requests place.recvFrom env.tag status else .ok []
  match place.recvFrom with
  | some source =>
    if mode = .strict ∧ recvCount ≠ env.valuesNum then .error (.error "Error in count")
    else P2P.orStop (tstTestCheckstandardarray cfg t env recvBuffer source)
  | none => return calls

/-- The program of all threads. -/
def isendProgram (commClass : Flags) (p n : ℕ) (tag : ℤ) (packet : ℕ → P2P.Packet) :
    ℕ × ℕ → Calls :=
  partyProgram p n fun r u ↦ tstThreadedRingIsendRun commClass p n tag (packet r) r u

/-- The receive buffer of a thread: what its receive has got, or what `tst_type_allocvalues` has
made. -/
def isendBuffer (t : TypeSlot) (env : Env) (s : State ℕ ℕ Slot Key P2P.Packet) (r u : ℕ) : Memory :=
  match arrivalAt s r (u, 0) with
  | some a => a.buffer t env
  | none => freshValues t env.valuesNum.toNat

/-- What the test promises of a state that is reached with `p` ranks and `n` workers each. -/
structure IsendWorks (cfg : Config) (t : TypeSlot) (env : Env) (mode : TstMode)
    (commClass : Flags) (p n : ℕ) (packet : ℕ → P2P.Packet)
    (s : State ℕ ℕ Slot Key P2P.Packet) : Prop where
  /-- A thread that compares its buffer with the array of a rank has received that. -/
  filled : ∀ r < p, ∀ u < n + 1, s.todo (r, u) = [] → ∀ place,
    isendPlace commClass r p = .ok place → ∀ q, place.recvFrom = some q →
      arrivalAt s r (u, 0) = some ⟨q, env.tag, packet q⟩
  /-- A thread that is through finds nothing wrong, whatever the count is that the second status
  yields. -/
  quiet : ∀ r < p, ∀ u < n + 1, s.todo (r, u) = [] → ∀ recvCount,
    tstThreadedRingIsendCheck cfg t env mode commClass p n r u (none, none)
      (arrivalAt s r (tstThreadGetGlobalRequest 0)) recvCount (isendBuffer t env s r u) = .ok []
  /-- No request is waited for that has not been started. -/
  started : ∀ x slots, .wait slots ∈ s.done x → ∀ i ∈ slots,
    ∃ u, ∃ a ∈ s.done (x.1, u), a.slot? = some i
  /-- When all threads are through, each global request has been waited for by one of them. -/
  completed : ∀ r < p, (∀ u, s.todo (r, u) = []) → ∀ i < 2,
    ∃! x : ℕ × List Slot, .wait x.2 ∈ s.done (r, x.1) ∧ tstThreadGetGlobalRequest i ∈ x.2

section

variable {commClass : Flags} {p n : ℕ} {tag : ℤ} {packet : ℕ → P2P.Packet}
  {place : ℕ → P2P.RingPlace}

/-! ## The two threads -/

section

variable (hplace : ∀ r, isendPlace commClass r p = .ok (place r))

include hplace

theorem isendProgram_eq (x : ℕ × ℕ) : isendProgram commClass p n tag packet x
    = if x.1 < p ∧ x.2 < n + 1 then isendCalls n tag (packet x.1) (place x.1) x.2 else [] := by
  rw [isendProgram, partyProgram, tstThreadedRingIsendRun, hplace]
  rfl

theorem mem_isendProgram {x : ℕ × ℕ} {a : Instr ℕ Slot Key P2P.Packet} :
    a ∈ isendProgram commClass p n tag packet x ↔ (x.1 < p ∧ x.2 < n + 1) ∧
      (x.2 = 0 ∧ (a = .recv (0, 0) (place x.1).recvFrom (.master, tag) ∨
          a = .send (0, 1) false (place x.1).sendTo (.master, tag) (packet x.1) ∨
          a = .signal 0 ∨ a = .await 1) ∨
        x.2 = 1 ∧ (a = .await 0 ∨ a = .wait [(0, 0), (0, 1)] ∨ a = .signal 1)) := by
  rw [isendProgram_eq hplace]
  split_ifs with hx
  · have hseveral : 0 < ringNumThreads n := by
      rw [ringNumThreads]
      omega
    rw [isendCalls, ringThreadNum_eq hx.2]
    by_cases h0 : x.2 = 0
    · simp [h0, hx, tstThreadGetGlobalRequest, tstCommGetmastercomm]
    · by_cases h1 : x.2 = 1
      · have hn : 0 < n := by omega
        simp [h1, hx, hn, hseveral, tstThreadGetGlobalRequest]
      · simp [h0, h1]
  · exact iff_of_false List.not_mem_nil fun h ↦ hx h.1

theorem send_mem_isendProgram {r u : ℕ} {i : Slot} {m : Bool} {q : Option ℕ} {k : Key}
    {y : P2P.Packet} : .send i m q k y ∈ isendProgram commClass p n tag packet (r, u) ↔
      r < p ∧ u = 0 ∧ i = (0, 1) ∧ m = false ∧ q = (place r).sendTo ∧ k = (.master, tag) ∧
        y = packet r := by
  rw [mem_isendProgram hplace]
  simp
  grind

theorem recv_mem_isendProgram {q u : ℕ} {j : Slot} {r : Option ℕ} {k : Key} :
    .recv j r k ∈ isendProgram commClass p n tag packet (q, u) ↔
      q < p ∧ u = 0 ∧ j = (0, 0) ∧ r = (place q).recvFrom ∧ k = (.master, tag) := by
  rw [mem_isendProgram hplace]
  simp
  grind

/-- Only thread zero has requests. -/
theorem slot_isendProgram {r u : ℕ} {a : Instr ℕ Slot Key P2P.Packet}
    (ha : a ∈ isendProgram commClass p n tag packet (r, u)) {i : Slot} (hi : a.slot? = some i) :
    u = 0 ∧ (i = (0, 0) ∧ a = .recv (0, 0) (place r).recvFrom (.master, tag) ∨
      i = (0, 1) ∧ a = .send (0, 1) false (place r).sendTo (.master, tag) (packet r)) := by
  obtain ⟨-, ⟨h0, rfl | rfl | rfl | rfl⟩ | ⟨-, rfl | rfl | rfl⟩⟩ := (mem_isendProgram hplace).mp ha
  · exact ⟨h0, .inl ⟨(Option.some_inj.mp hi).symm, rfl⟩⟩
  · exact ⟨h0, .inr ⟨(Option.some_inj.mp hi).symm, rfl⟩⟩
  all_goals cases hi

theorem paired_isendProgram : Paired (isendProgram commClass p n tag packet) := by
  refine ⟨fun r t u a ha b hb i hi hj ↦ ?_, fun r t u a ha b hb e he he' ↦ ?_⟩
  · obtain ⟨rfl, hcase⟩ := slot_isendProgram hplace ha hi
    obtain ⟨rfl, hcase'⟩ := slot_isendProgram hplace hb hj
    rcases hcase with ⟨rfl, rfl⟩ | ⟨rfl, rfl⟩
    · rcases hcase' with ⟨-, rfl⟩ | ⟨h, -⟩
      · exact ⟨rfl, rfl⟩
      · cases h
    · rcases hcase' with ⟨h, -⟩ | ⟨-, rfl⟩
      · cases h
      · exact ⟨rfl, rfl⟩
  · obtain ⟨isSend, q, k⟩ := e
    cases isSend with
    | true =>
      obtain ⟨i, m, y, rfl⟩ := Instr.mem_envelope?_send.mp he
      obtain ⟨i', m', y', rfl⟩ := Instr.mem_envelope?_send.mp he'
      obtain ⟨-, rfl, rfl, rfl, -, -, rfl⟩ := (send_mem_isendProgram hplace).mp ha
      obtain ⟨-, rfl, rfl, rfl, -, -, rfl⟩ := (send_mem_isendProgram hplace).mp hb
      exact ⟨rfl, rfl⟩
    | false =>
      obtain ⟨j, rfl⟩ := Instr.mem_envelope?_recv.mp he
      obtain ⟨j', rfl⟩ := Instr.mem_envelope?_recv.mp he'
      obtain ⟨-, rfl, rfl, -, -⟩ := (recv_mem_isendProgram hplace).mp ha
      obtain ⟨-, rfl, rfl, -, -⟩ := (recv_mem_isendProgram hplace).mp hb
      exact ⟨rfl, rfl⟩

theorem served_isendProgram (haround : Around p place) (hn : 0 < n) :
    Served (isendProgram commClass p n tag packet) := by
  have hmem := @mem_isendProgram commClass p n tag packet _ hplace
  refine ⟨paired_isendProgram hplace, fun x slots hwait i hi ↦ ?_, fun x k hawait ↦ ?_,
    fun x a ha e he ↦ ?_⟩
  · obtain ⟨⟨hr, -⟩, hcase⟩ := hmem.mp hwait
    have hslots : slots = [(0, 0), (0, 1)] := by simpa using hcase.imp And.right And.right
    subst hslots
    rcases List.mem_pair.mp hi with rfl | rfl
    · exact ⟨0, _, hmem.mpr ⟨⟨hr, Nat.succ_pos n⟩, .inl ⟨rfl, .inl rfl⟩⟩, rfl⟩
    · exact ⟨0, _, hmem.mpr ⟨⟨hr, Nat.succ_pos n⟩, .inl ⟨rfl, .inr (.inl rfl)⟩⟩, rfl⟩
  · obtain ⟨⟨hr, -⟩, hcase⟩ := hmem.mp hawait
    rcases (by simpa using hcase.imp And.right And.right : k = 1 ∨ k = 0) with rfl | rfl
    · exact ⟨1, hmem.mpr ⟨⟨hr, by omega⟩, .inr ⟨rfl, .inr (.inr rfl)⟩⟩⟩
    · exact ⟨0, hmem.mpr ⟨⟨hr, Nat.succ_pos n⟩, .inl ⟨rfl, .inr (.inr (.inl rfl))⟩⟩⟩
  · obtain ⟨isSend, q, k⟩ := e
    cases isSend with
    | true =>
      obtain ⟨i, m, y, rfl⟩ := Instr.mem_envelope?_send.mp he
      obtain ⟨hr, -, -, -, hq, rfl, -⟩ := (send_mem_isendProgram hplace).mp ha
      obtain ⟨hlt, hfrom⟩ := haround.next x.1 hr q hq.symm
      refine ⟨0, _, (recv_mem_isendProgram hplace).mpr ⟨hlt, rfl, rfl, rfl, rfl⟩, _, .inl ⟨he, ?_⟩⟩
      exact Instr.mem_envelope?_recv.mpr ⟨_, by rw [hfrom]⟩
    | false =>
      obtain ⟨j, rfl⟩ := Instr.mem_envelope?_recv.mp he
      obtain ⟨hq, -, -, hr, rfl⟩ := (recv_mem_isendProgram hplace).mp ha
      obtain ⟨hlt, hto⟩ := haround.previous x.1 hq q hr.symm
      refine ⟨0, _, (send_mem_isendProgram hplace).mpr ⟨hlt, rfl, rfl, rfl, rfl, rfl, rfl⟩, _,
        .inr ⟨he, ?_⟩⟩
      exact Instr.mem_envelope?_send.mpr ⟨_, _, _, by rw [hto]⟩

omit hplace in
/-- Thread zero starts the requests, thread one waits for them, and thread zero for thread one. -/
def isendLevel (_ : ℕ × ℕ) : Instr ℕ Slot Key P2P.Packet → ℕ
  | .signal tag => 2 * tag
  | .await tag => 2 * tag + 1
  | .wait _ => 1
  | _ => 0

theorem leveled_isendProgram : Conditions.Leveled
    (Condition.waits (isendProgram commClass p n tag packet))
    (Condition.needs (isendProgram commClass p n tag packet)) isendLevel
    (isendProgram commClass p n tag packet) where
  sorted x := by
    rw [isendProgram_eq hplace]
    split_ifs with hx
    · rw [isendCalls]
      split_ifs with h0 h1
      · simp [isendLevel]
      · simp [isendLevel]
      · exact .nil
    · exact .nil
  needed x a ha c hc y hy := by
    have hzero : ∀ {z : ℕ × ℕ} {b : Instr ℕ Slot Key P2P.Packet} {i : Slot},
        b.slot? = some i → isendLevel z b = 0 := by
      intro z b i hi
      cases b with
      | send | recv => rfl
      | wait | signal | await | attach | detach => cases hi
    cases a with
    | wait slots =>
      obtain ⟨i, hi, rfl⟩ := hc
      obtain ⟨hmem, hcase⟩ := hy
      refine ⟨hmem, ?_⟩
      rcases hcase with ⟨-, hslot⟩ | ⟨t, b, hb, -, -, hpartners⟩
      · rw [hzero hslot]
        exact Nat.one_pos
      · obtain ⟨j, hslot⟩ := hpartners.exists_slot
        rw [hzero hslot]
        exact Nat.one_pos
    | await k =>
      obtain rfl := hc
      obtain ⟨hmem, -, hsignal⟩ := hy
      refine ⟨hmem, ?_⟩
      rw [hsignal]
      exact Nat.lt_succ_self _
    | detach =>
      obtain ⟨-, ⟨-, h⟩ | ⟨-, h⟩⟩ := (mem_isendProgram hplace).mp ha
      · simp at h
      · simp at h
    | send | recv | signal | attach => exact absurd hc (Set.notMem_empty c)

end

/-! ## The states that are reached -/

section

variable {cfg : Config} {t : TypeSlot} {env : Env} {mode : TstMode}
  {s : State ℕ ℕ Slot Key P2P.Packet}

/-- Each request is waited for by thread one, and has been started then. -/
theorem completed_isendProgram (hplace : ∀ r, isendPlace commClass r p = .ok (place r))
    (hn : 0 < n) (h : Genuine (isendProgram commClass p n tag packet) s) {r : ℕ} (hr : r < p)
    (htodo : ∀ u, s.todo (r, u) = []) {i : ℕ} (hi : i < 2) :
    ∃! x : ℕ × List Slot, .wait x.2 ∈ s.done (r, x.1) ∧ tstThreadGetGlobalRequest i ∈ x.2 := by
  refine ⟨(1, [(0, 0), (0, 1)]), ⟨?_, ?_⟩, fun x hx ↦ ?_⟩
  · rw [h.done_eq (htodo 1), mem_isendProgram hplace]
    exact ⟨⟨hr, by omega⟩, .inr ⟨rfl, .inr (.inl rfl)⟩⟩
  · obtain rfl | rfl : i = 0 ∨ i = 1 := by omega
    · exact List.mem_cons_self
    · exact List.mem_cons_of_mem _ List.mem_cons_self
  · obtain ⟨-, hcase⟩ := (mem_isendProgram hplace).mp (h.mem_of_done hx.1)
    have heq : x.1 = 1 ∧ x.2 = [(0, 0), (0, 1)] := by simpa using hcase
    exact Prod.ext heq.1 heq.2

theorem isendWorks_self (hself : commClass &&& tstMpiCommSelf ≠ 0) (hn : 0 < n)
    (h : Reachable (isendProgram commClass p n env.tag packet) s) :
    IsendWorks cfg t env mode commClass p n packet s := by
  have hplace : ∀ r, isendPlace commClass r p = .ok ⟨0, none, none⟩ := fun r ↦
    threadedPlace_self hself r p
  have hlocal : ∀ x, ∀ a ∈ isendProgram commClass p n env.tag packet x, a.envelope? = none := by
    intro x a ha
    obtain ⟨-, ⟨-, rfl | rfl | rfl | rfl⟩ | ⟨-, rfl | rfl | rfl⟩⟩ :=
      (mem_isendProgram hplace).mp ha <;> rfl
  have harrival : ∀ r slot, arrivalAt s r slot = none := by
    intro r slot
    rw [arrivalAt, State.got, Delivery.got, h.genuine.delivered_eq_nil hlocal]
    rfl
  refine ⟨fun r _ u _ _ place' hr q hq ↦ ?_, fun r _ u _ _ recvCount ↦ ?_,
    fun x slots hwait i hi ↦ h.genuine.started_of_complete (h.genuine.waited x _ hwait _ rfl i hi),
    fun r hr htodo i hi ↦ completed_isendProgram hplace hn h.genuine hr htodo hi⟩
  · rw [hplace] at hr
    obtain rfl := Except.ok.inj hr
    cases hq
  · rw [tstThreadedRingIsendCheck, hplace, harrival, ok_bind]
    split_ifs <;> rfl

/-- On any other communicator every thread compares its buffer, but only thread zero has received
something. -/
theorem exists_not_isendWorks (hself : commClass &&& tstMpiCommSelf = 0)
    (hintra : commClass &&& tstMpiIntraComm ≠ 0) (hp : 0 < p) (hn : 0 < n) :
    ∃ s, Reachable (isendProgram commClass p n env.tag packet) s ∧
      ¬IsendWorks cfg t env mode commClass p n packet s := by
  obtain ⟨place, hplace, haround⟩ := exists_around
    "tst_threaded_ring_isend cannot run with this kind of communicator" false (fun _ ↦ hintra) p
  have hplace0 : isendPlace commClass 0 p = .ok ⟨0, some ((0 + 1) % p), some ((0 + p - 1) % p)⟩ :=
    threadedPlace_intra hself hintra 0 p
  obtain ⟨s, hreach, htodo⟩ := exists_finished partyProgram_eq_nil
    fun s hs x ↦ hs.genuine.exists_step (served_isendProgram hplace haround hn)
      (leveled_isendProgram hplace)
  refine ⟨s, hreach, fun hworks ↦ ?_⟩
  have harrival := hworks.filled 0 hp 1 (by omega) (htodo _) _ hplace0 _ rfl
  obtain ⟨y, hgot, -⟩ := Option.map_eq_some_iff.mp harrival
  obtain ⟨d, hfind, -⟩ := Option.map_eq_some_iff.mp hgot
  obtain ⟨-, hslot⟩ : d.dest = 0 ∧ d.recvSlot = (1, 0) := by simpa using List.find?_some hfind
  obtain ⟨u, hreceived⟩ := hreach.genuine.received d (List.mem_of_find?_eq_some hfind)
  obtain ⟨-, -, hzero, -⟩ :=
    (recv_mem_isendProgram hplace).mp (hreach.genuine.mem_of_done hreceived)
  rw [hslot] at hzero
  cases hzero

end

end

/-- **The ring of global requests.** With any number of ranks and workers the test raises no false
alarm, in every state that is reached, exactly if the arrays fit and the communicator is like
`MPI_COMM_SELF`. -/
theorem isend_ring_works_iff (cfg : Config) (t : TypeSlot) (ht : t ∈ initTypes cfg)
    (hnull : t.datatype ≠ .null) (env : Env) (mode : TstMode) (row : Test)
    (hrow : tstTest cfg env.test = some row)
    (hname : row.functions = some "tst_threaded_ring_isend") (commClass : Flags)
    (hadmitted : commClass &&& row.runWithComm ≠ 0) (p : ℕ) (hp : 1 ≤ p) (n : ℕ) (hn : 1 ≤ n) :
    (∃ sendBuffer : ℕ → Memory,
      (∀ r < p, P2P.sendArray cfg t env r = some (.values t env (sendBuffer r))) ∧
      ∀ s, Reachable (isendProgram commClass p n env.tag
          fun r ↦ .values t env (sendBuffer r)) s →
        IsendWorks cfg t env mode commClass p n (fun r ↦ .values t env (sendBuffer r)) s) ↔
      ArrayFits t env.valuesNum ∧ commClass &&& tstMpiCommSelf ≠ 0 := by
  rw [runWithComm_threaded hrow (by simp [threadedFunctions]) hname] at hadmitted
  constructor
  · rintro ⟨sendBuffer, hsend, hworks⟩
    refine ⟨(P2P.exists_sendArray_iff ht hnull).mp ⟨_, hsend 0 hp⟩, fun hself ↦ ?_⟩
    obtain ⟨s, hreach, hnot⟩ :=
      exists_not_isendWorks hself (intra_of_admitted hadmitted hself) hp hn
    exact hnot (hworks s hreach)
  · rintro ⟨hfits, hself⟩
    obtain ⟨sendBuffer, -, hsend⟩ :=
      P2P.exists_sendArrays ht hnull hfits fun r : ℕ ↦ (r : ℤ)
    exact ⟨sendBuffer, fun r _ ↦ hsend r, fun s h ↦ isendWorks_self hself hn h⟩

/-- Two ranks with one worker each. -/
theorem isend_ring_works_iff_two :
    let cfg : Config := ⟨2, true, true, true, true, true, true, true, true⟩
    let env : Env := ⟨105, 0, 6, 3, 0⟩
    (∃ sendBuffer : ℕ → Memory,
      (∀ r < (2 : ℕ), P2P.sendArray cfg (slotMpi2 6) env r
        = some (.values (slotMpi2 6) env (sendBuffer r))) ∧
      ∀ s, Reachable (isendProgram tstMpiIntraComm 2 1 0
          fun r ↦ .values (slotMpi2 6) env (sendBuffer r)) s →
        IsendWorks cfg (slotMpi2 6) env .strict tstMpiIntraComm 2 1
          (fun r ↦ .values (slotMpi2 6) env (sendBuffer r)) s) ↔
      ArrayFits (slotMpi2 6) 3 ∧ tstMpiIntraComm &&& tstMpiCommSelf ≠ 0 :=
  isend_ring_works_iff ⟨2, true, true, true, true, true, true, true, true⟩ (slotMpi2 6)
    (by decide +kernel) (by decide +kernel) ⟨105, 0, 6, 3, 0⟩ .strict _ rfl rfl tstMpiIntraComm
    (by decide) 2 (by decide) 1 (by decide)

/-- Two ranks with one worker each raise a false alarm: the master has received nothing. -/
theorem isend_ring_alarms : ¬∀ (commClass : Flags),
    commClass &&& (tstMpiCommSelf ||| tstMpiIntraComm) ≠ 0 → ∀ p : ℕ, 1 ≤ p → ∀ n : ℕ, 1 ≤ n →
    ∀ sendBuffer : ℕ → Memory,
      (∀ r < p, P2P.sendArray ⟨2, true, true, true, true, true, true, true, true⟩
        (slotMpi2 6) ⟨105, 0, 6, 3, 0⟩ r
          = some (.values (slotMpi2 6) ⟨105, 0, 6, 3, 0⟩ (sendBuffer r))) →
      ∀ s, Reachable (isendProgram commClass p n 0
          fun r ↦ .values (slotMpi2 6) ⟨105, 0, 6, 3, 0⟩ (sendBuffer r)) s →
        IsendWorks ⟨2, true, true, true, true, true, true, true, true⟩ (slotMpi2 6)
          ⟨105, 0, 6, 3, 0⟩ .strict commClass p n
          (fun r ↦ .values (slotMpi2 6) ⟨105, 0, 6, 3, 0⟩ (sendBuffer r)) s := by
  intro h
  have hmem : slotMpi2 6 ∈ initTypes ⟨2, true, true, true, true, true, true, true, true⟩ := by
    decide +kernel
  have hfits : ArrayFits (slotMpi2 6) (⟨105, 0, 6, 3, 0⟩ : Env).valuesNum := by decide +kernel
  obtain ⟨sendBuffer, -, hsend⟩ :=
    P2P.exists_sendArrays hmem (by decide +kernel) hfits fun r : ℕ ↦ (r : ℤ)
  obtain ⟨s, hreach, hnot⟩ := exists_not_isendWorks
    (show tstMpiIntraComm &&& tstMpiCommSelf = 0 by decide) (by decide) Nat.two_pos Nat.one_pos
  exact hnot (h tstMpiIntraComm (by decide) 2 (by decide) 1 (by decide) sendBuffer
    (fun r _ ↦ hsend r) s hreach)

end Threaded

end MpiTestSuite
