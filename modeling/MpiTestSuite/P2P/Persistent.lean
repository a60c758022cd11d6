import MpiTestSuite.P2P.Messages

/-!
# Persistent requests

In `"Alltoall Persistent"` every rank sends its array to all others, with requests that are made
once, then started and completed, and freed at the end. Three functions go through the same array of
requests. The first makes a request wherever its loops come by; it counts them, and keeps no record
of which is which. The second completes all of them and goes through the same loops again to find
out whose status it is looking at. The third frees as many as there ought to be.

The sends of a rank stand together, between the receives from the ranks before it and from those
behind it (`slotRequests_eq`). An access to a place that an array does not have, or where nothing
has been stored yet, is a stop; so is an operation on a handle that is not in the state for it.
-/

open MpiTestSuite.Runs

namespace MpiTestSuite

namespace P2P

/-! ## Requests and statuses -/

/-- What a persistent request has been made for. -/
inductive PersistentRequest
  /-- `MPI_Send_init` -/
  | send (dest : ℕ)
  /-- `MPI_Recv_init`, with the index of the buffer -/
  | recv (source buffer : ℕ)
  deriving DecidableEq, Repr

/-- What an `MPI_Request` holds. -/
inductive Handle
  /-- Nothing has been stored. -/
  | garbage
  /-- `MPI_REQUEST_NULL` -/
  | null
  | inactive (q : PersistentRequest)
  /-- The request has been started. -/
  | active (q : PersistentRequest)
  deriving DecidableEq, Repr

/-- The arrays of a rank. -/
structure PersistentArrays where
  sendBuffer : Memory
  recvBufferArray : List Memory
  /-- A status that has not been filled is `none`. -/
  statusBuffer : List (Option Completion)
  reqBuffer : List Handle

/-- What has been requested in a slot, if it holds a request that is not started. -/
def requestAt (reqBuffer : List Handle) (i : ℕ) : Option PersistentRequest :=
  match reqBuffer[i]? with
  | some (.inactive q) => some q
  | _ => none

def writePlace {α : Type} (list : List α) (i : ℕ) (a : α) : Except Stop (List α) :=
  if i < list.length then .ok (list.set i a) else .error .outOfBounds

def readPlace {α : Type} (list : List α) (i : ℕ) : Except Stop α :=
  match list[i]? with
  | some a => .ok a
  | none => .error .outOfBounds

section

variable {α : Type} {list : List α} {i : ℕ} {a : α}

theorem writePlace_append (list list' : List α) (a b : α) :
    writePlace (list ++ b :: list') list.length a = .ok (list ++ a :: list') := by
  rw [writePlace, if_pos (by simp), List.set_append_right _ _ le_rfl, Nat.sub_self,
    List.set_cons_zero]

theorem writePlace_of_lt (h : i < list.length) : writePlace list i a = .ok (list.set i a) :=
  if_pos h

theorem readPlace_eq (h : list[i]? = some a) : readPlace list i = .ok a := by
  rw [readPlace, h]

end

/-! ## The functions -/

/-- `MPI_Send_init` or `MPI_Recv_init`, and what follows it. -/
def createRequest (env : Env) (q : PersistentRequest) (message : String) (s : List Handle × ℕ) :
    Except Stop (List Handle × ℕ) := do
  let _ ← countOrStop env
  let reqBuffer ← writePlace s.1 s.2 (.inactive q)
  if (← readPlace reqBuffer s.2) = .null then .error (.error message)
  else return (reqBuffer, s.2 + 1)

/-- What `tst_p2p_alltoall_persistent_init` does for a rank, with `req_buffer` and `current_req`. -/
def persistentInitRank (env : Env) (commSize commRank : ℕ) (recvBufferArray : List Memory)
    (s : List Handle × ℕ) (rank : ℕ) : Except Stop (List Handle × ℕ) := do
  let reqBuffer ← writePlace s.1 s.2 .null
  if rank = commRank then
    (List.range commSize).foldlM (fun s i ↦ if i = commRank then .ok s else
      createRequest env (.send i) "Error in request after MPI_Send_init" s) (reqBuffer, s.2)
  else
    let _ ← readPlace recvBufferArray rank
    createRequest env (.recv rank rank) "Error in request after MPI_Recv_init" (reqBuffer, s.2)

section

variable (cfg : Config) (t : TypeSlot) (env : Env) (mode : TstMode) (commSize commRank : ℕ)

/-- `tst_p2p_alltoall_persistent_init` -/
def tstP2pAlltoallPersistentInit : Except Stop PersistentArrays := do
  let allocated ← allocOrStop t env.valuesNum
  let sendBuffer ← orStop
    (tstTypeSetstandardarray cfg t env.valuesNum.toNat allocated commRank)
  let statusBuffer := List.replicate (2 * (commSize - 1)) none
  let recvBufferArray ← (List.range commSize).mapM fun _ ↦ allocOrStop t env.valuesNum
  let s ← (List.range commSize).foldlM (persistentInitRank env commSize commRank recvBufferArray)
    (List.replicate (2 * commSize) .garbage, 0)
  return ⟨sendBuffer, recvBufferArray, statusBuffer, s.1⟩

/-- `MPI_Startall`, for one of its requests. -/
def startRequest (reqBuffer : List Handle) (i : ℕ) : Except Stop (List Handle) := do
  match ← readPlace reqBuffer i with
  | .inactive q => writePlace reqBuffer i (.active q)
  | _ => .error .outOfBounds

/-- `MPI_Waitall`, for one of its requests. A receive stores what arrives in its buffer. -/
def waitRequest (completion : ℕ → Completion) (e : PersistentArrays) (i : ℕ) :
    Except Stop PersistentArrays := do
  match ← readPlace e.reqBuffer i with
  | .active q =>
    let reqBuffer ← writePlace e.reqBuffer i (.inactive q)
    let statusBuffer ← writePlace e.statusBuffer i (some (completion i))
    match q with
    | .send _ => return { e with reqBuffer, statusBuffer }
    | .recv _ buffer =>
      let packet := (completion i).arrival.packet
      let old ← readPlace e.recvBufferArray buffer
      let recvBufferArray ← writePlace e.recvBufferArray buffer
        (transferred t.datatype.typemap packet.count.toNat packet.stride packet.buffer old)
      return { e with reqBuffer, statusBuffer, recvBufferArray }
  | _ => .error .outOfBounds

/-- `&env->status_buffer[i]`, for a function that looks at what is there. -/
def readStatus (statusBuffer : List (Option Completion)) (i : ℕ) : Except Stop Completion := do
  match ← readPlace statusBuffer i with
  | some x => return x
  | none => .error .outOfBounds

/-- What `tst_p2p_alltoall_persistent_run` checks for a rank, with `current_req` and the failures
recorded so far. -/
def persistentRunRank (e : PersistentArrays) (s : ℕ × List Env) (rank : ℕ) :
    Except Stop (ℕ × List Env) := do
  if rank = commRank then
    (List.range commSize).foldlM (fun s i ↦ if i = commRank then .ok s else do
      let status ← readStatus e.statusBuffer s.1
      if status.cancelled then .error (.error "Error in communication")
      else return (s.1 + 1, s.2)) s
  else
    let status ← readStatus e.statusBuffer s.1
    if status.cancelled then .error (.error "Error in communication")
    else if status.arrival.source ≠ rank ∨ status.arrival.tag ≠ env.tag then
      .error (.error "Error in status")
    else if status.arrival.wrongCount env mode then .error (.error "Error in count")
    else
      let buffer ← readPlace e.recvBufferArray rank
      let calls ← orStop (tstTestCheckstandardarray cfg t env buffer rank)
      return (s.1 + 1, s.2 ++ calls)

/-- `tst_p2p_alltoall_persistent_run`: the arrays when it returns, and the failures that have been
recorded. -/
def tstP2pAlltoallPersistentRun (completion : ℕ → Completion) (e : PersistentArrays) :
    Except Stop (PersistentArrays × List Env) := do
  let reqBuffer ← (List.range (2 * (commSize - 1))).foldlM startRequest e.reqBuffer
  let e ← (List.range (2 * (commSize - 1))).foldlM (waitRequest t completion) { e with reqBuffer }
  let s ← (List.range commSize).foldlM (persistentRunRank cfg t env mode commSize commRank e)
    (0, [])
  return (e, s.2)

/-- `MPI_Request_free`, and what follows it. -/
def freeRequest (reqBuffer : List Handle) (i : ℕ) : Except Stop (List Handle) := do
  match ← readPlace reqBuffer i with
  | .inactive _ =>
    let reqBuffer ← writePlace reqBuffer i .null
    if (← readPlace reqBuffer i) ≠ .null then .error (.error "Request != MPI_REQUEST_NULL")
    else return reqBuffer
  | _ => .error .outOfBounds

/-- `tst_p2p_alltoall_persistent_cleanup`: what is left in `req_buffer` when it is freed itself. -/
def tstP2pAlltoallPersistentCleanup (e : PersistentArrays) : Except Stop (List Handle) := do
  let reqBuffer ← (List.range (2 * (commSize - 1))).foldlM freeRequest e.reqBuffer
  forM (List.range commSize) fun i ↦ do
    let _ ← readPlace e.recvBufferArray i
  return reqBuffer

end

/-! ## The order of the requests -/

/-- What is requested where a loop comes by a rank. -/
def rankRequests (p r rank : ℕ) : List PersistentRequest :=
  if rank = r then (others p r).map .send else [.recv rank rank]

/-- The requests of a rank, in the order of the slots. -/
def slotRequests (p r : ℕ) : List PersistentRequest := (List.range p).flatMap (rankRequests p r)

section

variable {p r : ℕ}

theorem rankRequests_self (p r : ℕ) : rankRequests p r r = (others p r).map .send := if_pos rfl

theorem rankRequests_of_ne {rank : ℕ} (h : rank ≠ r) :
    rankRequests p r rank = [.recv rank rank] := if_neg h

theorem flatMap_rankRequests {ranks : List ℕ} (h : r ∉ ranks) :
    ranks.flatMap (rankRequests p r) = ranks.map fun rank ↦ .recv rank rank := by
  rw [List.map_eq_flatMap]
  refine List.flatMap_congr fun rank hrank ↦ rankRequests_of_ne ?_
  rintro rfl
  exact h hrank

/-- The receives from the ranks before, the sends, and the receives from the ranks behind. -/
theorem slotRequests_eq (hr : r < p) : slotRequests p r
    = (List.range r).map (fun rank ↦ .recv rank rank) ++ (others p r).map .send
      ++ (List.range' (r + 1) (p - (r + 1))).map fun rank ↦ .recv rank rank := by
  have hrange : List.range p = List.range r ++ r :: List.range' (r + 1) (p - (r + 1)) := by
    rw [← List.range'_succ, List.range_eq_range', List.range_eq_range']
    have happend : List.range' 0 r ++ List.range' (0 + r) (p - (r + 1) + 1)
        = List.range' 0 (r + (p - (r + 1) + 1)) := List.range'_append_1
    rw [Nat.zero_add] at happend
    rw [happend]
    congr 1
    omega
  have hbefore : r ∉ List.range r := by simp
  have hbehind : r ∉ List.range' (r + 1) (p - (r + 1)) := by
    rw [List.mem_range'_1]
    omega
  rw [slotRequests, hrange, List.flatMap_append, List.flatMap_cons, rankRequests_self,
    flatMap_rankRequests hbefore, flatMap_rankRequests hbehind, List.append_assoc]

theorem length_slotRequests (hr : r < p) : (slotRequests p r).length = 2 * (p - 1) := by
  rw [slotRequests_eq hr]
  simp only [List.length_append, List.length_map, List.length_range, List.length_range',
    length_others hr]
  omega

theorem mem_slotRequests {q : PersistentRequest} (hr : r < p) : q ∈ slotRequests p r ↔
    ∃ rank ∈ others p r, q = .send rank ∨ q = .recv rank rank := by
  rw [slotRequests, List.mem_flatMap]
  constructor
  · rintro ⟨rank, hrank, hq⟩
    rw [List.mem_range] at hrank
    by_cases h : rank = r
    · rw [h, rankRequests_self, List.mem_map] at hq
      obtain ⟨dest, hdest, rfl⟩ := hq
      exact ⟨dest, hdest, .inl rfl⟩
    · rw [rankRequests_of_ne h, List.mem_singleton] at hq
      exact ⟨rank, mem_others.mpr ⟨hrank, h⟩, .inr hq⟩
  · rintro ⟨rank, hrank, rfl | rfl⟩
    · refine ⟨r, List.mem_range.mpr hr, ?_⟩
      rw [rankRequests_self]
      exact List.mem_map_of_mem hrank
    · obtain ⟨hlt, hne⟩ := mem_others.mp hrank
      refine ⟨rank, List.mem_range.mpr hlt, ?_⟩
      rw [rankRequests_of_ne hne]
      exact List.mem_singleton_self _

/-- No two slots are for the same thing. -/
theorem nodup_slotRequests (p r : ℕ) : (slotRequests p r).Nodup := by
  have hsend : Function.Injective PersistentRequest.send := fun _ _ h ↦ by injection h
  refine List.nodup_flatMap.mpr ⟨fun rank _ ↦ ?_, ?_⟩
  · by_cases h : rank = r
    · rw [h, rankRequests_self]
      exact (List.nodup_range.filter _).map hsend
    · rw [rankRequests_of_ne h]
      exact List.nodup_singleton _
  · refine List.nodup_range.imp fun {a b} hab q ha hb ↦ ?_
    by_cases har : a = r
    · rw [har, rankRequests_self, List.mem_map] at ha
      rw [rankRequests_of_ne (har ▸ hab.symm), List.mem_singleton] at hb
      obtain ⟨dest, -, rfl⟩ := ha
      cases hb
    · rw [rankRequests_of_ne har, List.mem_singleton] at ha
      by_cases hbr : b = r
      · rw [hbr, rankRequests_self, ha, List.mem_map] at hb
        obtain ⟨dest, -, hdest⟩ := hb
        cases hdest
      · rw [rankRequests_of_ne hbr, List.mem_singleton, ha] at hb
        exact hab (PersistentRequest.recv.inj hb).1

end

/-! ## What is made -/

/-- The first places of the array are taken by the requests, and there are none behind. -/
structure Filled (capacity : ℕ) (qs : List PersistentRequest) (s : List Handle × ℕ) : Prop where
  current : s.2 = qs.length
  length : s.1.length = capacity
  slots : ∃ rest, s.1 = qs.map .inactive ++ rest ∧ ∀ h ∈ rest, h = .garbage ∨ h = .null

section

variable {capacity : ℕ} {qs : List PersistentRequest} {s : List Handle × ℕ}

/-- There is a place behind, and what is stored there is stored behind the requests. -/
theorem Filled.write (h : Filled capacity qs s) (hlt : qs.length < capacity) (a : Handle) :
    ∃ rest, writePlace s.1 s.2 a = .ok (qs.map .inactive ++ a :: rest) ∧
      (qs.map Handle.inactive ++ a :: rest).length = capacity ∧
      ∀ h ∈ rest, h = .garbage ∨ h = .null := by
  obtain ⟨hcurrent, hlength, rest, hslots, hrest⟩ := h
  rw [hslots, List.length_append, List.length_map] at hlength
  cases rest with
  | nil =>
    rw [List.length_nil] at hlength
    omega
  | cons b rest =>
    refine ⟨rest, ?_, ?_, fun h hh ↦ hrest h (List.mem_cons_of_mem b hh)⟩
    · have hplace : s.2 = (qs.map Handle.inactive).length := by rw [hcurrent, List.length_map]
      rw [hslots, hplace, writePlace_append]
    · simp only [List.length_append, List.length_map, List.length_cons] at hlength ⊢
      omega

theorem Filled.writeNull (h : Filled capacity qs s) (hlt : qs.length < capacity) :
    ∃ reqBuffer, writePlace s.1 s.2 .null = .ok reqBuffer ∧
      Filled capacity qs (reqBuffer, s.2) := by
  obtain ⟨rest, hwrite, hlength, hrest⟩ := h.write hlt .null
  refine ⟨_, hwrite, h.current, hlength, _, rfl, fun a ha ↦ ?_⟩
  rcases List.mem_cons.mp ha with rfl | ha
  · exact .inr rfl
  · exact hrest a ha

theorem Filled.createRequest (h : Filled capacity qs s) (hlt : qs.length < capacity) {env : Env}
    (hcount : 0 ≤ env.valuesNum) (q : PersistentRequest) (message : String) :
    ∃ s', createRequest env q message s = .ok s' ∧ Filled capacity (qs ++ [q]) s' := by
  obtain ⟨rest, hwrite, hlength, hrest⟩ := h.write hlt (.inactive q)
  have hread : readPlace (qs.map .inactive ++ .inactive q :: rest) s.2 = .ok (.inactive q) := by
    refine readPlace_eq ?_
    rw [h.current, List.getElem?_append_right (by simp), List.length_map, Nat.sub_self]
    rfl
  refine ⟨(qs.map .inactive ++ .inactive q :: rest, s.2 + 1), ?_, ⟨?_, hlength, rest, ?_, hrest⟩⟩
  · have hok : countOrStop env = .ok env.valuesNum.toNat :=
      countOrStop_eq_ok_iff.mpr (Int.toNat_of_nonneg hcount).symm
    rw [P2P.createRequest, hok, ok_bind, hwrite, ok_bind, hread, ok_bind, if_neg Handle.noConfusion]
    rfl
  · rw [h.current, List.length_append, List.length_singleton]
  · rw [List.map_append, List.append_assoc]
    rfl

end

section

variable {env : Env} {p r : ℕ} {recvBufferArray : List Memory}

/-- A loop has come by some of the ranks, and now it comes by another one. -/
theorem length_flatMap_rankRequests (hr : r < p) {done rest : List ℕ} {rank : ℕ}
    (h : done ++ rank :: rest = List.range p) :
    (done.flatMap (rankRequests p r)).length + (rankRequests p r rank).length ≤ 2 * (p - 1) := by
  rw [← length_slotRequests hr, slotRequests, ← h, List.flatMap_append, List.flatMap_cons,
    List.length_append, List.length_append]
  omega

/-- A loop with a `continue` for one rank. -/
theorem filter_ne_eq_others (p r : ℕ) :
    ((List.range p).filter fun i ↦ ¬i = r) = others p r :=
  List.filter_congr fun i _ ↦ by rw [bne, Bool.beq_eq_decide_eq, decide_not]

theorem filled_initRank (hr : r < p) (hcount : 1 < p → 0 ≤ env.valuesNum)
    (hbuffers : recvBufferArray.length = p) {done rest : List ℕ} {rank : ℕ}
    (h : done ++ rank :: rest = List.range p) {s : List Handle × ℕ}
    (hs : Filled (2 * p) (done.flatMap (rankRequests p r)) s) :
    ∃ s', persistentInitRank env p r recvBufferArray s rank = .ok s' ∧
      Filled (2 * p) ((done ++ [rank]).flatMap (rankRequests p r)) s' := by
  have hlength := length_flatMap_rankRequests hr h
  obtain ⟨reqBuffer, hnull, hfilled⟩ := hs.writeNull (by omega)
  have hrank : rank < p := List.mem_range.mp (h ▸ List.mem_append_cons_self)
  rw [List.flatMap_append, List.flatMap_singleton, persistentInitRank, hnull, ok_bind]
  split_ifs with heq
  · -- the requests of the sends are made one after the other
    subst heq
    rw [rankRequests_self, List.length_map] at hlength
    rw [foldlM_ite, rankRequests_self]
    rw [filter_ne_eq_others]
    refine exists_foldlM_ok
      (I := fun done' s ↦ Filled (2 * p) (done.flatMap (rankRequests p rank) ++ done'.map .send) s)
      ?_ fun done' i rest' h' s' hs' ↦ ?_
    · rwa [List.map_nil, List.append_nil]
    · rw [List.map_append, ← List.append_assoc]
      have hlt : done'.length < (others p rank).length := by
        rw [← h', List.length_append, List.length_cons]
        omega
      have hothers := length_others hr
      refine hs'.createRequest ?_ (hcount (by omega)) (.send i) _
      rw [List.length_append, List.length_map]
      omega
  · rw [rankRequests_of_ne heq, List.length_singleton] at hlength
    have hbuffer : rank < recvBufferArray.length := by rwa [hbuffers]
    rw [readPlace_eq (List.getElem?_eq_getElem hbuffer), ok_bind, rankRequests_of_ne heq]
    exact hfilled.createRequest (by omega) (hcount (by omega)) _ _

/-- All requests are made. -/
theorem filled_init (hr : r < p) (hcount : 1 < p → 0 ≤ env.valuesNum)
    (hbuffers : recvBufferArray.length = p) :
    ∃ s, (List.range p).foldlM (persistentInitRank env p r recvBufferArray)
        (List.replicate (2 * p) .garbage, 0) = .ok s ∧ Filled (2 * p) (slotRequests p r) s := by
  refine exists_foldlM_ok (I := fun done ↦ Filled (2 * p) (done.flatMap (rankRequests p r)))
    ⟨rfl, List.length_replicate, _, rfl, fun h hh ↦ .inl (List.eq_of_mem_replicate hh)⟩
    fun done rank rest h s hs ↦ filled_initRank hr hcount hbuffers h hs

end

/-! ## What is started and completed -/

/-- A loop over the first places of the array changes every handle it comes by in the same way. -/
theorem foldlM_places {step : List Handle → ℕ → Except Stop (List Handle)}
    {f g : PersistentRequest → Handle}
    (hstep : ∀ (before : List Handle) (q : PersistentRequest) (behind : List Handle),
      step (before ++ f q :: behind) before.length = .ok (before ++ g q :: behind))
    (qs : List PersistentRequest) (rest : List Handle) :
    (List.range qs.length).foldlM step (qs.map f ++ rest) = .ok (qs.map g ++ rest) := by
  suffices h : ∀ before : List Handle,
      (List.range' before.length qs.length).foldlM step (before ++ (qs.map f ++ rest))
        = .ok (before ++ (qs.map g ++ rest)) by
    rw [List.range_eq_range']
    exact h []
  induction qs with
  | nil => exact fun before ↦ rfl
  | cons q qs ih =>
    intro before
    rw [List.length_cons, List.range'_succ, List.map_cons, List.cons_append,
      foldlM_cons_ok (hstep before q _)]
    have hnext := ih (before ++ [g q])
    rw [List.length_append, List.length_singleton, List.append_assoc, List.append_assoc,
      List.singleton_append] at hnext
    exact hnext

section

variable {before behind : List Handle} {q : PersistentRequest}

theorem readPlace_append (before behind : List Handle) (h : Handle) :
    readPlace (before ++ h :: behind) before.length = .ok h := by
  refine readPlace_eq ?_
  rw [List.getElem?_append_right le_rfl, Nat.sub_self]
  rfl

theorem startRequest_append : startRequest (before ++ .inactive q :: behind) before.length
    = .ok (before ++ .active q :: behind) := by
  rw [startRequest, readPlace_append, ok_bind]
  exact writePlace_append _ _ _ _

theorem freeRequest_append : freeRequest (before ++ .inactive q :: behind) before.length
    = .ok (before ++ .null :: behind) := by
  rw [freeRequest, readPlace_append, ok_bind]
  simp only []
  rw [writePlace_append, ok_bind, readPlace_append, ok_bind, if_neg (not_not_intro rfl)]
  rfl

end

/-- The place of a request is the one where it is found. -/
theorem idxOf_of_getElem? {qs : List PersistentRequest} (h : qs.Nodup) {i : ℕ}
    {q : PersistentRequest} (hq : qs[i]? = some q) : qs.idxOf q = i := by
  obtain ⟨hi, rfl⟩ := List.getElem?_eq_some_iff.mp hq
  exact h.idxOf_getElem i hi

/-- Some of the requests have been completed, with what that leaves in the arrays. -/
structure Waited (t : TypeSlot) (env : Env) (p : ℕ) (completion : ℕ → Completion)
    (qs : List PersistentRequest) (rest : List Handle) (old : Memory) (k : ℕ)
    (e : PersistentArrays) : Prop where
  requests : e.reqBuffer = (qs.take k).map .inactive ++ ((qs.drop k).map .active ++ rest)
  statuses : e.statusBuffer = (List.range k).map (fun i ↦ some (completion i))
    ++ List.replicate (qs.length - k) none
  length : e.recvBufferArray.length = p
  buffers : ∀ b < p, e.recvBufferArray[b]? = some (if qs.idxOf (.recv b b) < k
    then (completion (qs.idxOf (.recv b b))).arrival.buffer t env else old)

section

variable {t : TypeSlot} {env : Env} {p r k : ℕ} {completion : ℕ → Completion}
  {rest : List Handle} {old : Memory} {e : PersistentArrays}

/-- The handle and the status of the next request. -/
theorem Waited.writes (h : Waited t env p completion (slotRequests p r) rest old k e)
    {q : PersistentRequest} (hq : (slotRequests p r)[k]? = some q) :
    readPlace e.reqBuffer k = .ok (.active q) ∧
    writePlace e.reqBuffer k (.inactive q) = .ok (((slotRequests p r).take (k + 1)).map .inactive
      ++ (((slotRequests p r).drop (k + 1)).map .active ++ rest)) ∧
    writePlace e.statusBuffer k (some (completion k))
      = .ok ((List.range (k + 1)).map (fun i ↦ some (completion i))
        ++ List.replicate ((slotRequests p r).length - (k + 1)) none) := by
  obtain ⟨hk, hget⟩ := List.getElem?_eq_some_iff.mp hq
  have hrequests := h.requests
  have htake : (((slotRequests p r).take k).map Handle.inactive).length = k := by
    rw [List.length_map, List.length_take_of_le hk.le]
  rw [List.drop_eq_getElem_cons hk, hget, List.map_cons, List.cons_append] at hrequests
  refine ⟨?_, ?_, ?_⟩
  · have hread := readPlace_append (((slotRequests p r).take k).map .inactive)
      (((slotRequests p r).drop (k + 1)).map .active ++ rest) (.active q)
    rwa [htake, ← hrequests] at hread
  · have hwrite := writePlace_append (((slotRequests p r).take k).map .inactive)
      (((slotRequests p r).drop (k + 1)).map .active ++ rest) (.inactive q) (.active q)
    rw [htake, ← hrequests] at hwrite
    rw [hwrite, List.take_succ_eq_append_getElem hk, hget, List.map_append, List.append_assoc]
    rfl
  · have hwrite := writePlace_append ((List.range k).map fun i ↦ some (completion i))
      (List.replicate ((slotRequests p r).length - (k + 1)) none) (some (completion k)) none
    rw [← List.replicate_succ, List.length_map, List.length_range,
      show (slotRequests p r).length - (k + 1) + 1 = (slotRequests p r).length - k by omega,
      ← h.statuses] at hwrite
    rw [hwrite, List.range_succ, List.map_append, List.append_assoc]
    rfl

/-- A send is completed. -/
theorem waitRequest_send {dest : ℕ} {reqBuffer : List Handle}
    {statusBuffer : List (Option Completion)}
    (hread : readPlace e.reqBuffer k = .ok (.active (.send dest)))
    (hrequest : writePlace e.reqBuffer k (.inactive (.send dest)) = .ok reqBuffer)
    (hstatus : writePlace e.statusBuffer k (some (completion k)) = .ok statusBuffer) :
    waitRequest t completion e k = .ok { e with reqBuffer, statusBuffer } := by
  simp only [waitRequest, hread, ok_bind, hrequest, hstatus]
  rfl

/-- A receive is completed. -/
theorem waitRequest_recv {source buffer : ℕ} {reqBuffer : List Handle}
    {statusBuffer : List (Option Completion)}
    (hread : readPlace e.reqBuffer k = .ok (.active (.recv source buffer)))
    (hrequest : writePlace e.reqBuffer k (.inactive (.recv source buffer)) = .ok reqBuffer)
    (hstatus : writePlace e.statusBuffer k (some (completion k)) = .ok statusBuffer)
    (hold : e.recvBufferArray[buffer]? = some (freshValues t env.valuesNum.toNat)) :
    waitRequest t completion e k = .ok { e with
      reqBuffer
      statusBuffer
      recvBufferArray := e.recvBufferArray.set buffer ((completion k).arrival.buffer t env) } := by
  obtain ⟨hlt, -⟩ := List.getElem?_eq_some_iff.mp hold
  simp only [waitRequest, hread, ok_bind, hrequest, hstatus, readPlace_eq hold,
    writePlace_of_lt hlt]
  rfl

theorem Waited.step (hr : r < p) (hold : 1 < p → old = freshValues t env.valuesNum.toNat)
    (h : Waited t env p completion (slotRequests p r) rest old k e)
    (hk : k < 2 * (p - 1)) : ∃ e', waitRequest t completion e k = .ok e' ∧
      Waited t env p completion (slotRequests p r) rest old (k + 1) e' := by
  have hslots : k < (slotRequests p r).length := by rwa [length_slotRequests hr]
  have hq := List.getElem?_eq_getElem hslots
  obtain ⟨rank, hrank, hcase⟩ := (mem_slotRequests hr).mp (List.mem_of_getElem? hq)
  obtain ⟨hread, hrequest, hstatus⟩ := h.writes hq
  -- where a receive is found, this one and no other
  have hplace : ∀ b, (slotRequests p r).idxOf (.recv b b) = k →
      (slotRequests p r)[k] = .recv b b := by
    intro b hidx
    have hmem := List.getElem_idxOf (hidx ▸ hslots)
    rwa [getElem_congr_idx hidx] at hmem
  rcases hcase with hsend | hrecv
  · rw [hsend] at hread hrequest
    refine ⟨_, waitRequest_send hread hrequest hstatus, rfl, rfl, h.length, fun b hb ↦ ?_⟩
    have hne : (slotRequests p r).idxOf (.recv b b) ≠ k := fun hidx ↦ by
      cases hsend.symm.trans (hplace b hidx)
    rw [h.buffers b hb]
    exact congrArg some (if_congr (by omega) rfl rfl)
  · have hidx : (slotRequests p r).idxOf (.recv rank rank) = k :=
      idxOf_of_getElem? (nodup_slotRequests p r) (hrecv ▸ hq)
    rw [hrecv] at hread hrequest
    have hlt := (mem_others.mp hrank).1
    have hbuffer := h.buffers rank hlt
    rw [hidx, if_neg (lt_irrefl k), hold (by omega)] at hbuffer
    refine ⟨_, waitRequest_recv hread hrequest hstatus hbuffer, rfl, rfl, ?_, fun b hb ↦ ?_⟩
    · rw [List.length_set, h.length]
    · by_cases hb' : rank = b
      · rw [← hb', List.getElem?_set_self (h.length.symm ▸ hlt), hidx, if_pos (Nat.lt_succ_self k)]
      · have hne : (slotRequests p r).idxOf (.recv b b) ≠ k := fun hidx ↦
          hb' (PersistentRequest.recv.inj (hrecv.symm.trans (hplace b hidx))).1
        rw [List.getElem?_set_ne hb', h.buffers b hb]
        exact congrArg some (if_congr (by omega) rfl rfl)

end

/-- All requests are completed. -/
theorem waited_run {t : TypeSlot} {env : Env} {p r : ℕ} (hr : r < p) (completion : ℕ → Completion)
    {rest : List Handle} {old : Memory} {e : PersistentArrays}
    (hold : 1 < p → old = freshValues t env.valuesNum.toNat)
    (h : Waited t env p completion (slotRequests p r) rest old 0 e) :
    ∃ e', (List.range (2 * (p - 1))).foldlM (waitRequest t completion) e = .ok e' ∧
      Waited t env p completion (slotRequests p r) rest old (2 * (p - 1)) e' := by
  obtain ⟨e', hrun, he'⟩ := exists_foldlM_ok (f := waitRequest t completion) (s := e)
    (I := fun done ↦ Waited t env p completion (slotRequests p r) rest old done.length) h
    fun done k rest' (hrange : done ++ k :: rest' = List.range (2 * (p - 1))) e he ↦ by
      have hget : (List.range (2 * (p - 1)))[done.length]? = some k := by
        rw [← hrange, List.getElem?_append_right le_rfl, Nat.sub_self]
        rfl
      obtain ⟨hlt, hk⟩ := List.getElem?_eq_some_iff.mp hget
      rw [List.getElem_range] at hk
      rw [List.length_range] at hlt
      rw [List.length_append, List.length_singleton, ← hk]
      exact he.step hr hold hlt
  rw [List.length_range] at he'
  exact ⟨e', hrun, he'⟩

/-! ## What is checked -/

section

variable {qs : List PersistentRequest} {rest : List Handle} {i : ℕ}

theorem requestAt_of_lt (rest : List Handle) {q : PersistentRequest} (hq : qs[i]? = some q) :
    requestAt (qs.map .inactive ++ rest) i = some q := by
  obtain ⟨hi, -⟩ := List.getElem?_eq_some_iff.mp hq
  rw [requestAt, List.getElem?_append_left (by rwa [List.length_map]), List.getElem?_map, hq]
  rfl

/-- There are requests where there should be, and nowhere else. -/
theorem requestAt_eq (hrest : ∀ h ∈ rest, h = .garbage ∨ h = .null) (i : ℕ) :
    requestAt (qs.map .inactive ++ rest) i = qs[i]? := by
  cases hq : qs[i]? with
  | some q => exact requestAt_of_lt rest hq
  | none =>
    have hlength : (qs.map Handle.inactive).length ≤ i := by
      rw [List.length_map]
      exact List.getElem?_eq_none_iff.mp hq
    rw [requestAt, List.getElem?_append_right hlength]
    cases hbehind : rest[i - (qs.map Handle.inactive).length]? with
    | none => rfl
    | some h =>
      rcases hrest h (List.mem_of_getElem? hbehind) with rfl | rfl
      · rfl
      · rfl

end

section

variable (cfg : Config) (t : TypeSlot) (env : Env) (mode : TstMode)

/-- What is to be checked of a completed request. -/
def checkRequest (q : PersistentRequest) (x : Completion) : Except Stop (List Env) :=
  if x.cancelled then .error (.error "Error in communication")
  else match q with
    | .send _ => .ok []
    | .recv source _ =>
      if x.arrival.source ≠ source ∨ x.arrival.tag ≠ env.tag then
        .error (.error "Error in status")
      else x.arrival.check cfg t env mode "Error in count" source

/-- The same for what has been requested in a slot. -/
def checkPlace (reqBuffer : List Handle) (completion : ℕ → Completion) (i : ℕ) :
    Except Stop (List Env) :=
  match requestAt reqBuffer i with
  | some q => checkRequest cfg t env mode q (completion i)
  | none => .error .outOfBounds

end

section

variable {cfg : Config} {t : TypeSlot} {env : Env} {mode : TstMode} {p r : ℕ}
  {completion : ℕ → Completion} {rest : List Handle} {old : Memory} {e : PersistentArrays}

theorem checkPlace_eq {i : ℕ} {q : PersistentRequest} (hq : (slotRequests p r)[i]? = some q) :
    checkPlace cfg t env mode ((slotRequests p r).map .inactive ++ rest) completion i
      = checkRequest cfg t env mode q (completion i) := by
  rw [checkPlace, requestAt_of_lt _ hq]

theorem readStatus_eq (hr : r < p)
    (h : Waited t env p completion (slotRequests p r) rest old (2 * (p - 1)) e) {i : ℕ}
    {q : PersistentRequest} (hq : (slotRequests p r)[i]? = some q) :
    readStatus e.statusBuffer i = .ok (completion i) := by
  obtain ⟨hi, -⟩ := List.getElem?_eq_some_iff.mp hq
  rw [length_slotRequests hr] at hi
  have hget : e.statusBuffer[i]? = some (some (completion i)) := by
    rw [h.statuses, List.getElem?_append_left (by rwa [List.length_map, List.length_range]),
      List.getElem?_map, List.getElem?_range hi]
    rfl
  rw [readStatus, readPlace_eq hget, ok_bind]
  rfl

/-- The loop over the sends looks at the slots of the sends. -/
theorem foldlM_sends (hr : r < p)
    (h : Waited t env p completion (slotRequests p r) rest old (2 * (p - 1)) e) :
    ∀ (dests : List ℕ) (c : ℕ) (calls : List Env),
      (∀ i (hi : i < dests.length), (slotRequests p r)[c + i]? = some (.send dests[i])) →
      dests.foldlM (fun (s : ℕ × List Env) _ ↦ do
          let status ← readStatus e.statusBuffer s.1
          if status.cancelled then .error (.error "Error in communication")
          else return (s.1 + 1, s.2)) (c, calls)
        = (do
          let new ← judgeAll (List.range' c dests.length)
            (checkPlace cfg t env mode ((slotRequests p r).map .inactive ++ rest) completion)
          return (c + dests.length, calls ++ new))
  | [], c, calls, _ => by
    show Except.ok (c, calls) = Except.ok (c + 0, calls ++ [])
    rw [Nat.add_zero, List.append_nil]
  | dest :: dests, c, calls, hslots => by
    have hq := hslots 0 (Nat.succ_pos _)
    rw [Nat.add_zero] at hq
    rw [List.length_cons, List.range'_succ, judgeAll_cons, checkPlace_eq hq, List.foldlM_cons,
      readStatus_eq hr h hq, ok_bind, checkRequest]
    split_ifs with hcancelled
    · rfl
    · have hrest := foldlM_sends hr h dests (c + 1) calls fun i hi ↦ by
        rw [Nat.add_assoc, Nat.add_comm 1]
        exact hslots (i + 1) (Nat.succ_lt_succ hi)
      rw [ok_bind, bind_assoc]
      refine hrest.trans ?_
      rw [Nat.add_assoc, Nat.add_comm 1]
      exact bind_congr fun new ↦ rfl

/-- Where a loop comes by a rank, the slots are those of the rank. -/
theorem getElem?_slotRequests {done ranks : List ℕ} {rank : ℕ}
    (hranks : done ++ rank :: ranks = List.range p) {i : ℕ}
    (hi : i < (rankRequests p r rank).length) :
    (slotRequests p r)[(done.flatMap (rankRequests p r)).length + i]?
      = (rankRequests p r rank)[i]? := by
  rw [slotRequests, ← hranks, List.flatMap_append, List.flatMap_cons,
    List.getElem?_append_right (Nat.le_add_right _ _), Nat.add_sub_cancel_left,
    List.getElem?_append_left hi]

/-- What is checked where the loop comes by a rank. -/
theorem runRank_eq (hr : r < p)
    (h : Waited t env p completion (slotRequests p r) rest old (2 * (p - 1)) e)
    {done ranks : List ℕ} {rank : ℕ} (hranks : done ++ rank :: ranks = List.range p)
    (calls : List Env) :
    persistentRunRank cfg t env mode p r e ((done.flatMap (rankRequests p r)).length, calls) rank
      = (do
        let new ← judgeAll (List.range' (done.flatMap (rankRequests p r)).length
            (rankRequests p r rank).length)
          (checkPlace cfg t env mode ((slotRequests p r).map .inactive ++ rest) completion)
        return ((done.flatMap (rankRequests p r)).length + (rankRequests p r rank).length,
          calls ++ new)) := by
  have hslots := fun i ↦ getElem?_slotRequests (r := r) hranks (i := i)
  by_cases heq : rank = r
  · subst heq
    rw [rankRequests_self, List.length_map] at hslots ⊢
    rw [persistentRunRank, if_pos rfl, foldlM_ite, filter_ne_eq_others]
    refine foldlM_sends hr h (others p rank) _ calls fun i hi ↦ ?_
    rw [hslots i hi, List.getElem?_map, List.getElem?_eq_getElem hi]
    rfl
  · rw [rankRequests_of_ne heq] at hslots ⊢
    have hq := hslots 0 Nat.one_pos
    have hrank : rank < p := List.mem_range.mp (hranks ▸ List.mem_append_cons_self)
    have hidx := idxOf_of_getElem? (nodup_slotRequests p r) hq
    have hlt : (done.flatMap (rankRequests p r)).length + 0 < 2 * (p - 1) := by
      rw [← length_slotRequests hr]
      exact (List.getElem?_eq_some_iff.mp hq).1
    have hbuffer := h.buffers rank hrank
    rw [hidx, if_pos hlt] at hbuffer
    rw [Nat.add_zero] at hq hbuffer
    rw [List.length_singleton, List.range'_one, judgeAll_cons, checkPlace_eq hq, persistentRunRank,
      if_neg heq, readStatus_eq hr h hq, ok_bind, checkRequest]
    split_ifs with hcancelled hstatus hcount
    · rfl
    · rfl
    · rw [Arrival.check, Arrival.checkWith, if_pos hcount]
      rfl
    · rw [Arrival.check, Arrival.checkWith, if_neg hcount, readPlace_eq hbuffer, ok_bind]
      cases orStop (tstTestCheckstandardarray cfg t env _ _) with
      | error stop => rfl
      | ok new =>
        rw [ok_bind, ok_bind, judgeAll_nil, ok_bind, List.append_nil]
        rfl

/-- What is checked in the whole loop. -/
theorem runRanks_eq (hr : r < p)
    (h : Waited t env p completion (slotRequests p r) rest old (2 * (p - 1)) e) :
    ∀ (ranks done : List ℕ) (calls : List Env), done ++ ranks = List.range p →
      ranks.foldlM (persistentRunRank cfg t env mode p r e)
          ((done.flatMap (rankRequests p r)).length, calls)
        = (do
          let new ← judgeAll (List.range' (done.flatMap (rankRequests p r)).length
              (ranks.flatMap (rankRequests p r)).length)
            (checkPlace cfg t env mode ((slotRequests p r).map .inactive ++ rest) completion)
          return ((slotRequests p r).length, calls ++ new))
  | [], done, calls, hranks => by
    rw [List.append_nil] at hranks
    rw [hranks]
    show Except.ok ((slotRequests p r).length, calls) = Except.ok (_, calls ++ [])
    rw [List.append_nil]
  | rank :: ranks, done, calls, hranks => by
    have hnext := fun calls ↦ runRanks_eq hr h ranks (done ++ [rank]) calls
      (by rw [List.append_assoc, List.singleton_append, hranks])
    rw [List.flatMap_append, List.flatMap_singleton, List.length_append] at hnext
    rw [List.foldlM_cons, runRank_eq hr h hranks, List.flatMap_cons, List.length_append,
      ← List.range'_append_1, judgeAll_append, bind_assoc, bind_assoc]
    refine bind_congr fun new ↦ ?_
    rw [pure_bind, hnext, bind_assoc]
    refine bind_congr fun new' ↦ ?_
    rw [pure_bind, List.append_assoc]

end

/-! ## The test -/

/-- What the three functions make of each other's arrays. -/
structure PersistentWorks (cfg : Config) (t : TypeSlot) (env : Env) (mode : TstMode) (p r : ℕ)
    (e : PersistentArrays) : Prop where
  array : standardBuffer cfg t env r = some e.sendBuffer
  /-- There are requests in the slots that are started, waited for and freed, and in no others. -/
  slots : ∀ i, (requestAt e.reqBuffer i).isSome ↔ i < 2 * (p - 1)
  /-- To and from every other rank there is one, each with a slot of its own. -/
  peers : ∀ rank ∈ others p r, (∃! i, requestAt e.reqBuffer i = some (.send rank)) ∧
    ∃! i, requestAt e.reqBuffer i = some (.recv rank rank)
  /-- There is nothing else. -/
  nothingElse : ∀ i, ∀ q ∈ requestAt e.reqBuffer i,
    ∃ rank ∈ others p r, q = .send rank ∨ q = .recv rank rank
  /-- Whatever the statuses say, each is checked for the request of its slot. -/
  checked : ∀ completion, ∃ e',
    tstP2pAlltoallPersistentRun cfg t env mode p r completion e
      = (judgeAll (List.range (2 * (p - 1)))
        (checkPlace cfg t env mode e.reqBuffer completion)).map fun calls ↦ (e', calls)
  /-- No index leaves its array. -/
  inBounds : ∀ completion,
    tstP2pAlltoallPersistentRun cfg t env mode p r completion e ≠ .error .outOfBounds
  /-- In the end each slot with a request has been freed, and nothing else has been changed. -/
  freed : ∀ completion e' calls,
    tstP2pAlltoallPersistentRun cfg t env mode p r completion e = .ok (e', calls) →
    e'.reqBuffer = e.reqBuffer ∧
    ∃ reqBuffer, tstP2pAlltoallPersistentCleanup p e' = .ok reqBuffer ∧
      reqBuffer.length = e.reqBuffer.length ∧
      (∀ i, reqBuffer[i]? = if (requestAt e.reqBuffer i).isSome then some .null
        else e.reqBuffer[i]?) ∧
      ∀ h ∈ reqBuffer, h = .garbage ∨ h = .null
  /-- If everybody receives what has been sent, there is no `ERROR` and no failure. -/
  quiet : ∀ (completion : ℕ → Completion) (sendBuffer : ℕ → Memory),
    (∀ rank < p, standardBuffer cfg t env rank = some (sendBuffer rank)) →
    (∀ i, (completion i).cancelled = false) →
    (∀ i source buffer, requestAt e.reqBuffer i = some (.recv source buffer) →
      (completion i).arrival = ⟨source, env.tag, .values t env (sendBuffer source)⟩) →
    ∃ e', tstP2pAlltoallPersistentRun cfg t env mode p r completion e = .ok (e', [])

section

variable {cfg : Config} {t : TypeSlot} {env : Env} {mode : TstMode} {p r : ℕ}

theorem check_ne_outOfBounds (a : Arrival) (message : String) (rank : ℤ) :
    a.check cfg t env mode message rank ≠ .error .outOfBounds := by
  intro h
  rw [Arrival.check, Arrival.checkWith] at h
  split_ifs at h with hcount
  · cases h
  · cases hset : tstTestCheckstandardarray cfg t env (a.buffer t env) rank with
    | none =>
      rw [hset] at h
      cases h
    | some calls =>
      rw [hset] at h
      cases h

theorem checkRequest_ne_outOfBounds (q : PersistentRequest) (x : Completion) :
    checkRequest cfg t env mode q x ≠ .error .outOfBounds := by
  intro h
  unfold checkRequest at h
  split_ifs at h with hcancelled
  · cases h
  · cases q with
    | send dest => cases h
    | recv source buffer =>
      simp only [] at h
      split_ifs at h with hstatus
      · cases h
      · exact check_ne_outOfBounds _ _ _ h

/-- If there is another rank, then there is a request, for which the count is needed. -/
theorem count_of_filled {recvBufferArray : List Memory} {s s' : List Handle × ℕ}
    (h : (List.range p).foldlM (persistentInitRank env p r recvBufferArray) s = .ok s')
    (hp : 1 < p) : 0 ≤ env.valuesNum := by
  obtain ⟨rank, hrank⟩ : ∃ rank, rank ∈ others p r := by
    by_cases hr : r = 0
    · exact ⟨1, mem_others.mpr ⟨hp, by omega⟩⟩
    · exact ⟨0, mem_others.mpr ⟨by omega, Ne.symm hr⟩⟩
  obtain ⟨hlt, hne⟩ := mem_others.mp hrank
  obtain ⟨t, t', hstep⟩ := exists_step_of_foldlM h (List.mem_range.mpr hlt)
  obtain ⟨reqBuffer, -, hstep⟩ := bind_eq_ok_iff.mp hstep
  rw [if_neg hne] at hstep
  obtain ⟨-, -, hstep⟩ := bind_eq_ok_iff.mp hstep
  obtain ⟨count, hcount, -⟩ := bind_eq_ok_iff.mp hstep
  rw [countOrStop_eq_ok_iff.mp hcount]
  exact Int.natCast_nonneg count

/-- What the first function presupposes. -/
theorem fits_of_persistentInit {e : PersistentArrays}
    (h : tstP2pAlltoallPersistentInit cfg t env p r = .ok e) :
    HasBlock t env.valuesNum ∧ (1 < p → 0 ≤ env.valuesNum) := by
  obtain ⟨m, hm, h⟩ := bind_eq_ok_iff.mp h
  obtain ⟨sendBuffer, -, h⟩ := bind_eq_ok_iff.mp h
  obtain ⟨recvBufferArray, -, h⟩ := bind_eq_ok_iff.mp h
  obtain ⟨s, hs, -⟩ := bind_eq_ok_iff.mp h
  exact ⟨hasBlock_of_allocvalues (allocOrStop_eq_ok_iff.mp hm), count_of_filled hs⟩

/-- The receive buffers. -/
theorem mapM_allocOrStop {m : Memory} (hm : tstTypeAllocvalues t env.valuesNum = some m) :
    ∀ ranks : List ℕ, (ranks.mapM fun _ ↦ allocOrStop t env.valuesNum)
      = .ok (ranks.map fun _ ↦ m)
  | [] => rfl
  | rank :: ranks => by
    rw [List.mapM_cons, mapM_allocOrStop hm ranks, allocOrStop_eq_ok_iff.mpr hm]
    rfl

/-- What the first function leaves, as it is and when it has been started. -/
theorem exists_persistentInit (ht : t ∈ initTypes cfg) (hnull : t.datatype ≠ .null)
    (hblock : HasBlock t env.valuesNum) (hcount : 1 < p → 0 ≤ env.valuesNum) (hr : r < p) :
    ∃ e rest old, tstP2pAlltoallPersistentInit cfg t env p r = .ok e ∧
      standardBuffer cfg t env r = some e.sendBuffer ∧
      e.reqBuffer = (slotRequests p r).map .inactive ++ rest ∧
      (∀ h ∈ rest, h = .garbage ∨ h = .null) ∧
      (1 < p → old = freshValues t env.valuesNum.toNat) ∧
      ∀ completion, Waited t env p completion (slotRequests p r) rest old 0
        { e with reqBuffer := (slotRequests p r).map .active ++ rest } := by
  obtain ⟨sendBuffer, hset⟩ := exists_standardBuffer ht hnull hblock r
  obtain ⟨old, hold, harray⟩ := Option.bind_eq_some_iff.mp hset
  let recvBufferArray := (List.range p).map fun _ ↦ old
  have hbuffers : recvBufferArray.length = p := by rw [List.length_map, List.length_range]
  obtain ⟨s, hs, -, -, rest, hslots, hrest⟩ := filled_init hr hcount hbuffers
  refine ⟨⟨sendBuffer, recvBufferArray, List.replicate (2 * (p - 1)) none, s.1⟩, rest, old, ?_,
    hset, hslots, hrest, fun hp ↦ ?_, fun completion ↦ ⟨rfl, ?_, hbuffers, fun b hb ↦ ?_⟩⟩
  · rw [tstP2pAlltoallPersistentInit, mapM_allocOrStop hold, allocOrStop_eq_ok_iff.mpr hold,
      ok_bind, harray, orStop, ok_bind]
    exact bind_eq_ok_iff.mpr ⟨_, rfl, bind_eq_ok_iff.mpr ⟨s, hs, rfl⟩⟩
  · rw [(arrayFits_iff.mpr ⟨hcount hp, hblock⟩).allocvalues_eq] at hold
    exact (Option.some_inj.mp hold).symm
  · rw [length_slotRequests hr]
    rfl
  · rw [if_neg (Nat.not_lt_zero _), List.getElem?_map, List.getElem?_range hb]
    rfl

variable {rest : List Handle} {old : Memory} {e : PersistentArrays}

theorem persistentRun_eq (hr : r < p) (hold : 1 < p → old = freshValues t env.valuesNum.toNat)
    (completion : ℕ → Completion)
    (hslots : e.reqBuffer = (slotRequests p r).map .inactive ++ rest)
    (hstarted : Waited t env p completion (slotRequests p r) rest old 0
      { e with reqBuffer := (slotRequests p r).map .active ++ rest }) :
    ∃ e', e'.reqBuffer = e.reqBuffer ∧ e'.recvBufferArray.length = p ∧
      tstP2pAlltoallPersistentRun cfg t env mode p r completion e
        = (judgeAll (List.range (2 * (p - 1)))
          (checkPlace cfg t env mode e.reqBuffer completion)).map fun calls ↦ (e', calls) := by
  have hlength := length_slotRequests hr
  have hstart := foldlM_places (f := .inactive) (g := .active) (fun _ _ _ ↦ startRequest_append)
    (slotRequests p r) rest
  obtain ⟨e', hwait, he'⟩ := waited_run hr completion hold hstarted
  have hranks := @runRanks_eq cfg t env mode p r completion rest old e' hr he' (List.range p) [] []
    rfl
  refine ⟨e', ?_, he'.length, ?_⟩
  · rw [hslots, he'.requests, ← hlength, List.take_length, List.drop_length]
    rfl
  · have hall : (List.range p).flatMap (rankRequests p r) = slotRequests p r := rfl
    rw [hlength] at hstart
    rw [hall, hlength, ← hslots, List.flatMap_nil, List.length_nil,
      ← List.range_eq_range'] at hranks
    rw [tstP2pAlltoallPersistentRun, hslots, hstart, ok_bind, hwait, ok_bind, hranks, bind_assoc,
      ← hslots]
    cases judgeAll (List.range (2 * (p - 1)))
      (checkPlace cfg t env mode e.reqBuffer completion) with
    | error stop => rfl
    | ok calls => rfl

/-- All requests are freed. -/
theorem persistentCleanup_eq (hr : r < p) (hbuffers : e.recvBufferArray.length = p)
    (hslots : e.reqBuffer = (slotRequests p r).map .inactive ++ rest) :
    tstP2pAlltoallPersistentCleanup p e
      = .ok ((slotRequests p r).map (fun _ ↦ .null) ++ rest) := by
  have hfree := foldlM_places (f := .inactive) (g := fun _ ↦ .null)
    (fun _ _ _ ↦ freeRequest_append) (slotRequests p r) rest
  rw [length_slotRequests hr] at hfree
  have hread : ∀ ranks : List ℕ, (∀ rank ∈ ranks, rank < p) →
      (forM ranks fun i ↦ do
        let _ ← readPlace e.recvBufferArray i
        return ()) = (.ok () : Except Stop Unit) := by
    intro ranks
    induction ranks with
    | nil => exact fun _ ↦ rfl
    | cons rank ranks ih =>
      intro h
      have hlt := h rank List.mem_cons_self
      rw [← hbuffers] at hlt
      rw [List.forM_cons, readPlace_eq (List.getElem?_eq_getElem hlt)]
      exact ih fun b hb ↦ h b (List.mem_cons_of_mem rank hb)
  rw [tstP2pAlltoallPersistentCleanup, hslots, hfree, ok_bind]
  exact congrArg (· >>= _) (hread _ fun rank ↦ List.mem_range.mp)

section

variable {reqBuffer : List Handle} {completion : ℕ → Completion}
  (hat : ∀ i, requestAt reqBuffer i = (slotRequests p r)[i]?)

include hat

theorem judgePlaces_ne_outOfBounds (hr : r < p) : judgeAll (List.range (2 * (p - 1)))
    (checkPlace cfg t env mode reqBuffer completion) ≠ .error .outOfBounds := by
  refine judgeAll_ne_error fun i hi ↦ ?_
  rw [List.mem_range, ← length_slotRequests hr] at hi
  rw [checkPlace, hat, List.getElem?_eq_getElem hi]
  exact checkRequest_ne_outOfBounds _ _

/-- If everybody receives what has been sent, the checks find nothing. -/
theorem judgePlaces_eq_nil (ht : t ∈ initTypes cfg) (hnull : t.datatype ≠ .null)
    (hblock : HasBlock t env.valuesNum) (hcount : 1 < p → 0 ≤ env.valuesNum) (hsize : FitsInt p)
    (hr : r < p) {sendBuffer : ℕ → Memory}
    (hsend : ∀ rank < p, standardBuffer cfg t env rank = some (sendBuffer rank))
    (hcancelled : ∀ i, (completion i).cancelled = false)
    (harrival : ∀ i source buffer, requestAt reqBuffer i = some (.recv source buffer) →
      (completion i).arrival = ⟨source, env.tag, .values t env (sendBuffer source)⟩) :
    judgeAll (List.range (2 * (p - 1))) (checkPlace cfg t env mode reqBuffer completion)
      = .ok [] := by
  refine judgeAll_eq_nil fun i hi ↦ ?_
  rw [List.mem_range, ← length_slotRequests hr] at hi
  have hq := List.getElem?_eq_getElem hi
  obtain ⟨rank, hrank, hcase⟩ := (mem_slotRequests hr).mp (List.mem_of_getElem? hq)
  rw [checkPlace, hat, hq]
  show checkRequest cfg t env mode _ _ = _
  rcases hcase with hcase | hcase
  · rw [hcase, checkRequest, if_neg (by rw [hcancelled]; exact Bool.false_ne_true)]
  · obtain ⟨hrank, hne⟩ := mem_others.mp hrank
    have hfits := arrayFits_iff.mpr ⟨hcount (by omega), hblock⟩
    have hbound := rank_add_values_le hfits.fitsInt hsize hrank
    rw [hcase, checkRequest, if_neg (by rw [hcancelled]; exact Bool.false_ne_true),
      harrival i rank rank (by rw [hat, hq, hcase])]
    simp only []
    rw [if_neg (by simp)]
    exact Arrival.check_eq_nil ht hnull (hsend rank hrank) rfl mode _ (by omega) (by omega)

end

theorem existsUnique_slot {q : PersistentRequest} (hq : q ∈ slotRequests p r) :
    ∃! i : ℕ, (slotRequests p r)[i]? = some q := by
  refine ⟨(slotRequests p r).idxOf q, ?_, fun i hi ↦ ?_⟩
  · exact List.getElem?_eq_some_iff.mpr ⟨List.idxOf_lt_length_of_mem hq, List.getElem_idxOf _⟩
  · exact (idxOf_of_getElem? (nodup_slotRequests p r) hi).symm

/-- The handles when the requests have been freed, place by place. -/
theorem getElem?_freed {qs : List PersistentRequest} (hrest : ∀ h ∈ rest, h = .garbage ∨ h = .null)
    (i : ℕ) : (qs.map (fun _ ↦ Handle.null) ++ rest)[i]?
      = if (requestAt (qs.map .inactive ++ rest) i).isSome then some .null
        else (qs.map .inactive ++ rest)[i]? := by
  rw [requestAt_eq hrest]
  by_cases hi : i < qs.length
  · rw [List.getElem?_append_left (by rwa [List.length_map]), List.getElem?_map,
      List.getElem?_eq_getElem hi, if_pos Option.isSome_some]
    rfl
  · have hnone : qs[i]? = none := List.getElem?_eq_none (not_lt.mp hi)
    rw [hnone, Option.isSome_none, if_neg Bool.false_ne_true,
      List.getElem?_append_right (by rw [List.length_map]; omega),
      List.getElem?_append_right (by rw [List.length_map]; omega), List.length_map,
      List.length_map]

/-- With arrays that the rank can have and send, the functions do what they should. -/
theorem persistentWorks (ht : t ∈ initTypes cfg) (hnull : t.datatype ≠ .null)
    (hblock : HasBlock t env.valuesNum) (hcount : 1 < p → 0 ≤ env.valuesNum) (hsize : FitsInt p)
    (hr : r < p) : ∃ e, tstP2pAlltoallPersistentInit cfg t env p r = .ok e ∧
      PersistentWorks cfg t env mode p r e := by
  obtain ⟨e, rest, old, hinit, hset, hslots, hrest, hold, hstarted⟩ :=
    exists_persistentInit ht hnull hblock hcount hr
  have hat : ∀ i, requestAt e.reqBuffer i = (slotRequests p r)[i]? := by
    intro i
    rw [hslots, requestAt_eq hrest]
  have hlength := length_slotRequests hr
  have hrun := fun completion ↦ @persistentRun_eq cfg t env mode p r rest old e hr hold completion
    hslots (hstarted completion)
  refine ⟨e, hinit, hset, fun i ↦ ?_, fun rank hrank ↦ ?_, fun i q hq ↦ ?_, fun completion ↦ ?_,
    fun completion ↦ ?_, fun completion e' calls hok ↦ ?_,
    fun completion sendBuffer hsend hcancelled harrival ↦ ?_⟩
  · rw [hat, ← hlength, Option.isSome_iff_exists]
    exact ⟨fun ⟨q, hq⟩ ↦ (List.getElem?_eq_some_iff.mp hq).1,
      fun hi ↦ ⟨_, List.getElem?_eq_getElem hi⟩⟩
  · simp only [hat]
    exact ⟨existsUnique_slot ((mem_slotRequests hr).mpr ⟨rank, hrank, .inl rfl⟩),
      existsUnique_slot ((mem_slotRequests hr).mpr ⟨rank, hrank, .inr rfl⟩)⟩
  · rw [hat] at hq
    exact (mem_slotRequests hr).mp (List.mem_of_getElem? hq)
  · obtain ⟨e', -, -, heq⟩ := hrun completion
    exact ⟨e', heq⟩
  · obtain ⟨e', -, -, heq⟩ := hrun completion
    rw [heq, ne_eq, map_eq_error_iff]
    exact judgePlaces_ne_outOfBounds hat hr
  · obtain ⟨e'', hreq, hbuffers, heq⟩ := hrun completion
    rw [heq, map_eq_ok_iff] at hok
    obtain ⟨calls', -, hpair⟩ := hok
    obtain rfl : e'' = e' := (Prod.mk.inj hpair).1
    refine ⟨hreq, _, persistentCleanup_eq hr hbuffers (hreq.trans hslots), ?_, fun i ↦ ?_,
      fun h hh ↦ ?_⟩
    · rw [hslots, List.length_append, List.length_append, List.length_map, List.length_map]
    · rw [hslots]
      exact getElem?_freed hrest i
    · rcases List.mem_append.mp hh with hfreed | hbehind
      · obtain ⟨-, -, rfl⟩ := List.mem_map.mp hfreed
        exact .inr rfl
      · exact hrest h hbehind
  · obtain ⟨e', -, -, heq⟩ := hrun completion
    rw [judgePlaces_eq_nil hat ht hnull hblock hcount hsize hr hsend hcancelled harrival] at heq
    exact ⟨e', heq⟩

end

/-- **Persistent requests.** For every size of the communicator and every rank, the functions work
exactly if the arrays have a block and, where there is somebody to send to, a count. Then the slots
that are started, waited for and freed are those that the requests are in. Every rank has two
requests with every other one, and whatever statuses and messages come back, each is checked against
the rank that its request was made for. No index leaves its array, and all requests are free in the
end. If what comes back is what the other ranks have sent, there is no `ERROR` and no failure. -/
theorem alltoall_persistent_works_iff (cfg : Config) (t : TypeSlot) (ht : t ∈ initTypes cfg)
    (hnull : t.datatype ≠ .null) (env : Env) (mode : TstMode) (p : ℕ) (hsize : FitsInt p) (r : ℕ)
    (hr : r < p) :
    (∃ e, tstP2pAlltoallPersistentInit cfg t env p r = .ok e ∧
      PersistentWorks cfg t env mode p r e) ↔
      HasBlock t env.valuesNum ∧ (1 < p → 0 ≤ env.valuesNum) := by
  constructor
  · rintro ⟨e, hinit, -⟩
    exact fits_of_persistentInit hinit
  · rintro ⟨hblock, hcount⟩
    exact persistentWorks ht hnull hblock hcount hsize hr

/-- Three ranks, and the one in the middle. -/
theorem alltoall_persistent_works_iff_three :
    let cfg : Config := ⟨2, true, true, true, true, true, true, true, true⟩
    let env : Env := ⟨23, 0, 6, 3, 0⟩
    (∃ e, tstP2pAlltoallPersistentInit cfg (slotMpi2 6) env 3 1 = .ok e ∧
      PersistentWorks cfg (slotMpi2 6) env .strict 3 1 e) ↔
      HasBlock (slotMpi2 6) 3 ∧ (1 < 3 → (0 : ℤ) ≤ 3) :=
  alltoall_persistent_works_iff ⟨2, true, true, true, true, true, true, true, true⟩ (slotMpi2 6)
    (by decide +kernel) (by decide +kernel) ⟨23, 0, 6, 3, 0⟩ .strict 3 (by decide) 1 (by decide)

/-- For 536870912 values of `MPI_DOUBLE` the size of the block comes out as 64, and the array is
written behind its end. -/
theorem alltoall_persistent_fails :
    let cfg : Config := ⟨2, true, true, true, true, true, true, true, true⟩
    let env : Env := ⟨23, 0, 11, 536870912, 0⟩
    (wrapInt ((env.valuesNum + overhead) * (slotMpi2 11).size) = 64) ∧
    ¬∃ e, tstP2pAlltoallPersistentInit cfg (slotMpi2 11) env 2 0 = .ok e ∧
      PersistentWorks cfg (slotMpi2 11) env .strict 2 0 e := by
  intro cfg env
  refine ⟨by decide +kernel, ?_⟩
  rintro ⟨e, hinit, -⟩
  exact absurd (fits_of_persistentInit hinit).1 (by decide +kernel)

example : slotRequests 3 1 = [.recv 0 0, .send 0, .send 2, .recv 2 2] := by decide

end P2P

end MpiTestSuite
