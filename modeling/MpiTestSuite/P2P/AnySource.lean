import Mathlib.Data.Nat.ModEq
import Mathlib.Logic.Relation
import MpiTestSuite.Coding.CInt
import MpiTestSuite.P2P.Messages

/-!
# Receiving from any source

In `"Alltoall with MPI_Probe (MPI_ANY_SOURCE)"` every rank sends an array to each of the others,
beginning with the next one, and probes for a message from anybody after each send. What is found is
received at once. When all is sent, it probes and receives until `received_num` says that all the
others have been heard. The table admits it on communicators with one group only.

The messages are sent by `MPI_Ibsend`, which does not wait for anybody. Whether a message that is on
its way is found by `MPI_Iprobe` is left open, and so is whose message a probe finds, if there are
several. Until it is received a message is in the buffer that its sender has attached, and MPI ends
the program when there is no room for another one.

The size of this buffer, for which `_init` multiplies the number of ranks by the size of an array,
is an `int`. For large arrays it is none for a handful of ranks already.

What holds of every run is that for each pair of ranks there are as many messages on their way or
received as have been sent (`Invariant.conserved`). A rank that has received fewer messages than
there are others has therefore not heard somebody, whose message is on its way as soon as it has
been sent.
-/

open Relation

namespace MpiTestSuite

namespace P2P

namespace AnySource

/-- A message on its way. -/
structure Message where
  dest : ℕ
  arrival : Arrival

/-- Where a rank is in `tst_p2p_alltoall_probe_anysource_run`. -/
inductive Point
  /-- In front of the condition of the first loop. -/
  | loop (dest : ℕ)
  /-- In front of `MPI_Iprobe`. -/
  | iprobe (dest : ℕ)
  /-- In front of `MPI_Recv`, in the first loop if there is a `dest`. -/
  | recv (dest : Option ℕ) (source : ℕ) (tag : ℤ)
  /-- In front of `MPI_Waitall`. -/
  | waitall
  /-- In front of the condition of the second loop. -/
  | drain
  | returned
  | stopped (stop : Stop)
  /-- MPI has ended the program. -/
  | aborted

/-- A rank. -/
structure Rank where
  point : Point
  /-- `received_num`. -/
  receivedNum : ℤ
  /-- The ranks it has sent to, in order. -/
  sent : List ℕ
  /-- What it has received, in order. -/
  received : List Arrival
  /-- The environments that `tst_test_recordfailure` has been called with. -/
  calls : List Env

/-- The rank, at another place. -/
def Rank.goto (k : Rank) (point : Point) : Rank := { k with point := point }

/-- It has started to send to `dest`. -/
def Rank.ibsend (k : Rank) (dest : ℕ) : Rank :=
  { k with point := .iprobe dest, sent := k.sent ++ [dest] }

/-- It has received something among `p` ranks, and goes on. -/
def Rank.hear (k : Rank) (p : ℕ) (dest : Option ℕ) (a : Arrival) (calls : List Env) : Rank where
  point := dest.elim .drain fun d ↦ .loop ((d + 1) % p)
  receivedNum := k.receivedNum - 1
  sent := k.sent
  received := k.received ++ [a]
  calls := k.calls ++ calls

/-- All ranks, and the messages on their way in the order in which they were sent. -/
structure State where
  rank : ℕ → Rank
  inFlight : List Message

/-- At the start nothing is on its way. -/
def State.init (p : ℕ) : State where
  rank r :=
    if r < p then ⟨.loop ((r + 1) % p), p - 1, [], [], []⟩ else ⟨.returned, 0, [], [], []⟩
  inFlight := []

/-- Rank `r` has taken a step. -/
def State.update (s : State) (r : ℕ) (k : Rank) (inFlight : List Message) : State :=
  ⟨Function.update s.rank r k, inFlight⟩

/-- The message `m` is the first one on its way from its source to `r`. -/
def Probed (inFlight : List Message) (r : ℕ) (m : Message) : Prop :=
  ∃ before behind, inFlight = before ++ m :: behind ∧ m.dest = r ∧
    ∀ m' ∈ before, ¬(m'.dest = r ∧ m'.arrival.source = m.arrival.source)

/-- The message `m` is the first one on its way from `source` to `r` with a tag, and `rest` are the
others. -/
def Matched (inFlight : List Message) (r source : ℕ) (tag : ℤ) (m : Message)
    (rest : List Message) : Prop :=
  ∃ before behind, inFlight = before ++ m :: behind ∧ rest = before ++ behind ∧
    (m.dest = r ∧ m.arrival.source = source ∧ m.arrival.tag = tag) ∧
    ∀ m' ∈ before, ¬(m'.dest = r ∧ m'.arrival.source = source ∧ m'.arrival.tag = tag)

/-- There is room for one more message of rank `r` in its buffer of `room` bytes. -/
def HasRoom (mpi : Surroundings) (room : ℕ) (inFlight : List Message) (r : ℕ) : Prop :=
  (inFlight.countP (fun m ↦ m.arrival.source = r) + 1) * (mpi.packSize + mpi.bsendOverhead) ≤ room

/-- What follows a probe that has found something. -/
def afterProbe (p r : ℕ) (dest : Option ℕ) (message : String) (a : Arrival) : Point :=
  if (a.source : ℤ) < 0 ∨ p ≤ a.source ∨ a.source = r ∨ a.tag ≠ a.source then
    .stopped (.error message)
  else .recv dest a.source a.tag

section

variable (cfg : Config) (t : TypeSlot) (env : Env) (mode : TstMode)

/-- What is checked after `MPI_Recv`. -/
def checkReceived (r source : ℕ) (tag : ℤ) (a : Arrival) : Except Stop (List Env) :=
  if source ≠ tag ∨ a.source ≠ source ∨ a.tag ≠ tag then
    .error (.error "Error in status after MPI_Recv")
  else a.check cfg t env mode "Error in Count" (wrapInt (source + r))

/-- A rank that has received something. -/
def Rank.receive (k : Rank) (p r : ℕ) (dest : Option ℕ) (source : ℕ) (tag : ℤ) (a : Arrival) :
    Rank :=
  match checkReceived cfg t env mode r source tag a with
  | .ok calls => k.hear p dest a calls
  | .error stop => { k with point := .stopped stop, received := k.received ++ [a] }

/-- `env->send_buffer_array[dest]` of a rank. -/
def sendBufferArray (commRank dest : ℕ) : Option Memory :=
  standardBuffer cfg t env (wrapInt (commRank + dest))

variable (mpi : Surroundings) (p : ℕ)

/-- `env->mpi_buffer_size`. -/
def mpiBufferSize : Option ℤ := do
  let num ← checkedSigned (1 + mpi.numThreads)
  let values ← checkedSigned (t.size * env.valuesNum)
  let arrays ← checkedSigned (values * (p - 1))
  let overheads ← checkedSigned (p * mpi.bsendOverhead)
  let bytes ← checkedSigned (arrays + overheads)
  checkedSigned (num * bytes)

/-- `tst_p2p_alltoall_probe_anysource_init`: the arrays that are sent, and the bytes of the buffer
that is attached. -/
def tstP2pAlltoallProbeAnysourceInit (commRank : ℕ) : Option (List Memory × ℕ) := do
  let sendBufferArray ← (List.range p).mapM fun i ↦ do
    let sendBuffer ← sendBufferArray cfg t env commRank i
    let _ ← tstTypeAllocvalues t env.valuesNum
    return sendBuffer
  let size ← mpiBufferSize t env mpi p
  let room ← mallocInt size
  return (sendBufferArray, room)

variable (array : ℕ → ℕ → Memory) (room : ℕ)

/-- A step of rank `r`, which may add to the messages on their way or take one. -/
inductive RankStep (r : ℕ) (k : Rank) (inFlight : List Message) : Rank → List Message → Prop
  | ibsend {dest} : k.point = .loop dest → dest ≠ r → 0 ≤ env.valuesNum →
      HasRoom mpi room inFlight r →
      RankStep r k inFlight (k.ibsend dest)
        (inFlight ++ [⟨dest, r, r, .values t env (array r dest)⟩])
  | refuse {dest} : k.point = .loop dest → dest ≠ r →
      ¬(0 ≤ env.valuesNum ∧ HasRoom mpi room inFlight r) →
      RankStep r k inFlight (k.goto .aborted) inFlight
  | leave {dest} : k.point = .loop dest → dest = r →
      RankStep r k inFlight (k.goto .waitall) inFlight
  | iprobeNone {dest} : k.point = .iprobe dest →
      RankStep r k inFlight (k.goto (.loop ((dest + 1) % p))) inFlight
  | iprobe {dest m} : k.point = .iprobe dest → Probed inFlight r m →
      RankStep r k inFlight (k.goto (afterProbe p r (some dest) "Error in status after MPI_Iprobe"
        m.arrival)) inFlight
  | recv {dest source tag m rest} : k.point = .recv dest source tag →
      Matched inFlight r source tag m rest →
      RankStep r k inFlight (k.receive cfg t env mode p r dest source tag m.arrival) rest
  | waitall : k.point = .waitall → RankStep r k inFlight (k.goto .drain) inFlight
  | probe {m} : k.point = .drain → 0 < k.receivedNum → Probed inFlight r m →
      RankStep r k inFlight (k.goto (afterProbe p r none "Error in status after MPI_Probe"
        m.arrival)) inFlight
  | exit : k.point = .drain → ¬0 < k.receivedNum → RankStep r k inFlight (k.goto .returned) inFlight

/-- A step of some rank. -/
def Step (s s' : State) : Prop :=
  ∃ r k inFlight, RankStep cfg t env mode mpi p array room r (s.rank r) s.inFlight k inFlight ∧
    s' = s.update r k inFlight

/-- The states that are reached. -/
def Reachable (s : State) : Prop :=
  ReflTransGen (Step cfg t env mode mpi p array room) (State.init p) s

end

/-! ## The order of the sends -/

/-- The first ranks that a rank sends to: those behind it, then those in front of it. -/
def dests (p r n : ℕ) : List ℕ := (List.range n).map fun i ↦ (r + 1 + i) % p

theorem length_dests (p r n : ℕ) : (dests p r n).length = n := by
  rw [dests, List.length_map, List.length_range]

theorem dests_succ (p r n : ℕ) : dests p r (n + 1) = dests p r n ++ [(r + 1 + n) % p] := by
  rw [dests, List.range_succ, List.map_append]
  rfl

/-- Nobody comes twice before all have come. -/
theorem eq_of_mod_eq {p r i j : ℕ} (hi : i < p) (hj : j < p)
    (h : (r + 1 + i) % p = (r + 1 + j) % p) : i = j := by
  have hmod : Nat.ModEq p i j := Nat.ModEq.add_left_cancel' (r + 1) h
  rwa [Nat.ModEq, Nat.mod_eq_of_lt hi, Nat.mod_eq_of_lt hj] at hmod

theorem nodup_dests {p r n : ℕ} (hn : n ≤ p) : (dests p r n).Nodup := by
  refine List.Nodup.map_on (fun i hi j hj h ↦ ?_) List.nodup_range
  rw [List.mem_range] at hi hj
  exact eq_of_mod_eq (by omega) (by omega) h

/-- The rank itself is the last one to come. -/
theorem mod_eq_self_iff {p r n : ℕ} (hr : r < p) (hn : n < p) :
    (r + 1 + n) % p = r ↔ n + 1 = p := by
  have hself : (r + 1 + (p - 1)) % p = r := by
    rw [show r + 1 + (p - 1) = r + p by omega, Nat.add_mod_right, Nat.mod_eq_of_lt hr]
  constructor
  · intro h
    have hlast := eq_of_mod_eq hn (by omega) (h.trans hself.symm)
    omega
  · intro h
    rwa [show n = p - 1 by omega]

theorem dests_subset {p r n : ℕ} (hr : r < p) (hn : n < p) : dests p r n ⊆ others p r := by
  intro q hq
  obtain ⟨i, hi, rfl⟩ := List.mem_map.mp hq
  rw [List.mem_range] at hi
  refine mem_others.mpr ⟨Nat.mod_lt _ (by omega), fun hself ↦ ?_⟩
  have hlast := (mod_eq_self_iff hr (by omega)).mp hself
  omega

/-- In the end all the others have come. -/
theorem perm_dests {p r n : ℕ} (hr : r < p) (hn : n + 1 = p) :
    (dests p r n).Perm (others p r) := by
  refine (List.subperm_of_subset (nodup_dests (by omega))
    (dests_subset hr (by omega))).perm_of_length_le ?_
  rw [length_dests, length_others hr]
  omega

/-! ## What holds of every run -/

/-- The point of a rank that has sent `n` messages. -/
def Point.After (p r n : ℕ) : Point → Prop
  | .loop dest => n < p ∧ dest = (r + 1 + n) % p
  | .iprobe dest => 0 < n ∧ n < p ∧ dest = (r + n) % p
  | .recv (some dest) _ _ => 0 < n ∧ n < p ∧ dest = (r + n) % p
  | .recv none _ _ => n + 1 = p
  | .waitall => n + 1 = p
  | .drain => n + 1 = p
  | .returned => n + 1 = p
  | .stopped _ => False
  | .aborted => False

theorem Point.After.lt {p r n : ℕ} {point : Point} (h : point.After p r n) : n < p := by
  cases point with
  | loop dest => exact h.1
  | iprobe dest => exact h.2.1
  | recv dest source tag =>
    cases dest with
    | some dest => exact h.2.1
    | none => exact Nat.lt_of_succ_le h.le
  | waitall => exact Nat.lt_of_succ_le h.le
  | drain => exact Nat.lt_of_succ_le h.le
  | returned => exact Nat.lt_of_succ_le h.le
  | stopped => exact h.elim
  | aborted => exact h.elim

section

variable (t : TypeSlot) (env : Env) (p : ℕ) (array : ℕ → ℕ → Memory)

/-- An arrival at `r`, as its source has sent it. -/
structure Sound (r : ℕ) (a : Arrival) : Prop where
  source_lt : a.source < p
  tag_eq : a.tag = a.source
  packet_eq : a.packet = .values t env (array a.source r)

/-- What is known of a rank. -/
structure RankInvariant (r : ℕ) (k : Rank) : Prop where
  after : k.point.After p r k.sent.length
  sent : k.sent = dests p r k.sent.length
  counter : k.receivedNum = p - 1 - k.received.length
  received : ∀ a ∈ k.received, Sound t env p array r a
  returned : k.point = .returned → k.receivedNum ≤ 0
  calls : k.calls = []

/-- The number of messages from one rank to another that are on their way. -/
def State.onTheWay (s : State) (r q : ℕ) : ℕ :=
  s.inFlight.countP fun m ↦ m.arrival.source = r ∧ m.dest = q

/-- The number of messages in the buffer of a rank. -/
def State.buffered (s : State) (r : ℕ) : ℕ := s.inFlight.countP fun m ↦ m.arrival.source = r

/-- The number of messages that a rank has received from another. -/
def Rank.receivedFrom (k : Rank) (r : ℕ) : ℕ := k.received.countP fun a ↦ a.source = r

/-- What is known of a state that is reached. -/
structure Invariant (s : State) : Prop where
  rank : ∀ r < p, RankInvariant t env p array r (s.rank r)
  outside : ∀ r, p ≤ r → (s.rank r).point = .returned
  inFlight : ∀ m ∈ s.inFlight, m.dest < p ∧ Sound t env p array m.dest m.arrival
  /-- A message that has been sent is on its way or has been received. -/
  conserved : ∀ r < p, ∀ q < p,
    s.onTheWay r q + (s.rank q).receivedFrom r = (s.rank r).sent.count q
  /-- Nothing is in the buffer of a rank but what it has sent. -/
  buffered : ∀ r < p, s.buffered r ≤ (s.rank r).sent.length
  /-- What a probe has found is still there. -/
  found : ∀ r < p, ∀ dest source tag, (s.rank r).point = .recv dest source tag →
    tag = source ∧ ∃ m ∈ s.inFlight, m.arrival.source = source ∧ m.dest = r

end

section

variable {t : TypeSlot} {env : Env} {p : ℕ} {array : ℕ → ℕ → Memory} {s : State} {r : ℕ}

theorem State.init_rank (hr : r < p) :
    (State.init p).rank r = ⟨.loop ((r + 1) % p), p - 1, [], [], []⟩ := if_pos hr

theorem State.update_rank_self (s : State) (r : ℕ) (k : Rank) (inFlight : List Message) :
    (s.update r k inFlight).rank r = k := Function.update_self ..

theorem State.update_rank_of_ne (s : State) {r q : ℕ} (k : Rank) (inFlight : List Message)
    (hq : q ≠ r) : (s.update r k inFlight).rank q = s.rank q := Function.update_of_ne hq ..

/-- A rank that does not change has sent and received what it had. -/
theorem State.update_sent (s : State) {r x : ℕ} {k : Rank} (inFlight : List Message)
    (hk : k.sent = (s.rank r).sent) :
    ((s.update r k inFlight).rank x).sent = (s.rank x).sent := by
  rcases eq_or_ne x r with rfl | hne
  · rw [s.update_rank_self, hk]
  · rw [s.update_rank_of_ne _ _ hne]

theorem State.update_receivedFrom (s : State) {r x y : ℕ} {k : Rank} (inFlight : List Message)
    (hk : k.received = (s.rank r).received) :
    ((s.update r k inFlight).rank y).receivedFrom x = (s.rank y).receivedFrom x := by
  rcases eq_or_ne y r with rfl | hne
  · rw [s.update_rank_self, Rank.receivedFrom, hk, Rank.receivedFrom]
  · rw [s.update_rank_of_ne _ _ hne]

theorem invariant_init : Invariant t env p array (State.init p) where
  rank r hr := by
    rw [State.init_rank hr]
    exact ⟨⟨Nat.zero_lt_of_lt hr, rfl⟩, rfl, by simp, nofun, nofun, rfl⟩
  outside r hr := congrArg Rank.point (if_neg (Nat.not_lt.mpr hr))
  inFlight := nofun
  conserved r hr q hq := by
    rw [State.init_rank hr, State.init_rank hq]
    rfl
  buffered r _ := Nat.zero_le _
  found r hr dest source tag hpoint := by
    rw [State.init_rank hr] at hpoint
    cases hpoint

/-- A rank that takes a step is one of the communicator. -/
theorem Invariant.lt_of_point (h : Invariant t env p array s)
    (hpoint : (s.rank r).point ≠ .returned) : r < p :=
  Nat.lt_of_not_le fun hle ↦ hpoint (h.outside r hle)

theorem Invariant.after (h : Invariant t env p array s) {point : Point}
    (hpoint : (s.rank r).point = point) (hne : point ≠ .returned) :
    r < p ∧ point.After p r (s.rank r).sent.length := by
  subst hpoint
  have hr := h.lt_of_point hne
  exact ⟨hr, (h.rank r hr).after⟩

/-- Nobody sends to itself. -/
theorem Invariant.source_ne (h : Invariant t env p array s) {m : Message} (hm : m ∈ s.inFlight) :
    m.arrival.source ≠ m.dest := by
  obtain ⟨hdest, hsound⟩ := h.inFlight m hm
  have hpositive : 0 < s.onTheWay m.arrival.source m.dest :=
    List.countP_pos_iff.mpr ⟨m, hm, decide_eq_true ⟨rfl, rfl⟩⟩
  have hcount := h.conserved m.arrival.source hsound.source_lt m.dest hdest
  have hrank := h.rank m.arrival.source hsound.source_lt
  have hmem : m.dest ∈ (s.rank m.arrival.source).sent := List.count_pos_iff.mp (by omega)
  rw [hrank.sent] at hmem
  exact (mem_others.mp (dests_subset hsound.source_lt hrank.after.lt hmem)).2.symm

/-- A step of one rank. -/
theorem Invariant.update (h : Invariant t env p array s) (hr : r < p) {k : Rank}
    {inFlight : List Message} (hk : RankInvariant t env p array r k)
    (hinFlight : ∀ m ∈ inFlight, m.dest < p ∧ Sound t env p array m.dest m.arrival)
    (hconserved : ∀ x < p, ∀ y < p, (s.update r k inFlight).onTheWay x y
      + ((s.update r k inFlight).rank y).receivedFrom x
      = ((s.update r k inFlight).rank x).sent.count y)
    (hbuffered : ∀ x < p, (s.update r k inFlight).buffered x
      ≤ ((s.update r k inFlight).rank x).sent.length)
    (hfound : ∀ dest source tag, k.point = .recv dest source tag →
      tag = source ∧ ∃ m ∈ inFlight, m.arrival.source = source ∧ m.dest = r)
    (hothers : ∀ m ∈ s.inFlight, m.dest ≠ r → m ∈ inFlight) :
    Invariant t env p array (s.update r k inFlight) where
  rank q hq := by
    rcases eq_or_ne q r with rfl | hne
    · rwa [s.update_rank_self]
    · rw [s.update_rank_of_ne k inFlight hne]
      exact h.rank q hq
  outside q hq := by
    rw [s.update_rank_of_ne k inFlight (by omega)]
    exact h.outside q hq
  inFlight := hinFlight
  conserved := hconserved
  buffered := hbuffered
  found q hq dest source tag hpoint := by
    rcases eq_or_ne q r with rfl | hne
    · rw [s.update_rank_self] at hpoint
      exact hfound dest source tag hpoint
    · rw [s.update_rank_of_ne k inFlight hne] at hpoint
      obtain ⟨htag, m, hm, hsource, hdest⟩ := h.found q hq dest source tag hpoint
      exact ⟨htag, m, hothers m hm (hdest ▸ hne), hsource, hdest⟩

/-- A rank goes somewhere else, and nothing is sent or received. -/
theorem Invariant.goto (h : Invariant t env p array s) (hr : r < p) {point : Point}
    (hafter : point.After p r (s.rank r).sent.length)
    (hreturned : point = .returned → (s.rank r).receivedNum ≤ 0)
    (hfound : ∀ dest source tag, point = .recv dest source tag →
      tag = source ∧ ∃ m ∈ s.inFlight, m.arrival.source = source ∧ m.dest = r) :
    Invariant t env p array (s.update r ((s.rank r).goto point) s.inFlight) := by
  have hold := h.rank r hr
  refine h.update hr ⟨hafter, hold.sent, hold.counter, hold.received, hreturned, hold.calls⟩
    h.inFlight (fun x hx y hy ↦ ?_) (fun x hx ↦ ?_) hfound fun m hm _ ↦ hm
  · rw [s.update_sent (k := (s.rank r).goto point) _ rfl,
      s.update_receivedFrom (k := (s.rank r).goto point) _ rfl]
    exact h.conserved x hx y hy
  · rw [s.update_sent (k := (s.rank r).goto point) _ rfl]
    exact h.buffered x hx

end

/-! ## What is sent and received -/

theorem Probed.mem {inFlight : List Message} {r : ℕ} {m : Message} (h : Probed inFlight r m) :
    m ∈ inFlight := by
  obtain ⟨before, behind, rfl, -⟩ := h
  exact List.mem_append_right _ List.mem_cons_self

theorem Probed.dest_eq {inFlight : List Message} {r : ℕ} {m : Message} (h : Probed inFlight r m) :
    m.dest = r := by
  obtain ⟨before, behind, -, hdest, -⟩ := h
  exact hdest

/-- What is received is on its way no more. -/
theorem Matched.perm {inFlight rest : List Message} {r source : ℕ} {tag : ℤ} {m : Message}
    (h : Matched inFlight r source tag m rest) : inFlight.Perm (m :: rest) := by
  obtain ⟨before, behind, rfl, rfl, -⟩ := h
  exact List.perm_middle

theorem Matched.envelope {inFlight rest : List Message} {r source : ℕ} {tag : ℤ} {m : Message}
    (h : Matched inFlight r source tag m rest) :
    m.dest = r ∧ m.arrival.source = source ∧ m.arrival.tag = tag := by
  obtain ⟨before, behind, -, -, henvelope, -⟩ := h
  exact henvelope

section

variable {t : TypeSlot} {env : Env} {p : ℕ} {array : ℕ → ℕ → Memory} {s : State} {r : ℕ}

theorem Rank.receivedFrom_hear (k : Rank) (p : ℕ) (dest : Option ℕ) (a : Arrival)
    (calls : List Env) (q : ℕ) :
    (k.hear p dest a calls).receivedFrom q = k.receivedFrom q + if a.source = q then 1 else 0 := by
  simp only [receivedFrom, hear, List.countP_append, List.countP_singleton, decide_eq_true_eq]

/-- One more message is on its way. -/
theorem Invariant.ibsend (h : Invariant t env p array s) {dest : ℕ}
    (hpoint : (s.rank r).point = .loop dest) (hne : dest ≠ r) :
    Invariant t env p array (s.update r ((s.rank r).ibsend dest)
      (s.inFlight ++ [⟨dest, r, r, .values t env (array r dest)⟩])) := by
  obtain ⟨hr, hn, hdest⟩ := h.after hpoint nofun
  have hold := h.rank r hr
  have hlast : (s.rank r).sent.length + 1 ≠ p := fun hp ↦
    hne (hdest.trans ((mod_eq_self_iff hr hn).mpr hp))
  have hlength : ((s.rank r).ibsend dest).sent.length = (s.rank r).sent.length + 1 :=
    List.length_append
  refine h.update hr ⟨?_, ?_, hold.counter, hold.received, nofun, hold.calls⟩ ?_ ?_ ?_ nofun
    fun m hm _ ↦ List.mem_append_left _ hm
  · rw [hlength]
    exact ⟨Nat.succ_pos _, by omega, by rw [hdest]; congr 1; omega⟩
  · rw [hlength, dests_succ, ← hold.sent, ← hdest]
    rfl
  · intro m hm
    rcases List.mem_append.mp hm with hm | hm
    · exact h.inFlight m hm
    · obtain rfl := List.mem_singleton.mp hm
      exact ⟨hdest ▸ Nat.mod_lt _ (by omega), hr, rfl, rfl⟩
  · intro x hx y hy
    have hcount := h.conserved x hx y hy
    rw [s.update_receivedFrom (k := (s.rank r).ibsend dest) _ rfl]
    rcases eq_or_ne x r with rfl | hxr
    · rw [s.update_rank_self, Rank.ibsend, List.count_append, ← hcount]
      simp only [State.onTheWay, State.update, List.countP_append, List.countP_singleton,
        List.count_singleton, decide_eq_true_eq, true_and, beq_iff_eq]
      omega
    · rw [s.update_rank_of_ne _ _ hxr, ← hcount]
      simp [State.onTheWay, State.update, List.countP_append, hxr.symm]
  · intro x hx
    have hle := h.buffered x hx
    rcases eq_or_ne x r with rfl | hxr
    · rw [s.update_rank_self, hlength]
      simpa [State.buffered, State.update] using hle
    · rw [s.update_rank_of_ne _ _ hxr]
      simpa [State.buffered, State.update, hxr.symm] using hle

/-- One message less is on its way. -/
theorem Invariant.receive (h : Invariant t env p array s) {dest : Option ℕ} {source : ℕ} {tag : ℤ}
    (hpoint : (s.rank r).point = .recv dest source tag) {m : Message} {rest : List Message}
    (hmatched : Matched s.inFlight r source tag m rest) :
    Invariant t env p array (s.update r ((s.rank r).hear p dest m.arrival []) rest) := by
  obtain ⟨hr, hafter⟩ := h.after hpoint nofun
  have hold := h.rank r hr
  have hperm := hmatched.perm
  have hdest := hmatched.envelope.1
  refine h.update hr ⟨?_, hold.sent, ?_, ?_, ?_, ?_⟩
    (fun m' hm' ↦ h.inFlight m' (hperm.mem_iff.mpr (List.mem_cons_of_mem m hm'))) ?_ ?_ ?_ ?_
  · cases dest with
    | none => exact hafter
    | some d =>
      obtain ⟨-, hn, rfl⟩ := hafter
      refine ⟨hn, ?_⟩
      rw [Nat.mod_add_mod, Nat.add_right_comm]
      rfl
  · rw [Rank.hear, hold.counter, List.length_append, List.length_singleton]
    push_cast
    ring
  · intro a ha
    rcases List.mem_append.mp ha with ha | ha
    · exact hold.received a ha
    · rw [List.mem_singleton.mp ha]
      exact hdest ▸ (h.inFlight m (hperm.mem_iff.mpr List.mem_cons_self)).2
  · cases dest <;> nofun
  · rw [Rank.hear, hold.calls, List.append_nil]
  · intro x hx y hy
    have hcount := h.conserved x hx y hy
    have hway : s.onTheWay x y = rest.countP (fun m ↦ m.arrival.source = x ∧ m.dest = y)
        + if m.arrival.source = x ∧ r = y then 1 else 0 := by
      rw [State.onTheWay, hperm.countP_eq, List.countP_cons, hdest]
      simp only [decide_eq_true_eq]
    rw [s.update_sent (k := (s.rank r).hear p dest m.arrival []) _ rfl, ← hcount, hway]
    rcases eq_or_ne y r with rfl | hyr
    · rw [s.update_rank_self, Rank.receivedFrom_hear]
      simp only [State.onTheWay, State.update, and_true]
      omega
    · rw [s.update_rank_of_ne _ _ hyr, if_neg fun hboth ↦ hyr hboth.2.symm]
      rfl
  · intro x hx
    rw [s.update_sent (k := (s.rank r).hear p dest m.arrival []) _ rfl]
    refine le_trans ?_ (h.buffered x hx)
    rw [State.buffered, State.buffered, hperm.countP_eq, List.countP_cons]
    exact Nat.le_add_right _ _
  · cases dest <;> nofun
  · intro m' hm' hne
    rcases List.mem_cons.mp (hperm.mem_iff.mp hm') with rfl | hrest
    · exact absurd hdest hne
    · exact hrest

/-- A probe does not stop, and what it has found is on its way. -/
theorem Invariant.afterProbe (h : Invariant t env p array s) {m : Message}
    (hm : Probed s.inFlight r m) (dest : Option ℕ) (message : String) :
    AnySource.afterProbe p r dest message m.arrival = .recv dest m.arrival.source m.arrival.source ∧
      m ∈ s.inFlight ∧ m.dest = r := by
  have hsound := (h.inFlight m hm.mem).2
  refine ⟨?_, hm.mem, hm.dest_eq⟩
  have hlt := hsound.source_lt
  have hne := h.source_ne hm.mem
  rw [hm.dest_eq] at hne
  rw [AnySource.afterProbe, if_neg, hsound.tag_eq]
  rintro (hneg | hge | hself | htag)
  · exact absurd hneg (by omega)
  · omega
  · exact hne hself
  · exact htag hsound.tag_eq

end

/-! ## Every step -/

section

variable {cfg : Config} {t : TypeSlot} {env : Env} {mode : TstMode} {p : ℕ}
  {array : ℕ → ℕ → Memory} {s s' : State} {r : ℕ} (ht : t ∈ initTypes cfg)
  (hnull : t.datatype ≠ .null) (hvalues : FitsInt env.valuesNum)
  (hset : ∀ r < p, ∀ q < p, sendBufferArray cfg t env r q = some (array r q))

section

include ht hnull hvalues hset

/-- Nothing wrong is found with what is received. -/
theorem Sound.checkReceived_eq_nil (mode : TstMode) (hr : r < p) {a : Arrival}
    (ha : Sound t env p array r a) {source : ℕ} {tag : ℤ} (hsource : a.source = source)
    (htag : a.tag = tag) : checkReceived cfg t env mode r source tag a = .ok [] := by
  subst hsource htag
  have hstatus : ¬((a.source : ℤ) ≠ a.tag ∨ a.source ≠ a.source ∨ a.tag ≠ a.tag) := by
    rw [ha.tag_eq]
    simp
  have hfits := fitsInt_wrapInt (a.source + r)
  have hn := hvalues.2
  rw [checkReceived, if_neg hstatus]
  exact Arrival.check_eq_nil ht hnull (hset a.source ha.source_lt r hr) ha.packet_eq mode _ hfits.1
    (by have := hfits.2; omega)

end

variable {mpi : Surroundings} {room : ℕ}
  (hroom : p = 1 ∨ 0 ≤ env.valuesNum ∧ (p - 1) * (mpi.packSize + mpi.bsendOverhead) ≤ room)

include hroom in
/-- A rank that has something to send has room for it. -/
theorem Invariant.hasRoom (h : Invariant t env p array s) {dest : ℕ}
    (hpoint : (s.rank r).point = .loop dest) (hne : dest ≠ r) :
    0 ≤ env.valuesNum ∧ HasRoom mpi room s.inFlight r := by
  obtain ⟨hr, hn, hdest⟩ := h.after hpoint nofun
  have hlast : (s.rank r).sent.length + 1 ≠ p := fun hp ↦
    hne (hdest.trans ((mod_eq_self_iff hr hn).mpr hp))
  have hbuffered := h.buffered r hr
  obtain ⟨hpositive, hbytes⟩ := hroom.resolve_left (by omega)
  refine ⟨hpositive, le_trans (Nat.mul_le_mul_right _ ?_) hbytes⟩
  rw [State.buffered] at hbuffered
  omega

include ht hnull hvalues hset hroom

/-- A step keeps the invariant. -/
theorem Invariant.step (h : Invariant t env p array s)
    (hstep : Step cfg t env mode mpi p array room s s') : Invariant t env p array s' := by
  obtain ⟨r, k, inFlight, hrank, rfl⟩ := hstep
  cases hrank with
  | ibsend hpoint hne => exact h.ibsend hpoint hne
  | refuse hpoint hne hrefused => exact absurd (h.hasRoom hroom hpoint hne) hrefused
  | leave hpoint hdest =>
    obtain ⟨hr, hn, hmod⟩ := h.after hpoint nofun
    exact h.goto hr ((mod_eq_self_iff hr hn).mp (hmod.symm.trans hdest)) nofun nofun
  | iprobeNone hpoint =>
    obtain ⟨hr, -, hn, rfl⟩ := h.after hpoint nofun
    refine h.goto hr ⟨hn, ?_⟩ nofun nofun
    rw [Nat.mod_add_mod, Nat.add_right_comm]
  | iprobe hpoint hprobed =>
    obtain ⟨hr, hafter⟩ := h.after hpoint nofun
    obtain ⟨heq, hmem, hdest⟩ := h.afterProbe hprobed (some _) "Error in status after MPI_Iprobe"
    rw [heq]
    refine h.goto hr hafter nofun fun _ _ _ heq ↦ ?_
    cases heq
    exact ⟨rfl, _, hmem, rfl, hdest⟩
  | recv hpoint hmatched =>
    obtain ⟨hr, -⟩ := h.after hpoint nofun
    obtain ⟨hdest, hsource, htag⟩ := hmatched.envelope
    have hsound := (h.inFlight _ (hmatched.perm.mem_iff.mpr List.mem_cons_self)).2
    rw [hdest] at hsound
    rw [Rank.receive, hsound.checkReceived_eq_nil ht hnull hvalues hset mode hr hsource htag]
    exact h.receive hpoint hmatched
  | waitall hpoint =>
    obtain ⟨hr, hafter⟩ := h.after hpoint nofun
    exact h.goto hr hafter nofun nofun
  | probe hpoint hleft hprobed =>
    obtain ⟨hr, hafter⟩ := h.after hpoint nofun
    obtain ⟨heq, hmem, hdest⟩ := h.afterProbe hprobed none "Error in status after MPI_Probe"
    rw [heq]
    refine h.goto hr hafter nofun fun _ _ _ heq ↦ ?_
    cases heq
    exact ⟨rfl, _, hmem, rfl, hdest⟩
  | exit hpoint hleft =>
    obtain ⟨hr, hafter⟩ := h.after hpoint nofun
    exact h.goto hr hafter (fun _ ↦ not_lt.mp hleft) nofun

/-- It holds of all states that are reached. -/
theorem Reachable.invariant (h : Reachable cfg t env mode mpi p array room s) :
    Invariant t env p array s := by
  induction h with
  | refl => exact invariant_init
  | tail _ hstep ih => exact ih.step ht hnull hvalues hset hroom hstep

end

end AnySource

end P2P

end MpiTestSuite
