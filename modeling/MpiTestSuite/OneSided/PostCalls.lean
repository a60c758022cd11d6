import MpiTestSuite.OneSided.Accesses
import MpiTestSuite.Runs.Epochs

/-!
# The tests with post and start

Four tests access the windows of others between `MPI_Win_start` and `MPI_Win_complete`, while these
wait between `MPI_Win_post` and `MPI_Win_wait`. In two of them each rank in turn opens its window to
all others, in the third each rank in turn accesses the windows of all others, one after another,
and in the last one every rank gets the array of the rank in front of it.

Their calls are blocks that are numbered here as if the ranks took turns. What a rank does depends
on the order of its own blocks only.
-/

namespace MpiTestSuite

open Runs Epochs

/-! ## The tests -/

/-- What the four tests differ in. -/
structure PostTest extends AccessTest where
  /-- The calls of `run`, with those of `init`. -/
  run : (p : ℕ) → Fin p → List (Block (Fin p) ℕ)
  /-- The calls of `cleanup`. -/
  cleanup : (p : ℕ) → List (Block (Fin p) ℕ)

section

variable {p : ℕ}

/-- `host`: all ranks but one. -/
def host (r : Fin p) : List (Fin p) := (List.finRange p).filter (· ≠ r)

/-- A round of a loop in which each rank in turn opens its window to all others. -/
def hostRound (r i : Fin p) : Block (Fin p) ℕ :=
  if r = i then .expose (10 * (i + 1)) 0 (host r) else .access (10 * (i + 1)) 0 i

/-- The loop, with the window. -/
def hostLoop (p : ℕ) (r : Fin p) : List (Block (Fin p) ℕ) :=
  [.create 0 0] ++ (List.finRange p).map (hostRound r) ++ [.free (10 * (p + 1)) 0]

/-- A round of `tst_put_with_post_alltoall_run`, with a window of its own. -/
def putRound (r i : Fin p) : List (Block (Fin p) ℕ) :=
  [.create (10 * (p + 2) * i) i]
    ++ (if r = i then
        (host r).map fun j : Fin p ↦ .access (10 * (p + 2) * i + 10 * (j + 1)) i j
      else [.expose (10 * (p + 2) * i + 10 * (r + 1)) i [i]])
    ++ [.free (10 * (p + 2) * i + 10 * (p + 1)) i]

/-- The calls of `tst_one_sided_simple_ring_get_post_run`: rank `0` gets first, the others open
their windows first. -/
def ringCalls (r : Fin p) : List (Block (Fin p) ℕ) :=
  if (r : ℕ) = 0 then [.access 10 0 (previousRank r), .expose (10 * p) 0 [nextRank r]]
  else [.expose (10 * (p - r)) 0 [nextRank r], .access (10 * (p - r + 1)) 0 (previousRank r)]

end

def tstGetWithPostAlltoall : PostTest where
  functions := "tst_get_with_post_alltoall"
  op := .get
  own commRank i := decide (i = commRank)
  exposed _ := .send
  windowBytes := valuesBytes
  window _ := 0
  accessed i := .recv i
  run := hostLoop
  cleanup _ := []
  checks commSize _ := (List.range commSize).map fun rank ↦ (.recv rank, rank)

def tstPutWithPostAlltoall : PostTest where
  functions := "tst_put_with_post_alltoall"
  op := .put
  own commRank i := decide (i = commRank)
  exposed i := .recv i
  windowBytes := valuesBytes
  window commRank := commRank
  accessed _ := .send
  run p r := (List.finRange p).flatMap (putRound r)
  cleanup _ := []
  checks commSize _ := (List.range commSize).map fun rank ↦ (.recv rank, rank)

/-- All ranks have a single receive buffer. -/
def tstAccumulateWithPostMin : PostTest where
  functions := "tst_accumulate_with_post_min"
  op := .accumulateMin
  own _ _ := true
  exposed _ := .recv 0
  windowBytes := valuesBytes
  window _ := 0
  accessed _ := .send
  run := hostLoop
  cleanup _ := []
  checks _ _ := [(.recv 0, 0)]

/-- The window is created by `init` and freed by `cleanup`. -/
def tstOneSidedSimpleRingGetPost : PostTest where
  functions := "tst_one_sided_simple_ring_get_post"
  op := .get
  own _ _ := false
  exposed _ := .send
  windowBytes := standardArrayBytes
  window _ := 0
  accessed _ := .recv 0
  run _ r := .create 0 0 :: ringCalls r
  cleanup p := [.free (10 * (p + 1)) 0]
  checks commSize commRank := [(.recv 0, (commRank + commSize - 1) % commSize)]

/-- The four tests. -/
def postTests : List PostTest :=
  [tstGetWithPostAlltoall, tstPutWithPostAlltoall, tstAccumulateWithPostMin,
    tstOneSidedSimpleRingGetPost]

namespace PostTest

variable (w : PostTest)

/-- All calls of a rank. -/
def blocks (p : ℕ) (r : Fin p) : List (Block (Fin p) ℕ) := w.run p r ++ w.cleanup p

/-- What is moved. What is got has arrived when the access is completed. -/
def transfers (p n : ℕ) : Transfers (Fin p) ℕ (Fin p × Fin p × Fin n) where
  toTransfers := w.toAccessTest.transfers p n
  early := w.op = .get

/-- What calls do to windows. -/
def kind {p : ℕ} : Epochs.Call (Fin p) ℕ → CallKind
  | .create _ => .create
  | .access _ _ => .access
  | _ => .other

/-- What calls do to the buffers. -/
abbrev exec {p : ℕ} (t : TypeSlot) (valuesNum : ℤ) :
    Fin p ⊕ Fin p × Fin p × Fin valuesNum.toNat → Numbered (Fin p) ℕ →
      (Fin p → Buffer → Memory) → Option (Fin p → Buffer → Memory) :=
  w.toAccessTest.exec t valuesNum kind

end PostTest

/-! ## The calls of the loops -/

section

variable {p : ℕ}

theorem mem_host {r q : Fin p} : q ∈ host r ↔ q ≠ r := by
  simp [host]

theorem hostRound_self (r : Fin p) : hostRound r r = .expose (10 * (r + 1)) 0 (host r) := if_pos rfl

theorem hostRound_of_ne {r i : Fin p} (h : r ≠ i) :
    hostRound r i = .access (10 * (i + 1)) 0 i := if_neg h

theorem mem_hostLoop {r : Fin p} {b : Block (Fin p) ℕ} :
    b ∈ hostLoop p r ↔ b = .create 0 0 ∨ (∃ i, hostRound r i = b) ∨ b = .free (10 * (p + 1)) 0 := by
  simp [hostLoop]

theorem level_hostRound (r i : Fin p) : (hostRound r i).level = 10 * (i + 1) := by
  rw [hostRound]
  split_ifs <;> rfl

theorem expose_mem_hostLoop {r : Fin p} {n k : ℕ} {g : List (Fin p)} :
    .expose n k g ∈ hostLoop p r ↔ n = 10 * (r + 1) ∧ k = 0 ∧ g = host r := by
  rw [mem_hostLoop]
  constructor
  · grind [hostRound]
  · rintro ⟨rfl, rfl, rfl⟩
    exact .inr (.inl ⟨r, hostRound_self r⟩)

theorem access_mem_hostLoop {r q : Fin p} {n k : ℕ} :
    .access n k q ∈ hostLoop p r ↔ n = 10 * (q + 1) ∧ k = 0 ∧ r ≠ q := by
  rw [mem_hostLoop]
  constructor
  · grind [hostRound]
  · rintro ⟨rfl, rfl, hne⟩
    exact .inr (.inl ⟨q, hostRound_of_ne hne⟩)

/-- Each rank opens its window in the round in which all others access it. -/
theorem paired_hostLoop (p : ℕ) : Paired (hostLoop p) where
  apart r := by
    rw [hostLoop, List.append_assoc, List.singleton_append, List.pairwise_cons,
      List.pairwise_append, List.pairwise_map]
    refine ⟨fun b hb ↦ ?_, (List.pairwise_lt_finRange p).imp fun {i j} hlt ↦ ?_,
      List.pairwise_singleton _ _, fun b hb c hc ↦ ?_⟩
    · rcases List.mem_append.mp hb with hb | hb
      · obtain ⟨i, -, rfl⟩ := List.mem_map.mp hb
        rw [level_hostRound, Block.level]
        omega
      · obtain rfl := List.mem_singleton.mp hb
        simp only [Block.level]
        omega
    · have hij := Fin.lt_def.mp hlt
      rw [level_hostRound, level_hostRound]
      omega
    · obtain ⟨i, -, rfl⟩ := List.mem_map.mp hb
      obtain rfl := List.mem_singleton.mp hc
      have hi := i.isLt
      rw [level_hostRound, Block.level]
      omega
  create r q n k h := by
    rw [mem_hostLoop] at h ⊢
    grind [hostRound]
  free r q n k h := by
    rw [mem_hostLoop] at h ⊢
    grind [hostRound]
  access_iff n k o t := by
    rw [access_mem_hostLoop]
    constructor
    · rintro ⟨rfl, rfl, hne⟩
      exact ⟨host t, expose_mem_hostLoop.mpr ⟨rfl, rfl, rfl⟩, mem_host.mpr hne⟩
    · rintro ⟨g, hg, ho⟩
      obtain ⟨rfl, rfl, rfl⟩ := expose_mem_hostLoop.mp hg
      exact ⟨rfl, rfl, mem_host.mp ho⟩

theorem mem_putRound {r i : Fin p} {b : Block (Fin p) ℕ} :
    b ∈ putRound r i ↔ b = .create (10 * (p + 2) * i) i ∨
      (r = i ∧ (∃ j ≠ r, .access (10 * (p + 2) * i + 10 * (j + 1)) i j = b) ∨
        r ≠ i ∧ b = .expose (10 * (p + 2) * i + 10 * (r + 1)) i [i]) ∨
      b = .free (10 * (p + 2) * i + 10 * (p + 1)) i := by
  by_cases h : r = i
  · rw [putRound, if_pos h]
    simp [mem_host, h]
  · rw [putRound, if_neg h]
    simp [h]

/-- The rounds have levels of their own. -/
theorem level_putRound {r i : Fin p} {b : Block (Fin p) ℕ} (hb : b ∈ putRound r i) :
    10 * (p + 2) * i ≤ b.level ∧ b.level ≤ 10 * (p + 2) * i + 10 * (p + 1) := by
  have hr := r.isLt
  rcases mem_putRound.mp hb with rfl | (⟨-, j, -, rfl⟩ | ⟨-, rfl⟩) | rfl <;>
    simp only [Block.level] <;> omega

theorem pairwise_putRound (r i : Fin p) :
    (putRound r i).Pairwise fun a b ↦ a.level + 7 ≤ b.level := by
  have hr := r.isLt
  rw [putRound]
  split_ifs with h
  · have hmem : ∀ b ∈ ((host r).map fun j : Fin p ↦
        (.access (10 * (p + 2) * i + 10 * (j + 1)) i j : Block (Fin p) ℕ)),
        ∃ j : Fin p, b.level = 10 * (p + 2) * i + 10 * (j + 1) := by
      intro b hb
      obtain ⟨j, -, rfl⟩ := List.mem_map.mp hb
      exact ⟨j, rfl⟩
    rw [List.append_assoc, List.singleton_append, List.pairwise_cons, List.pairwise_append,
      List.pairwise_map]
    refine ⟨fun b hb ↦ ?_, ((List.pairwise_lt_finRange p).filter _).imp fun {j k} hlt ↦ ?_,
      List.pairwise_singleton _ _, fun b hb c hc ↦ ?_⟩
    · rcases List.mem_append.mp hb with hb | hb
      · obtain ⟨j, hj⟩ := hmem b hb
        rw [hj, Block.level]
        omega
      · obtain rfl := List.mem_singleton.mp hb
        simp only [Block.level]
        omega
    · have hjk := Fin.lt_def.mp hlt
      simp only [Block.level]
      omega
    · obtain ⟨j, hj⟩ := hmem b hb
      obtain rfl := List.mem_singleton.mp hc
      have hlt := j.isLt
      rw [hj, Block.level]
      omega
  · simp [Block.level]
    omega

theorem expose_mem_put {t : Fin p} {n k : ℕ} {g : List (Fin p)} :
    .expose n k g ∈ (List.finRange p).flatMap (putRound t) ↔
      ∃ i ≠ t, n = 10 * (p + 2) * i + 10 * (t + 1) ∧ k = i ∧ g = [i] := by
  simp only [List.mem_flatMap, List.mem_finRange, true_and, mem_putRound]
  constructor
  · grind
  · rintro ⟨i, hne, rfl, rfl, rfl⟩
    exact ⟨i, .inr (.inl (.inr ⟨hne.symm, rfl⟩))⟩

theorem access_mem_put {o t : Fin p} {n k : ℕ} :
    .access n k t ∈ (List.finRange p).flatMap (putRound o) ↔
      n = 10 * (p + 2) * o + 10 * (t + 1) ∧ k = o ∧ o ≠ t := by
  simp only [List.mem_flatMap, List.mem_finRange, true_and, mem_putRound]
  constructor
  · grind
  · rintro ⟨rfl, rfl, hne⟩
    exact ⟨o, .inr (.inl (.inl ⟨rfl, t, hne.symm, rfl⟩))⟩

/-- Each rank accesses the windows that all others have opened to it. -/
theorem paired_put (p : ℕ) :
    Paired fun r : Fin p ↦ (List.finRange p).flatMap (putRound r) where
  apart r := by
    refine List.pairwise_flatMap.mpr ⟨fun i _ ↦ pairwise_putRound r i,
      (List.pairwise_lt_finRange p).imp fun {i j} hlt a ha b hb ↦ ?_⟩
    have hhigh := (level_putRound ha).2
    have hlow := (level_putRound hb).1
    have hnext : 10 * (p + 2) * ((i : ℕ) + 1) ≤ 10 * (p + 2) * j :=
      Nat.mul_le_mul_left _ (Fin.lt_def.mp hlt)
    rw [Nat.mul_succ] at hnext
    omega
  create r q n k h := by
    simp only [List.mem_flatMap, List.mem_finRange, true_and, mem_putRound] at h ⊢
    grind
  free r q n k h := by
    simp only [List.mem_flatMap, List.mem_finRange, true_and, mem_putRound] at h ⊢
    grind
  access_iff n k o t := by
    rw [access_mem_put]
    constructor
    · rintro ⟨rfl, rfl, hne⟩
      exact ⟨[o], expose_mem_put.mpr ⟨o, hne, rfl, rfl, rfl⟩, List.mem_singleton_self o⟩
    · rintro ⟨g, hg, ho⟩
      obtain ⟨i, hne, rfl, rfl, rfl⟩ := expose_mem_put.mp hg
      obtain rfl := List.mem_singleton.mp ho
      exact ⟨rfl, rfl, hne⟩

/-- The levels of the accesses and exposures of the ring. -/
theorem access_mem_ringCalls {o t : Fin p} {n k : ℕ} :
    .access n k t ∈ ringCalls o ↔ n = (if (o : ℕ) = 0 then 10 else 10 * (p - o + 1)) ∧ k = 0 ∧
      t = previousRank o := by
  rw [ringCalls]
  split_ifs <;> simp

theorem expose_mem_ringCalls {t : Fin p} {n k : ℕ} {g : List (Fin p)} :
    .expose n k g ∈ ringCalls t ↔ n = (if (t : ℕ) = 0 then 10 * p else 10 * (p - t)) ∧ k = 0 ∧
      g = [nextRank t] := by
  rw [ringCalls]
  split_ifs <;> simp

/-- Rank `0` gets first, and then the window in front of it is opened by one rank after another. -/
theorem paired_ring (hp : 2 ≤ p) :
    Paired fun r : Fin p ↦ (.create 0 0 :: ringCalls r) ++ [.free (10 * (p + 1)) 0] where
  apart r := by
    have hr := r.isLt
    rw [ringCalls]
    split_ifs <;> simp [Block.level] <;> omega
  create r q n k h := by
    simp only [List.cons_append, List.mem_cons, List.mem_append, ringCalls] at h ⊢
    grind
  free r q n k h := by
    simp only [List.cons_append, List.mem_cons, List.mem_append, ringCalls] at h ⊢
    grind
  access_iff n k o t := by
    have ho := o.isLt
    have ht := t.isLt
    have hlevel : o = nextRank t → (if (o : ℕ) = 0 then 10 else 10 * (p - o + 1))
        = if (t : ℕ) = 0 then 10 * p else 10 * (p - t) := by
      intro h
      have hval := congrArg Fin.val h
      rw [val_nextRank] at hval
      split_ifs at hval ⊢ <;> omega
    simp only [List.mem_append, List.mem_cons, List.not_mem_nil, reduceCtorEq, false_or, or_false,
      access_mem_ringCalls, expose_mem_ringCalls, eq_previousRank_iff]
    constructor
    · rintro ⟨hn, rfl, h⟩
      exact ⟨_, ⟨hn.trans (hlevel h), rfl, rfl⟩, List.mem_singleton.mpr h⟩
    · rintro ⟨g, ⟨hn, rfl, rfl⟩, hmem⟩
      have h := List.mem_singleton.mp hmem
      exact ⟨hn.trans (hlevel h).symm, rfl, h⟩

end

/-! ## What the tests have in common -/

namespace PostTest

/-- A rank accesses another one in some block. -/
def Active (w : PostTest) (p : ℕ) (o t : Fin p) : Prop :=
  ∃ n, .access n (w.window o) t ∈ w.blocks p o

/-- What is known of the calls of the tests. -/
structure Regular (w : PostTest) (p : ℕ) : Prop where
  paired : Paired (w.blocks p)
  exists_create : ∀ r, ∃ n k, .create n k ∈ w.blocks p r
  exists_access : 1 < p → ∃ o t, w.Active p o t
  /-- Nobody accesses itself, nor another window. -/
  access_window : ∀ {n k o t}, .access n k t ∈ w.blocks p o → k = w.window o ∧ o ≠ t
  cleanup : ∀ b ∈ w.cleanup p, ∃ n k, b = .free n k
  roomy : w.Roomy

theorem regular_of_hostLoop {w : PostTest} {p : ℕ} (hrun : w.run = hostLoop)
    (hcleanup : w.cleanup = fun _ ↦ []) (hwindow : w.window = fun _ ↦ 0)
    (hbytes : w.windowBytes = valuesBytes) :
    w.Regular p := by
  have hblocks : w.blocks p = hostLoop p := by
    funext r
    rw [blocks, hrun, hcleanup, List.append_nil]
  refine ⟨?_, fun r ↦ ⟨0, 0, ?_⟩, fun hp ↦ ⟨⟨1, hp⟩, ⟨0, by omega⟩, 10, ?_⟩, fun {n k o t} h ↦ ?_,
    fun b hb ↦ ?_, AccessTest.roomy_valuesBytes hbytes⟩
  · rw [hblocks]
    exact paired_hostLoop p
  · rw [hblocks]
    exact mem_hostLoop.mpr (.inl rfl)
  · rw [hblocks, hwindow]
    exact access_mem_hostLoop.mpr ⟨rfl, rfl, by simp⟩
  · rw [hblocks] at h
    obtain ⟨-, hk, hne⟩ := access_mem_hostLoop.mp h
    rw [hwindow]
    exact ⟨hk, hne⟩
  · rw [hcleanup] at hb
    exact absurd hb List.not_mem_nil

theorem blocks_put (p : ℕ) : tstPutWithPostAlltoall.blocks p
    = fun r ↦ (List.finRange p).flatMap (putRound r) := funext fun _ ↦ List.append_nil _

theorem regular_put (p : ℕ) : tstPutWithPostAlltoall.Regular p := by
  refine ⟨?_, fun r ↦ ⟨10 * (p + 2) * r, r, ?_⟩, fun hp ↦ ⟨⟨1, hp⟩, ⟨0, by omega⟩,
    10 * (p + 2) * 1 + 10 * (0 + 1), ?_⟩, fun {n k o t} h ↦ ?_,
    fun b hb ↦ absurd hb List.not_mem_nil, AccessTest.roomy_valuesBytes rfl⟩
  · rw [blocks_put]
    exact paired_put p
  · rw [blocks_put]
    exact List.mem_flatMap.mpr ⟨r, List.mem_finRange r, mem_putRound.mpr (.inl rfl)⟩
  · rw [blocks_put]
    exact access_mem_put.mpr ⟨rfl, rfl, by simp⟩
  · rw [blocks_put] at h
    exact (access_mem_put.mp h).2

theorem regular_ring {p : ℕ} (hp : 2 ≤ p) : tstOneSidedSimpleRingGetPost.Regular p := by
  have hmem : ∀ {n k : ℕ} {o t : Fin p},
      .access n k t ∈ tstOneSidedSimpleRingGetPost.blocks p o ↔ .access n k t ∈ ringCalls o := by
    intro n k o t
    simp [blocks, tstOneSidedSimpleRingGetPost]
  refine ⟨paired_ring hp, fun r ↦ ⟨0, 0, by simp [blocks, tstOneSidedSimpleRingGetPost]⟩,
    fun _ ↦ ⟨⟨0, by omega⟩, _, 10, hmem.mpr (access_mem_ringCalls.mpr ⟨rfl, rfl, rfl⟩)⟩,
    fun {n k o t} h ↦ ?_, fun b hb ↦ ⟨_, _, List.mem_singleton.mp hb⟩,
    AccessTest.roomy_standardArrayBytes rfl⟩
  obtain ⟨-, hk, ht⟩ := access_mem_ringCalls.mp (hmem.mp h)
  refine ⟨hk, ?_⟩
  rintro rfl
  have hval := congrArg Fin.val ht
  rw [val_previousRank] at hval
  split_ifs at hval <;> omega

/-- The four tests are regular for all sizes that they are run with. -/
theorem regular {w : PostTest} (hw : w ∈ postTests) {p : ℕ}
    (hp : w = tstOneSidedSimpleRingGetPost → 2 ≤ p) : w.Regular p := by
  simp only [postTests, List.mem_cons, List.not_mem_nil, or_false] at hw
  rcases hw with rfl | rfl | rfl | rfl
  · exact regular_of_hostLoop rfl rfl rfl rfl
  · exact regular_put p
  · exact regular_of_hostLoop rfl rfl rfl rfl
  · exact regular_ring (hp rfl)

end PostTest

end MpiTestSuite
