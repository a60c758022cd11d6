import MpiTestSuite.Threaded.PartitionedRuns

/-!
# Fewer receive partitions than send partitions

In `"Threaded ring partitioned with less receive partitions"` a receive partition is as long as four
send partitions. There are a fourth as many of them, rounded down. If the number of workers is not a
multiple of four, the receive is shorter than the send, and behind rank zero the workers of the last
group wait for a signal that nobody sends.

In the function `_init` the workers wait until the global buffer has the size that it should have.
Before the master has done anything it has the size zero. If that is what they wait for, they do not
wait at all, and use requests and a barrier that are not there yet.
-/

namespace MpiTestSuite

namespace Threaded

/-- The number of elements of a receive partition, as the argument of a call, unless the product of
two `int`s overflows. -/
def recvPartitionCount (S : Partitioned) : Option ℤ := do
  let count ← checkedSigned (S.valuesNum * S.ratio)
  if 0 ≤ count then some count else none

/-- What the test promises of a state that is reached. -/
structure ManyToOneWorks (S : Partitioned) (s : Partitioned.State) : Prop where
  /-- The send partitions and the receive partitions of a message have the same number of elements.
  -/
  elements : ∃ count, recvPartitionCount S = some count ∧ S.n * S.valuesNum = S.numRecv * count
  /-- Nobody goes on before the master has made what all threads use. -/
  made : ∀ r u, .awaitBuffer ∈ s.done (r, u) → .initBuffer ∈ s.done (r, S.n)
  /-- No send partition is marked ready twice. -/
  ready : ∀ r < S.p, ∀ i < S.n, S.timesDone s r (.pready i) ≤ 1
  /-- In the end each has been marked. -/
  allReady : (∀ x, s.todo x = []) → ∀ r < S.p, ∀ i < S.n, S.timesDone s r (.pready i) = 1
  /-- A thread that waits for a signal is sent one. -/
  signaled : ∀ r u tag, .signalWait tag ∈ S.program (r, u) → S.times r (.signalSend tag) = 1
  /-- A receive partition is polled by one thread. -/
  polled : ∀ r < S.p, ∀ j < S.numRecv, ∃! u, .waitForPartition j ∈ S.program (r, u)
  /-- As long as a thread has something left to do, there is a step. -/
  noDeadlock : ∀ x, s.todo x ≠ [] → ∃ s', S.Step s s'

section

variable {S : Partitioned} {s : Partitioned.State}

open Partitioned

theorem recvPartitionCount_eq_some_iff {count : ℤ} : recvPartitionCount S = some count ↔
    FitsInt (S.valuesNum * S.ratio) ∧ 0 ≤ S.valuesNum * S.ratio ∧
      S.valuesNum * S.ratio = count := by
  simp only [recvPartitionCount, Option.bind_eq_bind, Option.bind_eq_some_iff,
    checkedSigned_eq_some_iff]
  constructor
  · rintro ⟨_, ⟨hfits, rfl⟩, hcount⟩
    split_ifs at hcount with hnonneg
    exact ⟨hfits, hnonneg, Option.some_inj.mp hcount⟩
  · rintro ⟨hfits, hnonneg, rfl⟩
    exact ⟨_, ⟨hfits, rfl⟩, if_pos hnonneg⟩

/-- The first worker of a group polls the partition of the group. -/
theorem existsUnique_polled (h : S.Admitted) {r j : ℕ} (hr : r < S.p) (hj : j < S.numRecv) :
    ∃! u, .waitForPartition j ∈ S.program (r, u) := by
  refine ⟨S.ratio * j, (mem_waitForPartition h).mpr ⟨hr, ?_, hj, rfl⟩, fun u hu ↦ ?_⟩
  · refine lt_of_covered hj ⟨le_rfl, ?_⟩
    exact Nat.mul_lt_mul_of_pos_left (Nat.lt_succ_self j) h.ratio
  · exact ((mem_waitForPartition h).mp hu).2.2.2

/-- Nobody waits for a size that is zero. -/
theorem exists_hasty (h : S.Admitted) (hp : 0 < S.p) (hn : 0 < S.n) (hsize : S.bufferSize = some 0)
    (sendBuffer recvBuffer : ℕ → Memory) :
    ∃ s, S.Reachable sendBuffer recvBuffer s ∧ .awaitBuffer ∈ s.done (0, 0) ∧
      .initBuffer ∉ s.done (0, S.n) := by
  have htodo : (S.initial sendBuffer recvBuffer).todo (0, 0) = .awaitBuffer ::
      ([.enter .before, .leave .before] ++ S.work 0 0 ++ [.enter .behind, .leave .behind]) :=
    program_worker h hp hn
  have hready : S.BufferReady (S.initial sendBuffer recvBuffer) 0 := ⟨0, hsize, rfl⟩
  refine ⟨_, .single (.inl (.execute htodo hready)), mem_done_execute.mpr (.inr ⟨rfl, rfl⟩),
    fun hdone ↦ ?_⟩
  rcases mem_done_execute.mp hdone with hold | ⟨-, heq⟩
  · exact absurd hold List.not_mem_nil
  · cases heq

/-- If the size is an `int`, and not zero, everybody waits for the master. -/
theorem Partitioned.Genuine.made (h : S.Genuine s) {size : ℕ} (hsize : S.bufferSize = some size)
    (hpos : 0 < size) (hlt : 2 * size < 2 ^ 31) {r u : ℕ}
    (hawait : .awaitBuffer ∈ s.done (r, u)) : .initBuffer ∈ s.done (r, S.n) := by
  obtain ⟨size', hsize', hcase⟩ := h.since _ _ hawait
  obtain rfl := Option.some_inj.mp (hsize.symm.trans hsize')
  refine (hcase.resolve_right fun hzero ↦ ?_).1
  have hnone : sizeT 0 = 0 := rfl
  omega

end

/-- Four divides the number of workers, there are elements and they have bytes, and both buffers
together have a size that is an `int`. -/
structure ManyToOneFits (t : TypeSlot) (valuesNum : ℤ) (n : ℕ) : Prop where
  groups : 4 ∣ n
  count : 1 ≤ valuesNum
  size : 0 < t.size
  bytes : 2 * (n * valuesNum * t.size) < 2 ^ 31

section

variable {cfg : Config} {t : TypeSlot} {valuesNum : ℤ} {commClass : Flags} {p n : ℕ}
  {s : Partitioned.State}

open Partitioned

/-- A receive partition is not longer than the whole message. -/
theorem ManyToOneFits.four_mul_le (h : ManyToOneFits t valuesNum n) (hn : 1 ≤ n) :
    4 * valuesNum ≤ n * valuesNum ∧ n * valuesNum ≤ n * valuesNum * t.size := by
  have hcount := h.count
  have hfour : 4 ≤ n := Nat.le_of_dvd hn h.groups
  refine ⟨mul_le_mul_of_nonneg_right (by exact_mod_cast hfour) (by omega), ?_⟩
  exact le_mul_of_one_le_right (mul_nonneg (Int.natCast_nonneg n) (by omega)) h.size

theorem manyToOneWorks
    (h : (tstThreadedRingPartitionedManyToOne cfg t valuesNum commClass p n).Admitted)
    (hn : 1 ≤ n) (hfits : ManyToOneFits t valuesNum n)
    (hgenuine : (tstThreadedRingPartitionedManyToOne cfg t valuesNum commClass p n).Genuine s) :
    ManyToOneWorks (tstThreadedRingPartitionedManyToOne cfg t valuesNum commClass p n) s := by
  obtain ⟨hfour, hle⟩ := hfits.four_mul_le hn
  have hcount := hfits.count
  have hbytes := hfits.bytes
  have hvalues : FitsInt (n * valuesNum) := ⟨by omega, by omega⟩
  have hnonneg : 0 ≤ n * valuesNum * t.size := by omega
  have hpartition : FitsInt (valuesNum * 4) ∧ 0 ≤ valuesNum * 4 := ⟨⟨by omega, by omega⟩, by omega⟩
  obtain ⟨size, hsize, heq, hlt⟩ : ∃ size,
      (tstThreadedRingPartitionedManyToOne cfg t valuesNum commClass p n).bufferSize = some size ∧
        (size : ℤ) = n * valuesNum * t.size ∧ 2 * size < 2 ^ 31 :=
    exists_bufferSize hvalues hnonneg hbytes
  have hpos : 0 < size := by omega
  have hgroups : 4 ∣ n := hfits.groups
  refine
    { elements := ⟨valuesNum * 4, recvPartitionCount_eq_some_iff.mpr
        ⟨hpartition.1, hpartition.2, rfl⟩, ?_⟩
      made := fun r u hawait ↦ hgenuine.made hsize hpos hlt hawait
      ready := fun r hr i hi ↦ (hgenuine.timesDone_le r _).trans (times_pready h hr hi).le
      allReady := fun htodo r hr i hi ↦ (hgenuine.timesDone_eq htodo r _).trans
        (times_pready h hr hi)
      signaled := fun r u tag hwait ↦ ?_
      polled := fun r hr j hj ↦ existsUnique_polled h hr hj
      noDeadlock := fun x hx ↦
        hgenuine.exists_step h (signaling_of_dvd h hgroups) (sizeKept_of_lt hsize hlt) hx }
  · obtain ⟨m, rfl⟩ := hgroups
    simp only [tstThreadedRingPartitionedManyToOne, numRecv]
    rw [Nat.mul_div_cancel_left m (by decide)]
    push_cast
    ring
  · have hsend := mem_signalSend_iff h hgroups hwait
    obtain ⟨-, hu, -⟩ := (mem_signalSend h).mp ((hsend _).mpr rfl)
    exact times_eq_one h (Nat.lt_succ_of_lt hu) hsend

/-- If the receive is as long as the send, four divides the number of workers. -/
theorem dvd_of_elements (hcount : valuesNum ≠ 0)
    (helements : n * valuesNum = (n / 4 : ℕ) * (valuesNum * 4)) : 4 ∣ n := by
  have hcancel : (n : ℤ) = (n / 4 : ℕ) * 4 := by
    refine mul_right_cancel₀ hcount ?_
    rw [helements]
    ring
  omega

theorem manyToOneFits_of_works (ht : t ∈ initTypes cfg) (hnull : t.datatype ≠ .null)
    (h : (tstThreadedRingPartitionedManyToOne cfg t valuesNum commClass p n).Admitted)
    (hp : 0 < p) (hn : 0 < n) {sendBuffer recvBuffer : ℕ → Memory}
    (hworks : ∀ s, (tstThreadedRingPartitionedManyToOne cfg t valuesNum commClass p n).Reachable
        sendBuffer recvBuffer s →
      ManyToOneWorks (tstThreadedRingPartitionedManyToOne cfg t valuesNum commClass p n) s) :
    ManyToOneFits t valuesNum n := by
  obtain ⟨fields, hsettable⟩ := exists_settable cfg ht hnull
  obtain ⟨count, hcount, helements⟩ := (hworks _ .refl).elements
  obtain ⟨-, hnonneg, rfl⟩ := recvPartitionCount_eq_some_iff.mp hcount
  have hnonneg : 0 ≤ valuesNum * 4 := hnonneg
  -- a run comes to its end, and so the threads leave `_init`
  obtain ⟨s, hs, htodo⟩ := exists_finished h sendBuffer recvBuffer fun s hs ↦
    (hworks s hs).noDeadlock
  have hawait : .awaitBuffer ∈ s.done (0, n) := by
    rw [hs.genuine.done_eq (htodo _)]
    exact (mem_awaitBuffer h).mpr ⟨hp, Nat.lt_succ_self n⟩
  obtain ⟨size, hsize, hkept⟩ := hs.genuine.since _ _ hawait
  have hvalues : 0 ≤ valuesNum := by omega
  obtain ⟨heq, hlt⟩ : (size : ℤ) = n * valuesNum * t.size ∧ 2 * size < 2 ^ 31 :=
    size_of_since ht hvalues hsettable.size_nonneg hsize (hkept.imp_left And.right)
  -- and they do not leave it before the master
  have hpos : (n * valuesNum * t.size : ℤ) ≠ 0 := by
    intro hzero
    obtain rfl : size = 0 := by omega
    obtain ⟨s', hs', hawait', hnot⟩ := exists_hasty h hp hn hsize sendBuffer recvBuffer
    exact hnot ((hworks s' hs').made 0 0 hawait')
  obtain ⟨hproduct, hsizeNe⟩ := mul_ne_zero_iff.mp hpos
  have hvaluesNe := (mul_ne_zero_iff.mp hproduct).2
  exact ⟨dvd_of_elements hvaluesNe helements, by omega,
    lt_of_le_of_ne hsettable.size_nonneg hsizeNe.symm, by omega⟩

end

/-- **Fewer receive partitions.** With any number of ranks and workers the test does what it
promises, in every state that is reached, exactly if four divides the number of workers, there are
elements, which have bytes in the table, and both buffers together have a size that is an `int`. -/
theorem many_to_one_works_iff (cfg : Config) (t : TypeSlot) (ht : t ∈ initTypes cfg)
    (hnull : t.datatype ≠ .null) (env : Env) (row : Test)
    (hrow : tstTest cfg env.test = some row)
    (hname : row.functions = some "tst_threaded_ring_partitioned_many_to_one") (commClass : Flags)
    (hadmitted : commClass &&& row.runWithComm ≠ 0) (p : ℕ)
    (hself : commClass &&& tstMpiCommSelf ≠ 0 → p = 1) (hp : 1 ≤ p) (n : ℕ) (hn : 1 ≤ n)
    (sendBuffer recvBuffer : ℕ → Memory) :
    (∀ s, (tstThreadedRingPartitionedManyToOne cfg t env.valuesNum commClass p n).Reachable
        sendBuffer recvBuffer s →
      ManyToOneWorks
        (tstThreadedRingPartitionedManyToOne cfg t env.valuesNum commClass p n) s) ↔
    ManyToOneFits t env.valuesNum n := by
  rw [runWithComm_threaded hrow (by simp [threadedFunctions]) hname] at hadmitted
  have h : (tstThreadedRingPartitionedManyToOne cfg t env.valuesNum commClass p n).Admitted :=
    Partitioned.admitted_of_class (Nat.succ_pos 3) hadmitted hself
  exact ⟨manyToOneFits_of_works ht hnull h hp hn,
    fun hfits s hs ↦ manyToOneWorks h hn hfits hs.genuine⟩

/-- Two ranks with eight workers each. -/
theorem many_to_one_works_iff_two :
    let S := tstThreadedRingPartitionedManyToOne
      ⟨2, true, true, true, true, true, true, true, true⟩ (slotMpi2 6) 3 tstMpiIntraComm 2 8
    (∀ s, S.Reachable (fun _ _ ↦ 0) (fun _ _ ↦ 0) s → ManyToOneWorks S s) ↔
      ManyToOneFits (slotMpi2 6) 3 8 :=
  many_to_one_works_iff ⟨2, true, true, true, true, true, true, true, true⟩ (slotMpi2 6)
    (by decide +kernel) (by decide +kernel) ⟨110, 0, 6, 3, 0⟩ _ rfl rfl tstMpiIntraComm (by decide)
    2 (by decide) (by decide) 8 (by decide) (fun _ _ ↦ 0) (fun _ _ ↦ 0)

/-- Two ranks with two workers each are not what the test promises. -/
theorem many_to_one_fails : ¬∀ commClass : Flags,
    commClass &&& (tstMpiCommSelf ||| tstMpiIntraComm) ≠ 0 → ∀ p : ℕ, 1 ≤ p →
    (commClass &&& tstMpiCommSelf ≠ 0 → p = 1) → ∀ n : ℕ, 1 ≤ n → ∀ s,
      (tstThreadedRingPartitionedManyToOne ⟨2, true, true, true, true, true, true, true, true⟩
        (slotMpi2 6) 3 commClass p n).Reachable (fun _ _ ↦ 0) (fun _ _ ↦ 0) s →
      ManyToOneWorks (tstThreadedRingPartitionedManyToOne
        ⟨2, true, true, true, true, true, true, true, true⟩ (slotMpi2 6) 3 commClass p n) s := by
  intro h
  have hworks := h tstMpiIntraComm (by decide) 2 (by decide) (by decide) 2 (by decide)
  have hfits := manyToOneFits_of_works (by decide +kernel) (by decide +kernel)
    (Partitioned.admitted_of_class (by decide) (by decide) (by decide)) Nat.two_pos Nat.two_pos
    hworks
  exact absurd hfits.groups (by decide)

end Threaded

end MpiTestSuite
