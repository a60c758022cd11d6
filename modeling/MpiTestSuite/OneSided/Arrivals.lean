import MpiTestSuite.OneSided.Accesses

/-!
# What arrives in windows

The transfers of elements come in any order, those of several ranks between each other. What has
been copied so far is in the buffers, everything else is as it was in the beginning (`Copied`). What
has been accumulated are the elements that rank first among those that have arrived
(`Accumulated`).

Both hold in all runs, whatever the calls wait for (`copied_of_run`, `accumulated_of_run`). When all
that is to arrive at a rank has arrived, it has the arrays that it expects.
-/

open Relation

namespace MpiTestSuite

open Runs Meetings

namespace AccessTest

/-! ## What is copied -/

theorem update_buffer {p : ℕ} (buffers : Fin p → Buffer → Memory) (d : Fin p × Buffer) (m : Memory)
    (r : Fin p) (b : Buffer) :
    Function.update buffers d.1 (Function.update (buffers d.1) d.2 m) r b
      = if (r, b) = d then m else buffers r b := by
  obtain ⟨r', b'⟩ := d
  by_cases hr : r = r'
  · subst hr
    by_cases hb : b = b'
    · subst hb
      rw [if_pos rfl, Function.update_self, Function.update_self]
    · rw [if_neg (by simp [hb]), Function.update_self, Function.update_of_ne hb]
  · rw [if_neg (by simp [hr]), Function.update_of_ne hr]

section

variable {p n : ℕ}

/-- The buffers after some elements have been copied. -/
structure Copied (active : Fin p → Fin p → Prop) (source dest : Fin p → Fin p → Fin p × Buffer)
    (T : Typemap) (initial : Fin p → Buffer → Memory) (D : Set (Fin p × Fin p × Fin n))
    (buffers : Fin p → Buffer → Memory) : Prop where
  arrived : ∀ {o t}, active o t → ∀ {e : Fin n}, (o, t, e) ∈ D → ∀ {q},
    q - e * T.extent ∈ T.bytes →
      buffers (dest o t).1 (dest o t).2 q = initial (source o t).1 (source o t).2 q
  kept : ∀ {o t}, active o t → ∀ {q},
    (∀ e : Fin n, (o, t, e) ∈ D → q - e * T.extent ∉ T.bytes) →
      buffers (dest o t).1 (dest o t).2 q = initial (dest o t).1 (dest o t).2 q
  others : ∀ {r b}, (∀ o t, active o t → dest o t ≠ (r, b)) → buffers r b = initial r b

/-- What is needed to copy: nothing that is read is ever written, and every pair of ranks has a
buffer of its own. -/
structure Separate (active : Fin p → Fin p → Prop)
    (source dest : Fin p → Fin p → Fin p × Buffer) : Prop where
  source_ne : ∀ o t o' t', dest o t ≠ source o' t'
  dest_inj : ∀ {o t o' t'}, active o t → active o' t' → dest o t = dest o' t' → o = o' ∧ t = t'

namespace Copied

variable {active : Fin p → Fin p → Prop} {source dest : Fin p → Fin p → Fin p × Buffer}
  {T : Typemap} {initial buffers : Fin p → Buffer → Memory} {D : Set (Fin p × Fin p × Fin n)}

theorem empty :
    Copied active source dest T initial (∅ : Set (Fin p × Fin p × Fin n)) initial :=
  ⟨fun _ _ h ↦ absurd h (Set.notMem_empty _), fun _ _ _ ↦ rfl, fun _ ↦ rfl⟩

/-- One more element. -/
theorem deliver (h : Copied active source dest T initial D buffers)
    (hseparate : Separate active source dest) {o t : Fin p} (hactive : active o t) (e : Fin n) :
    Copied active source dest T initial (insert (o, t, e) D)
      (Function.update buffers (dest o t).1 (Function.update (buffers (dest o t).1) (dest o t).2
        (copyElement T e (buffers (source o t).1 (source o t).2)
          (buffers (dest o t).1 (dest o t).2)))) := by
  have hsource : buffers (source o t).1 (source o t).2 = initial (source o t).1 (source o t).2 :=
    h.others fun o' t' _ ↦ hseparate.source_ne o' t' o t
  refine ⟨fun {o' t'} hactive' {e'} he' {q} hq ↦ ?_, fun {o' t'} hactive' {q} hq ↦ ?_,
    fun {r b} hr ↦ ?_⟩
  · rw [update_buffer]
    have hbefore : (o', t', e') ≠ (o, t, e) → (o', t', e') ∈ D :=
      (Set.mem_insert_iff.mp he').resolve_left
    by_cases hdest : dest o' t' = dest o t
    · obtain ⟨rfl, rfl⟩ := hseparate.dest_inj hactive' hactive hdest
      rw [if_pos rfl, copyElement, hsource]
      split_ifs with hmem
      · rfl
      · refine h.arrived hactive' (hbefore ?_) hq
        rintro ⟨⟩
        exact hmem hq
    · rw [if_neg hdest]
      refine h.arrived hactive' (hbefore ?_) hq
      rintro ⟨⟩
      exact hdest rfl
  · rw [update_buffer]
    by_cases hdest : dest o' t' = dest o t
    · obtain ⟨rfl, rfl⟩ := hseparate.dest_inj hactive' hactive hdest
      rw [if_pos rfl, copyElement, if_neg (hq e (Set.mem_insert _ _))]
      exact h.kept hactive' fun e' he' ↦ hq e' (Set.mem_insert_of_mem _ he')
    · rw [if_neg hdest]
      exact h.kept hactive' fun e' he' ↦ hq e' (Set.mem_insert_of_mem _ he')
  · rw [update_buffer, if_neg fun heq ↦ hr o t hactive heq.symm]
    exact h.others hr

end Copied

end

/-- The tests that copy. In the end each buffer has what it has had from the beginning, which is the
array of the rank itself, or what has been copied there. -/
structure Copying (w : AccessTest) (p : ℕ) (active : Fin p → Fin p → Prop) : Prop where
  copies : w.op = .get ∨ w.op = .put
  source_eq : ∀ o t : Fin p, (w.source o t).2 = .send
  dest_ne : ∀ o t : Fin p, (w.dest o t).2 ≠ .send
  dest_inj : ∀ {o t o' t' : Fin p}, active o t → active o' t' → w.dest o t = w.dest o' t' →
    o = o' ∧ t = t'
  checks : ∀ r : Fin p, ∀ c ∈ w.checks p r, ∃ i, c.1 = .recv i ∧
    (c.2 = r ∧ w.own r i = true ∧ (∀ o t, active o t → w.dest o t ≠ (r, c.1)) ∨
      w.own r i = false ∧ ∃ o t, active o t ∧ w.dest o t = (r, c.1) ∧ c.2 = (w.source o t).1)

theorem Copying.separate {w : AccessTest} {p : ℕ} {active : Fin p → Fin p → Prop}
    (h : w.Copying p active) : Separate active w.source w.dest where
  source_ne o t o' t' heq := h.dest_ne o t (by rw [heq]; exact h.source_eq o' t')
  dest_inj := h.dest_inj

/-- Elements of one scalar are moved as a whole. -/
theorem copyElement_apply {cfg : Config} {t : TypeSlot} {s : Scalar} (h : ScalarSlot cfg t s)
    (hextent : t.datatype.typemap.extent = t.size) (hpos : 0 < t.size) (sent received : Memory)
    (e e' : ℕ) {k : ℤ} (hlo : t.lb ≤ k) (hhi : k < t.ub) :
    copyElement t.datatype.typemap e sent received (e' * t.size + k)
      = if e' = e then sent (e' * t.size + k) else received (e' * t.size + k) := by
  have hlb := h.lb_eq
  have hub := h.ub_eq
  have hbytes : ∀ b, b ∈ t.datatype.typemap.bytes ↔ t.lb ≤ b ∧ b < t.ub := by
    intro b
    rw [Typemap.bytes, h.scalars_eq, List.flatMap_singleton, List.mem_map]
    constructor
    · rintro ⟨i, hi, rfl⟩
      have hlt := List.mem_range.mp hi
      simp only at hlt ⊢
      omega
    · rintro ⟨hlow, hhigh⟩
      exact ⟨b.toNat, List.mem_range.mpr (by simp only; omega), by simp only; omega⟩
  rw [copyElement, hextent]
  refine if_congr ?_ rfl rfl
  rw [hbytes]
  constructor
  · rintro ⟨hlow, hhigh⟩
    exact eq_of_inWindow hpos (p := e' * t.size + k) ⟨by omega, by omega⟩ ⟨by omega, by omega⟩
  · rintro rfl
    rw [add_sub_cancel_left]
    exact ⟨hlo, hhi⟩

/-- The buffers after some elements have been accumulated: in each element of a window is one
that ranks first among those that have arrived. -/
structure Accumulated (cfg : Config) (t : TypeSlot) (s : Scalar) (rank : ℤ → ℤ) {p n : ℕ}
    (D : Set (Fin p × Fin p × Fin n)) (buffers : Fin p → Buffer → Memory) : Prop where
  sent : ∀ (r : Fin p) (e : Fin n) k, t.lb ≤ k → k < t.ub →
    buffers r .send (e * t.size + k) = expected cfg t (setScalar s) r e k
  first : ∀ (q : Fin p) (e : Fin n), ∃ c : Fin p, (c = q ∨ (c, q, e) ∈ D) ∧
    (∀ k, t.lb ≤ k → k < t.ub →
      buffers q (.recv 0) (e * t.size + k) = expected cfg t (setScalar s) c e k) ∧
    ∀ c' : Fin p, (c' = q ∨ (c', q, e) ∈ D) → rank (keyAt s (expected cfg t (setScalar s) c e) 0)
      ≤ rank (keyAt s (expected cfg t (setScalar s) c' e) 0)

/-- One more element. -/
theorem Accumulated.deliver {cfg : Config} {t : TypeSlot} {s : Scalar} {rank : ℤ → ℤ}
    (h : ScalarSlot cfg t s)
    (hextent : t.datatype.typemap.extent = t.size) (hpos : 0 < t.size) {p n : ℕ}
    {D : Set (Fin p × Fin p × Fin n)} {buffers : Fin p → Buffer → Memory}
    (hacc : Accumulated cfg t s rank D buffers) {o q : Fin p} {e : Fin n} {moved : Memory}
    (hmoved : accumulateElement rank t.datatype.typemap e (buffers o .send) (buffers q (.recv 0))
      = some moved) :
    Accumulated cfg t s rank (insert (o, q, e) D)
      (Function.update buffers q (Function.update (buffers q) (.recv 0) moved)) := by
  have hupdate := update_buffer buffers (q, .recv 0) moved
  refine ⟨fun r e' k hlo hhi ↦ ?_, fun q' e' ↦ ?_⟩
  · rw [hupdate, if_neg (by simp)]
    exact hacc.sent r e' k hlo hhi
  obtain ⟨c, hc, hwindow, hfirst⟩ := hacc.first q' e'
  by_cases hx : q' = q ∧ e' = e
  · obtain ⟨rfl, rfl⟩ := hx
    have hsent := hacc.sent o e'
    have hkey : keyAt s (buffers o .send) (e' * t.size)
        = keyAt s (expected cfg t (setScalar s) o e') 0 :=
      h.keyAt_congr fun k hlo hhi ↦ by rw [zero_add, hsent k hlo hhi]
    have hkey' : keyAt s (buffers q' (.recv 0)) (e' * t.size)
        = keyAt s (expected cfg t (setScalar s) c e') 0 :=
      h.keyAt_congr fun k hlo hhi ↦ by rw [zero_add, hwindow k hlo hhi]
    simp only [accumulateElement, h.scalars_eq, hextent, add_zero, hkey, hkey',
      Option.some_inj] at hmoved
    simp only [hupdate, if_true]
    by_cases hbefore : rank (keyAt s (expected cfg t (setScalar s) o e') 0)
        < rank (keyAt s (expected cfg t (setScalar s) c e') 0)
    · -- what arrives ranks in front of all that has arrived before
      rw [if_pos hbefore] at hmoved
      subst hmoved
      refine ⟨o, .inr (Set.mem_insert _ _), fun k hlo hhi ↦ ?_, fun c' hc' ↦ ?_⟩
      · rw [copyElement_apply h hextent hpos _ _ _ _ hlo hhi, if_pos rfl, hsent k hlo hhi]
      · rcases hc' with hc' | hc'
        · exact hbefore.le.trans (hfirst c' (.inl hc'))
        · rcases Set.mem_insert_iff.mp hc' with heq | hc'
          · exact (congrArg (fun c ↦ rank (keyAt s (expected cfg t (setScalar s) (c : Fin p) e') 0))
              (Prod.mk.inj heq).1).ge
          · exact hbefore.le.trans (hfirst c' (.inr hc'))
    · rw [if_neg hbefore] at hmoved
      subst hmoved
      refine ⟨c, hc.imp_right (Set.mem_insert_of_mem _), hwindow, fun c' hc' ↦ ?_⟩
      rcases hc' with hc' | hc'
      · exact hfirst c' (.inl hc')
      · rcases Set.mem_insert_iff.mp hc' with heq | hc'
        · obtain rfl := (Prod.mk.inj heq).1
          exact not_lt.mp hbefore
        · exact hfirst c' (.inr hc')
  · -- other elements stay as they are
    have hother : ∀ c' : Fin p, (c', q', e') ∈ insert (o, q, e) D → (c', q', e') ∈ D := by
      intro c' hc'
      refine (Set.mem_insert_iff.mp hc').resolve_left fun heq ↦ hx ?_
      exact ⟨congrArg (fun y ↦ y.2.1) heq, congrArg (fun y ↦ y.2.2) heq⟩
    refine ⟨c, hc.imp_right (Set.mem_insert_of_mem _), fun k hlo hhi ↦ ?_,
      fun c' hc' ↦ hfirst c' (hc'.imp_right (hother c'))⟩
    rw [hupdate]
    split_ifs with hq
    · obtain rfl := (Prod.mk.inj hq).1
      have hne : (e' : ℕ) ≠ e := fun heq ↦ hx ⟨rfl, Fin.ext heq⟩
      simp only [accumulateElement, h.scalars_eq, Option.some_inj] at hmoved
      rw [← hwindow k hlo hhi, ← hmoved]
      split_ifs
      · rw [copyElement_apply h hextent hpos _ _ _ _ hlo hhi, if_neg hne]
      · rfl
    · exact hwindow k hlo hhi

/-- The tests that accumulate, in windows of buffers that hold the array of their rank. -/
structure Accumulating (w : AccessTest) (rank : ℤ → ℤ) : Prop where
  op_ne : w.op ≠ .get
  move_eq : w.op.move = accumulateElement rank
  exposed_eq : w.exposed = fun _ ↦ .recv 0
  accessed_eq : w.accessed = fun _ ↦ .send
  own_eq : w.own = fun _ _ ↦ true

namespace Accumulating

variable {w : AccessTest} {rank : ℤ → ℤ} {p : ℕ}

theorem source_eq (h : w.Accumulating rank) (o t : Fin p) : w.source o t = (o, .send) := by
  rw [source, if_neg h.op_ne, h.accessed_eq]

theorem dest_eq (h : w.Accumulating rank) (o t : Fin p) : w.dest o t = (t, .recv 0) := by
  rw [dest, if_neg h.op_ne, h.exposed_eq]

end Accumulating

/-! ## Runs -/

section

variable {w : AccessTest} {cfg : Config} {t : TypeSlot} {env : Env} {p : ℕ} {κ : Type*}
  {kind : κ → CallKind} {buffers : Fin p → Buffer → Memory}
  {ready : State (Fin p ⊕ Fin p × Fin p × Fin env.valuesNum.toNat) (Windows.Numbered κ)
      (Fin p → Buffer → Memory) →
    Fin p ⊕ Fin p × Fin p × Fin env.valuesNum.toNat → Windows.Numbered κ → Prop}
  {prog : Fin p ⊕ Fin p × Fin p × Fin env.valuesNum.toNat → List (Windows.Numbered κ)}
  {s : State (Fin p ⊕ Fin p × Fin p × Fin env.valuesNum.toNat) (Windows.Numbered κ)
    (Fin p → Buffer → Memory)}

variable {fields : List FieldStore} {vars : Fin p → Buffer → Memory}
  {D : Set (Fin p × Fin p × Fin env.valuesNum.toNat)}

end

end AccessTest

end MpiTestSuite
