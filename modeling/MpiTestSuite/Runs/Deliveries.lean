import Mathlib.Data.List.Nodup
import Mathlib.Data.List.Pairwise

/-!
# What has been matched

A system keeps the sends and receives that it has matched, in a list. Each of them stands in a slot
of its process. What is not in the list is open (`openSends`, `openRecvs`). As long as no slot is
matched twice (`Distinct`), a receive has got one message, and it is found in the list
(`Distinct.got_eq`).
-/

namespace MpiTestSuite

namespace Runs

variable {ρ σ κ π : Type*}

/-- A send and a receive that have been matched. -/
structure Delivery (ρ σ κ π : Type*) where
  source : ρ
  sendSlot : σ
  dest : ρ
  recvSlot : σ
  key : κ
  payload : π

namespace Delivery

/-- No slot is matched twice. -/
structure Distinct (l : List (Delivery ρ σ κ π)) : Prop where
  sendSlots : (l.map fun d ↦ (d.source, d.sendSlot)).Nodup
  recvSlots : (l.map fun d ↦ (d.dest, d.recvSlot)).Nodup

section

variable [DecidableEq ρ] [DecidableEq σ] (l : List (Delivery ρ σ κ π))

/-- What the receive in a slot has got: the sender, the key and the payload. -/
def got (q : ρ) (slot : σ) : Option (ρ × κ × π) :=
  (l.find? fun d ↦ d.dest = q ∧ d.recvSlot = slot).map fun d ↦ (d.source, d.key, d.payload)

/-- The sends of a process that have not been matched, in order. -/
def openSends (r : ρ) (sends : List (σ × π)) : List (σ × π) :=
  sends.filter fun x ↦ (r, x.1) ∉ l.map fun d ↦ (d.source, d.sendSlot)

/-- The receives of a process that have not been matched, in order. -/
def openRecvs (q : ρ) (slots : List σ) : List σ :=
  slots.filter fun slot ↦ (q, slot) ∉ l.map fun d ↦ (d.dest, d.recvSlot)

variable {l}

theorem exists_of_got {q : ρ} {slot : σ} {y : ρ × κ × π} (h : got l q slot = some y) :
    ∃ d ∈ l, d.dest = q ∧ d.recvSlot = slot := by
  obtain ⟨d, hfind, -⟩ := Option.map_eq_some_iff.mp h
  exact ⟨d, List.mem_of_find?_eq_some hfind, by simpa using List.find?_some hfind⟩

theorem mem_openSends {r : ρ} {sends : List (σ × π)} {x : σ × π} :
    x ∈ openSends l r sends ↔
      x ∈ sends ∧ (r, x.1) ∉ l.map fun d ↦ (d.source, d.sendSlot) := by
  rw [openSends, List.mem_filter, decide_eq_true_iff]

theorem mem_openRecvs {q : ρ} {slots : List σ} {slot : σ} :
    slot ∈ openRecvs l q slots ↔
      slot ∈ slots ∧ (q, slot) ∉ l.map fun d ↦ (d.dest, d.recvSlot) := by
  rw [openRecvs, List.mem_filter, decide_eq_true_iff]

end

variable {l : List (Delivery ρ σ κ π)} {d d' : Delivery ρ σ κ π}

theorem mem_concat : d' ∈ l ++ [d] ↔ d' ∈ l ∨ d' = d := by
  rw [List.mem_append, List.mem_singleton]

namespace Distinct

theorem nil : Distinct ([] : List (Delivery ρ σ κ π)) := ⟨List.nodup_nil, List.nodup_nil⟩

/-- One more, in slots that have not been matched. -/
theorem concat (h : Distinct l)
    (hsend : (d.source, d.sendSlot) ∉ l.map fun d ↦ (d.source, d.sendSlot))
    (hrecv : (d.dest, d.recvSlot) ∉ l.map fun d ↦ (d.dest, d.recvSlot)) : Distinct (l ++ [d]) := by
  constructor
  · rw [List.map_append]
    exact h.sendSlots.append (List.nodup_singleton _) (List.disjoint_singleton.mpr hsend)
  · rw [List.map_append]
    exact h.recvSlots.append (List.nodup_singleton _) (List.disjoint_singleton.mpr hrecv)

/-- A receive is matched once. -/
theorem eq_of_recv (h : Distinct l) (hd : d ∈ l) (hd' : d' ∈ l) (hdest : d'.dest = d.dest)
    (hslot : d'.recvSlot = d.recvSlot) : d' = d :=
  List.inj_on_of_nodup_map h.recvSlots hd' hd (Prod.ext hdest hslot)

variable [DecidableEq ρ] [DecidableEq σ]

theorem got_eq (h : Distinct l) (hd : d ∈ l) :
    got l d.dest d.recvSlot = some (d.source, d.key, d.payload) := by
  cases hfind : l.find? fun d' ↦ decide (d'.dest = d.dest ∧ d'.recvSlot = d.recvSlot) with
  | none => exact absurd (decide_eq_true ⟨rfl, rfl⟩) (List.find?_eq_none.mp hfind d hd)
  | some d' =>
    obtain ⟨hdest, hslot⟩ : d'.dest = d.dest ∧ d'.recvSlot = d.recvSlot := by
      simpa using List.find?_some hfind
    obtain rfl := h.eq_of_recv hd (List.mem_of_find?_eq_some hfind) hdest hslot
    rw [got, hfind, Option.map_some]

omit [DecidableEq ρ] [DecidableEq σ] in
/-- There is one in each slot that has been matched. -/
theorem countP_eq_one (h : Distinct l) (hd : d ∈ l) {P : Delivery ρ σ κ π → Bool}
    (hP : ∀ d' ∈ l, P d' = true ↔ d'.dest = d.dest ∧ d'.recvSlot = d.recvSlot) :
    l.countP P = 1 := by
  classical
  have hcount : (l.map fun d ↦ (d.dest, d.recvSlot)).count (d.dest, d.recvSlot) = 1 :=
    List.count_eq_one_of_mem h.recvSlots (List.mem_map_of_mem hd)
  rw [List.count, List.countP_map] at hcount
  rw [← hcount]
  refine List.countP_congr fun d' hd' ↦ ?_
  rw [hP d' hd', Function.comp_apply, beq_iff_eq, Prod.mk.injEq]

end Distinct

end Delivery

end Runs

end MpiTestSuite
