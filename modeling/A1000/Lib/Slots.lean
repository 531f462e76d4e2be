import Mathlib.Data.List.Perm.Basic

/-!
# Slots that are taken in turn

A table with a fixed number of slots. What is put in takes the first slot that is free and, when
there is none, the one whose turn it is, which then goes round. Read from that slot on and round,
the table is a queue: what is put in stands at its end, and what has to make way at its head.

## Main definitions

* `Slots.queue` — what is in the slots, in the order in which it was put in
* `Slots.Filled` — the free slots come last, and nobody's turn has come before there are none

## Main results

* `Slots.Filled.put_free`, `Slots.Filled.put_next` — putting something in
-/

namespace Slots

variable {α : Type*} {used : α → Bool} {slots : List α} {next i : ℕ} {e : α}

/-- What is in the slots, oldest first, when it is the turn of the slot `next`. -/
def queue (used : α → Bool) (slots : List α) (next : ℕ) : List α :=
  (slots.drop next ++ slots.take next).filter used

/-- The free slots come last, and the turn has not moved while there are any. -/
structure Filled (used : α → Bool) (slots : List α) (next : ℕ) : Prop where
  next_lt : next < slots.length
  split : ∃ xs ys, slots = xs ++ ys ∧ (∀ e ∈ xs, used e = true) ∧ (∀ e ∈ ys, used e = false) ∧
    (ys = [] ∨ next = 0)

theorem queue_zero (used : α → Bool) (slots : List α) :
    queue used slots 0 = slots.filter used := by
  rw [queue, List.drop_zero, List.take_zero, List.append_nil]

theorem queue_of_forall (h : ∀ e ∈ slots, used e = true) :
    queue used slots next = slots.drop next ++ slots.take next := by
  refine List.filter_eq_self.mpr fun e he => ?_
  rcases List.mem_append.mp he with he | he
  · exact h e (List.mem_of_mem_drop he)
  · exact h e (List.mem_of_mem_take he)

theorem mem_queue : e ∈ queue used slots next ↔ e ∈ slots ∧ used e = true := by
  rw [queue, List.mem_filter, List.mem_append, or_comm, ← List.mem_append, List.take_append_drop]

theorem queue_perm (used : α → Bool) (slots : List α) (next : ℕ) :
    (queue used slots next).Perm (slots.filter used) := by
  have hround : (slots.drop next ++ slots.take next).Perm slots := by
    rw [← List.perm_append_comm.congr_left slots, List.take_append_drop]
  exact hround.filter used

/-- **Something is put in a free slot**: it stands at the end of the queue. -/
theorem Filled.put_free (h : Filled used slots next)
    (hi : slots.findIdx? (fun e => !used e) = some i) (he : used e = true) :
    Filled used (slots.set i e) next ∧
      queue used (slots.set i e) next = queue used slots next ++ [e] := by
  obtain ⟨xs, ys, rfl, hxs, hys, hturn⟩ := h.split
  obtain ⟨hlt, hfree, hbefore⟩ := List.findIdx?_eq_some_iff_getElem.mp hi
  -- the first free slot is the one after those that are taken
  cases ys with
  | nil =>
    have hused := hxs _ (List.getElem_mem (by simpa using hlt))
    simp only [List.append_nil] at hfree
    rw [hused] at hfree
    cases hfree
  | cons y ys =>
    obtain rfl : next = 0 := hturn.resolve_left (List.cons_ne_nil y ys)
    have hi' : i = xs.length := by
      rcases Nat.lt_trichotomy i xs.length with hlt' | heq | hgt
      · rw [List.getElem_append_left hlt', hxs _ (List.getElem_mem hlt')] at hfree
        cases hfree
      · exact heq
      · have hy := hbefore xs.length hgt
        rw [List.getElem_append_right (Nat.le_refl _)] at hy
        simp [hys y List.mem_cons_self] at hy
    subst hi'
    have hset : (xs ++ y :: ys).set xs.length e = xs ++ [e] ++ ys := by simp
    have hx : xs.filter used = xs := List.filter_eq_self.mpr hxs
    have hy : ys.filter used = [] := List.filter_eq_nil_iff.mpr fun z hz => by
      simp [hys z (List.mem_cons_of_mem _ hz)]
    refine ⟨⟨by rw [List.length_set]; exact h.next_lt, xs ++ [e], ys, hset, ?_, ?_, .inr rfl⟩, ?_⟩
    · rw [List.forall_mem_append]
      exact ⟨hxs, by simp [he]⟩
    · exact fun z hz => hys z (List.mem_cons_of_mem _ hz)
    · rw [hset, queue_zero, queue_zero]
      simp [List.filter_append, hx, hy, he, hys y List.mem_cons_self]

/-- **Something is put in where all slots are taken**: the head of the queue makes way. -/
theorem Filled.put_next (h : Filled used slots next)
    (hfull : slots.findIdx? (fun e => !used e) = none) (he : used e = true) :
    Filled used (slots.set next e) ((next + 1) % slots.length) ∧
      ∃ old rest, slots[next]? = some old ∧ queue used slots next = old :: rest ∧
        queue used (slots.set next e) ((next + 1) % slots.length) = rest ++ [e] := by
  have hlt := h.next_lt
  have hall : ∀ e ∈ slots, used e = true := by
    intro e he
    simpa using List.findIdx?_eq_none_iff.mp hfull e he
  have hall' : ∀ x ∈ slots.set next e, used x = true := by
    intro x hx
    rcases List.mem_or_eq_of_mem_set hx with hx | rfl
    · exact hall x hx
    · exact he
  have hqueue : queue used slots next =
      slots[next] :: (slots.drop (next + 1) ++ slots.take next) := by
    rw [queue_of_forall hall, List.drop_eq_getElem_cons hlt, List.cons_append]
  refine ⟨⟨by rw [List.length_set]; exact Nat.mod_lt _ (by omega), slots.set next e, [], by simp,
    hall', by simp, .inl rfl⟩, _, _, List.getElem?_eq_getElem hlt, hqueue, ?_⟩
  rw [queue_of_forall hall']
  rcases Nat.lt_or_ge (next + 1) slots.length with hmore | hlast
  · rw [Nat.mod_eq_of_lt hmore, List.drop_set_of_lt (Nat.lt_succ_self next),
      List.take_succ_eq_append_getElem (by rw [List.length_set]; exact hlt),
      List.getElem_set_self, List.take_set_of_le (Nat.le_refl _), List.append_assoc]
  · -- the turn goes round
    obtain hround : next + 1 = slots.length := by omega
    rw [hround, Nat.mod_self, List.drop_zero, List.take_zero, List.append_nil, ← hround,
      List.drop_of_length_le (by omega), List.nil_append, List.set_eq_take_append_cons_drop,
      if_pos hlt, List.drop_of_length_le (by omega)]

end Slots
