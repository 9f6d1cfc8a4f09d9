import Mathlib.Data.Finset.Card

/-!
# Counting marks

A list of Booleans read as a set of positions from a base on: how many marks it has
is the size of that set, and marks that all lie below a bound are no more than it.
-/

namespace Marks

theorem count_eq_card (l : List Bool) (b : Nat) (A : Finset Nat)
    (h : ∀ p, p ∈ A ↔ b ≤ p ∧ l[p - b]? = some true) : l.count true = A.card := by
  induction l generalizing b A with
  | nil =>
    have hA : A = ∅ := by
      apply Finset.eq_empty_of_forall_notMem
      intro p hp
      simpa using ((h p).mp hp).2
    simp [hA]
  | cons x xs ih =>
    have hrest : ∀ p, p ∈ A.erase b ↔ b + 1 ≤ p ∧ xs[p - (b + 1)]? = some true := by
      intro p
      rw [Finset.mem_erase, h p]
      constructor
      · rintro ⟨hne, hle, hp⟩
        rw [show p - b = p - (b + 1) + 1 by omega, List.getElem?_cons_succ] at hp
        exact ⟨by omega, hp⟩
      · rintro ⟨hle, hp⟩
        refine ⟨by omega, by omega, ?_⟩
        rw [show p - b = p - (b + 1) + 1 by omega, List.getElem?_cons_succ]
        exact hp
    have hi := ih (b + 1) (A.erase b) hrest
    have hb : b ∈ A ↔ x = true := by simp [h b]
    cases x with
    | true =>
      have := Finset.card_erase_add_one (hb.mpr rfl)
      simp only [List.count_cons_self, hi]
      exact this
    | false =>
      have hn : b ∉ A := fun hm => by simpa using hb.mp hm
      rw [Finset.erase_eq_of_notMem hn] at hi
      simpa using hi

theorem count_le {l : List Bool} {m : Nat} (h : ∀ j, l[j]? = some true → j < m) :
    l.count true ≤ m := by
  have hz : (l.drop m).count true = 0 := by
    apply List.count_eq_zero.mpr
    intro hm
    obtain ⟨j, hj⟩ := List.getElem?_of_mem hm
    rw [List.getElem?_drop] at hj
    have := h _ hj
    omega
  calc l.count true = (l.take m ++ l.drop m).count true := by rw [List.take_append_drop]
    _ = (l.take m).count true := by rw [List.count_append, hz, Nat.add_zero]
    _ ≤ (l.take m).length := List.count_le_length
    _ ≤ m := List.length_take_le _ _

end Marks
