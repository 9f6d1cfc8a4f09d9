/-!
# Histories

A history is a list that grows at its end. `Throughout P log` says that every entry of it
stands in the relation `P` to the entries before it, which is what a step that appends an
entry has to show of that entry alone.
-/

namespace History

variable {α : Type} {P Q : List α → α → Prop} {log : List α}

/-- Every entry is related to those before it. -/
def Throughout (P : List α → α → Prop) (log : List α) : Prop :=
  ∀ before e after, log = before ++ e :: after → P before e

theorem throughout_nil : Throughout P [] := by
  intro before e after h
  cases before <;> cases h

/-- The last entry is the only one to look at. -/
theorem Throughout.snoc {e : α} (h : Throughout P log) (he : P log e) :
    Throughout P (log ++ [e]) := by
  intro before x after hsplit
  obtain rfl | ⟨front, y, rfl⟩ := List.eq_nil_or_concat after
  · obtain ⟨rfl, hlast⟩ := List.append_inj' hsplit rfl
    cases hlast
    exact he
  · rw [List.concat_eq_append, ← List.cons_append, ← List.append_assoc] at hsplit
    exact h before x front (List.append_inj' hsplit rfl).1

/-- Entries that satisfy `P` after any others can all be appended. -/
theorem Throughout.append {new : List α} (h : Throughout P log)
    (hnew : ∀ e ∈ new, ∀ before, P before e) : Throughout P (log ++ new) := by
  induction new generalizing log with
  | nil => rwa [List.append_nil]
  | cons e rest ih =>
    rw [← List.singleton_append, ← List.append_assoc]
    exact ih (h.snoc (hnew e List.mem_cons_self log))
      (fun x hx => hnew x (List.mem_cons_of_mem _ hx))

theorem Throughout.mono (h : Throughout P log)
    (hPQ : ∀ before, ∀ e ∈ log, P before e → Q before e) : Throughout Q log := by
  intro before e after hsplit
  exact hPQ before e (by rw [hsplit]; simp) (h before e after hsplit)

end History
