import Sponge.Lib.Exec

/-!
# Strings in pieces

A string is kept as a list of pieces, and its first `n` elements are dropped: while there is
something left to drop, a piece that is not longer is popped, and a longer one is cut.

* `discard`: the loop;
* `discard_enough`: it drops what there is to drop;
* `discard_short`: it fails when there is not enough.
-/

namespace Pieces

variable {φ α β : Type}

/-- One round, with a number of elements left to drop. `cut` drops from inside a piece, and
`short` is the error when there is no piece. -/
def discardRound (contents : α → List β) (cut : α → Nat → Except φ α) (short : φ) (n : Nat)
    (pieces : List α) : Except φ (ForInStep (Nat × List α)) :=
  if n > 0 then
    match pieces with
    | [] => .error short
    | front :: rest =>
      if n < (contents front).length then do
        let front ← cut front n
        return .yield (0, front :: rest)
      else
        return .yield (n - (contents front).length, rest)
  else
    return .done (n, pieces)

/-- The loop. Every round but the last two pops a piece. -/
def discard (spin : φ) (contents : α → List β) (cut : α → Nat → Except φ α) (short : φ) (n : Nat)
    (pieces : List α) : Except φ (List α) := do
  let (_, pieces) ← Exec.loop spin (fun s => discardRound contents cut short s.1 s.2)
    (pieces.length + 2) (n, pieces)
  return pieces

section
variable {short : φ} {contents : α → List β} {cut : α → Nat → Except φ α}

@[simp] theorem discardRound_zero (pieces : List α) :
    discardRound contents cut short 0 pieces = .ok (.done (0, pieces)) := rfl

theorem discardRound_cut {n : Nat} {front cutFront : α} (rest : List α)
    (h : n + 1 < (contents front).length) (hcut : cut front (n + 1) = .ok cutFront) :
    discardRound contents cut short (n + 1) (front :: rest) =
      .ok (.yield (0, cutFront :: rest)) := by
  simp only [discardRound, gt_iff_lt, Nat.succ_pos, ↓reduceIte, h, hcut, Exec.ok_bind, Exec.pure_ok]

theorem discardRound_pop {n : Nat} {front : α} (rest : List α)
    (h : (contents front).length ≤ n + 1) :
    discardRound contents cut short (n + 1) (front :: rest) =
      .ok (.yield (n + 1 - (contents front).length, rest)) := by
  simp only [discardRound, gt_iff_lt, Nat.succ_pos, ↓reduceIte, Nat.not_lt.mpr h, Exec.pure_ok]

end

section
variable (spin short : φ) (contents : α → List β) (cut : α → Nat → Except φ α)

/-- **Enough to drop.** -/
theorem discard_enough (hcut : ∀ a n, n ≤ (contents a).length →
      ∃ b, cut a n = .ok b ∧ contents b = (contents a).drop n)
    {n : Nat} {pieces : List α} (h : n ≤ (pieces.flatMap contents).length) :
    ∃ rest, discard spin contents cut short n pieces = .ok rest ∧
      rest.flatMap contents = (pieces.flatMap contents).drop n := by
  suffices hloop : ∃ rest, Exec.loop spin (fun s => discardRound contents cut short s.1 s.2)
      (pieces.length + 2) (n, pieces) = .ok (0, rest) ∧
      rest.flatMap contents = (pieces.flatMap contents).drop n by
    obtain ⟨rest, hrest, hdrop⟩ := hloop
    exact ⟨rest, by rw [discard, hrest]; rfl, hdrop⟩
  -- each piece that is popped takes one round, and the cut takes one more
  induction pieces generalizing n with
  | nil =>
    obtain rfl : n = 0 := Nat.le_zero.mp h
    exact ⟨[], rfl, rfl⟩
  | cons front rest ih =>
    cases n with
    | zero => exact ⟨front :: rest, rfl, rfl⟩
    | succ n =>
      rw [List.flatMap_cons, List.length_append] at h
      by_cases hlt : n + 1 < (contents front).length
      · obtain ⟨cutFront, hok, hdrop⟩ := hcut front (n + 1) (Nat.le_of_lt hlt)
        refine ⟨cutFront :: rest, ?_, ?_⟩
        · simp only [Exec.loop, discardRound_cut rest hlt hok, discardRound_zero]
        · rw [List.flatMap_cons, List.flatMap_cons, hdrop,
            List.drop_append_of_le_length (Nat.le_of_lt hlt)]
      · have hle := Nat.not_lt.mp hlt
        obtain ⟨left, hleft, hdrop⟩ := ih (n := n + 1 - (contents front).length) (by omega)
        refine ⟨left, ?_, ?_⟩
        · rw [List.length_cons, Nat.add_right_comm, Exec.loop]
          simp only [discardRound_pop rest hle]
          exact hleft
        · rw [hdrop, List.flatMap_cons, List.drop_append, List.drop_eq_nil_of_le hle,
            List.nil_append]

/-- **Too little to drop.** The pieces are all popped first. -/
theorem discard_short {n : Nat} {pieces : List α} (h : (pieces.flatMap contents).length < n) :
    discard spin contents cut short n pieces = .error short := by
  suffices hloop : Exec.loop spin (fun s => discardRound contents cut short s.1 s.2)
      (pieces.length + 2) (n, pieces) = .error short by
    rw [discard, hloop]
    rfl
  induction pieces generalizing n with
  | nil =>
    cases n with
    | zero => cases h
    | succ n => rfl
  | cons front rest ih =>
    cases n with
    | zero => cases h
    | succ n =>
      rw [List.flatMap_cons, List.length_append] at h
      rw [List.length_cons, Nat.add_right_comm, Exec.loop]
      simp only [discardRound_pop rest (show (contents front).length ≤ n + 1 by omega)]
      exact ih (by omega)

end

end Pieces
