/-!
# The first of the greatest

Some entries of a list have a key. `IsFirstMax key xs i k` says that `k` is the greatest
key and `i` the first place that has it.

* `IsFirstMax.unique`: there is at most one such place;
* `scan`, `scan_spec`: the search from left to right that only ever moves on to a greater
  key finds it;
* `pick`, `pick_perm`: the entry found there, which does not depend on the order when no two
  entries have the same key.
-/

namespace FirstMax

variable {α : Type} {key : α → Option Nat} {xs : List α}

structure IsFirstMax (key : α → Option Nat) (xs : List α) (i k : Nat) : Prop where
  here : ∃ x, xs[i]? = some x ∧ key x = some k
  greatest : ∀ (j : Nat) y m, xs[j]? = some y → key y = some m → m ≤ k
  first : ∀ (j : Nat) y m, j < i → xs[j]? = some y → key y = some m → m < k

theorem IsFirstMax.unique {i j k m : Nat} (h : IsFirstMax key xs i k)
    (h' : IsFirstMax key xs j m) : i = j ∧ k = m := by
  obtain ⟨x, hx, hk⟩ := h.here
  obtain ⟨y, hy, hm⟩ := h'.here
  have h1 := h.greatest j y m hy hm
  have h2 := h'.greatest i x k hx hk
  refine ⟨?_, by omega⟩
  rcases Nat.lt_trichotomy i j with hlt | heq | hlt
  · have := h'.first i x k hlt hx hk
    omega
  · exact heq
  · have := h.first j y m hlt hy hm
    omega

/-- The best place so far, when `x` at `n` is looked at. -/
def better (key : α → Option Nat) (best : Option (Nat × Nat)) (x : α) (n : Nat) :
    Option (Nat × Nat) :=
  match key x, best with
  | none, best => best
  | some m, none => some (n, m)
  | some m, some (i, k) => if k < m then some (n, m) else some (i, k)

def scan (key : α → Option Nat) (xs : List α) : Option (Nat × Nat) :=
  xs.zipIdx.foldl (fun best x => better key best x.1 x.2) none

theorem scan_snoc (key : α → Option Nat) (xs : List α) (x : α) :
    scan key (xs ++ [x]) = better key (scan key xs) x xs.length := by
  simp [scan, List.zipIdx_append]

/-- What a best place is of the entries looked at. -/
def Found (key : α → Option Nat) (xs : List α) : Option (Nat × Nat) → Prop
  | none => ∀ x ∈ xs, key x = none
  | some (i, k) => IsFirstMax key xs i k

/-- An entry without a greater key changes nothing. -/
theorem IsFirstMax.keep {i k : Nat} {x : α} (h : IsFirstMax key xs i k)
    (hx : ∀ m, key x = some m → m ≤ k) : IsFirstMax key (xs ++ [x]) i k := by
  obtain ⟨y, hy, hk⟩ := h.here
  have hi := (List.getElem?_eq_some_iff.mp hy).1
  refine ⟨⟨y, by rw [List.getElem?_append_left hi, hy], hk⟩, ?_, ?_⟩
  · intro j z m hz hm
    by_cases hj : j < xs.length
    · rw [List.getElem?_append_left hj] at hz
      exact h.greatest j z m hz hm
    · rw [List.getElem?_append_right (by omega)] at hz
      have hzx := List.mem_of_getElem? hz
      rw [List.mem_singleton] at hzx
      exact hx m (hzx ▸ hm)
  · intro j z m hj hz hm
    rw [List.getElem?_append_left (by omega)] at hz
    exact h.first j z m hj hz hm

/-- An entry with a key above all the others is the first of the greatest. -/
theorem isFirstMax_last {m : Nat} {x : α} (hx : key x = some m)
    (h : ∀ (j : Nat) y k, xs[j]? = some y → key y = some k → k < m) :
    IsFirstMax key (xs ++ [x]) xs.length m := by
  refine ⟨⟨x, by simp, hx⟩, ?_, ?_⟩
  · intro j z k hz hk
    by_cases hj : j < xs.length
    · rw [List.getElem?_append_left hj] at hz
      exact Nat.le_of_lt (h j z k hz hk)
    · rw [List.getElem?_append_right (by omega)] at hz
      have hzx := List.mem_of_getElem? hz
      rw [List.mem_singleton] at hzx
      subst hzx
      rw [hx] at hk
      cases hk
      exact Nat.le_refl _
  · intro j z k hj hz hk
    rw [List.getElem?_append_left hj] at hz
    exact h j z k hz hk

theorem found_snoc {best : Option (Nat × Nat)} (h : Found key xs best) (x : α) :
    Found key (xs ++ [x]) (better key best x xs.length) := by
  cases hx : key x with
  | none =>
    cases best with
    | none =>
      simp only [better, hx]
      intro y hy
      rcases List.mem_append.mp hy with hy | hy
      · exact h y hy
      · rw [List.mem_singleton.mp hy, hx]
    | some p =>
      simp only [better, hx]
      exact h.keep (by simp [hx])
  | some m =>
    cases best with
    | none =>
      simp only [better, hx]
      apply isFirstMax_last hx
      intro j y k hy hk
      rw [h y (List.mem_of_getElem? hy)] at hk
      cases hk
    | some p =>
      simp only [better, hx]
      split
      · rename_i hlt
        apply isFirstMax_last hx
        intro j y k hy hk
        exact Nat.lt_of_le_of_lt (h.greatest j y k hy hk) hlt
      · rename_i hge
        apply h.keep
        intro k hk
        rw [hx] at hk
        cases hk
        omega

/-- **The search.** It finds the first place of the greatest key, or that there is none. -/
theorem scan_spec (key : α → Option Nat) (xs : List α) : Found key xs (scan key xs) := by
  suffices h : ∀ ys : List α, Found key ys.reverse (scan key ys.reverse) by
    simpa using h xs.reverse
  intro ys
  induction ys with
  | nil =>
    intro x hx
    cases hx
  | cons y ys ih =>
    rw [List.reverse_cons, scan_snoc]
    exact found_snoc ih y

/-- The entry that the search settles on. -/
def pick (key : α → Option Nat) (xs : List α) : Option α :=
  (scan key xs).bind fun best => xs[best.1]?

/-- What an entry picked is, without an order. -/
structure Picked (key : α → Option Nat) (xs : List α) (x : α) : Prop where
  mem : x ∈ xs
  greatest : ∃ k, key x = some k ∧ ∀ y ∈ xs, ∀ m, key y = some m → m ≤ k

theorem pick_some {x : α} (h : pick key xs = some x) : Picked key xs x := by
  obtain ⟨⟨i, k⟩, hscan, hx⟩ := Option.bind_eq_some_iff.mp h
  have hfound := scan_spec key xs
  rw [hscan] at hfound
  obtain ⟨y, hy, hk⟩ := hfound.here
  obtain rfl : y = x := Option.some.inj (hy.symm.trans hx)
  refine ⟨List.mem_of_getElem? hy, k, hk, ?_⟩
  intro z hz m hm
  obtain ⟨j, hj⟩ := List.mem_iff_getElem?.mp hz
  exact hfound.greatest j z m hj hm

theorem pick_eq_none_iff : pick key xs = none ↔ ∀ x ∈ xs, key x = none := by
  have hfound := scan_spec key xs
  rw [pick]
  cases hscan : scan key xs with
  | none =>
    rw [hscan] at hfound
    exact iff_of_true rfl hfound
  | some best =>
    rw [hscan] at hfound
    obtain ⟨x, hx, hk⟩ := hfound.here
    refine iff_of_false (by simp [hx]) ?_
    intro hnone
    rw [hnone x (List.mem_of_getElem? hx)] at hk
    cases hk

/-- **The order does not matter** when the key tells the entries apart. -/
theorem pick_perm {ys : List α} (hperm : xs.Perm ys)
    (hkey : ∀ x ∈ xs, ∀ y ∈ xs, ∀ k, key x = some k → key y = some k → x = y) :
    pick key xs = pick key ys := by
  cases hx : pick key xs with
  | none =>
    symm
    rw [pick_eq_none_iff] at hx ⊢
    intro y hy
    exact hx y (hperm.mem_iff.mpr hy)
  | some x =>
    cases hy : pick key ys with
    | none =>
      obtain ⟨hmem, k, hk, -⟩ := pick_some hx
      rw [pick_eq_none_iff.mp hy x (hperm.mem_iff.mp hmem)] at hk
      cases hk
    | some y =>
      obtain ⟨hxmem, k, hk, hxmax⟩ := pick_some hx
      obtain ⟨hymem, m, hm, hymax⟩ := pick_some hy
      have hymem := hperm.mem_iff.mpr hymem
      -- neither is greater than the other, so the two have the same key
      have hle := hxmax y hymem m hm
      have hge := hymax x (hperm.mem_iff.mp hxmem) k hk
      obtain rfl : k = m := Nat.le_antisymm hge hle
      rw [hkey x hxmem y hymem k hk hm]

end FirstMax
