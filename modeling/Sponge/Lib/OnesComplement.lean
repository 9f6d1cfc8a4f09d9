import Sponge.Lib.BigEndian

/-!
# One's-complement sums

Sums of 16-bit words in which a carry comes back in at the low end.

* `words`: the sum of the words that bytes spell, as a plain number;
* `words_set`, `words_changed`: what one byte contributes to it;
* `reduce`: what is left of a number when the carries have come back;
* `carry`: one round of that, which changes nothing in the end (`reduce_carry`);
* `reduce_complement`: a sum and its complement reduce to all ones, and
  `complement_unique`: nothing else does, but for the two ways to write zero;
* `reduce_shifted`: a change by less than all ones shows in the result;
* `onesSum`: the words added up one by one in 16 bits, each carry added back at once, which
  is the same in the end (`onesSum_eq`).
-/

namespace OnesComplement

/-! ## Words -/

/-- The sum of big-endian 16-bit words. `low` says that the first byte is the lower half of
its word. -/
def words : Bool → List UInt8 → Nat
  | _, [] => 0
  | false, b :: bs => b.toNat * 256 + words true bs
  | true, b :: bs => b.toNat + words false bs

/-- What a byte counts for in its word. -/
def weight (low : Bool) : Nat := if low then 1 else 256

theorem weight_bound (low : Bool) : 0 < weight low ∧ weight low ≤ 256 := by
  cases low <;> decide

theorem words_cons (low : Bool) (b : UInt8) (bs : List UInt8) :
    words low (b :: bs) = weight low * b.toNat + words (!low) bs := by
  cases low with
  | false => rw [words, weight, if_neg (by decide), Nat.mul_comm, Bool.not_false]
  | true => rw [words, weight, if_pos rfl, Nat.one_mul, Bool.not_true]

/-- Which half follows `n` bytes. -/
def after (low : Bool) (n : Nat) : Bool := low ^^ (n % 2 == 1)

theorem after_zero (low : Bool) : after low 0 = low := by cases low <;> rfl

theorem after_succ (low : Bool) (n : Nat) : after low (n + 1) = after (!low) n := by
  have hparity : ((n + 1) % 2 == 1) = !(n % 2 == 1) := by
    rcases Nat.mod_two_eq_zero_or_one n with h | h
    · rw [h, Nat.add_mod, h]
      rfl
    · rw [h, Nat.add_mod, h]
      rfl
  rw [after, after, hparity]
  cases low <;> cases (n % 2 == 1) <;> rfl

theorem words_append (low : Bool) (xs ys : List UInt8) :
    words low (xs ++ ys) = words low xs + words (after low xs.length) ys := by
  induction xs generalizing low with
  | nil => rw [List.nil_append, List.length_nil, after_zero, words, Nat.zero_add]
  | cons x xs ih =>
    rw [List.cons_append, words_cons, words_cons, ih, List.length_cons, after_succ, Nat.add_assoc]

theorem words_even {xs : List UInt8} (h : xs.length % 2 = 0) (low : Bool) (ys : List UInt8) :
    words low (xs ++ ys) = words low xs + words low ys := by
  rw [words_append, after, h]
  cases low <;> rfl

theorem words_le (low : Bool) (bs : List UInt8) : words low bs ≤ 65280 * bs.length := by
  induction bs generalizing low with
  | nil => exact Nat.zero_le _
  | cons b bs ih =>
    have hb := b.toNat_lt
    have hrest := ih (!low)
    have hbyte : weight low * b.toNat ≤ 256 * 255 :=
      Nat.mul_le_mul (weight_bound low).2 (Nat.le_of_lt_succ hb)
    rw [words_cons, List.length_cons]
    omega

/-- The two digits of a word. -/
theorem words_digits (n : Nat) : words false (BigEndian.digits 2 n) = n % 65536 := by
  have hhigh : (UInt8.ofNat (n / 256)).toNat = n / 256 % 256 := UInt8.toNat_ofNat'
  have hlow : (UInt8.ofNat n).toNat = n % 256 := UInt8.toNat_ofNat'
  simp only [BigEndian.digits, List.nil_append, List.singleton_append, words, hhigh, hlow]
  omega

/-- One byte replaced. -/
theorem words_set (low : Bool) {bs : List UInt8} {k : Nat} {old : UInt8} (b : UInt8)
    (h : bs[k]? = some old) :
    words low (bs.set k b) + weight (after low k) * old.toNat =
      words low bs + weight (after low k) * b.toNat := by
  induction bs generalizing low k with
  | nil => cases h
  | cons x bs ih =>
    cases k with
    | zero =>
      cases h
      rw [List.set_cons_zero, words_cons, words_cons, after_zero]
      omega
    | succ k =>
      have hrest := ih (!low) h
      rw [List.set_cons_succ, words_cons, words_cons, after_succ]
      omega

/-- It moves the sum, by less than all ones. -/
theorem words_changed (low : Bool) {bs : List UInt8} {k : Nat} {old b : UInt8}
    (h : bs[k]? = some old) (hne : b ≠ old) : ∃ d, 0 < d ∧ d < 65535 ∧
      (words low (bs.set k b) = words low bs + d ∨ words low bs = words low (bs.set k b) + d) := by
  have hset := words_set low b h
  have hold := old.toNat_lt
  have hb := b.toNat_lt
  obtain ⟨hpos, hmost⟩ := weight_bound (after low k)
  generalize weight (after low k) = w at *
  have small : ∀ e, e < 255 → 0 < w * (e + 1) ∧ w * (e + 1) < 65535 := by
    intro e he
    have hle : w * (e + 1) ≤ 256 * 255 := Nat.mul_le_mul hmost he
    exact ⟨Nat.mul_pos hpos (Nat.succ_pos e), by omega⟩
  rcases Nat.lt_or_gt_of_ne (fun heq => hne (UInt8.toNat_inj.mp heq)) with hlt | hgt
  · obtain ⟨e, he⟩ := Nat.exists_eq_add_of_lt hlt
    rw [he, Nat.add_assoc, Nat.mul_add] at hset
    obtain ⟨hd, hd'⟩ := small e (by omega)
    exact ⟨w * (e + 1), hd, hd', .inr (by omega)⟩
  · obtain ⟨e, he⟩ := Nat.exists_eq_add_of_lt hgt
    rw [he, Nat.add_assoc, Nat.mul_add] at hset
    obtain ⟨hd, hd'⟩ := small e (by omega)
    exact ⟨w * (e + 1), hd, hd', .inl (by omega)⟩

/-! ## Carries -/

/-- What is left when all carries have come back: a positive number stays positive. -/
def reduce (n : Nat) : Nat := if n = 0 then 0 else (n - 1) % 65535 + 1

theorem reduce_le (n : Nat) : reduce n ≤ 65535 := by
  unfold reduce
  split
  · exact Nat.zero_le _
  · omega

theorem reduce_small {n : Nat} (h : n ≤ 65535) : reduce n = n := by
  unfold reduce
  split
  · omega
  · rw [Nat.mod_eq_of_lt (by omega)]
    omega

/-- One round: the upper part is added to the lower 16 bits. -/
def carry (n : Nat) : Nat := n / 65536 + n % 65536

theorem reduce_carry (n : Nat) : reduce (carry n) = reduce n := by
  unfold reduce carry
  by_cases h : n = 0
  · rw [h]
  · rw [if_neg h, if_neg (by omega)]
    omega

theorem reduce_eq_all_ones {n : Nat} (h : 0 < n) : reduce n = 65535 ↔ n % 65535 = 0 := by
  unfold reduce
  rw [if_neg (by omega)]
  omega

/-- **The complement.** -/
theorem reduce_complement (n : Nat) : reduce (n + (65535 - reduce n)) = 65535 := by
  by_cases h : n = 0
  · rw [h]
    rfl
  · rw [reduce_eq_all_ones (by omega), reduce, if_neg h]
    omega

/-- A number that completes a sum to all ones is the complement, or all ones in its place. -/
theorem complement_unique {n c : Nat} (hc : c ≤ 65535) (h : reduce (n + c) = 65535) :
    65535 - reduce n = c ∨ c = 65535 ∧ 65535 - reduce n = 0 := by
  by_cases hn : n = 0
  · subst hn
    rw [Nat.zero_add, reduce_small hc] at h
    exact .inl (by rw [h]; rfl)
  · rw [reduce_eq_all_ones (by omega)] at h
    rw [reduce, if_neg hn]
    omega

theorem reduce_shifted {m n d : Nat} (h : reduce n = 65535) (hd : 0 < d) (hd' : d < 65535)
    (hs : m = n + d ∨ n = m + d) : reduce m ≠ 65535 := by
  have hpos : 0 < n := by
    apply Nat.pos_of_ne_zero
    intro hn
    rw [hn] at h
    cases h
  rw [reduce_eq_all_ones hpos] at h
  by_cases hm : m = 0
  · rw [hm]
    decide
  · rw [Ne, reduce_eq_all_ones (by omega)]
    omega

/-! ## Word by word -/

/-- The 16-bit words of bytes, the last one filled up with a zero byte. -/
def wordList : List UInt8 → List Nat
  | [] => []
  | [b] => [b.toNat * 256]
  | b :: c :: bs => (b.toNat * 256 + c.toNat) :: wordList bs

/-- The sum as a plain number, from `n` on. -/
def total (n : Nat) (ws : List Nat) : Nat := ws.foldl (fun sum w => sum + w) n

/-- The one's-complement sum: the carry of each addition is added back. -/
def onesSum (ws : List Nat) : Nat := ws.foldl (fun sum w => carry (sum + w)) 0

theorem total_add (m n : Nat) (ws : List Nat) : total (m + n) ws = m + total n ws := by
  induction ws generalizing n with
  | nil => rfl
  | cons w ws ih => exact (congrArg (total · ws) (Nat.add_assoc m n w)).trans (ih (n + w))

theorem total_wordList (n : Nat) (bs : List UInt8) :
    total n (wordList bs) = n + words false bs := by
  induction bs using wordList.induct generalizing n with
  | case1 => rfl
  | case2 b => simp only [wordList, total, List.foldl_cons, List.foldl_nil, words, Nat.add_zero]
  | case3 b c bs ih =>
    change total (n + (b.toNat * 256 + c.toNat)) (wordList bs) = _
    rw [ih, words, words]
    omega

theorem wordList_le {bs : List UInt8} : ∀ w ∈ wordList bs, w ≤ 65535 := by
  induction bs using wordList.induct with
  | case1 => simp [wordList]
  | case2 b =>
    have hb := b.toNat_lt
    simp only [wordList, List.mem_singleton, forall_eq]
    omega
  | case3 b c bs ih =>
    have hb := b.toNat_lt
    have hc := c.toNat_lt
    intro w hw
    rcases List.mem_cons.mp hw with rfl | hw
    · omega
    · exact ih w hw

/-- A carry may be added back before more is added. -/
theorem reduce_carry_add (m n : Nat) : reduce (carry m + n) = reduce (m + n) := by
  by_cases hm : m = 0
  · rw [hm]
    rfl
  · unfold reduce carry
    rw [if_neg (by omega), if_neg (by omega)]
    omega

theorem foldl_carry {ws : List Nat} {n : Nat} (hws : ∀ w ∈ ws, w ≤ 65535) (hn : n ≤ 65535) :
    ws.foldl (fun sum w => carry (sum + w)) n = reduce (total n ws) := by
  induction ws generalizing n with
  | nil => exact (reduce_small hn).symm
  | cons w ws ih =>
    have hw := hws w List.mem_cons_self
    have hle : carry (n + w) ≤ 65535 := by
      unfold carry
      omega
    have hrest := ih (fun x hx => hws x (List.mem_cons_of_mem _ hx)) hle
    rw [List.foldl_cons, hrest]
    -- the words that follow are added to the carry as they would be to the sum
    have hsplit : ∀ m, total m ws = m + total 0 ws := fun m => total_add m 0 ws
    change reduce (total (carry (n + w)) ws) = reduce (total (n + w) ws)
    rw [hsplit, hsplit (n + w), reduce_carry_add]

theorem onesSum_eq {ws : List Nat} (h : ∀ w ∈ ws, w ≤ 65535) :
    onesSum ws = reduce (total 0 ws) := foldl_carry h (Nat.zero_le _)

/-- The sum of the two halves of a number and the words of bytes. -/
theorem onesSum_halves {n : Nat} (hn : n < 2 ^ 32) (bs : List UInt8) :
    onesSum (n / 65536 :: n % 65536 :: wordList bs) = reduce (n + words false bs) := by
  rw [onesSum_eq]
  · change reduce (total (0 + n / 65536 + n % 65536) (wordList bs)) = _
    rw [total_wordList, Nat.zero_add]
    exact reduce_carry_add n _
  · intro w hw
    simp only [List.mem_cons] at hw
    rcases hw with rfl | rfl | hw
    · omega
    · omega
    · exact wordList_le w hw

end OnesComplement
