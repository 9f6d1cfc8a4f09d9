import Mathlib.Algebra.Group.Nat.Defs
import Mathlib.Data.List.Induction

/-!
# Numbers in network byte order

* `value`: the number that bytes spell, the most significant first;
* `digits`: the bytes that spell a number;
* `value_digits`: they spell it when there are enough of them;
* `digits_value`: bytes are the digits of the number they spell.
-/

namespace BigEndian

def value (bytes : List UInt8) : Nat := bytes.foldl (fun n b => n * 256 + b.toNat) 0

theorem value_snoc (bytes : List UInt8) (b : UInt8) :
    value (bytes ++ [b]) = value bytes * 256 + b.toNat := by
  simp [value]

theorem value_lt (bytes : List UInt8) : value bytes < 256 ^ bytes.length := by
  suffices h : ∀ (bs : List UInt8) (n k : Nat), n < 256 ^ k →
      bs.foldl (fun n b => n * 256 + b.toNat) n < 256 ^ (k + bs.length) by
    simpa [value] using h bytes 0 0 (by decide)
  intro bs
  induction bs with
  | nil =>
    intro n k h
    exact h
  | cons b bs ih =>
    intro n k h
    have hb := b.toNat_lt
    have := ih (n * 256 + b.toNat) (k + 1) (by rw [Nat.pow_succ]; omega)
    rw [List.foldl_cons, List.length_cons, ← Nat.add_assoc, Nat.add_right_comm]
    exact this

theorem value_take_succ {bytes : List UInt8} {i : Nat} {b : UInt8} (h : bytes[i]? = some b) :
    value (bytes.take (i + 1)) = value (bytes.take i) * 256 + b.toNat := by
  rw [List.take_add_one, h, Option.toList_some, value_snoc]

/-- The last `len` digits of `n` in base 256. -/
def digits : Nat → Nat → List UInt8
  | 0, _ => []
  | len + 1, n => digits len (n / 256) ++ [UInt8.ofNat n]

@[simp] theorem length_digits (len n : Nat) : (digits len n).length = len := by
  induction len generalizing n with
  | zero => rfl
  | succ len ih => rw [digits, List.length_append, ih]; rfl

theorem value_digits (len n : Nat) : value (digits len n) = n % 256 ^ len := by
  induction len generalizing n with
  | zero => rw [Nat.pow_zero, Nat.mod_one]; rfl
  | succ len ih =>
    have hlast : (UInt8.ofNat n).toNat = n % 256 := UInt8.toNat_ofNat'
    rw [digits, value_snoc, ih, hlast, Nat.pow_succ', Nat.mod_mul]
    omega

theorem digits_value (bytes : List UInt8) : digits bytes.length (value bytes) = bytes := by
  induction bytes using List.reverseRecOn with
  | nil => rfl
  | append_singleton bytes b ih =>
    have hb := b.toNat_lt
    have hrest : (value bytes * 256 + b.toNat) / 256 = value bytes := by omega
    have hlast : UInt8.ofNat (value bytes * 256 + b.toNat) = b := by
      apply UInt8.toNat_inj.mp
      rw [UInt8.toNat_ofNat']
      omega
    rw [List.length_append, List.length_singleton, digits, value_snoc, hrest, hlast, ih]

end BigEndian
