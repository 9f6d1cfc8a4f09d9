import Sponge.Basic
import Sponge.Lib.Exec
import Sponge.Lib.OnesComplement

/-!
# The Internet checksum

`InternetChecksum` of `util.cc`: the 16-bit words of the data are summed in 32 bits, and
the carries are folded back in at the end.

* `sum_add`: the sum is that of the words, in 32 bits;
* `value_eq`: the value is the complement of the reduced sum;
* `value_filled`: data with its checksum filled in has the value zero;
* `value_field`: what the field of such data holds;
* `value_changed`: one byte replaced gives another value than zero;
* `checksum_of_chunks`: the value for data that come in chunks.
-/

namespace Sponge

structure InternetChecksum where
  sum : UInt32
  parity : Bool

namespace InternetChecksum

open OnesComplement

def new (initialSum : UInt32) : InternetChecksum := ⟨initialSum, false⟩

def addByte (c : InternetChecksum) (byte : Byte) : InternetChecksum :=
  let val := byte.toUInt16
  let val := if !c.parity then val <<< 8 else val
  { sum := c.sum + val.toUInt32, parity := !c.parity }

def add (c : InternetChecksum) (data : List Byte) : InternetChecksum := data.foldl addByte c

/-- One round of the folding loop. -/
def fold (ret : UInt32) : Except Fault (ForInStep UInt32) :=
  if ret > 0xffff then .ok (.yield ((ret >>> 16) + (ret &&& 0xffff))) else .ok (.done ret)

def value (c : InternetChecksum) : Except Fault UInt16 := do
  let ret ← Exec.loop .spins fold (c.sum.toNat + 1) c.sum
  return (~~~ret).toUInt16

theorem fold_carry (ret : UInt32) :
    ((ret >>> 16) + (ret &&& 0xffff)).toNat = carry ret.toNat := by
  have hlt := ret.toNat_lt
  have hhigh : (ret >>> 16).toNat = ret.toNat / 65536 := by
    simp [UInt32.toNat_shiftRight, Nat.shiftRight_eq_div_pow]
  have hlow : (ret &&& 0xffff).toNat = ret.toNat % 65536 := by
    rw [UInt32.toNat_and]
    exact Nat.and_two_pow_sub_one_eq_mod ret.toNat 16
  rw [UInt32.toNat_add, hhigh, hlow, Nat.mod_eq_of_lt (by omega), carry]

/-- **The value.** The folding loop ends with the reduced sum, because each round makes the
number smaller and reduces to the same. -/
theorem value_eq (c : InternetChecksum) :
    c.value = .ok (UInt16.ofNat (65535 - reduce c.sum.toNat)) := by
  have round : ∀ ret : UInt32, reduce ret.toNat = reduce c.sum.toNat →
      (∃ t, fold ret = .ok (.done t) ∧ t.toNat = reduce c.sum.toNat) ∨
      ∃ t, fold ret = .ok (.yield t) ∧ reduce t.toNat = reduce c.sum.toNat ∧
        t.toNat < ret.toNat := by
    intro ret hret
    unfold fold
    split
    · rename_i hgt
      have hbig : 65535 < ret.toNat := UInt32.lt_iff_toNat_lt.mp hgt
      refine .inr ⟨_, rfl, ?_, ?_⟩
      · rw [fold_carry, reduce_carry, hret]
      · rw [fold_carry, carry]
        omega
    · rename_i hle
      have hsmall : ret.toNat ≤ 65535 := Nat.not_lt.mp fun h => hle (UInt32.lt_iff_toNat_lt.mpr h)
      exact .inl ⟨_, rfl, by rw [← hret, reduce_small hsmall]⟩
  obtain ⟨ret, hloop, hret⟩ := Exec.loop_total Fault.spins
    (fun ret => reduce ret.toNat = reduce c.sum.toNat) (fun t => t.toNat = reduce c.sum.toNat)
    UInt32.toNat round (c.sum.toNat + 1) c.sum rfl (Nat.lt_succ_self _)
  have hle := reduce_le c.sum.toNat
  rw [value, hloop]
  change Except.ok (~~~ret).toUInt16 = _
  congr 1
  rw [← hret] at hle ⊢
  apply UInt16.toNat_inj.mp
  rw [UInt32.toNat_toUInt16, UInt32.toNat_not, UInt16.toNat_ofNat', UInt32.size]
  omega

theorem value_returns (c : InternetChecksum) : ∃ v, c.value = .ok v := ⟨_, c.value_eq⟩

theorem add_append (c : InternetChecksum) (xs ys : List Byte) :
    (c.add xs).add ys = c.add (xs ++ ys) := (List.foldl_append ..).symm

theorem sum_addByte (c : InternetChecksum) (b : Byte) :
    (c.addByte b).sum.toNat = (c.sum.toNat + words c.parity [b]) % 2 ^ 32 := by
  have hb := b.toNat_lt
  cases hp : c.parity with
  | false =>
    have hval : (b.toUInt16 <<< 8).toUInt32.toNat = b.toNat * 256 := by
      rw [UInt16.toNat_toUInt32, UInt16.toNat_shiftLeft, UInt8.toNat_toUInt16, Nat.shiftLeft_eq]
      exact Nat.mod_eq_of_lt (by simp; omega)
    simp only [addByte, hp, Bool.not_false, ↓reduceIte, UInt32.toNat_add, hval, words,
      Nat.add_zero]
  | true =>
    simp only [addByte, hp, Bool.not_true, Bool.false_eq_true, ↓reduceIte, UInt32.toNat_add,
      UInt16.toNat_toUInt32, UInt8.toNat_toUInt16, words, Nat.add_zero]

/-- **The sum.** -/
theorem sum_add (c : InternetChecksum) (data : List Byte) :
    (c.add data).sum.toNat = (c.sum.toNat + words c.parity data) % 2 ^ 32 := by
  induction data generalizing c with
  | nil =>
    have hwords : words c.parity [] = 0 := by cases c.parity <;> rfl
    rw [hwords, Nat.add_zero, Nat.mod_eq_of_lt c.sum.toNat_lt]
    rfl
  | cons b rest ih =>
    have hwords : words c.parity (b :: rest) = words c.parity [b] + words (!c.parity) rest := by
      rw [words_cons, words_cons, words, Nat.add_zero]
    change ((c.addByte b).add rest).sum.toNat = _
    rw [ih, sum_addByte, hwords, Nat.mod_add_mod, Nat.add_assoc]
    rfl

theorem value_eq_zero_iff (c : InternetChecksum) :
    c.value = .ok 0 ↔ reduce c.sum.toNat = 65535 := by
  have hle := reduce_le c.sum.toNat
  rw [value_eq, Except.ok.injEq, ← UInt16.toNat_inj, UInt16.toNat_ofNat', UInt16.toNat_zero]
  omega

/-- The sum of data that begin at a word, short of 32 bits. -/
theorem sum_low {initialSum : UInt32} {data : List Byte}
    (hlow : initialSum.toNat + 65280 * data.length < 2 ^ 32) :
    ((new initialSum).add data).sum.toNat = initialSum.toNat + words false data := by
  have hle := words_le false data
  rw [sum_add]
  exact Nat.mod_eq_of_lt (Nat.lt_of_le_of_lt (Nat.add_le_add_left hle _) hlow)

/-- A field of two bytes is a word of its own. -/
theorem sum_field {initialSum : UInt32} {pre post : List Byte} (heven : pre.length % 2 = 0)
    (hlow : initialSum.toNat + 65280 * (pre.length + 2 + post.length) < 2 ^ 32) (v : UInt16) :
    ((new initialSum).add (pre ++ (BigEndian.digits 2 v.toNat ++ post))).sum.toNat =
      initialSum.toNat + words false pre + words false post + v.toNat := by
  have hv := v.toNat_lt
  rw [sum_low (by simp only [List.length_append, BigEndian.length_digits]; omega),
    words_even heven, words_even (by simp), words_digits, Nat.mod_eq_of_lt hv]
  omega

section
variable {initialSum : UInt32} {pre post : List Byte}

/-- **Filling the checksum in.** Its field is zero while the checksum is computed; then the
whole sums up to all ones. -/
theorem value_filled {v : UInt16} (heven : pre.length % 2 = 0)
    (hlow : initialSum.toNat + 65280 * (pre.length + 2 + post.length) < 2 ^ 32)
    (hv : ((new initialSum).add (pre ++ (BigEndian.digits 2 0 ++ post))).value = .ok v) :
    ((new initialSum).add (pre ++ (BigEndian.digits 2 v.toNat ++ post))).value = .ok 0 := by
  have hzero := sum_field heven hlow 0
  rw [UInt16.toNat_zero, Nat.add_zero] at hzero
  rw [value_eq, hzero] at hv
  have hle := reduce_le (initialSum.toNat + words false pre + words false post)
  have hcomplement : v.toNat =
      65535 - reduce (initialSum.toNat + words false pre + words false post) := by
    rw [← Except.ok.inj hv, UInt16.toNat_ofNat']
    omega
  rw [value_eq_zero_iff, sum_field heven hlow, hcomplement, reduce_complement]

/-- The field of data that sum up to all ones holds the checksum, or all ones for zero. -/
theorem value_field {v w : UInt16} (heven : pre.length % 2 = 0)
    (hlow : initialSum.toNat + 65280 * (pre.length + 2 + post.length) < 2 ^ 32)
    (hv : ((new initialSum).add (pre ++ (BigEndian.digits 2 0 ++ post))).value = .ok v)
    (hw : ((new initialSum).add (pre ++ (BigEndian.digits 2 w.toNat ++ post))).value = .ok 0) :
    v = w ∨ w = 0xffff ∧ v = 0 := by
  have hzero := sum_field heven hlow 0
  have hlt := w.toNat_lt
  rw [UInt16.toNat_zero, Nat.add_zero] at hzero
  rw [value_eq, hzero, Except.ok.injEq] at hv
  rw [value_eq_zero_iff, sum_field heven hlow] at hw
  obtain hc | ⟨hc, hz⟩ := complement_unique (Nat.le_of_lt_succ hlt) hw
  · left
    rw [← hv, hc, UInt16.ofNat_toNat]
  · right
    rw [← hv, hz]
    exact ⟨UInt16.toNat_inj.mp hc, rfl⟩

end

/-- **A changed byte** shows in the value. -/
theorem value_changed {initialSum : UInt32} {data : List Byte}
    (hlow : initialSum.toNat + 65280 * data.length < 2 ^ 32) {k : Nat} {old b : Byte}
    (hk : data[k]? = some old) (hne : b ≠ old)
    (h : ((new initialSum).add data).value = .ok 0) :
    ((new initialSum).add (data.set k b)).value ≠ .ok 0 := by
  obtain ⟨d, hpos, hsmall, hmoved⟩ := words_changed false hk hne
  rw [value_eq_zero_iff, sum_low hlow] at h
  rw [Ne, value_eq_zero_iff, sum_low (by rw [List.length_set]; exact hlow)]
  apply reduce_shifted h hpos hsmall
  omega

/-- Chunks of any lengths are the same as the whole, the parity included. -/
theorem foldl_add (c : InternetChecksum) (chunks : List (List Byte)) :
    chunks.foldl add c = c.add chunks.flatten := by
  induction chunks generalizing c with
  | nil => rfl
  | cons chunk chunks ih => rw [List.foldl_cons, ih, add_append, List.flatten_cons]

theorem complement_ofNat {n : Nat} (h : n ≤ 65535) :
    UInt16.ofNat (65535 - n) = ~~~UInt16.ofNat n := by
  apply UInt16.toNat_inj.mp
  rw [UInt16.toNat_not, UInt16.toNat_ofNat', UInt16.toNat_ofNat', UInt16.size]
  omega

/-- **The checksum.** Data may come in any chunks. With a start below `2 ^ 20` and at most
65535 bytes the sum never leaves 32 bits, and the value is the complement of the
one's-complement sum of the start and the words of the data. It is zero just when the plain
sum is a multiple of 65535 other than zero. -/
theorem checksum_of_chunks (initialSum : UInt32) (hsum : initialSum.toNat < 2 ^ 20)
    (chunks : List (List Byte)) (hlen : chunks.flatten.length ≤ 65535) :
    chunks.foldl add (new initialSum) = (new initialSum).add chunks.flatten ∧
    (∀ k, ((new initialSum).add (chunks.flatten.take k)).sum.toNat =
      total initialSum.toNat (wordList (chunks.flatten.take k))) ∧
    (chunks.foldl add (new initialSum)).value = .ok (~~~UInt16.ofNat (onesSum
      (initialSum.toNat / 65536 :: initialSum.toNat % 65536 :: wordList chunks.flatten))) ∧
    ((chunks.foldl add (new initialSum)).value = .ok 0 ↔
      total initialSum.toNat (wordList chunks.flatten) ≠ 0 ∧
        total initialSum.toNat (wordList chunks.flatten) % 65535 = 0) := by
  have hlow : ∀ data : List Byte, data.length ≤ 65535 → ((new initialSum).add data).sum.toNat =
      total initialSum.toNat (wordList data) := by
    intro data hdata
    rw [total_wordList]
    exact sum_low (by omega)
  have hsum' := hlow chunks.flatten hlen
  refine ⟨foldl_add _ chunks, ?_, ?_, ?_⟩
  · intro k
    apply hlow
    rw [List.length_take]
    omega
  · rw [foldl_add, value_eq, hsum', onesSum_halves initialSum.toNat_lt, total_wordList]
    exact congrArg Except.ok (complement_ofNat (reduce_le _))
  · rw [foldl_add, value_eq_zero_iff, hsum']
    by_cases hzero : total initialSum.toNat (wordList chunks.flatten) = 0
    · rw [hzero]
      decide
    · rw [reduce_eq_all_ones (Nat.pos_of_ne_zero hzero), and_iff_right hzero]

/-- A header of twenty bytes with its checksum, cut inside its words. -/
theorem checksum_of_chunks_odd :
    ([[0x45], [0, 0, 20, 0, 0], [], [0, 0, 0, 0, 0xba, 0xeb, 0], List.replicate 7 0].foldl add
      (new 0)).value = .ok 0 := by
  obtain ⟨-, -, -, hzero⟩ := checksum_of_chunks 0 (by decide)
    [[0x45], [0, 0, 20, 0, 0], [], [0, 0, 0, 0, 0xba, 0xeb, 0], List.replicate 7 0] (by decide)
  exact hzero.mpr (by decide)

end InternetChecksum

end Sponge
