import Sponge.Basic
import Sponge.Lib.BigEndian
import Sponge.Lib.Exec

/-!
# Buffers and the network parser

`Buffer` and `BufferList` of `buffer.cc`, and `NetParser` and `NetUnparser` of `parser.cc`:
reading numbers off the front of a buffer, with an error that stays once it is set.
-/

namespace Sponge

/-- A shared string with its first bytes dropped. The storage is given up when nothing
of it is left. -/
structure Buffer where
  storage : Option (List Byte)
  startingOffset : Nat
  inside : ∀ s ∈ storage, startingOffset ≤ s.length
  deriving DecidableEq

namespace Buffer

/-- `Buffer()`. -/
def empty : Buffer := ⟨none, 0, by simp⟩

/-- `Buffer(std::string &&)`. -/
def ofString (s : List Byte) : Buffer := ⟨some s, 0, by simp⟩

def str (b : Buffer) : List Byte :=
  match b.storage with
  | none => []
  | some s => s.drop b.startingOffset

@[simp] theorem str_ofString (s : List Byte) : (ofString s).str = s := rfl

def size (b : Buffer) : Nat := b.str.length

/-- `at`, which checks its argument. -/
def get (b : Buffer) (n : Nat) : Except Fault Byte := subscript b.str n

theorem size_of_storage {b : Buffer} {s : List Byte} (h : b.storage = some s) :
    b.size = s.length - b.startingOffset := by
  simp [size, str, h]

def removePrefix (b : Buffer) (n : Nat) : Except Fault Buffer :=
  if h : n ≤ b.size then
    match hs : b.storage with
    | none => .ok { b with startingOffset := b.startingOffset + n, inside := by simp [hs] }
    | some s =>
      if b.startingOffset + n = s.length then
        .ok { storage := none, startingOffset := b.startingOffset + n, inside := by simp }
      else
        .ok { b with
          startingOffset := b.startingOffset + n
          inside := by
            intro s' hs'
            have hsize := size_of_storage hs
            have hin := b.inside s' hs'
            rw [hs] at hs'
            cases hs'
            omega }
  else .error (.throws "Buffer::remove_prefix")

/-- Dropping what is there succeeds, and drops just that. -/
theorem removePrefix_ok {b : Buffer} {n : Nat} (h : n ≤ b.size) :
    ∃ c, b.removePrefix n = .ok c ∧ c.str = b.str.drop n := by
  unfold removePrefix
  rw [dif_pos h]
  split
  · rename_i hs
    exact ⟨_, rfl, by simp [str, hs]⟩
  · rename_i s hs
    split
    · rename_i hall
      refine ⟨_, rfl, ?_⟩
      simp [str, hs, List.drop_drop, hall]
    · exact ⟨_, rfl, by simp [str, hs, List.drop_drop]⟩

end Buffer

structure BufferList where
  buffers : List Buffer
  deriving DecidableEq

namespace BufferList

def empty : BufferList := ⟨[]⟩

def ofBuffer (b : Buffer) : BufferList := ⟨[b]⟩

def ofString (s : List Byte) : BufferList := ⟨[.ofString s]⟩

def append (l other : BufferList) : BufferList := ⟨l.buffers ++ other.buffers⟩

def size (l : BufferList) : Nat := l.buffers.foldl (fun ret buf => ret + buf.size) 0

def concatenate (l : BufferList) : List Byte := l.buffers.flatMap Buffer.str

/-- The conversion to a `Buffer`, for lists of at most one. -/
def toBuffer (l : BufferList) : Except Fault Buffer :=
  match l.buffers with
  | [] => .ok .empty
  | [b] => .ok b
  | _ => .error (.throws
      "BufferList: please use concatenate() to combine a multi-Buffer BufferList into one Buffer")

@[simp] theorem size_ofBuffer (b : Buffer) : (ofBuffer b).size = b.str.length := by
  simp [ofBuffer, size, Buffer.size]

theorem size_eq (l : BufferList) : l.size = l.concatenate.length := by
  obtain ⟨buffers⟩ := l
  have hfold : ∀ n, buffers.foldl (fun ret buf => ret + buf.size) n =
      n + (buffers.flatMap Buffer.str).length := by
    induction buffers with
    | nil => simp
    | cons b rest ih =>
      intro n
      rw [List.foldl_cons, ih, List.flatMap_cons, List.length_append, Nat.add_assoc]
      rfl
  rw [size, hfold, Nat.zero_add, concatenate]

@[simp] theorem concatenate_ofBuffer (b : Buffer) : (ofBuffer b).concatenate = b.str := by
  simp [ofBuffer, concatenate]

end BufferList

inductive ParseResult
  | noError
  | badChecksum
  | packetTooShort
  | wrongIPVersion
  | headerTooShort
  | truncatedPacket
  | unsupported
  deriving DecidableEq, Repr

structure NetParser where
  buffer : Buffer
  getError : ParseResult
  deriving DecidableEq

namespace NetParser

def new (buffer : Buffer) : NetParser := ⟨buffer, .noError⟩

def setError (p : NetParser) (res : ParseResult) : NetParser := { p with getError := res }

def error (p : NetParser) : Bool := p.getError != .noError

def checkSize (p : NetParser) (size : Nat) : NetParser :=
  if size > p.buffer.size then p.setError .packetTooShort else p

/-- One round of `_parse_int`, in an integer of `len` bytes. -/
def parseByte (buffer : Buffer) (len ret i : Nat) : Except Fault Nat := do
  let byte ← buffer.get i
  return ((ret <<< 8) + byte.toNat) % 256 ^ len

/-- An unsigned integer of `len` bytes, as a number. -/
def parseInt (len : Nat) (p : NetParser) : Except Fault (Nat × NetParser) := do
  let p := p.checkSize len
  if p.error then
    return (0, p)
  let ret ← (List.range len).foldlM (parseByte p.buffer len) 0
  let buffer ← p.buffer.removePrefix len
  return (ret, { p with buffer := buffer })

def u32 (p : NetParser) : Except Fault (UInt32 × NetParser) := do
  let (n, p) ← p.parseInt 4
  return (UInt32.ofNat n, p)

def u16 (p : NetParser) : Except Fault (UInt16 × NetParser) := do
  let (n, p) ← p.parseInt 2
  return (UInt16.ofNat n, p)

def u8 (p : NetParser) : Except Fault (UInt8 × NetParser) := do
  let (n, p) ← p.parseInt 1
  return (UInt8.ofNat n, p)

def removePrefix (p : NetParser) (n : Nat) : Except Fault NetParser := do
  let p := p.checkSize n
  if p.error then
    return p
  let buffer ← p.buffer.removePrefix n
  return { p with buffer := buffer }

/-- The parser `q` has the bytes of `p` without the first `n`, and no error. -/
structure Past (p : NetParser) (n : Nat) (q : NetParser) : Prop where
  str : q.buffer.str = p.buffer.str.drop n
  getError : q.getError = .noError

theorem checkSize_enough {p : NetParser} {n : Nat} (h : n ≤ p.buffer.size) : p.checkSize n = p := by
  rw [checkSize, if_neg (Nat.not_lt.mpr h)]

/-- The number at `offset`, `len` bytes wide. -/
def field (bytes : List Byte) (offset len : Nat) : Nat :=
  BigEndian.value ((bytes.drop offset).take len)

theorem field_lt (bytes : List Byte) (offset len : Nat) : field bytes offset len < 256 ^ len := by
  apply Nat.lt_of_lt_of_le (BigEndian.value_lt _)
  exact Nat.pow_le_pow_right (by decide) (List.length_take_le _ _)

/-- A number written out at `offset` is the one read there. -/
theorem field_digits {bytes rest : List Byte} {offset len v : Nat}
    (h : bytes.drop offset = BigEndian.digits len v ++ rest) (hv : v < 256 ^ len) :
    field bytes offset len = v := by
  rw [field, h, List.take_left' (BigEndian.length_digits len v), BigEndian.value_digits,
    Nat.mod_eq_of_lt hv]

/-- A number read at `offset` is written out as the bytes there. -/
theorem digits_field {bytes : List Byte} {offset len : Nat} (h : offset + len ≤ bytes.length) :
    BigEndian.digits len (field bytes offset len) = (bytes.drop offset).take len := by
  have hlen : ((bytes.drop offset).take len).length = len := by
    rw [List.length_take, List.length_drop]
    omega
  have hvalue := BigEndian.digits_value ((bytes.drop offset).take len)
  rw [hlen] at hvalue
  exact hvalue

/-- The bytes read so far spell the number so far, which fits. -/
theorem parseByte_ok {b : Buffer} {len i : Nat} (hi : i < len) (hlen : len ≤ b.size) :
    parseByte b len (BigEndian.value (b.str.take i)) i =
      .ok (BigEndian.value (b.str.take (i + 1))) := by
  have hget := List.getElem?_eq_getElem (Nat.lt_of_lt_of_le hi hlen)
  have hnext := BigEndian.value_take_succ hget
  have hlt := BigEndian.value_lt (b.str.take (i + 1))
  have hle : 256 ^ (b.str.take (i + 1)).length ≤ 256 ^ len :=
    Nat.pow_le_pow_right (by decide) (Nat.le_trans (List.length_take_le _ _) hi)
  rw [hnext] at hlt ⊢
  simp only [parseByte, Buffer.get, subscript_some hget, Exec.ok_bind, Exec.pure_ok,
    Nat.shiftLeft_eq, Except.ok.injEq]
  exact Nat.mod_eq_of_lt (Nat.lt_of_lt_of_le hlt hle)

/-- **Reading a number.** With enough bytes left, it is the one they spell. -/
theorem parseInt_ok {p q : NetParser} {n len : Nat} (h : Past p n q)
    (hlen : n + len ≤ p.buffer.str.length) :
    ∃ r, q.parseInt len = .ok (field p.buffer.str n len, r) ∧ Past p (n + len) r := by
  have hsize : len ≤ q.buffer.size := by
    rw [Buffer.size, h.str, List.length_drop]
    omega
  obtain ⟨v, hv, hval⟩ := Exec.range_total (f := parseByte q.buffer len) (n := len) (s := 0)
    (fun i v => v = BigEndian.value (q.buffer.str.take i)) rfl
    (fun i v hi hv => ⟨_, hv ▸ parseByte_ok hi hsize, rfl⟩)
  obtain ⟨b, hb, hstr⟩ := Buffer.removePrefix_ok hsize
  refine ⟨{ q with buffer := b }, ?_, ?_, h.getError⟩
  · simp only [parseInt, checkSize_enough hsize, error, h.getError, bne_self_eq_false,
      Bool.false_eq_true, ↓reduceIte, hv, hb, Exec.ok_bind, Exec.pure_ok]
    rw [hval, field, h.str]
  · rw [hstr, h.str, List.drop_drop]

theorem u32_ok {p q : NetParser} {n : Nat} (h : Past p n q) (hlen : n + 4 ≤ p.buffer.str.length) :
    ∃ r, q.u32 = .ok (UInt32.ofNat (field p.buffer.str n 4), r) ∧ Past p (n + 4) r := by
  obtain ⟨r, hr, hp⟩ := parseInt_ok h hlen
  exact ⟨r, by rw [u32, hr]; rfl, hp⟩

theorem u16_ok {p q : NetParser} {n : Nat} (h : Past p n q) (hlen : n + 2 ≤ p.buffer.str.length) :
    ∃ r, q.u16 = .ok (UInt16.ofNat (field p.buffer.str n 2), r) ∧ Past p (n + 2) r := by
  obtain ⟨r, hr, hp⟩ := parseInt_ok h hlen
  exact ⟨r, by rw [u16, hr]; rfl, hp⟩

theorem u8_ok {p q : NetParser} {n : Nat} (h : Past p n q) (hlen : n + 1 ≤ p.buffer.str.length) :
    ∃ r, q.u8 = .ok (UInt8.ofNat (field p.buffer.str n 1), r) ∧ Past p (n + 1) r := by
  obtain ⟨r, hr, hp⟩ := parseInt_ok h hlen
  exact ⟨r, by rw [u8, hr]; rfl, hp⟩

theorem removePrefix_ok {p q : NetParser} {n len : Nat} (h : Past p n q)
    (hlen : n + len ≤ p.buffer.str.length) :
    ∃ r, q.removePrefix len = .ok r ∧ Past p (n + len) r := by
  have hsize : len ≤ q.buffer.size := by
    rw [Buffer.size, h.str, List.length_drop]
    omega
  obtain ⟨b, hb, hstr⟩ := Buffer.removePrefix_ok hsize
  refine ⟨{ q with buffer := b }, ?_, by rw [hstr, h.str, List.drop_drop], h.getError⟩
  simp only [removePrefix, checkSize_enough hsize, error, h.getError, bne_self_eq_false,
    Bool.false_eq_true, ↓reduceIte, hb, Exec.ok_bind, Exec.pure_ok]

/-- Too few bytes left only set the error. -/
theorem checkSize_cases (p : NetParser) (n : Nat) :
    (p.checkSize n).error = true ∨
    p.checkSize n = p ∧ n ≤ p.buffer.size ∧ p.getError = .noError := by
  by_cases h : n ≤ p.buffer.size
  · rw [checkSize_enough h, error]
    by_cases he : p.getError = .noError
    · exact .inr ⟨rfl, h, he⟩
    · exact .inl (by simpa using he)
  · rw [checkSize, if_pos (Nat.lt_of_not_le h)]
    exact .inl rfl

theorem parseInt_returns (len : Nat) (p : NetParser) : ∃ n q, p.parseInt len = .ok (n, q) := by
  rcases p.checkSize_cases len with herror | ⟨-, hsize, hnone⟩
  · exact ⟨0, p.checkSize len, by simp only [parseInt, herror, ↓reduceIte, Exec.pure_ok]⟩
  · obtain ⟨q, hq, -⟩ := parseInt_ok (q := p) (n := 0) ⟨rfl, hnone⟩
      (show 0 + len ≤ _ by rw [Nat.zero_add]; exact hsize)
    exact ⟨_, q, hq⟩

theorem u32_returns (p : NetParser) : ∃ n q, p.u32 = .ok (n, q) := by
  obtain ⟨n, q, h⟩ := parseInt_returns 4 p
  exact ⟨_, q, by rw [u32, h]; rfl⟩

theorem u16_returns (p : NetParser) : ∃ n q, p.u16 = .ok (n, q) := by
  obtain ⟨n, q, h⟩ := parseInt_returns 2 p
  exact ⟨_, q, by rw [u16, h]; rfl⟩

theorem u8_returns (p : NetParser) : ∃ n q, p.u8 = .ok (n, q) := by
  obtain ⟨n, q, h⟩ := parseInt_returns 1 p
  exact ⟨_, q, by rw [u8, h]; rfl⟩

theorem removePrefix_returns (p : NetParser) (n : Nat) : ∃ q, p.removePrefix n = .ok q := by
  rcases p.checkSize_cases n with herror | ⟨-, hsize, hnone⟩
  · exact ⟨p.checkSize n, by simp only [removePrefix, herror, ↓reduceIte, Exec.pure_ok]⟩
  · obtain ⟨q, hq, -⟩ := removePrefix_ok (q := p) (n := 0) ⟨rfl, hnone⟩
      (show 0 + n ≤ _ by rw [Nat.zero_add]; exact hsize)
    exact ⟨q, hq⟩

/-! ### Too few bytes -/

/-- There are fewer than `n` bytes left, or an error has been set already. -/
def Lacks (p : NetParser) (n : Nat) : Prop := p.error = true ∨ p.buffer.str.length < n

theorem parseInt_lacks {p : NetParser} {len n : Nat} (h : p.Lacks (len + n)) :
    ∃ v q, p.parseInt len = .ok (v, q) ∧ q.Lacks n := by
  rcases p.checkSize_cases len with herror | ⟨-, hsize, hnone⟩
  · refine ⟨0, p.checkSize len, ?_, .inl herror⟩
    simp only [parseInt, herror, ↓reduceIte, Exec.pure_ok]
  · obtain ⟨q, hq, hpast⟩ := parseInt_ok (q := p) (n := 0) ⟨rfl, hnone⟩
      (show 0 + len ≤ _ by rw [Nat.zero_add]; exact hsize)
    refine ⟨_, q, hq, .inr ?_⟩
    have hshort : p.buffer.str.length < len + n := by
      rcases h with herror | hshort
      · rw [error, hnone] at herror
        cases herror
      · exact hshort
    have hle : len ≤ p.buffer.str.length := hsize
    rw [hpast.str, List.length_drop]
    omega

theorem u32_lacks {p : NetParser} {n : Nat} (h : p.Lacks (4 + n)) :
    ∃ v q, p.u32 = .ok (v, q) ∧ q.Lacks n := by
  obtain ⟨v, q, hq, hl⟩ := parseInt_lacks h
  exact ⟨_, q, by rw [u32, hq]; rfl, hl⟩

theorem u16_lacks {p : NetParser} {n : Nat} (h : p.Lacks (2 + n)) :
    ∃ v q, p.u16 = .ok (v, q) ∧ q.Lacks n := by
  obtain ⟨v, q, hq, hl⟩ := parseInt_lacks h
  exact ⟨_, q, by rw [u16, hq]; rfl, hl⟩

theorem u8_lacks {p : NetParser} {n : Nat} (h : p.Lacks (1 + n)) :
    ∃ v q, p.u8 = .ok (v, q) ∧ q.Lacks n := by
  obtain ⟨v, q, hq, hl⟩ := parseInt_lacks h
  exact ⟨_, q, by rw [u8, hq]; rfl, hl⟩

/-- In the end an error is set. -/
theorem removePrefix_lacks {p : NetParser} {n : Nat} (h : p.Lacks n) :
    ∃ q, p.removePrefix n = .ok q ∧ q.error = true := by
  rcases p.checkSize_cases n with herror | ⟨-, hsize, hnone⟩
  · refine ⟨p.checkSize n, ?_, herror⟩
    simp only [removePrefix, herror, ↓reduceIte, Exec.pure_ok]
  · rcases h with herror | hshort
    · rw [error, hnone] at herror
      cases herror
    · exact absurd hsize (Nat.not_le.mpr hshort)

end NetParser

theorem drop_add {b chunk rest : List Byte} {n k : Nat} (h : b.drop n = chunk ++ rest)
    (hk : chunk.length = k) : b.drop (n + k) = rest := by
  rw [← List.drop_drop, h, List.drop_left' hk]

/-- What follows a header that was written in three pieces. -/
theorem drop_pieces {front cksum back rest : List Byte} {n : Nat}
    (h : front.length + (cksum.length + back.length) = n) :
    (front ++ (cksum ++ (back ++ rest))).drop n = rest := by
  rw [← List.append_assoc cksum, ← List.append_assoc]
  apply List.drop_left'
  rw [List.length_append, List.length_append, h]

namespace NetUnparser

def unparseInt (len : Nat) (s : List Byte) (val : Nat) : List Byte :=
  (List.range len).foldl (fun s i => s ++ [UInt8.ofNat ((val >>> ((len - i - 1) * 8)) &&& 0xff)]) s

def u32 (s : List Byte) (val : UInt32) : List Byte := unparseInt 4 s val.toNat

def u16 (s : List Byte) (val : UInt16) : List Byte := unparseInt 2 s val.toNat

def u8 (s : List Byte) (val : UInt8) : List Byte := unparseInt 1 s val.toNat

/-- Writing a number appends its digits. -/
theorem unparseInt_eq (len : Nat) (s : List Byte) (val : Nat) :
    unparseInt len s val = s ++ BigEndian.digits len val := by
  have hfold : ∀ (f : Nat → Byte) (is : List Nat) (s : List Byte),
      is.foldl (fun s i => s ++ [f i]) s = s ++ is.map f := by
    intro f is
    induction is with
    | nil => simp
    | cons i is ih =>
      intro s
      rw [List.foldl_cons, ih]
      simp
  rw [unparseInt, hfold]
  congr 1
  induction len generalizing val with
  | zero => rfl
  | succ len ih =>
    rw [List.range_succ, List.map_append, BigEndian.digits, ← ih]
    congr 1
    · -- all but the last digit of `val` are those of `val / 256`
      apply List.map_congr_left
      intro i hi
      have hi := List.mem_range.mp hi
      have hshift : (len + 1 - i - 1) * 8 = 8 + (len - i - 1) * 8 := by omega
      rw [hshift, Nat.shiftRight_add, Nat.shiftRight_eq_div_pow val 8]
    · have hand : val &&& 0xff = val % 2 ^ 8 := Nat.and_two_pow_sub_one_eq_mod val 8
      have hlast : (len + 1 - len - 1) * 8 = 0 := by omega
      simp only [List.map_cons, List.map_nil, hlast, Nat.shiftRight_zero, hand]
      rw [UInt8.ofNat_mod_size]

theorem u32_eq (s : List Byte) (val : UInt32) : u32 s val = s ++ BigEndian.digits 4 val.toNat :=
  unparseInt_eq 4 s val.toNat

theorem u16_eq (s : List Byte) (val : UInt16) : u16 s val = s ++ BigEndian.digits 2 val.toNat :=
  unparseInt_eq 2 s val.toNat

theorem u8_eq (s : List Byte) (val : UInt8) : u8 s val = s ++ BigEndian.digits 1 val.toNat :=
  unparseInt_eq 1 s val.toNat

end NetUnparser

end Sponge
