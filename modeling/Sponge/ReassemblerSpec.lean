import Sponge.Reassembler

/-!
# What a push does to the window

The invariant of the reassembler and one specification for each of its parts.
`slot r j` is the byte waiting at place `j` of the window; `Held r p` says that the
byte at stream position `p` has been assembled or is waiting.
-/

namespace Sponge.StreamReassembler

open Words

/-- The byte waiting at place `j` of the window. -/
def slot (r : StreamReassembler) (j : Nat) : Option Byte :=
  if r.bitmap[j]? = some true then r.buffer[j]? else none

/-- What holds inside `push_substring` as well as between calls: the two deques keep
the size of the window, the counters match them and the output, and no byte waits
beyond the free part of the window. -/
structure Shape (r : StreamReassembler) : Prop where
  bits : r.bitmap.length = r.capacity
  cells : r.buffer.length = r.capacity
  room : r.output.capacity = r.capacity
  base : r.unassBase = r.output.writtenBytes
  size : r.unassSize = r.bitmap.count true
  window : ∀ j, r.bitmap[j]? = some true → j + r.output.buffer.length < r.capacity

/-- What any push that returns keeps, wherever its bytes go. -/
structure Regular (r : StreamReassembler) : Prop where
  bits : r.bitmap.length = r.capacity
  cells : r.buffer.length = r.capacity
  room : r.output.capacity = r.capacity
  size : r.unassSize = r.bitmap.count true

theorem Shape.regular {r : StreamReassembler} (h : Shape r) : Regular r :=
  ⟨h.bits, h.cells, h.room, h.size⟩

/-- The invariant between calls: what could be assembled has been. -/
structure Inv (r : StreamReassembler) : Prop extends Shape r where
  nonempty : 0 < r.capacity
  front : r.bitmap[0]? ≠ some true

theorem inv_new {capacity : Nat} (h : 0 < capacity) : Inv (new capacity) where
  bits := by simp [new]
  cells := by simp [new]
  room := rfl
  base := rfl
  size := by simp [new, List.count_replicate]
  window := by intro j hj; simp [new, List.getElem?_replicate] at hj
  nonempty := h
  front := by simp [new, List.getElem?_replicate]

/-! ## Storing bytes -/

/-- The marks after some rounds of a copying loop that fills the places from `bufOff` on. -/
structure Marked (r : StreamReassembler) (bufOff n : Nat) (t : StreamReassembler) : Prop where
  regular : Regular t
  frame : t.unassBase = r.unassBase ∧ t.eof = r.eof ∧ t.output = r.output ∧
    t.capacity = r.capacity
  marks : ∀ j, t.bitmap[j]? = some true ↔
    r.bitmap[j]? = some true ∨ (bufOff ≤ j ∧ j < bufOff + n)

/-- A round finds its place taken and changes nothing, or stores one byte there. -/
theorem storeByte_cases {t u : StreamReassembler} {data : List Byte} {dataOff bufOff i : Nat}
    (h : storeByte data dataOff bufOff t i = .ok u) :
    (t.bitmap[i + bufOff]? = some true ∧ u = t) ∨
    (t.bitmap[i + bufOff]? = some false ∧ i + bufOff < t.buffer.length ∧
      ∃ c, charAt data (i + dataOff) = .ok c ∧
        u = { t with
          buffer := t.buffer.set (i + bufOff) c
          bitmap := t.bitmap.set (i + bufOff) true
          unassSize := t.unassSize + 1 }) := by
  obtain ⟨b, hb, h⟩ := Exec.bind_eq_ok.mp h
  cases b with
  | true =>
    cases h
    exact .inl ⟨subscript_ok hb, rfl⟩
  | false =>
    obtain ⟨c, hc, h⟩ := Exec.bind_eq_ok.mp h
    obtain ⟨old, hold, h⟩ := Exec.bind_eq_ok.mp h
    cases h
    exact .inr ⟨subscript_ok hb, (List.getElem?_eq_some_iff.mp (subscript_ok hold)).1, c, hc, rfl⟩

theorem storeByte_marks {r t u : StreamReassembler} {data : List Byte} {dataOff bufOff i : Nat}
    (ht : Marked r bufOff i t) (h : storeByte data dataOff bufOff t i = .ok u) :
    Marked r bufOff (i + 1) u := by
  obtain ⟨regular, frame, marks⟩ := ht
  obtain ⟨hb, rfl⟩ | ⟨hb, _, c, _, rfl⟩ := storeByte_cases h
  · refine ⟨regular, frame, ?_⟩
    intro j
    rw [marks j]
    constructor
    · rintro (hj | hj)
      · exact .inl hj
      · exact .inr (by omega)
    · rintro (hj | hj)
      · exact .inl hj
      · by_cases he : j = i + bufOff
        · subst he; exact (marks _).mp hb
        · exact .inr (by omega)
  · obtain ⟨hbits, hv⟩ := List.getElem?_eq_some_iff.mp hb
    refine ⟨⟨by simp [regular.bits], by simp [regular.cells], regular.room, ?_⟩, frame, ?_⟩
    · simp [List.count_set hbits, hv, regular.size]
    · intro j
      simp only [List.getElem?_set]
      split
      · rename_i he
        subst he
        simp only [true_iff]
        exact .inr (by omega)
      · rename_i he
        rw [marks j]
        constructor
        · rintro (hj | hj)
          · exact .inl hj
          · exact .inr (by omega)
        · rintro (hj | hj)
          · exact .inl hj
          · exact .inr (by omega)

/-- A copying loop that returns has marked its places, wherever they are. -/
theorem store_marks {r t : StreamReassembler} (hr : Regular r) {data : List Byte}
    {dataOff bufOff n : Nat} (h : store data dataOff bufOff n r = .ok t) : Marked r bufOff n t := by
  apply Exec.range_ok (fun i t => Marked r bufOff i t) _ _ h
  · have none_yet : ∀ j, ¬ (bufOff ≤ j ∧ j < bufOff + 0) := by omega
    exact ⟨hr, ⟨rfl, rfl, rfl, rfl⟩, fun j => (or_iff_left (none_yet j)).symm⟩
  · intro i t u _ ht hu
    exact storeByte_marks ht hu

/-- The state after some rounds of a copying loop that stores the bytes of `data`
from `dataOff` on at the places from `bufOff` on. -/
structure Stored (r : StreamReassembler) (data : List Byte) (dataOff bufOff n : Nat)
    (t : StreamReassembler) : Prop where
  shape : Shape t
  frame : t.unassBase = r.unassBase ∧ t.eof = r.eof ∧ t.output = r.output ∧
    t.capacity = r.capacity
  marks : ∀ j, t.bitmap[j]? = some true ↔
    r.bitmap[j]? = some true ∨ (bufOff ≤ j ∧ j < bufOff + n)
  bytes : ∀ j c, t.slot j = some c → r.slot j = some c ∨
    (bufOff ≤ j ∧ j < bufOff + n ∧ data[dataOff + (j - bufOff)]? = some c)

theorem storeByte_returns {t : StreamReassembler} (ht : Regular t) {data : List Byte}
    {dataOff bufOff i : Nat} (hd : i + dataOff < data.length) (hb : i + bufOff < t.capacity) :
    ∃ u, storeByte data dataOff bufOff t i = .ok u := by
  have hbits : i + bufOff < t.bitmap.length := by rw [ht.bits]; exact hb
  have hcells : i + bufOff < t.buffer.length := by rw [ht.cells]; exact hb
  simp only [storeByte, subscript_some (List.getElem?_eq_getElem hbits),
    charAt_some (List.getElem?_eq_getElem hd), subscript_some (List.getElem?_eq_getElem hcells),
    Exec.ok_bind]
  split
  · exact ⟨_, rfl⟩
  · exact ⟨_, rfl⟩

theorem storeByte_spec {r t : StreamReassembler} {data : List Byte} {dataOff bufOff i : Nat}
    (ht : Stored r data dataOff bufOff i t) (hd : dataOff + i < data.length)
    (hw : bufOff + i + r.output.buffer.length < r.capacity) :
    ∃ u, storeByte data dataOff bufOff t i = .ok u ∧ Stored r data dataOff bufOff (i + 1) u := by
  obtain ⟨shape, frame, marks, bytes⟩ := ht
  have hd' : i + dataOff < data.length := by omega
  obtain ⟨u, hu⟩ := storeByte_returns shape.regular hd'
    (show i + bufOff < t.capacity by rw [frame.2.2.2]; omega)
  obtain ⟨regular, frame', marks'⟩ := storeByte_marks ⟨shape.regular, frame, marks⟩ hu
  have hbase := shape.base
  refine ⟨u, hu, ⟨regular.bits, regular.cells, regular.room, ?_, regular.size, ?_⟩, frame',
    marks', ?_⟩
  · rw [frame'.1, frame'.2.2.1, ← frame.1, ← frame.2.2.1]
    exact hbase
  · intro j hj
    rw [frame'.2.2.1, frame'.2.2.2]
    rcases (marks' j).mp hj with hold | hnew
    · have := shape.window j ((marks j).mpr (.inl hold))
      rwa [frame.2.2.1, frame.2.2.2] at this
    · omega
  · intro j c hc
    obtain ⟨_, rfl⟩ | ⟨hb, hcells, d, hchar, rfl⟩ := storeByte_cases hu
    · rcases bytes j c hc with hj | ⟨h1, h2, h3⟩
      · exact .inl hj
      · exact .inr ⟨h1, by omega, h3⟩
    · by_cases he : i + bufOff = j
      · subst he
        have hbits := (List.getElem?_eq_some_iff.mp hb).1
        simp only [slot, List.getElem?_set_self hbits, List.getElem?_set_self hcells,
          ↓reduceIte, Option.some.injEq] at hc
        rw [charAt_some (List.getElem?_eq_getElem hd'), Except.ok.injEq] at hchar
        refine .inr ⟨by omega, by omega, ?_⟩
        rw [show dataOff + (i + bufOff - bufOff) = i + dataOff by omega,
          List.getElem?_eq_getElem hd', hchar, hc]
      · have hc' : t.slot j = some c := by
          simpa only [slot, List.getElem?_set_ne he] using hc
        rcases bytes j c hc' with hj | ⟨h1, h2, h3⟩
        · exact .inl hj
        · exact .inr ⟨h1, by omega, h3⟩

/-- A copying loop that stays in the data and in the free window stores its bytes. -/
theorem store_spec {r : StreamReassembler} (hr : Shape r) (data : List Byte)
    (dataOff bufOff n : Nat) (hd : dataOff + n ≤ data.length)
    (hw : bufOff + n + r.output.buffer.length ≤ r.capacity) :
    ∃ t, store data dataOff bufOff n r = .ok t ∧ Stored r data dataOff bufOff n t := by
  apply Exec.range_total (fun i t => Stored r data dataOff bufOff i t)
  · have none_yet : ∀ j, ¬ (bufOff ≤ j ∧ j < bufOff + 0) := by omega
    exact ⟨hr, ⟨rfl, rfl, rfl, rfl⟩, fun j => (or_iff_left (none_yet j)).symm,
      fun j c hc => .inl hc⟩
  · intro i t hi ht
    exact storeByte_spec ht (by omega) (by omega)

/-! ## Moving the window -/

/-- The deques after `k` rounds of the loop of `check_contiguous`. -/
def slidBy (r : StreamReassembler) (k : Nat) : List Byte × List Byte × List Bool :=
  (r.buffer.take k, r.buffer.drop k ++ List.replicate k 0,
    r.bitmap.drop k ++ List.replicate k false)

theorem slidBy_succ {r : StreamReassembler} {k : Nat} (hb : k < r.bitmap.length)
    (hc : k < r.buffer.length) :
    slidBy r (k + 1) = ((slidBy r k).1 ++ [r.buffer[k]], (slidBy r k).2.1.tail ++ [0],
      (slidBy r k).2.2.tail ++ [false]) := by
  simp only [slidBy, List.take_add_one, List.getElem?_eq_getElem hc, Option.toList_some,
    List.drop_eq_getElem_cons hb, List.drop_eq_getElem_cons hc, List.cons_append, List.tail_cons,
    List.append_assoc, ← List.replicate_succ']

theorem count_slidBy {r : StreamReassembler} {k : Nat} (hb : r.bitmap[k]? = some true) :
    (slidBy r (k + 1)).2.2.count true < (slidBy r k).2.2.count true := by
  obtain ⟨hk, hv⟩ := List.getElem?_eq_some_iff.mp hb
  simp only [slidBy, List.drop_eq_getElem_cons hk, hv, List.count_append, List.cons_append,
    List.count_cons, List.count_replicate]
  simp

/-- `k` rounds are due: the bits passed were set. -/
def Passed (r : StreamReassembler) (k : Nat) : Prop :=
  k ≤ r.capacity ∧ ∀ j, j < k → r.bitmap[j]? = some true

theorem slide_round {r : StreamReassembler} (hr : Regular r) (pos : 0 < r.capacity) {k : Nat}
    (hk : Passed r k) :
    (r.bitmap[k]? ≠ some true ∧ slide (slidBy r k) = .ok (.done (slidBy r k))) ∨
    (r.bitmap[k]? = some true ∧ slide (slidBy r k) = .ok (.yield (slidBy r (k + 1))) ∧
      Passed r (k + 1)) := by
  by_cases hb : r.bitmap[k]? = some true
  · obtain ⟨hlt, hv⟩ := List.getElem?_eq_some_iff.mp hb
    have hlt' : k < r.buffer.length := by rw [hr.cells, ← hr.bits]; exact hlt
    refine .inr ⟨hb, ?_, by rw [← hr.bits]; omega, ?_⟩
    · rw [slidBy_succ hlt hlt']
      simp only [slidBy, List.drop_eq_getElem_cons hlt, List.drop_eq_getElem_cons hlt', hv]
      rfl
    · intro j hj
      by_cases he : j = k
      · subst he; exact hb
      · exact hk.2 j (by omega)
  · refine .inl ⟨hb, ?_⟩
    by_cases hlt : k < r.bitmap.length
    · have hv : r.bitmap[k] = false := by simpa [hlt] using hb
      simp only [slidBy, List.drop_eq_getElem_cons hlt, hv]
      rfl
    · -- every bit was set: the window now holds placeholders only
      have he : k = r.capacity := by have := hk.1; rw [hr.bits] at hlt; omega
      obtain ⟨n, hn⟩ : ∃ n, r.capacity = n + 1 := ⟨r.capacity - 1, by omega⟩
      subst he
      simp [slide, slidBy, subscript, hr.bits, hn, List.replicate_succ]

/-- The loop returns after the longest run of set bits at the front. -/
theorem gather_spec {r : StreamReassembler} (hr : Regular r) (pos : 0 < r.capacity) :
    ∃ k, Passed r k ∧ r.bitmap[k]? ≠ some true ∧ r.gather = .ok (slidBy r k) := by
  have bound : r.bitmap.count true < r.capacity + 1 := by
    rw [← hr.bits]; exact Nat.lt_succ_of_le List.count_le_length
  obtain ⟨s, hs, k, hk, hstop, rfl⟩ := Exec.loop_total _
    (fun s => ∃ k, Passed r k ∧ s = slidBy r k)
    (fun s => ∃ k, Passed r k ∧ r.bitmap[k]? ≠ some true ∧ s = slidBy r k)
    (fun s => s.2.2.count true)
    (by
      rintro s ⟨k, hk, rfl⟩
      obtain ⟨hb, h⟩ | ⟨hb, h, hk'⟩ := slide_round hr pos hk
      · exact .inl ⟨_, h, k, hk, hb, rfl⟩
      · exact .inr ⟨_, h, ⟨k + 1, hk', rfl⟩, count_slidBy hb⟩)
    (r.capacity + 1) ([], r.buffer, r.bitmap) ⟨0, ⟨Nat.zero_le _, by omega⟩, by simp [slidBy]⟩ bound
  exact ⟨k, hk, hstop, hs⟩

theorem Passed.count {r : StreamReassembler} {k : Nat} (hk : Passed r k) :
    r.bitmap.count true = k + (r.bitmap.drop k).count true := by
  have hall : r.bitmap.take k = List.replicate k true := by
    apply List.ext_getElem?
    intro j
    rw [List.getElem?_take, List.getElem?_replicate]
    split
    · rename_i hj; exact hk.2 j hj
    · rfl
  calc r.bitmap.count true = (r.bitmap.take k ++ r.bitmap.drop k).count true := by
        rw [List.take_append_drop]
    _ = k + (r.bitmap.drop k).count true := by
        rw [List.count_append, hall, List.count_replicate_self]

theorem slid_mark {r : StreamReassembler} {k j : Nat} (hb : k ≤ r.bitmap.length) :
    (slidBy r k).2.2[j]? = some true ↔ r.bitmap[j + k]? = some true := by
  simp only [slidBy, List.getElem?_append, List.length_drop, List.getElem?_drop,
    List.getElem?_replicate, Nat.add_comm k j]
  split
  · rfl
  · rw [List.getElem?_eq_none (by omega)]
    split <;> simp

/-- The state after `check_contiguous` has taken `k` bytes off the window. -/
def slid (r : StreamReassembler) (k : Nat) : StreamReassembler :=
  { r with
    buffer := (slidBy r k).2.1
    bitmap := (slidBy r k).2.2
    output := (r.output.write (r.buffer.take k)).1
    unassBase := r.unassBase + k
    unassSize := sub64 r.unassSize k }

/-- It takes the longest run of set bits at the front, whether or not the output has
room for it. -/
theorem checkContiguous_eq {r : StreamReassembler} (hr : Regular r) (pos : 0 < r.capacity) :
    ∃ k, Passed r k ∧ r.bitmap[k]? ≠ some true ∧ r.checkContiguous = .ok (r.slid k) := by
  obtain ⟨k, hk, hstop, hg⟩ := gather_spec hr pos
  have hlen : (r.buffer.take k).length = k := by
    have := hk.1
    rw [List.length_take, hr.cells]
    omega
  refine ⟨k, hk, hstop, ?_⟩
  simp only [checkContiguous, hg, Exec.ok_bind, slidBy, hlen]
  split
  · rfl
  · -- with nothing gathered the branch that writes would change nothing either
    have hk0 : k = 0 := by omega
    subst hk0
    simp [slid, slidBy, sub64_of_le]

theorem regular_slid {r : StreamReassembler} (hr : Regular r) {k : Nat} (hk : Passed r k) :
    Regular (r.slid k) := by
  have hcount := hk.count
  have hle := hk.1
  refine ⟨?_, ?_, hr.room, ?_⟩
  · simp only [slid, slidBy, List.length_append, List.length_drop, List.length_replicate, hr.bits]
    omega
  · simp only [slid, slidBy, List.length_append, List.length_drop, List.length_replicate, hr.cells]
    omega
  · simp only [slid, slidBy, List.count_append, List.count_replicate]
    rw [sub64_of_le (by rw [hr.size]; omega), hr.size]
    simp
    omega

/-- What is gathered fits the output, since every set bit is in the free window. -/
theorem Passed.fits {r : StreamReassembler} (hr : Shape r) {k : Nat} (hk : Passed r k) :
    r.output.buffer.length + k ≤ r.capacity := by
  cases k with
  | zero => have := r.output.fits; rw [hr.room] at this; omega
  | succ k => have := hr.window k (hk.2 k (by omega)); omega

/-- The state `t` in which `check_contiguous` leaves `r` after assembling `k` bytes. -/
structure Assembled (r : StreamReassembler) (k : Nat) (t : StreamReassembler) : Prop where
  inv : Inv t
  frame : t.eof = r.eof ∧ t.capacity = r.capacity ∧ t.output.readBytes = r.output.readBytes ∧
    t.output.endWrite = r.output.endWrite
  passed : Passed r k
  moved : t.unassBase = r.unassBase + k
  out : t.output.buffer = r.output.buffer ++ r.buffer.take k
  marks : ∀ j, t.bitmap[j]? = some true ↔ r.bitmap[j + k]? = some true
  slots : ∀ j, t.slot j = r.slot (j + k)

theorem checkContiguous_spec {r : StreamReassembler} (hr : Shape r) (pos : 0 < r.capacity) :
    ∃ k t, r.checkContiguous = .ok t ∧ Assembled r k t := by
  obtain ⟨k, hk, hstop, hok⟩ := checkContiguous_eq hr.regular pos
  have regular := regular_slid hr.regular hk
  have hkb : k ≤ r.bitmap.length := by rw [hr.bits]; exact hk.1
  have fits := hk.fits hr
  have hlen : (r.buffer.take k).length = k := by
    have := hk.1
    rw [List.length_take, hr.cells]
    omega
  have hw : (r.slid k).output.buffer = r.output.buffer ++ r.buffer.take k :=
    ByteStream.write_fits (by rw [hlen, hr.room]; exact fits)
  have marks : ∀ j, (r.slid k).bitmap[j]? = some true ↔ r.bitmap[j + k]? = some true :=
    fun j => slid_mark hkb
  refine ⟨k, r.slid k, hok,
    ⟨⟨regular.bits, regular.cells, regular.room, ?_, regular.size, ?_⟩, pos, ?_⟩,
    ⟨rfl, rfl, rfl, rfl⟩, hk, rfl, hw, marks, ?_⟩
  · have h1 := (r.slid k).output.counts
    have h2 := r.output.counts
    have h3 := hr.base
    rw [hw, List.length_append, hlen] at h1
    simp only [slid, ByteStream.write_readBytes] at h1 ⊢
    omega
  · intro j hj
    have := hr.window (j + k) ((marks j).mp hj)
    rw [hw, List.length_append, hlen]
    simp only [slid]
    omega
  · rw [Ne, marks 0, Nat.zero_add]
    exact hstop
  · intro j
    simp only [slot, marks j]
    split
    · rename_i hj
      have hlt := (List.getElem?_eq_some_iff.mp hj).1
      rw [hr.bits, ← hr.cells] at hlt
      simp only [slid, slidBy, List.getElem?_append, List.length_drop, List.getElem?_drop,
        Nat.add_comm k j]
      rw [if_pos (by omega)]
    · rfl

/-! ## Placing a substring -/

/-- The offset arithmetic of `push_substring` is exact: the substring has nothing to
store, or it starts inside the free window, or it starts before the window, and in
the last two cases the distance to the window's start fits an `int`. -/
def Exact (r : StreamReassembler) (data : List Byte) (index : Nat) : Prop :=
  data = [] ∨ r.unassBase + r.capacity ≤ index ∨
  (r.unassBase ≤ index ∧ index ≤ r.output.readBytes + r.capacity ∧
    index - r.unassBase < 2 ^ 31) ∨
  (index < r.unassBase ∧ (index + data.length ≤ r.unassBase ∨ r.unassBase - index < 2 ^ 31))

instance (r : StreamReassembler) (data : List Byte) (index : Nat) :
    Decidable (Exact r data index) := by unfold Exact; infer_instance

/-- Part of the substring lies beyond the free window. -/
def Truncated (r : StreamReassembler) (data : List Byte) (index : Nat) : Prop :=
  data ≠ [] ∧ r.output.readBytes + r.capacity < index + data.length

/-- The state `t` after the copying branch taken for a substring. -/
structure Placed (r : StreamReassembler) (data : List Byte) (index : Nat)
    (t : StreamReassembler) : Prop where
  shape : Shape t
  frame : t.unassBase = r.unassBase ∧ t.output = r.output ∧ t.capacity = r.capacity
  eof : t.eof = true ↔ r.eof = true ∧ ¬ Truncated r data index
  marks : ∀ j, t.bitmap[j]? = some true ↔ r.bitmap[j]? = some true ∨
    (index ≤ r.unassBase + j ∧ r.unassBase + j < index + data.length ∧
      r.unassBase + j < r.output.readBytes + r.capacity)
  bytes : ∀ j c, t.slot j = some c → r.slot j = some c ∨
    (index ≤ r.unassBase + j ∧ data[r.unassBase + j - index]? = some c)

theorem Shape.withEof {r : StreamReassembler} (h : Shape r) (eof : Bool) :
    Shape { r with eof := eof } :=
  ⟨h.bits, h.cells, h.room, h.base, h.size, h.window⟩

/-- Both branches store the part of the substring that meets the free window: byte
`dataOff` of the data belongs to place `bufOff` of the window. -/
theorem store_placed {r : StreamReassembler} (hr : Shape r) (data : List Byte)
    (index dataOff bufOff : Nat) (align : index + dataOff = r.unassBase + bufOff)
    (edge : dataOff = 0 ∨ bufOff = 0) (hd : dataOff < data.length)
    (hb : bufOff + r.output.buffer.length ≤ r.capacity) :
    let rest := data.length - dataOff
    let realLen := min rest (r.capacity - r.output.buffer.length - bufOff)
    ∃ t, store data dataOff bufOff realLen (if realLen < rest then { r with eof := false } else r) =
      .ok t ∧ Placed r data index t := by
  intro rest realLen
  have hc := r.output.counts
  have hbase := hr.base
  have hne : data ≠ [] := by intro h; simp [h] at hd
  have cut : realLen < rest ↔ Truncated r data index := by
    simp only [Truncated, hne, ne_eq, not_false_eq_true, true_and]
    omega
  -- the flag is cleared before the loop, which neither reads nor writes it
  obtain ⟨e, he, hflag⟩ : ∃ e, (if realLen < rest then { r with eof := false } else r) =
      { r with eof := e } ∧ (e = true ↔ r.eof = true ∧ ¬ Truncated r data index) := by
    rw [← cut]
    by_cases h : realLen < rest
    · exact ⟨false, by simp [h], by simp [h]⟩
    · exact ⟨r.eof, by simp [h], by simp [h]⟩
  obtain ⟨t, ht, shape, ⟨fb, fe, fo, fc⟩, marks, bytes⟩ :=
    store_spec (hr.withEof e) data dataOff bufOff realLen (by omega) (by dsimp only; omega)
  rw [he]
  refine ⟨t, ht, shape, ⟨fb, fo, fc⟩, by rw [fe, ← hflag], ?_, ?_⟩
  · intro j
    rw [marks j]
    apply or_congr Iff.rfl
    constructor <;> rintro ⟨_, _⟩ <;> omega
  · intro j c hc
    rcases bytes j c hc with h | ⟨h1, h2, h3⟩
    · exact .inl h
    · refine .inr ⟨by omega, ?_⟩
      rw [show r.unassBase + j - index = dataOff + (j - bufOff) by omega]
      exact h3

theorem placed_self {r : StreamReassembler} (hr : Shape r) {data : List Byte} {index : Nat}
    (h : data = [] ∨ index + data.length ≤ r.unassBase) : Placed r data index r := by
  have hc := r.output.counts
  have hf := r.output.fits
  rw [hr.room] at hf
  have hb := hr.base
  have hcut : ¬ Truncated r data index := by
    rintro ⟨hne, hlt⟩
    rcases h with h | h
    · exact hne h
    · omega
  refine ⟨hr, ⟨rfl, rfl, rfl⟩, by simp [hcut], ?_, fun j c hj => .inl hj⟩
  intro j
  constructor
  · exact .inl
  · rintro (hj | ⟨h1, h2, h3⟩)
    · exact hj
    · rcases h with h | h
      · subst h; simp only [List.length_nil] at h2; omega
      · omega

theorem place_spec {r : StreamReassembler} (hr : Shape r) {data : List Byte} {index : Nat}
    (hin : index < r.unassBase + r.capacity) (hx : Exact r data index) :
    ∃ t, r.place data index = .ok t ∧ Placed r data index t := by
  have hc := r.output.counts
  have hf := r.output.fits
  rw [hr.room] at hf
  have hb := hr.base
  have room : sub64 r.capacity r.output.bufferSize = r.capacity - r.output.buffer.length :=
    sub64_of_le hf
  unfold place
  split
  · rename_i hle
    by_cases hd : data = []
    · subst hd
      refine ⟨r, ?_, placed_self hr (.inl rfl)⟩
      simp [placeAhead, store]
    · have hlt : index ≤ r.output.readBytes + r.capacity ∧ index - r.unassBase < 2 ^ 31 := by
        rcases hx with h | h | ⟨_, h⟩ | ⟨h, _⟩
        · exact absurd h hd
        · omega
        · exact h
        · omega
      have := store_placed hr data index 0 (index - r.unassBase) (by omega) (.inl rfl)
        (List.length_pos_iff.mpr hd) (by omega)
      simpa only [placeAhead, widen_narrow hlt.2, room, Nat.sub_zero,
        sub64_of_le (show index - r.unassBase ≤ r.capacity - r.output.buffer.length by omega)]
        using this
  · rename_i hlt
    split
    · rename_i hreach
      have hnear : r.unassBase - index < 2 ^ 31 := by
        rcases hx with h | h | ⟨h, _⟩ | ⟨_, h | h⟩
        · subst h; simp only [List.length_nil] at hreach; omega
        · omega
        · omega
        · omega
        · exact h
      have := store_placed hr data index (r.unassBase - index) 0 (by omega) (.inr rfl)
        (by omega) (by omega)
      simpa only [placeOverlap, widen_narrow hnear, room, Nat.sub_zero,
        sub64_of_le (show r.unassBase - index ≤ data.length by omega)] using this
    · exact ⟨r, rfl, placed_self hr (.inr (by omega))⟩

/-! ## A whole push -/

/-- The byte at stream position `p` has been assembled or is waiting. -/
def Held (r : StreamReassembler) (p : Nat) : Prop :=
  p < r.unassBase ∨ r.bitmap[p - r.unassBase]? = some true

instance (r : StreamReassembler) (p : Nat) : Decidable (Held r p) := by
  unfold Held; infer_instance

/-- The state `t` after `push_substring`. -/
structure Pushed (r : StreamReassembler) (data : List Byte) (index : Nat) (eof : Bool)
    (t : StreamReassembler) : Prop where
  inv : Inv t
  frame : t.capacity = r.capacity ∧ t.output.readBytes = r.output.readBytes
  forward : r.unassBase ≤ t.unassBase
  held : ∀ p, Held t p ↔ Held r p ∨
    (index ≤ p ∧ p < index + data.length ∧ p < r.output.readBytes + r.capacity)
  eof : t.eof = true ↔ (r.eof = true ∨ eof = true) ∧
    ¬ (index < r.unassBase + r.capacity ∧ Truncated r data index)
  ended : t.output.endWrite = true ↔ r.output.endWrite = true ∨
    (t.eof = true ∧ t.unassSize = 0 ∧ (data = [] ∨ index < r.unassBase + r.capacity))

theorem Inv.withEof {r : StreamReassembler} (h : Inv r) (eof : Bool) :
    Inv { r with eof := eof } :=
  ⟨h.toShape.withEof eof, h.nonempty, h.front⟩

theorem Inv.withEnd {r : StreamReassembler} (h : Inv r) :
    Inv { r with output := r.output.endInput } :=
  ⟨⟨h.bits, h.cells, h.room, h.base, h.size, h.window⟩, h.nonempty, h.front⟩

theorem noteEof_eq (r : StreamReassembler) (eof : Bool) :
    r.noteEof eof = { r with eof := r.eof || eof } := by
  cases eof <;> simp [noteEof]

theorem closeIfDone_eq (r : StreamReassembler) :
    r.closeIfDone = r ∧ ¬ (r.eof = true ∧ r.unassSize = 0) ∨
    r.closeIfDone = { r with output := r.output.endInput } ∧ r.eof = true ∧ r.unassSize = 0 := by
  unfold closeIfDone
  split <;> simp_all

/-- The three ways through `push_substring`: the early end of input, an index past
the window, and the copying branches followed by the assembly. -/
theorem push_cases {r : StreamReassembler} (hr : Inv r) {data : List Byte} {index : Nat}
    (eof : Bool) (hx : Exact r data index) :
    (data = [] ∧ (r.eof = true ∨ eof = true) ∧ r.unassSize = 0 ∧
      r.pushSubstring data index eof =
        .ok { r with eof := true, output := r.output.endInput }) ∨
    (¬ (data = [] ∧ (r.eof = true ∨ eof = true) ∧ r.unassSize = 0) ∧
      r.unassBase + r.capacity ≤ index ∧
      r.pushSubstring data index eof = .ok { r with eof := r.eof || eof }) ∨
    (¬ (data = [] ∧ (r.eof = true ∨ eof = true) ∧ r.unassSize = 0) ∧
      index < r.unassBase + r.capacity ∧
      ∃ t k u, Placed { r with eof := r.eof || eof } data index t ∧ Assembled t k u ∧
        r.pushSubstring data index eof = .ok u.closeIfDone) := by
  by_cases he : data = [] ∧ (r.eof = true ∨ eof = true) ∧ r.unassSize = 0
  · refine .inl ⟨he.1, he.2.1, he.2.2, ?_⟩
    have hor : (r.eof || eof) = true := by simpa using he.2.1
    simp [pushSubstring, noteEof_eq, he.1, hor, he.2.2]
  · have hb : (data.length == 0 && (r.eof || eof) && r.unassSize == 0) = false := by
      simpa [List.length_eq_zero_iff, and_assoc] using he
    by_cases hi : r.unassBase + r.capacity ≤ index
    · refine .inr (.inl ⟨he, hi, ?_⟩)
      simp [pushSubstring, noteEof_eq, hb, hi]
    · obtain ⟨t, ht, placed⟩ := place_spec (hr.withEof (r.eof || eof)).toShape
        (Nat.lt_of_not_le hi) (show Exact { r with eof := r.eof || eof } data index from hx)
      have pos : 0 < t.capacity := by rw [placed.frame.2.2]; exact hr.nonempty
      obtain ⟨k, u, hu, assembled⟩ := checkContiguous_spec placed.shape pos
      refine .inr (.inr ⟨he, by omega, t, k, u, placed, assembled, ?_⟩)
      simp [pushSubstring, noteEof_eq, hb, hi, ht, hu]

theorem Assembled.held {t u : StreamReassembler} {k : Nat} (h : Assembled t k u) (p : Nat) :
    Held u p ↔ Held t p := by
  unfold Held
  rw [h.moved, h.marks]
  by_cases h1 : p < t.unassBase
  · simp [h1, show p < t.unassBase + k by omega]
  · by_cases h2 : p < t.unassBase + k
    · simp [h2, h.passed.2 (p - t.unassBase) (by omega)]
    · simp [h1, h2, show p - (t.unassBase + k) + k = p - t.unassBase by omega]

theorem Placed.held {r t : StreamReassembler} {data : List Byte} {index : Nat}
    (h : Placed r data index t) (p : Nat) :
    Held t p ↔ Held r p ∨
      (index ≤ p ∧ p < index + data.length ∧ p < r.output.readBytes + r.capacity) := by
  unfold Held
  rw [h.frame.1, h.marks]
  by_cases h1 : p < r.unassBase
  · simp [h1]
  · simp [h1, show r.unassBase + (p - r.unassBase) = p by omega]

/-- **A push in reach.** It returns, keeps the invariant and holds exactly what was
held before and what it brought below the right edge of the window. -/
theorem push_spec {r : StreamReassembler} (hr : Inv r) {data : List Byte} {index : Nat}
    (eof : Bool) (hx : Exact r data index) :
    ∃ t, r.pushSubstring data index eof = .ok t ∧ Pushed r data index eof t := by
  have hc := r.output.counts
  have hf := r.output.fits
  rw [hr.room] at hf
  have hb := hr.base
  obtain ⟨hd, he, hs, h⟩ | ⟨hn, hi, h⟩ | ⟨hn, hi, t, k, u, placed, assembled, h⟩ :=
    push_cases hr eof hx
  · subst hd
    refine ⟨_, h, (hr.withEof true).withEnd, ⟨rfl, rfl⟩, Nat.le_refl _, ?_, ?_, ?_⟩
    · intro p
      simp only [List.length_nil, Nat.add_zero]
      exact ⟨.inl, fun hp => hp.elim id (fun hp => by omega)⟩
    · simp [he, Truncated]
    · simp [ByteStream.endInput, hs]
  · refine ⟨_, h, hr.withEof _, ⟨rfl, rfl⟩, Nat.le_refl _, ?_, ?_, ?_⟩
    · intro p
      exact ⟨.inl, fun hp => hp.elim id (fun hp => by omega)⟩
    · simp [show ¬ index < r.unassBase + r.capacity by omega]
    · have hd : ¬ (data = [] ∧ (r.eof || eof) = true ∧ r.unassSize = 0) := by simpa using hn
      simp only [show ¬ index < r.unassBase + r.capacity by omega, or_false]
      exact ⟨.inl, fun hp => hp.elim id (fun hp => absurd ⟨hp.2.2, hp.1, hp.2.1⟩ hd)⟩
  · have held : ∀ p, Held u p ↔ Held r p ∨
        (index ≤ p ∧ p < index + data.length ∧ p < r.output.readBytes + r.capacity) :=
      fun p => (assembled.held p).trans (placed.held p)
    have hcap : u.capacity = r.capacity := assembled.frame.2.1.trans placed.frame.2.2
    have hread : u.output.readBytes = r.output.readBytes := by
      rw [assembled.frame.2.2.1, placed.frame.2.1]
    have hfwd : r.unassBase ≤ u.unassBase := by
      rw [assembled.moved, placed.frame.1]; exact Nat.le_add_right _ _
    have heof : u.eof = true ↔ (r.eof = true ∨ eof = true) ∧
        ¬ (index < r.unassBase + r.capacity ∧ Truncated r data index) := by
      rw [assembled.frame.1, placed.eof]
      simp [hi, Truncated]
    have hend : u.output.endWrite = r.output.endWrite := by
      rw [assembled.frame.2.2.2, placed.frame.2.1]
    obtain ⟨hcl, hopen⟩ | ⟨hcl, hdone⟩ := closeIfDone_eq u
    · refine ⟨_, h, ?_⟩
      rw [hcl]
      refine ⟨assembled.inv, ⟨hcap, hread⟩, hfwd, held, heof, ?_⟩
      rw [hend]
      exact ⟨.inl, fun hp => hp.elim id (fun hp => absurd ⟨hp.1, hp.2.1⟩ hopen)⟩
    · refine ⟨_, h, ?_⟩
      rw [hcl]
      refine ⟨assembled.inv.withEnd, ⟨hcap, hread⟩, hfwd, held, heof, ?_⟩
      simp [ByteStream.endInput, hdone, hi]

/-- A substring that reaches into a window with free space from at least `2 ^ 31`
bytes before it: the negative `int offset` makes the first byte copied one far
outside the data. -/
theorem far_overlap_faults {r : StreamReassembler} (hr : Inv r) {data : List Byte} {index : Nat}
    (eof : Bool) (hlt : index < r.unassBase) (hreach : r.unassBase < index + data.length)
    (far : 2 ^ 31 ≤ r.unassBase - index) (far' : r.unassBase - index < 2 ^ 32)
    (hlen : data.length < 2 ^ 63) (room : r.output.buffer.length < r.capacity) :
    r.pushSubstring data index eof = .error .outOfRange := by
  have hd : data ≠ [] := by
    intro h
    rw [h, List.length_nil] at hreach
    omega
  have hbit : r.bitmap[0]? = some false := by
    have hpos : 0 < r.bitmap.length := by rw [hr.bits]; exact hr.nonempty
    have hfront := hr.front
    simpa [hpos] using hfront
  have hoff := widen_narrow_high far far'
  obtain ⟨m, hm, hrest⟩ : ∃ m, 0 < m ∧
      sub64 data.length (2 ^ 64 - (2 ^ 32 - (r.unassBase - index))) = m := by
    refine ⟨_, ?_, sub64_of_lt ?_⟩ <;> omega
  have hroom : sub64 r.capacity r.output.bufferSize = r.capacity - r.output.buffer.length :=
    sub64_of_le (Nat.le_of_lt room)
  obtain ⟨n, hn⟩ : ∃ n, min m (r.capacity - r.output.buffer.length) = n + 1 :=
    Nat.exists_eq_succ_of_ne_zero (by omega)
  have first : ∀ e, store data (2 ^ 64 - (2 ^ 32 - (r.unassBase - index))) 0 (n + 1)
      { r with eof := e } = .error .outOfRange := by
    intro e
    have hout : charAt data (2 ^ 64 - (2 ^ 32 - (r.unassBase - index))) = .error .outOfRange := by
      rw [charAt, subscript, List.getElem?_eq_none (by simp; omega)]
    simp only [store, List.range_succ_eq_map, List.foldlM_cons, storeByte, Nat.zero_add,
      subscript_some hbit, hout, Exec.ok_bind, Exec.error_bind, Bool.false_eq_true, ↓reduceIte]
  have hplace : ∀ e, place { r with eof := e } data index = .error .outOfRange := by
    intro e
    simp only [place, placeOverlap, hoff, hrest, hroom, hn, Nat.not_le.mpr hlt, hreach, ↓reduceIte]
    split
    · exact first false
    · exact first e
  simp [pushSubstring, noteEof_eq, hd, hplace, show ¬ r.unassBase + r.capacity ≤ index by omega]

/-- An overlap of `2 ^ 32` bytes leaves an offset of zero: the window is filled from the start
of the data, and the end mark is cleared because most of the data does not fit. -/
theorem wrapped_overlap {r : StreamReassembler} (hr : Inv r) {data : List Byte} {index : Nat}
    (eof : Bool) (hbase : r.unassBase = index + 2 ^ 32)
    (hlen : data.length = 2 ^ 32 + r.capacity) (hempty : r.output.buffer = []) :
    ∃ t, r.pushSubstring data index eof = .ok t ∧ Inv t ∧ t.eof = false ∧
      t.unassBase = r.unassBase + r.capacity ∧ t.output.endWrite = r.output.endWrite := by
  have hpos := hr.nonempty
  have hoff : widen (narrow (r.unassBase - index)) = 0 := by
    rw [hbase, Nat.add_sub_cancel_left]
    rfl
  have hroom : sub64 r.capacity r.output.bufferSize = r.capacity := by
    simp [ByteStream.bufferSize, hempty, sub64]
  have hreal : min (sub64 data.length 0) r.capacity = r.capacity := by
    rw [sub64_of_le (Nat.zero_le _)]
    omega
  have hcut : r.capacity < sub64 data.length 0 := by
    rw [sub64_of_le (Nat.zero_le _)]
    omega
  obtain ⟨u, hu, stored⟩ := store_spec (hr.toShape.withEof false) data 0 0 r.capacity (by omega)
    (by simp [hempty])
  obtain ⟨hub, hue, huo, huc⟩ := stored.frame
  have hplace : ∀ e, place { r with eof := e } data index = .ok u := by
    intro e
    simp only [place, placeOverlap, hoff, hroom, hreal, hcut, ↓reduceIte,
      show ¬ r.unassBase ≤ index by omega, show r.unassBase < index + data.length by omega]
    exact hu
  obtain ⟨k, v, hv, assembled⟩ := checkContiguous_spec stored.shape (by rw [huc]; exact hpos)
  -- every place of the window is marked, so that all of it is assembled
  have hk : k = r.capacity := by
    apply Nat.le_antisymm
    · have := assembled.passed.1
      rw [huc] at this
      exact this
    · apply Nat.le_of_not_lt
      intro hlt
      apply assembled.inv.front
      rw [assembled.marks, stored.marks]
      exact .inr ⟨Nat.zero_le _, by omega⟩
  have hflag : v.eof = false := assembled.frame.1.trans hue
  refine ⟨v, ?_, assembled.inv, hflag, ?_, ?_⟩
  · have hdata : (data.length == 0) = false := by
      rw [beq_eq_false_iff_ne]
      omega
    simp only [pushSubstring, noteEof_eq, hplace, hv, hdata, Bool.false_and, Bool.false_eq_true,
      show ¬ r.unassBase + r.capacity ≤ index by omega, Exec.ok_bind, Exec.pure_ok, ↓reduceIte]
    rw [closeIfDone, hflag]
    rfl
  · rw [assembled.moved, hub, hk]
  · rw [assembled.frame.2.2.2, huo]

/-! ## Pushes that go anywhere

The source never compares an index with the free part of the window, so a push can store
past it. Whatever one that returns has stored, the number of free places counted from the
start of the stream does not fall. -/

/-- The stream position at which the free part of the window ends. -/
def freeEdge (r : StreamReassembler) : Nat :=
  r.unassBase + (r.capacity - r.output.buffer.length)

/-- The substring starts past the first unassembled byte, and some of it is stored. -/
def Waits (r : StreamReassembler) (data : List Byte) (index : Nat) : Prop :=
  data ≠ [] ∧ r.unassBase < index ∧ index < r.unassBase + r.capacity ∧ index ≠ r.freeEdge

instance (r : StreamReassembler) (data : List Byte) (index : Nat) :
    Decidable (Waits r data index) := inferInstanceAs (Decidable (_ ∧ _))

theorem Regular.withEof {r : StreamReassembler} (h : Regular r) (eof : Bool) :
    Regular { r with eof := eof } := ⟨h.bits, h.cells, h.room, h.size⟩

theorem Regular.withOutput {r : StreamReassembler} (h : Regular r) (output : ByteStream)
    (hc : output.capacity = r.output.capacity) : Regular { r with output := output } :=
  ⟨h.bits, h.cells, hc.trans h.room, h.size⟩

/-- A copying loop that returns has marked its places, whatever it noted of the end. -/
theorem store_marks_cut {r t : StreamReassembler} (hr : Regular r) {data : List Byte}
    {dataOff bufOff n : Nat} {cut : Prop} [Decidable cut]
    (h : store data dataOff bufOff n (if cut then { r with eof := false } else r) = .ok t) :
    ∃ e, Marked { r with eof := e } bufOff n t := by
  split at h
  · exact ⟨false, store_marks (hr.withEof false) h⟩
  · exact ⟨r.eof, store_marks hr h⟩

theorem marked_self {r : StreamReassembler} (hr : Regular r) : Marked r 0 0 r :=
  ⟨hr, ⟨rfl, rfl, rfl, rfl⟩, fun _ => (or_iff_left (by omega)).symm⟩

/-- The copying branch marks one run of places. -/
theorem place_marked {r t : StreamReassembler} (hr : Regular r) {data : List Byte} {index : Nat}
    (h : r.place data index = .ok t) : ∃ e bufOff n, Marked { r with eof := e } bufOff n t := by
  unfold place at h
  split at h
  · obtain ⟨e, hm⟩ := store_marks_cut hr h
    exact ⟨e, _, _, hm⟩
  · split at h
    · obtain ⟨e, hm⟩ := store_marks_cut hr h
      exact ⟨e, _, _, hm⟩
    · cases h
      exact ⟨r.eof, 0, 0, marked_self hr⟩

/-- This run starts the window or is empty unless the substring waits. -/
theorem place_marks {r t : StreamReassembler} (hr : Regular r) (hcap : r.capacity ≤ 2 ^ 31)
    {data : List Byte} {index : Nat} (hin : index < r.unassBase + r.capacity)
    (h : r.place data index = .ok t) :
    ∃ e bufOff n, Marked { r with eof := e } bufOff n t ∧
      (¬ Waits r data index → bufOff = 0 ∨ n = 0) := by
  unfold place at h
  split at h
  · rename_i hle
    obtain ⟨e, hm⟩ := store_marks_cut hr h
    refine ⟨e, _, _, hm, ?_⟩
    rw [widen_narrow (show index - r.unassBase < 2 ^ 31 by omega)]
    intro hnot
    by_cases hd : data = []
    · right
      simp [hd]
    · by_cases he : index = r.freeEdge
      · right
        have hf := r.output.fits
        rw [hr.room] at hf
        have hfree : index - r.unassBase = r.capacity - r.output.buffer.length := by
          rw [he, freeEdge]
          omega
        rw [ByteStream.bufferSize, sub64_of_le hf, hfree, sub64_of_le (Nat.le_refl _), Nat.sub_self,
          Nat.min_zero]
      · left
        have : ¬ r.unassBase < index := fun hlt => hnot ⟨hd, hlt, hin, he⟩
        omega
  · split at h
    · obtain ⟨e, hm⟩ := store_marks_cut hr h
      exact ⟨e, _, _, hm, fun _ => .inl rfl⟩
    · cases h
      exact ⟨r.eof, 0, 0, marked_self hr, fun _ => .inl rfl⟩

theorem freeEdge_slid {r : StreamReassembler} (hr : Regular r) (k : Nat) :
    r.freeEdge ≤ (r.slid k).freeEdge := by
  have hw : (r.slid k).output.buffer.length ≤ r.output.buffer.length + k := by
    simp only [slid, ByteStream.write, List.length_append, List.length_take]
    omega
  have hf := r.output.fits
  rw [hr.room] at hf
  change r.unassBase + _ ≤ r.unassBase + k + (r.capacity - _)
  omega

/-- A run that starts the window is taken off it whole. -/
theorem slid_empty {r t : StreamReassembler} {bufOff n k : Nat} (hm : Marked r bufOff n t)
    (hz : r.bitmap.count true = 0) (hrun : bufOff = 0 ∨ n = 0) (hk : Passed t k)
    (hstop : t.bitmap[k]? ≠ some true) : (t.slid k).unassSize = 0 := by
  have marks : ∀ j, t.bitmap[j]? = some true ↔ bufOff ≤ j ∧ j < bufOff + n := by
    intro j
    rw [hm.marks j]
    refine or_iff_right ?_
    intro hj
    exact List.count_eq_zero.mp hz (List.mem_of_getElem? hj)
  rw [(regular_slid hm.regular hk).size, List.count_eq_zero]
  intro hmem
  obtain ⟨j, hj⟩ := List.getElem?_of_mem hmem
  have hkb : k ≤ t.bitmap.length := by rw [hm.regular.bits]; exact hk.1
  have hlater := (marks _).mp ((slid_mark hkb).mp hj)
  exact hstop ((marks k).mpr (by omega))

/-- **Any push that returns.** -/
theorem push_any {r t : StreamReassembler} (hr : Regular r) (pos : 0 < r.capacity)
    (hcap : r.capacity ≤ 2 ^ 31) {data : List Byte} {index : Nat} {eof : Bool}
    (h : r.pushSubstring data index eof = .ok t) :
    Regular t ∧ t.capacity = r.capacity ∧ r.freeEdge ≤ t.freeEdge ∧
      (r.unassSize = 0 → ¬ Waits r data index → t.unassSize = 0) := by
  simp only [pushSubstring, noteEof_eq] at h
  split at h
  · cases h
    exact ⟨(hr.withEof (r.eof || eof)).withOutput r.output.endInput rfl, rfl, Nat.le_refl _,
      fun hz _ => hz⟩
  · split at h
    · cases h
      exact ⟨hr.withEof _, rfl, Nat.le_refl _, fun hz _ => hz⟩
    · rename_i hin
      obtain ⟨u, hu, h⟩ := Exec.bind_eq_ok.mp h
      obtain ⟨v, hv, h⟩ := Exec.bind_eq_ok.mp h
      cases h
      obtain ⟨e, bufOff, n, hm, hrun⟩ := place_marks (hr.withEof (r.eof || eof)) hcap
        (Nat.lt_of_not_le hin) hu
      obtain ⟨fb, _, fo, fc⟩ := hm.frame
      obtain ⟨k, hk, hstop, hok⟩ := checkContiguous_eq hm.regular (by rw [fc]; exact pos)
      rw [hok] at hv
      cases hv
      have hregular := regular_slid hm.regular hk
      have hedge : r.freeEdge ≤ (u.slid k).freeEdge := by
        have := freeEdge_slid hm.regular k
        rwa [freeEdge, fb, fo, fc] at this
      have hempty : r.unassSize = 0 → ¬ Waits r data index → (u.slid k).unassSize = 0 := by
        intro hz hnot
        exact slid_empty hm (hr.size ▸ hz) (hrun hnot) hk hstop
      obtain ⟨hcl, _⟩ | ⟨hcl, _⟩ := closeIfDone_eq (u.slid k)
      · rw [hcl]
        exact ⟨hregular, fc, hedge, hempty⟩
      · rw [hcl]
        exact ⟨hregular.withOutput _ rfl, fc, hedge, hempty⟩

/-- A window without places assembles nothing. -/
structure Intact (r : StreamReassembler) : Prop where
  regular : Regular r
  none : r.capacity = 0 → r.unassBase = 0

theorem intact_new (capacity : Nat) : Intact (new capacity) :=
  ⟨⟨by simp [new], by simp [new], rfl, by simp [new, List.count_replicate]⟩, fun _ => rfl⟩

theorem Intact.withOutput {r : StreamReassembler} (h : Intact r) (output : ByteStream)
    (hc : output.capacity = r.output.capacity) : Intact { r with output := output } :=
  ⟨h.regular.withOutput output hc, h.none⟩

theorem Intact.pos {r : StreamReassembler} (h : Intact r) {index : Nat}
    (hin : ¬ r.unassBase + r.capacity ≤ index) : 0 < r.capacity := by
  apply Nat.pos_of_ne_zero
  intro hzero
  have := h.none hzero
  omega

/-- The ways through a push that returns, whatever its index: nothing is stored, or one run
of places is, and then the front of the window is assembled. -/
theorem push_paths {r t : StreamReassembler} (hr : Intact r) {data : List Byte} {index : Nat}
    {eof : Bool} (h : r.pushSubstring data index eof = .ok t) :
    (∃ e, t = { r with eof := e } ∨ t = { r with eof := e, output := r.output.endInput }) ∨
    0 < r.capacity ∧ ∃ e bufOff n u k, Marked { r with eof := e } bufOff n u ∧ Passed u k ∧
      u.bitmap[k]? ≠ some true ∧ t = (u.slid k).closeIfDone := by
  simp only [pushSubstring, noteEof_eq] at h
  split at h
  · cases h
    exact .inl ⟨_, .inr rfl⟩
  · split at h
    · cases h
      exact .inl ⟨_, .inl rfl⟩
    · rename_i hin
      have pos := hr.pos hin
      obtain ⟨u, hu, h⟩ := Exec.bind_eq_ok.mp h
      obtain ⟨v, hv, h⟩ := Exec.bind_eq_ok.mp h
      cases h
      obtain ⟨e, bufOff, n, hm⟩ := place_marked (hr.regular.withEof (r.eof || eof)) hu
      obtain ⟨k, hk, hstop, hok⟩ :=
        checkContiguous_eq hm.regular (by rw [hm.frame.2.2.2]; exact pos)
      rw [hok] at hv
      cases hv
      exact .inr ⟨pos, e, bufOff, n, u, k, hm, hk, hstop, rfl⟩

theorem Intact.closeIfDone {r : StreamReassembler} (h : Intact r) : Intact r.closeIfDone := by
  obtain ⟨hcl, _⟩ | ⟨hcl, _⟩ := closeIfDone_eq r
  · rw [hcl]
    exact h
  · rw [hcl]
    exact h.withOutput _ rfl

theorem push_intact {r t : StreamReassembler} (hr : Intact r) {data : List Byte} {index : Nat}
    {eof : Bool} (h : r.pushSubstring data index eof = .ok t) : Intact t := by
  rcases push_paths hr h with ⟨e, rfl | rfl⟩ | ⟨pos, e, bufOff, n, u, k, hm, hk, -, rfl⟩
  · exact ⟨hr.regular.withEof e, hr.none⟩
  · exact Intact.withOutput ⟨hr.regular.withEof e, hr.none⟩ _ rfl
  · apply Intact.closeIfDone
    refine ⟨regular_slid hm.regular hk, fun hzero => ?_⟩
    have hcap : u.capacity = r.capacity := hm.frame.2.2.2
    have : u.capacity = 0 := hzero
    omega

@[simp] theorem closeIfDone_bitmap (r : StreamReassembler) :
    r.closeIfDone.bitmap = r.bitmap := by
  obtain ⟨hcl, _⟩ | ⟨hcl, _⟩ := closeIfDone_eq r
  · rw [hcl]
  · rw [hcl]

@[simp] theorem closeIfDone_capacity (r : StreamReassembler) :
    r.closeIfDone.capacity = r.capacity := by
  obtain ⟨hcl, _⟩ | ⟨hcl, _⟩ := closeIfDone_eq r
  · rw [hcl]
  · rw [hcl]

theorem push_capacity {r t : StreamReassembler} (hr : Intact r) {data : List Byte} {index : Nat}
    {eof : Bool} (h : r.pushSubstring data index eof = .ok t) : t.capacity = r.capacity := by
  rcases push_paths hr h with ⟨e, rfl | rfl⟩ | ⟨-, e, bufOff, n, u, k, hm, hk, -, rfl⟩
  · rfl
  · rfl
  · rw [closeIfDone_capacity]
    exact hm.frame.2.2.2

/-- Whatever is pushed, the first place of the window is free afterwards. -/
theorem push_front {r t : StreamReassembler} (hr : Intact r) (hfront : r.bitmap[0]? ≠ some true)
    {data : List Byte} {index : Nat} {eof : Bool} (h : r.pushSubstring data index eof = .ok t) :
    t.bitmap[0]? ≠ some true := by
  rcases push_paths hr h with ⟨e, rfl | rfl⟩ | ⟨-, e, bufOff, n, u, k, hm, hk, hstop, rfl⟩
  · exact hfront
  · exact hfront
  · rw [closeIfDone_bitmap]
    intro hset
    apply hstop
    rw [slid, slid_mark (by rw [hm.regular.bits]; exact hk.1), Nat.zero_add] at hset
    exact hset

/-- The end of the output and an error in it stay. -/
theorem push_flags {r t : StreamReassembler} (hr : Intact r) {data : List Byte} {index : Nat}
    {eof : Bool} (h : r.pushSubstring data index eof = .ok t) :
    (r.output.endWrite = true → t.output.endWrite = true) ∧ t.output.error = r.output.error := by
  rcases push_paths hr h with ⟨e, rfl | rfl⟩ | ⟨-, e, bufOff, n, u, k, hm, hk, -, rfl⟩
  · exact ⟨id, rfl⟩
  · exact ⟨fun _ => rfl, rfl⟩
  · have hout : u.output = r.output := hm.frame.2.2.1
    have hslid : (u.slid k).output = (r.output.write (u.buffer.take k)).1 := by rw [slid, hout]
    obtain ⟨hcl, _⟩ | ⟨hcl, _⟩ := closeIfDone_eq (u.slid k)
    · rw [hcl, hslid]
      exact ⟨id, rfl⟩
    · rw [hcl, hslid]
      exact ⟨fun _ => rfl, rfl⟩

/-- Nothing is read by pushing. -/
theorem push_readBytes {r t : StreamReassembler} (hr : Intact r) {data : List Byte} {index : Nat}
    {eof : Bool} (h : r.pushSubstring data index eof = .ok t) :
    t.output.readBytes = r.output.readBytes := by
  rcases push_paths hr h with ⟨e, rfl | rfl⟩ | ⟨-, e, bufOff, n, u, k, hm, hk, -, rfl⟩
  · rfl
  · rfl
  · have hout : u.output = r.output := hm.frame.2.2.1
    have hslid : (u.slid k).output.readBytes = r.output.readBytes := by
      rw [slid, ByteStream.write_readBytes, hout]
    obtain ⟨hcl, _⟩ | ⟨hcl, _⟩ := closeIfDone_eq (u.slid k)
    · rw [hcl, hslid]
    · rw [hcl]
      exact hslid

/-- Every place the substring is copied to is there: it has nothing to store, or starts in
the free part of the window, or lies wholly inside the window, or starts before it; and the
distance to the window's start fits an `int`. -/
def Storable (r : StreamReassembler) (data : List Byte) (index : Nat) : Prop :=
  data = [] ∨ r.unassBase + r.capacity ≤ index ∨
  (r.unassBase ≤ index ∧ index - r.unassBase < 2 ^ 31 ∧
    (index ≤ r.freeEdge ∨ index + data.length ≤ r.unassBase + r.capacity)) ∨
  (index < r.unassBase ∧ (index + data.length ≤ r.unassBase ∨ r.unassBase - index < 2 ^ 31))

instance (r : StreamReassembler) (data : List Byte) (index : Nat) :
    Decidable (Storable r data index) := by unfold Storable; infer_instance

theorem store_returns {r : StreamReassembler} (hr : Regular r) {data : List Byte}
    {dataOff bufOff n : Nat} (hd : dataOff + n ≤ data.length) (hb : bufOff + n ≤ r.capacity) :
    ∃ t, store data dataOff bufOff n r = .ok t := by
  obtain ⟨t, ht, -⟩ := Exec.range_total (f := storeByte data dataOff bufOff) (n := n) (s := r)
    (fun i t => Marked r bufOff i t)
    ⟨hr, ⟨rfl, rfl, rfl, rfl⟩, fun j => (or_iff_left (by omega)).symm⟩
    (fun i t hi ht => by
      have hcap := ht.frame.2.2.2
      obtain ⟨u, hu⟩ : ∃ u, storeByte data dataOff bufOff t i = .ok u :=
        storeByte_returns ht.regular (by omega) (by omega)
      exact ⟨u, hu, storeByte_marks ht hu⟩)
  exact ⟨t, ht⟩

theorem store_cut_returns {r : StreamReassembler} (hr : Regular r) {data : List Byte}
    {dataOff bufOff n : Nat} (cut : Prop) [Decidable cut] (hd : dataOff + n ≤ data.length)
    (hb : bufOff + n ≤ r.capacity) :
    ∃ t, store data dataOff bufOff n (if cut then { r with eof := false } else r) = .ok t := by
  split
  · exact store_returns (hr.withEof false) hd hb
  · exact store_returns hr hd hb

theorem place_returns {r : StreamReassembler} (hr : Regular r) {data : List Byte} {index : Nat}
    (hin : index < r.unassBase + r.capacity) (hs : Storable r data index) :
    ∃ t, r.place data index = .ok t := by
  have hf := r.output.fits
  rw [hr.room] at hf
  have room : sub64 r.capacity r.output.bufferSize = r.capacity - r.output.buffer.length :=
    sub64_of_le hf
  unfold place
  split
  · rename_i hle
    by_cases hd : data = []
    · exact ⟨r, by simp [hd, placeAhead, store]⟩
    · obtain ⟨hint, hwhere⟩ : index - r.unassBase < 2 ^ 31 ∧
          (index ≤ r.freeEdge ∨ index + data.length ≤ r.unassBase + r.capacity) := by
        rcases hs with h | h | ⟨_, h⟩ | ⟨h, _⟩
        · exact absurd h hd
        · omega
        · exact h
        · omega
      simp only [placeAhead, widen_narrow hint, room]
      apply store_cut_returns hr
      · omega
      · rcases hwhere with hfree | hinside
        · rw [freeEdge] at hfree
          rw [sub64_of_le (by omega)]
          omega
        · omega
  · rename_i hlt
    split
    · rename_i hreach
      have hint : r.unassBase - index < 2 ^ 31 := by
        rcases hs with h | h | ⟨h, _⟩ | ⟨_, h | h⟩
        · rw [h, List.length_nil] at hreach
          omega
        · omega
        · omega
        · omega
        · exact h
      simp only [placeOverlap, widen_narrow hint, room]
      rw [sub64_of_le (by omega)]
      apply store_cut_returns hr
      · omega
      · omega
    · exact ⟨r, rfl⟩

/-- **A push returns** when every place it copies to is there. -/
theorem push_returns {r : StreamReassembler} (hr : Intact r) {data : List Byte} {index : Nat}
    (eof : Bool) (hs : Storable r data index) : ∃ t, r.pushSubstring data index eof = .ok t := by
  simp only [pushSubstring, noteEof_eq]
  split
  · exact ⟨_, rfl⟩
  · split
    · exact ⟨_, rfl⟩
    · rename_i hin
      have pos := hr.pos hin
      obtain ⟨u, hu⟩ := place_returns (hr.regular.withEof (r.eof || eof)) (Nat.lt_of_not_le hin)
        (show Storable { r with eof := r.eof || eof } data index from hs)
      obtain ⟨e, bufOff, n, hm⟩ := place_marked (hr.regular.withEof (r.eof || eof)) hu
      obtain ⟨_, _, _, fc⟩ := hm.frame
      obtain ⟨k, -, -, hok⟩ := checkContiguous_eq hm.regular (by rw [fc]; exact pos)
      rw [hu, Exec.ok_bind, hok, Exec.ok_bind]
      exact ⟨_, rfl⟩

/-! ## The end of the stream -/

/-- The last byte of a stream of `n` bytes has been assembled or is waiting. -/
def LastHeld (r : StreamReassembler) (n : Nat) : Prop := n ≤ r.unassBase ∨ Held r (n - 1)

theorem Inv.lastHeld_empty {r : StreamReassembler} (hr : Inv r) {n : Nat} (h : LastHeld r n)
    (hz : r.unassSize = 0) : n ≤ r.unassBase := by
  rcases h with h | h | h
  · exact h
  · omega
  · have hm := List.mem_of_getElem? h
    rw [hr.size, List.count_eq_zero] at hz
    exact absurd hm hz

theorem Pushed.lastHeld_mono {r t : StreamReassembler} {data : List Byte} {index : Nat}
    {eof : Bool} (h : Pushed r data index eof t) {n : Nat} (hl : LastHeld r n) : LastHeld t n := by
  rcases hl with hl | hl
  · exact .inl (Nat.le_trans hl h.forward)
  · exact .inr ((h.held _).mpr (.inl hl))

/-- A push whose end is below the right edge brings the last byte before that end. -/
theorem Pushed.lastHeld_end {r t : StreamReassembler} {data : List Byte} {index : Nat}
    {eof : Bool} (h : Pushed r data index eof t) (hd : data ≠ [])
    (hin : index + data.length ≤ r.output.readBytes + r.capacity) :
    LastHeld t (index + data.length) := by
  have hpos := List.length_pos_iff.mpr hd
  exact .inr ((h.held _).mpr (.inr (by omega)))

instance (r : StreamReassembler) (n : Nat) : Decidable (LastHeld r n) :=
  inferInstanceAs (Decidable (_ ∨ _))

/-! ## Reading the output -/

theorem popOut_inv {r : StreamReassembler} (hr : Inv r) (len : Nat) : Inv (r.popOut len) := by
  refine ⟨⟨hr.bits, hr.cells, ?_, ?_, hr.size, ?_⟩, hr.nonempty, hr.front⟩
  · simpa only [popOut, ByteStream.popOutput_capacity] using hr.room
  · simpa only [popOut, ByteStream.popOutput_writtenBytes] using hr.base
  · intro j hj
    have := hr.window j hj
    simp only [popOut, ByteStream.popOutput_buffer, List.length_drop]
    omega

/-! ## The bytes are those of the stream -/

/-- What the reassembler holds are bytes of `S` at their own positions. -/
structure Agrees (S : List Byte) (r : StreamReassembler) : Prop where
  within : r.output.writtenBytes ≤ S.length
  out : r.output.buffer = (S.take r.output.writtenBytes).drop r.output.readBytes
  slots : ∀ j c, r.slot j = some c → S[r.unassBase + j]? = some c

/-- `data` stands in `S` at `index`. -/
def SliceAt (S : List Byte) (index : Nat) (data : List Byte) : Prop :=
  ∀ i c, data[i]? = some c → S[index + i]? = some c

theorem sliceAt_iff {S data : List Byte} {index : Nat} :
    SliceAt S index data ↔ (S.drop index).take data.length = data := by
  constructor
  · intro h
    apply List.ext_getElem?
    intro i
    rw [List.getElem?_take]
    split
    · rename_i hi
      rw [List.getElem?_drop, h i _ (List.getElem?_eq_getElem hi), List.getElem?_eq_getElem hi]
    · rename_i hi
      rw [List.getElem?_eq_none (Nat.le_of_not_lt hi)]
  · intro h i c hi
    have hlt := (List.getElem?_eq_some_iff.mp hi).1
    rw [← h, List.getElem?_take, if_pos hlt, List.getElem?_drop] at hi
    exact hi

instance (S data : List Byte) (index : Nat) : Decidable (SliceAt S index data) :=
  decidable_of_iff _ sliceAt_iff.symm

theorem agrees_new (S : List Byte) (capacity : Nat) : Agrees S (new capacity) where
  within := Nat.zero_le _
  out := by simp [new, ByteStream.new]
  slots := by intro j c hj; simp [slot, new, List.getElem?_replicate] at hj

theorem Placed.agrees {S : List Byte} {r t : StreamReassembler} {data : List Byte} {index : Nat}
    (h : Placed r data index t) (hr : Agrees S r) (hs : SliceAt S index data) : Agrees S t := by
  obtain ⟨fb, fo, fc⟩ := h.frame
  refine ⟨by rw [fo]; exact hr.within, by rw [fo]; exact hr.out, ?_⟩
  intro j c hj
  rw [fb]
  rcases h.bytes j c hj with hj | ⟨hle, hj⟩
  · exact hr.slots j c hj
  · have := hs _ c hj
    rwa [show index + (r.unassBase + j - index) = r.unassBase + j by omega] at this

/-- The bytes gathered continue the stream. -/
theorem gathered_eq {S : List Byte} {t : StreamReassembler} (ht : Shape t) (ha : Agrees S t)
    {k : Nat} (hk : Passed t k) : t.buffer.take k = (S.drop t.unassBase).take k := by
  apply List.ext_getElem?
  intro j
  rw [List.getElem?_take, List.getElem?_take]
  split
  · rename_i hj
    have hmark := hk.2 j hj
    have hlt : j < t.buffer.length := by
      rw [ht.cells, ← ht.bits]; exact (List.getElem?_eq_some_iff.mp hmark).1
    have hslot : t.slot j = some t.buffer[j] := by
      rw [slot, if_pos hmark, List.getElem?_eq_getElem hlt]
    rw [List.getElem?_drop, ha.slots j _ hslot, List.getElem?_eq_getElem hlt]
  · rfl

theorem Assembled.agrees {S : List Byte} {t u : StreamReassembler} {k : Nat}
    (h : Assembled t k u) (ht : Shape t) (ha : Agrees S t) : Agrees S u := by
  have hg := gathered_eq ht ha h.passed
  have hw : u.output.writtenBytes = t.output.writtenBytes + k := by
    have := h.inv.base; have := h.moved; have := ht.base; omega
  have hlen : t.output.writtenBytes + k ≤ S.length := by
    have h1 := congrArg List.length hg
    have h2 := h.passed.1
    have h3 := ha.within
    rw [List.length_take, List.length_take, List.length_drop, ht.cells, ht.base] at h1
    omega
  refine ⟨by rw [hw]; exact hlen, ?_, ?_⟩
  · rw [h.out, hw, h.frame.2.2.1, ha.out, hg, ht.base, List.take_add, List.drop_append_of_le_length]
    rw [List.length_take]
    have := t.output.read_le_written
    have := ha.within
    omega
  · intro j c hj
    rw [h.slots] at hj
    rw [h.moved, show t.unassBase + k + j = t.unassBase + (j + k) by omega]
    exact ha.slots _ c hj

theorem Agrees.withEnd {S : List Byte} {r : StreamReassembler} (h : Agrees S r) :
    Agrees S { r with output := r.output.endInput } := ⟨h.within, h.out, h.slots⟩

/-- A push of bytes of `S`, or one wholly past the window, leaves only bytes of `S`. -/
theorem push_agrees {S : List Byte} {r t : StreamReassembler} (hr : Inv r) (ha : Agrees S r)
    {data : List Byte} {index : Nat} {eof : Bool} (hx : Exact r data index)
    (hs : index < r.unassBase + r.capacity → SliceAt S index data)
    (h : r.pushSubstring data index eof = .ok t) : Agrees S t := by
  have ha' : ∀ e, Agrees S { r with eof := e } := fun e => ⟨ha.within, ha.out, ha.slots⟩
  obtain ⟨_, _, _, h'⟩ | ⟨_, _, h'⟩ | ⟨_, hin, v, k, u, placed, assembled, h'⟩ :=
    push_cases hr eof hx
  · rw [h'] at h; cases h; exact (ha' true).withEnd
  · rw [h'] at h; cases h; exact ha' _
  · have hu := assembled.agrees placed.shape (placed.agrees (ha' _) (hs hin))
    rw [h'] at h
    cases h
    obtain ⟨e, _⟩ | ⟨e, _⟩ := closeIfDone_eq u
    · rw [e]; exact hu
    · rw [e]; exact hu.withEnd

theorem popOut_agrees {S : List Byte} {r : StreamReassembler} (ha : Agrees S r) (len : Nat) :
    Agrees S (r.popOut len) := by
  refine ⟨?_, ?_, ha.slots⟩
  · simpa only [popOut, ByteStream.popOutput_writtenBytes] using ha.within
  · have := r.output.readBytes_le_popOutput len
    simp only [popOut, ByteStream.popOutput_buffer, ByteStream.popOutput_writtenBytes, ha.out,
      List.drop_drop]
    congr 1
    omega

/-- Nothing waits once the whole stream is assembled. -/
theorem Agrees.full_empty {S : List Byte} {r : StreamReassembler} (hr : Inv r) (ha : Agrees S r)
    (h : S.length ≤ r.unassBase) : r.unassSize = 0 := by
  rw [hr.size, List.count_eq_zero]
  intro hm
  obtain ⟨j, hj⟩ := List.getElem?_of_mem hm
  have hlt : j < r.buffer.length := by
    rw [hr.cells, ← hr.bits]
    exact (List.getElem?_eq_some_iff.mp hj).1
  have hslot : r.slot j = some r.buffer[j] := by
    rw [slot, if_pos hj, List.getElem?_eq_getElem hlt]
  have := (List.getElem?_eq_some_iff.mp (ha.slots j _ hslot)).1
  omega

/-- What is read next continues what has been read. -/
theorem Agrees.read_got {S got : List Byte} {r : StreamReassembler} (ha : Agrees S r)
    (hg : got = S.take r.output.readBytes) (len : Nat) :
    got ++ (r.output.read len).2 = S.take (r.popOut len).output.readBytes := by
  have h1 := r.output.readBytes_le_popOutput len
  have h2 := (r.output.popOutput len).read_le_written
  rw [ByteStream.popOutput_writtenBytes] at h2
  simp only [popOut, ByteStream.read_snd, hg, ha.out]
  generalize (r.output.popOutput len).readBytes = m at h1 h2
  obtain ⟨n, rfl⟩ := Nat.le.dest h1
  rw [Nat.add_sub_cancel_left, List.take_add, List.drop_take, List.take_take,
    Nat.min_eq_left (by omega)]

/-- What has been read and what is buffered are all that was written. -/
theorem Agrees.got_buffer {S got : List Byte} {r : StreamReassembler} (ha : Agrees S r)
    (hg : got = S.take r.output.readBytes) :
    got ++ r.output.buffer = S.take r.output.writtenBytes := by
  have hw := r.output.read_le_written
  rw [hg, ha.out]
  conv => rhs; rw [← List.take_append_drop r.output.readBytes (S.take r.output.writtenBytes)]
  rw [List.take_take, Nat.min_eq_left hw]

/-- Bytes of a stream are bytes of any stream it begins. -/
theorem Agrees.grow {S T : List Byte} {r : StreamReassembler} (ha : Agrees S r) (h : S <+: T) :
    Agrees T r := by
  obtain ⟨more, rfl⟩ := h
  have hw := ha.within
  refine ⟨?_, ?_, ?_⟩
  · rw [List.length_append]
    omega
  · rw [ha.out, List.take_append_of_le_length hw]
  · intro j c hj
    have hS := ha.slots j c hj
    rw [List.getElem?_append_left (List.getElem?_eq_some_iff.mp hS).1, hS]

end Sponge.StreamReassembler
