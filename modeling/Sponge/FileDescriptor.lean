import Sponge.Buffers

/-!
# File descriptors

`FileDescriptor` of `file_descriptor.cc`. What the kernel answers to `read(2)` and `writev(2)`
is an argument: nothing is assumed of it, and -1 is `none`.

* `write_hands_over`: however the kernel cuts it up, a write hands over every byte once and in
  order;
* `read_outcome`, `write_once_outcome`: what a single read or write does.
-/

namespace Sponge

/-- The flags and counters that all copies of a descriptor share. -/
structure FileDescriptor where
  eof : Bool := false
  closed : Bool := false
  readCount : UInt32 := 0
  writeCount : UInt32 := 0
  deriving DecidableEq, Repr

namespace FileDescriptor

def registerRead (fd : FileDescriptor) : FileDescriptor := { fd with readCount := fd.readCount + 1 }

def registerWrite (fd : FileDescriptor) : FileDescriptor :=
  { fd with writeCount := fd.writeCount + 1 }

/-- `succeeds` is the kernel's answer to `close(2)`. -/
def close (fd : FileDescriptor) (succeeds : Bool) : Except Fault FileDescriptor :=
  if succeeds then .ok { fd with eof := true, closed := true } else .error (.throws "close")

/-- How a socket is shut down. -/
inductive How
  | rd
  | wr
  | rdwr
  deriving DecidableEq, Repr

/-- `Socket::shutdown`, with the kernel's answer to `shutdown(2)`. -/
def shutdown (fd : FileDescriptor) (how : How) (succeeds : Bool) : Except Fault FileDescriptor :=
  if succeeds then
    match how with
    | .rd => .ok fd.registerRead
    | .wr => .ok fd.registerWrite
    | .rdwr => .ok fd.registerRead.registerWrite
  else .error (.throws "shutdown")

/-- The maximum size of a read. -/
def maxRead : Nat := 1024 * 1024

/-- `kernel n` is the answer to `read(2)` of `n` bytes. -/
def read (fd : FileDescriptor) (limit : Nat) (kernel : Nat → Option (List Byte)) :
    Except Fault (List Byte × FileDescriptor) :=
  let sizeToRead := min maxRead limit
  match kernel sizeToRead with
  | none => .error (.throws "read")
  | some bytes =>
    let fd := if limit > 0 && bytes.length == 0 then { fd with eof := true } else fd
    if bytes.length > sizeToRead then .error (.throws "read() read more than requested")
    else .ok (bytes, fd.registerRead)

/-- What a read throws. -/
def readTexts : List String := ["read", "read() read more than requested"]

/-- A write under way: the buffer that is left, and what each `writev` took. -/
structure Writing where
  fd : FileDescriptor
  buffer : BufferViewList
  totalBytesWritten : Nat := 0
  taken : List (List Byte) := []

/-- One round of the loop. `kernel i n` is the answer to the `i`-th call of `writev`, which is
given `n` bytes. -/
def writeRound (kernel : Nat → Nat → Option Nat) (writeAll : Bool) (w : Writing) :
    Except Fault (ForInStep Writing) :=
  match kernel w.taken.length w.buffer.size with
  | none => .error (.throws "writev")
  | some bytesWritten =>
    if bytesWritten == 0 && w.buffer.size != 0 then
      .error (.throws "write returned 0 given non-empty input buffer")
    else if bytesWritten > w.buffer.size then
      .error (.throws "write wrote more than length of input buffer")
    else do
      let buffer ← w.buffer.removePrefix bytesWritten
      let w : Writing :=
        { fd := w.fd.registerWrite
          buffer := buffer
          totalBytesWritten := w.totalBytesWritten + bytesWritten
          taken := w.taken ++ [w.buffer.concatenate.take bytesWritten] }
      if writeAll && buffer.size != 0 then
        return .yield w
      else
        return .done w

/-- Every round but the last makes the buffer smaller. -/
def write (fd : FileDescriptor) (buffer : BufferViewList) (writeAll : Bool)
    (kernel : Nat → Nat → Option Nat) : Except Fault Writing :=
  Exec.loop .spins (writeRound kernel writeAll) (buffer.size + 1) { fd := fd, buffer := buffer }

/-- What a write throws. -/
def writeTexts : List String :=
  ["writev", "write returned 0 given non-empty input buffer",
    "write wrote more than length of input buffer"]

/-- What `writev(2)` promises for a descriptor without errors: some of what it is given, and
not nothing. -/
def HonestWrite (kernel : Nat → Nat → Option Nat) : Prop :=
  ∀ i size, ∃ n, kernel i size = some n ∧ n ≤ size ∧ (size ≠ 0 → n ≠ 0)

/-- How far a write of `buffer` to `fd` has come. -/
structure Progress (fd : FileDescriptor) (buffer : BufferViewList) (w : Writing) : Prop where
  split : w.taken.flatten ++ w.buffer.concatenate = buffer.concatenate
  total : w.totalBytesWritten = w.taken.flatten.length
  fd : w.fd = { fd with writeCount := fd.writeCount + UInt32.ofNat w.taken.length }

theorem Progress.size {fd : FileDescriptor} {buffer : BufferViewList} {w : Writing}
    (h : Progress fd buffer w) : w.totalBytesWritten + w.buffer.size = buffer.size := by
  rw [h.total, w.buffer.size_eq, buffer.size_eq, ← h.split, List.length_append]

/-- A round after which `n` bytes more have been taken. -/
structure Took (w : Writing) (n : Nat) (v : Writing) : Prop where
  enough : n ≤ w.buffer.size
  some : w.buffer.size ≠ 0 → n ≠ 0
  left : v.buffer.concatenate = w.buffer.concatenate.drop n
  taken : v.taken = w.taken ++ [w.buffer.concatenate.take n]
  total : v.totalBytesWritten = w.totalBytesWritten + n
  fd : v.fd = w.fd.registerWrite

theorem Took.progress {fd : FileDescriptor} {buffer : BufferViewList} {w v : Writing} {n : Nat}
    (h : Took w n v) (hw : Progress fd buffer w) : Progress fd buffer v where
  split := by
    rw [h.taken, h.left, List.flatten_append, List.flatten_singleton, List.append_assoc,
      List.take_append_drop, hw.split]
  total := by
    have hle := h.enough
    rw [w.buffer.size_eq] at hle
    rw [h.total, h.taken, hw.total, List.flatten_append, List.flatten_singleton,
      List.length_append, List.length_take, Nat.min_eq_left hle]
  fd := by
    rw [h.fd, hw.fd, h.taken, List.length_append, List.length_singleton]
    simp only [registerWrite, FileDescriptor.mk.injEq, true_and]
    rw [UInt32.ofNat_add, UInt32.add_assoc]
    rfl

theorem Took.size {w v : Writing} {n : Nat} (h : Took w n v) :
    v.buffer.size = w.buffer.size - n := by
  rw [v.buffer.size_eq, w.buffer.size_eq, h.left, List.length_drop]

/-- **A round of the loop.** The kernel fails or breaks its promise, or the round takes what the
kernel says, and the loop goes on while there is something left. -/
theorem writeRound_cases (kernel : Nat → Nat → Option Nat) (writeAll : Bool) (w : Writing) :
    (¬ HonestWrite kernel ∧
      ∃ what ∈ writeTexts, writeRound kernel writeAll w = .error (.throws what)) ∨
    ∃ n v, Took w n v ∧ writeRound kernel writeAll w =
      .ok (if writeAll && v.buffer.size != 0 then .yield v else .done v) := by
  unfold writeRound
  cases hk : kernel w.taken.length w.buffer.size with
  | none =>
    refine .inl ⟨?_, "writev", by simp [writeTexts], rfl⟩
    intro honest
    obtain ⟨n, hn, -⟩ := honest w.taken.length w.buffer.size
    rw [hk] at hn
    cases hn
  | some n =>
    have hpromise : HonestWrite kernel → n ≤ w.buffer.size ∧ (w.buffer.size ≠ 0 → n ≠ 0) := by
      intro honest
      obtain ⟨m, hm, hle⟩ := honest w.taken.length w.buffer.size
      rw [hk] at hm
      cases hm
      exact hle
    by_cases hzero : n = 0 ∧ w.buffer.size ≠ 0
    · refine .inl ⟨fun honest => (hpromise honest).2 hzero.2 hzero.1,
        "write returned 0 given non-empty input buffer", by simp [writeTexts], ?_⟩
      simp [hzero]
    · by_cases hmore : n ≤ w.buffer.size
      · obtain ⟨rest, hrest, hdrop⟩ := (w.buffer.drops n).1 (w.buffer.size_eq ▸ hmore)
        refine .inr ⟨n,
          { fd := w.fd.registerWrite, buffer := rest,
            totalBytesWritten := w.totalBytesWritten + n,
            taken := w.taken ++ [w.buffer.concatenate.take n] },
          ⟨hmore, fun hs hn => hzero ⟨hn, hs⟩, hdrop, rfl, rfl, rfl⟩, ?_⟩
        have hz : (n == 0 && w.buffer.size != 0) = false := by
          simpa using hzero
        simp only [hz, Bool.false_eq_true, ↓reduceIte, gt_iff_lt, Nat.not_lt.mpr hmore, hrest,
          Exec.ok_bind, Exec.pure_ok]
        split <;> rfl
      · refine .inl ⟨fun honest => hmore (hpromise honest).1,
          "write wrote more than length of input buffer", by simp [writeTexts], ?_⟩
        have hz : (n == 0 && w.buffer.size != 0) = false := by
          simpa using hzero
        simp only [hz, Bool.false_eq_true, ↓reduceIte, gt_iff_lt, Nat.lt_of_not_le hmore]

/-- A write that has ended. -/
structure Ended (fd : FileDescriptor) (buffer : BufferViewList) (writeAll : Bool) (w : Writing) :
    Prop extends Progress fd buffer w where
  all : writeAll = true → w.buffer.size = 0
  once : writeAll = false → w.taken.length = 1
  some : buffer.size ≠ 0 → w.totalBytesWritten ≠ 0
  calls : w.taken.length ≤ buffer.size + 1

/-- One round of a write that has come some way. Each call but the last has taken a byte. -/
theorem writeRound_ended {fd : FileDescriptor} {buffer : BufferViewList} {writeAll : Bool}
    {w v : Writing} {n : Nat} (hw : Progress fd buffer w)
    (hcalls : w.taken.length + w.buffer.size ≤ buffer.size)
    (honce : writeAll = false → w.taken = []) (h : Took w n v) :
    (writeAll = true ∧ v.buffer.size ≠ 0 → Progress fd buffer v ∧
      v.taken.length + v.buffer.size ≤ buffer.size ∧ v.buffer.size < w.buffer.size) ∧
    (¬ (writeAll = true ∧ v.buffer.size ≠ 0) → Ended fd buffer writeAll v) := by
  have hsize := h.size
  have hlen : v.taken.length = w.taken.length + 1 := by rw [h.taken]; simp
  constructor
  · rintro ⟨-, hleft⟩
    have hsome := h.some (by omega)
    exact ⟨h.progress hw, by omega, by omega⟩
  · intro hdone
    refine ⟨h.progress hw, ?_, ?_, ?_, by omega⟩
    · intro hall
      simpa [hall] using hdone
    · intro hall
      rw [hlen, honce hall]
      rfl
    · intro hne
      have hcome := hw.size
      have hsome := h.some
      have htotal := h.total
      omega

/-- A write ends, whatever the kernel answers. -/
theorem write_outcome (fd : FileDescriptor) (buffer : BufferViewList) (writeAll : Bool)
    (kernel : Nat → Nat → Option Nat) :
    (¬ HonestWrite kernel ∧
      ∃ what ∈ writeTexts, fd.write buffer writeAll kernel = .error (.throws what)) ∨
    ∃ w, fd.write buffer writeAll kernel = .ok w ∧ Ended fd buffer writeAll w := by
  have hround : ∀ w : Writing, Progress fd buffer w ∧
        w.taken.length + w.buffer.size ≤ buffer.size ∧ (writeAll = false → w.taken = []) →
      (∃ e, writeRound kernel writeAll w = .error e ∧
        (¬ HonestWrite kernel ∧ ∃ what ∈ writeTexts, e = .throws what)) ∨
      (∃ v, writeRound kernel writeAll w = .ok (.done v) ∧ Ended fd buffer writeAll v) ∨
      ∃ v, writeRound kernel writeAll w = .ok (.yield v) ∧ (Progress fd buffer v ∧
        v.taken.length + v.buffer.size ≤ buffer.size ∧ (writeAll = false → v.taken = [])) ∧
        v.buffer.size < w.buffer.size := by
    rintro w ⟨hw, hcalls, honce⟩
    rcases writeRound_cases kernel writeAll w with ⟨hbad, what, htext, hr⟩ | ⟨n, v, htook, hr⟩
    · exact .inl ⟨_, hr, hbad, what, htext, rfl⟩
    · obtain ⟨hmore, hdone⟩ := writeRound_ended hw hcalls honce htook
      by_cases hgoes : writeAll = true ∧ v.buffer.size ≠ 0
      · obtain ⟨hv, hcalls', hless⟩ := hmore hgoes
        refine .inr (.inr ⟨v, ?_, ⟨hv, hcalls', ?_⟩, hless⟩)
        · rw [hr, if_pos (by simpa using hgoes)]
        · simp [hgoes.1]
      · refine .inr (.inl ⟨v, ?_, hdone hgoes⟩)
        rw [hr, if_neg (by simpa using hgoes)]
  have hstart : Progress fd buffer { fd := fd, buffer := buffer } := ⟨rfl, rfl, by simp⟩
  rcases Exec.loop_outcome .spins _ _ _ (fun w : Writing => w.buffer.size) hround (buffer.size + 1)
      { fd := fd, buffer := buffer } ⟨hstart, by simp, fun _ => rfl⟩ (Nat.lt_succ_self _) with
    ⟨e, he, hbad, what, htext, rfl⟩ | ⟨w, hw, hended⟩
  · exact .inl ⟨hbad, what, htext, he⟩
  · exact .inr ⟨w, hw, hended⟩

theorem Ended.whole {fd : FileDescriptor} {buffer : BufferViewList} {w : Writing}
    (h : Ended fd buffer true w) : w.taken.flatten = buffer.concatenate := by
  have hnone : w.buffer.concatenate = [] := by
    rw [← List.length_eq_zero_iff, ← w.buffer.size_eq, h.all rfl]
  rw [← h.split, hnone, List.append_nil]

/-- **Writing to a descriptor.** A write ends, whatever the kernel answers, and throws only when
the kernel breaks its promise. What the calls of `writev` took are consecutive pieces of the
buffer, and the count returned is their length; with `write_all` they are the whole buffer, and
without it there is one call. -/
theorem write_hands_over (fd : FileDescriptor) (buffer : BufferViewList) (writeAll : Bool)
    (kernel : Nat → Nat → Option Nat) :
    (¬ HonestWrite kernel ∧ ∃ what, fd.write buffer writeAll kernel = .error (.throws what)) ∨
    ∃ w, fd.write buffer writeAll kernel = .ok w ∧
      w.taken.flatten ++ w.buffer.concatenate = buffer.concatenate ∧
      w.totalBytesWritten = w.taken.flatten.length ∧
      (writeAll = true → w.taken.flatten = buffer.concatenate) ∧
      (writeAll = false → w.taken.length = 1) ∧ w.taken.length ≤ buffer.size + 1 ∧
      w.fd = { fd with writeCount := fd.writeCount + UInt32.ofNat w.taken.length } := by
  rcases fd.write_outcome buffer writeAll kernel with ⟨hbad, what, -, he⟩ | ⟨w, hw, hended⟩
  · exact .inl ⟨hbad, what, he⟩
  · refine .inr ⟨w, hw, hended.split, hended.total, ?_, hended.once, hended.calls, hended.fd⟩
    rintro rfl
    exact hended.whole

/-- Three bytes in two views, which the kernel takes one at a time. -/
theorem write_hands_over_bytewise :
    ∃ w, write {} ⟨[[97, 98], [99]]⟩ true (fun _ size => some (min 1 size)) = .ok w ∧
      w.taken.flatten = [97, 98, 99] ∧ w.totalBytesWritten = 3 := by
  have honest : HonestWrite fun _ size => some (min 1 size) := fun _ size =>
    ⟨min 1 size, rfl, Nat.min_le_right 1 size, by omega⟩
  rcases write_hands_over {} ⟨[[97, 98], [99]]⟩ true (fun _ size => some (min 1 size)) with
    ⟨hbad, -⟩ | ⟨w, hw, -, htotal, hall, -⟩
  · exact absurd honest hbad
  · exact ⟨w, hw, hall rfl, by rw [htotal, hall rfl]; rfl⟩

/-! ## Single calls -/

/-- What `read(2)` promises for a descriptor without errors. -/
def HonestRead (kernel : Nat → Option (List Byte)) : Prop :=
  ∀ n, ∃ bytes, kernel n = some bytes ∧ bytes.length ≤ n

/-- A read that returns. -/
structure HasRead (fd : FileDescriptor) (limit : Nat) (kernel : Nat → Option (List Byte))
    (bytes : List Byte) (after : FileDescriptor) : Prop where
  answer : kernel (min maxRead limit) = some bytes
  fits : bytes.length ≤ min maxRead limit
  fd : after = { fd with
    eof := fd.eof || decide (limit > 0 ∧ bytes = [])
    readCount := fd.readCount + 1 }

theorem read_outcome (fd : FileDescriptor) (limit : Nat) (kernel : Nat → Option (List Byte)) :
    (¬ HonestRead kernel ∧
      ∃ what ∈ readTexts, fd.read limit kernel = .error (.throws what)) ∨
    ∃ bytes after, fd.read limit kernel = .ok (bytes, after) ∧
      HasRead fd limit kernel bytes after := by
  cases hk : kernel (min maxRead limit) with
  | none =>
    refine .inl ⟨?_, "read", by simp [readTexts], by simp only [read, hk]⟩
    intro honest
    obtain ⟨bytes, hbytes, -⟩ := honest (min maxRead limit)
    rw [hk] at hbytes
    cases hbytes
  | some bytes =>
    by_cases hfits : bytes.length ≤ min maxRead limit
    · refine .inr ⟨bytes, { fd with
        eof := fd.eof || decide (limit > 0 ∧ bytes = [])
        readCount := fd.readCount + 1 }, ?_, hk, hfits, rfl⟩
      simp only [read, hk, gt_iff_lt, Nat.not_lt.mpr hfits, ↓reduceIte, registerRead]
      by_cases hnone : 0 < limit ∧ bytes = []
      · simp [hnone]
      · have hmore : (decide (0 < limit) && bytes.length == 0) = false := by simpa using hnone
        simp only [hmore, hnone, Bool.false_eq_true, ↓reduceIte, decide_false, Bool.or_false]
    · refine .inl ⟨?_, "read() read more than requested", by simp [readTexts], ?_⟩
      · intro honest
        obtain ⟨answered, hbytes, hle⟩ := honest (min maxRead limit)
        rw [hk] at hbytes
        cases hbytes
        exact hfits hle
      · simp only [read, hk, gt_iff_lt, Nat.lt_of_not_le hfits, ↓reduceIte]

theorem read_ok {fd after : FileDescriptor} {limit : Nat} {kernel : Nat → Option (List Byte)}
    {bytes : List Byte} (h : fd.read limit kernel = .ok (bytes, after)) :
    HasRead fd limit kernel bytes after := by
  rcases fd.read_outcome limit kernel with ⟨-, what, -, he⟩ | ⟨_, _, hr, hread⟩
  · rw [h] at he
    cases he
  · rw [h] at hr
    cases hr
    exact hread

/-- A write without `write_all` that returns: some of the bytes are taken. -/
structure HasWritten (fd : FileDescriptor) (bytes : List Byte) (w : Writing) : Prop where
  fits : w.totalBytesWritten ≤ bytes.length
  some : bytes ≠ [] → w.totalBytesWritten ≠ 0
  taken : w.taken.flatten = bytes.take w.totalBytesWritten
  fd : w.fd = fd.registerWrite

theorem write_once_outcome (fd : FileDescriptor) (bytes : List Byte)
    (kernel : Nat → Nat → Option Nat) :
    (¬ HonestWrite kernel ∧
      ∃ what ∈ writeTexts, fd.write (.ofString bytes) false kernel = .error (.throws what)) ∨
    ∃ w, fd.write (.ofString bytes) false kernel = .ok w ∧ HasWritten fd bytes w := by
  rcases fd.write_outcome (.ofString bytes) false kernel with hbad | ⟨w, hw, hended⟩
  · exact .inl hbad
  · have hconcat : (BufferViewList.ofString bytes).concatenate = bytes := List.flatten_singleton
    have hsplit := hended.split
    rw [hconcat] at hsplit
    refine .inr ⟨w, hw, ?_, ?_, ?_, ?_⟩
    · rw [hended.total, ← hsplit, List.length_append]
      omega
    · intro hne
      apply hended.some
      rw [BufferViewList.size_eq, hconcat]
      exact fun h => hne (List.length_eq_zero_iff.mp h)
    · rw [hended.total, ← hsplit, List.take_left]
    · rw [hended.fd, hended.once rfl]
      rfl

/-- A write that returns leaves the reads alone. -/
theorem write_readCount {fd : FileDescriptor} {buffer : BufferViewList} {writeAll : Bool}
    {kernel : Nat → Nat → Option Nat} {w : Writing} (h : fd.write buffer writeAll kernel = .ok w) :
    w.fd.readCount = fd.readCount := by
  rcases fd.write_outcome buffer writeAll kernel with ⟨-, what, -, he⟩ | ⟨v, hv, hended⟩
  · rw [h] at he
    cases he
  · rw [h] at hv
    cases hv
    rw [hended.fd]

/-- A device that takes what it is given in one piece, or fails. -/
def TakesWhole (kernel : Nat → Nat → Option Nat) : Prop :=
  ∀ i n, kernel i n = none ∨ kernel i n = some n

theorem write_whole {fd : FileDescriptor} {buffer : BufferViewList}
    {kernel : Nat → Nat → Option Nat} {w : Writing} (hk : TakesWhole kernel)
    (h : fd.write buffer true kernel = .ok w) : w.taken = [buffer.concatenate] := by
  rw [write, Exec.loop, writeRound] at h
  rcases hk 0 buffer.size with hnone | hall
  · rw [show ({ fd := fd, buffer := buffer } : Writing).taken.length = 0 from rfl, hnone] at h
    cases h
  · obtain ⟨rest, hrest, hdrop⟩ := (buffer.drops buffer.size).1 (Nat.le_of_eq buffer.size_eq)
    have hempty : rest.size = 0 := by
      rw [rest.size_eq, hdrop, buffer.size_eq, List.drop_length]
      rfl
    have hnonzero : (buffer.size == 0 && buffer.size != 0) = false := by simp
    simp only [List.length_nil, hall, hnonzero, Bool.false_eq_true, ↓reduceIte, gt_iff_lt,
      Nat.lt_irrefl, hrest, Exec.ok_bind, hempty, Exec.pure_ok] at h
    cases h
    rw [List.nil_append, buffer.size_eq, List.take_length]

end FileDescriptor

end Sponge
