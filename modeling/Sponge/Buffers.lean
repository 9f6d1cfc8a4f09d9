import Sponge.Lib.Pieces
import Sponge.Parser

/-!
# Discontiguous buffers

`remove_prefix` of `BufferList`, and `BufferViewList`, of `buffer.cc`. The two classes have the
same loop, over buffers and over views.

* `buffers_concatenated`: both behave as the concatenation of what they hold, and a `Buffer`
  as the string it was made of, without what has been removed.
-/

namespace Sponge

namespace BufferList

def removePrefix (l : BufferList) (n : Nat) : Except Fault BufferList := do
  let buffers ← Pieces.discard .spins Buffer.str Buffer.removePrefix
    (.throws "BufferList::remove_prefix") n l.buffers
  return ⟨buffers⟩

end BufferList

/-- A list of string views. -/
structure BufferViewList where
  views : List (List Byte)
  deriving DecidableEq

namespace BufferViewList

/-- `BufferViewList(std::string_view)`, to which the other strings come down. -/
def ofString (str : List Byte) : BufferViewList := ⟨[str]⟩

def ofBufferList (buffers : BufferList) : BufferViewList := ⟨buffers.buffers.map Buffer.str⟩

/-- `remove_prefix` of a view needs no check: it is called inside the view. -/
def removePrefix (l : BufferViewList) (n : Nat) : Except Fault BufferViewList := do
  let views ← Pieces.discard .spins id (fun view n => .ok (view.drop n))
    (.throws "BufferListView::remove_prefix") n l.views
  return ⟨views⟩

def size (l : BufferViewList) : Nat := l.views.foldl (fun ret buf => ret + buf.length) 0

/-- The memory that each `iovec` points to. -/
def asIovecs (l : BufferViewList) : List (List Byte) := l.views

/-- What a system call that is given the `iovec`s finds there. -/
def concatenate (l : BufferViewList) : List Byte := l.asIovecs.flatten

theorem size_eq (l : BufferViewList) : l.size = l.concatenate.length := by
  obtain ⟨views⟩ := l
  have hfold : ∀ n, views.foldl (fun ret buf => ret + buf.length) n = n + views.flatten.length := by
    induction views with
    | nil => simp
    | cons view rest ih =>
      intro n
      rw [List.foldl_cons, ih, List.flatten_cons, List.length_append, Nat.add_assoc]
  rw [size, hfold, Nat.zero_add]
  rfl

theorem concatenate_ofBufferList (l : BufferList) :
    (ofBufferList l).concatenate = l.concatenate := List.flatMap_def.symm

end BufferViewList

/-- What `remove_prefix` should do to something that stands for `before`: drop what there is,
or throw. -/
def Drops {α : Type} (contents : α → List Byte) (before : List Byte) (n : Nat) (what : String)
    (result : Except Fault α) : Prop :=
  (n ≤ before.length → ∃ after, result = .ok after ∧ contents after = before.drop n) ∧
    (before.length < n → result = .error (.throws what))

/-- The size falls by what is dropped. -/
theorem Drops.sized {α : Type} {contents : α → List Byte} {before : List Byte} {n : Nat}
    {what : String} {result : Except Fault α} (h : Drops contents before n what result)
    {size : α → Nat} (hsize : ∀ a, size a = (contents a).length) :
    (n ≤ before.length → ∃ rest, result = .ok rest ∧ contents rest = before.drop n ∧
      size rest = before.length - n) ∧
    (before.length < n → result = .error (.throws what)) := by
  refine ⟨?_, h.2⟩
  intro hle
  obtain ⟨rest, hrest, hdrop⟩ := h.1 hle
  exact ⟨rest, hrest, hdrop, by rw [hsize, hdrop, List.length_drop]⟩

theorem Buffer.drops (b : Buffer) (n : Nat) :
    Drops Buffer.str b.str n "Buffer::remove_prefix" (b.removePrefix n) := by
  refine ⟨removePrefix_ok, ?_⟩
  intro h
  have hsize : ¬ n ≤ b.size := Nat.not_le.mpr h
  rw [removePrefix, dif_neg hsize]

theorem BufferList.drops (l : BufferList) (n : Nat) :
    Drops concatenate l.concatenate n "BufferList::remove_prefix" (l.removePrefix n) := by
  constructor
  · intro h
    obtain ⟨rest, hrest, hdrop⟩ := Pieces.discard_enough .spins
      (.throws "BufferList::remove_prefix") Buffer.str Buffer.removePrefix
      (fun b n hn => (b.drops n).1 hn) h
    exact ⟨⟨rest⟩, by rw [removePrefix, hrest]; rfl, hdrop⟩
  · intro h
    rw [removePrefix, Pieces.discard_short .spins _ Buffer.str Buffer.removePrefix h]
    rfl

theorem BufferViewList.drops (l : BufferViewList) (n : Nat) :
    Drops concatenate l.concatenate n "BufferListView::remove_prefix" (l.removePrefix n) := by
  have hconcat : l.views.flatMap id = l.concatenate := List.flatMap_id ..
  constructor
  · intro h
    rw [← hconcat] at h
    obtain ⟨rest, hrest, hdrop⟩ := Pieces.discard_enough Fault.spins
      (.throws "BufferListView::remove_prefix") id (fun view n => .ok (view.drop n))
      (fun view n _ => ⟨view.drop n, rfl, rfl⟩) h
    refine ⟨⟨rest⟩, by rw [removePrefix, hrest]; rfl, ?_⟩
    rw [← hconcat, ← hdrop]
    exact (List.flatMap_id ..).symm
  · intro h
    rw [← hconcat] at h
    rw [removePrefix, Pieces.discard_short Fault.spins _ id _ h]
    rfl

/-! ## A buffer over its life -/

namespace Buffer

/-- A call of `remove_prefix`, which leaves the buffer alone when it throws. -/
def attempt (b : Buffer) (n : Nat) : Buffer :=
  match b.removePrefix n with
  | .ok c => c
  | .error _ => b

/-- How many of `length` bytes are gone after one more call. -/
def gone (length removed n : Nat) : Nat := if removed + n ≤ length then removed + n else removed

theorem str_attempt (b : Buffer) (n : Nat) :
    (b.attempt n).str = if n ≤ b.str.length then b.str.drop n else b.str := by
  obtain ⟨henough, hshort⟩ := b.drops n
  by_cases h : n ≤ b.str.length
  · obtain ⟨c, hc, hdrop⟩ := henough h
    rw [attempt, hc, if_pos h]
    exact hdrop
  · rw [attempt, hshort (Nat.lt_of_not_le h), if_neg h]

/-- **A buffer over its life.** -/
theorem str_attempts (b : Buffer) (s : List Byte) (ns : List Nat) {removed : Nat}
    (hle : removed ≤ s.length) (h : b.str = s.drop removed) :
    (ns.foldl attempt b).str = s.drop (ns.foldl (gone s.length) removed) := by
  induction ns generalizing b removed with
  | nil => exact h
  | cons n ns ih =>
    have hlen : b.str.length = s.length - removed := by rw [h, List.length_drop]
    rw [List.foldl_cons, List.foldl_cons]
    by_cases hin : removed + n ≤ s.length
    · apply ih
      · rw [gone, if_pos hin]
        exact hin
      · rw [str_attempt, if_pos (by omega), gone, if_pos hin, h, List.drop_drop]
    · apply ih
      · rw [gone, if_neg hin]
        exact hle
      · rw [str_attempt, if_neg (by omega), gone, if_neg hin, h]

end Buffer

/-- **Buffers and their concatenation.** For a list of buffers, or of views, however many and
however long: `remove_prefix` drops the first `n` bytes of the concatenation, so that the size
falls by `n`, or throws when there are fewer. The views of a list of buffers have its
concatenation. After any calls, a buffer has the string it started with, without the bytes
removed, whether or not its storage is still there. -/
theorem buffers_concatenated :
    (∀ (l : BufferList) (n : Nat),
      (n ≤ l.size → ∃ rest, l.removePrefix n = .ok rest ∧
        rest.concatenate = l.concatenate.drop n ∧ rest.size = l.size - n) ∧
      (l.size < n → l.removePrefix n = .error (.throws "BufferList::remove_prefix"))) ∧
    (∀ (l : BufferViewList) (n : Nat),
      (n ≤ l.size → ∃ rest, l.removePrefix n = .ok rest ∧
        rest.concatenate = l.concatenate.drop n ∧ rest.size = l.size - n) ∧
      (l.size < n → l.removePrefix n = .error (.throws "BufferListView::remove_prefix"))) ∧
    (∀ l : BufferList, (BufferViewList.ofBufferList l).concatenate = l.concatenate) ∧
    ∀ (b : Buffer) (ns : List Nat), (ns.foldl Buffer.attempt b).str =
      b.str.drop (ns.foldl (Buffer.gone b.str.length) 0) := by
  refine ⟨?_, ?_, BufferViewList.concatenate_ofBufferList, ?_⟩
  · intro l n
    rw [l.size_eq]
    exact (l.drops n).sized BufferList.size_eq
  · intro l n
    rw [l.size_eq]
    exact (l.drops n).sized BufferViewList.size_eq
  · intro b ns
    exact b.str_attempts b.str ns (Nat.zero_le _) rfl

/-- Two bytes off `ab`, an empty buffer and `c`; too many off the view of `abc`; and a buffer
that is asked for more than it has, emptied and asked again. -/
theorem buffers_concatenated_abc :
    (∃ rest, BufferList.removePrefix ⟨[.ofString [97, 98], .empty, .ofString [99]]⟩ 2 = .ok rest ∧
      rest.concatenate = [99] ∧ rest.size = 1) ∧
    (BufferViewList.ofString [97, 98, 99]).removePrefix 4 =
      .error (.throws "BufferListView::remove_prefix") ∧
    ([2, 2, 1, 0].foldl Buffer.attempt (.ofString [97, 98, 99])).str = [] := by
  obtain ⟨hlist, hviews, -, hbuffer⟩ := buffers_concatenated
  obtain ⟨rest, hrest, hdrop, hsize⟩ :=
    (hlist ⟨[.ofString [97, 98], .empty, .ofString [99]]⟩ 2).1 (by decide)
  refine ⟨⟨rest, hrest, hdrop, hsize⟩, (hviews (.ofString [97, 98, 99]) 4).2 (by decide), ?_⟩
  exact hbuffer (.ofString [97, 98, 99]) [2, 2, 1, 0]

end Sponge
