import Sponge.ByteStream
import Sponge.Lib.Exec
import Sponge.Lib.Words

/-!
# The stream reassembler

`StreamReassembler` of `stream_reassembler.cc`. A window of `capacity` bytes starts
at the first unassembled index; `bitmap` marks which of its bytes have arrived and
`buffer` holds them. Unsigned subtraction and the `int offset` of the two branches
are those of the source.
-/

namespace Sponge

open Words

structure StreamReassembler where
  unassBase : Nat
  unassSize : Nat
  eof : Bool
  buffer : List Byte
  bitmap : List Bool
  output : ByteStream
  capacity : Nat

namespace StreamReassembler

def new (capacity : Nat) : StreamReassembler where
  unassBase := 0
  unassSize := 0
  eof := false
  buffer := List.replicate capacity 0
  bitmap := List.replicate capacity false
  output := ByteStream.new capacity
  capacity := capacity

/-- One round of the loop of `check_contiguous`: while the front of the bitmap is
set, move one byte out of the window and a placeholder into it. -/
def slide : List Byte × List Byte × List Bool →
    Except Fault (ForInStep (List Byte × List Byte × List Bool))
  | (tmp, buffer, bitmap) => do
    if ← subscript bitmap 0 then
      let c ← subscript buffer 0
      return .yield (tmp ++ [c], buffer.tail ++ [0], bitmap.tail ++ [false])
    else
      return .done (tmp, buffer, bitmap)

/-- Every round unmarks a byte, so `capacity` rounds and the last test are enough. -/
def gather (r : StreamReassembler) : Except Fault (List Byte × List Byte × List Bool) :=
  Exec.loop .spins slide (r.capacity + 1) ([], r.buffer, r.bitmap)

def checkContiguous (r : StreamReassembler) : Except Fault StreamReassembler := do
  let (tmp, buffer, bitmap) ← r.gather
  let r := { r with buffer := buffer, bitmap := bitmap }
  if tmp.length > 0 then
    return { r with
      output := (r.output.write tmp).1
      unassBase := r.unassBase + tmp.length
      unassSize := sub64 r.unassSize tmp.length }
  else
    return r

/-- The body of the two copying loops: byte `i + dataOff` of the data goes to
place `i + bufOff` of the window unless one is there already. -/
def storeByte (data : List Byte) (dataOff bufOff : Nat) (r : StreamReassembler) (i : Nat) :
    Except Fault StreamReassembler := do
  if ← subscript r.bitmap (i + bufOff) then
    return r
  let c ← charAt data (i + dataOff)
  let _ ← subscript r.buffer (i + bufOff)
  return { r with
    buffer := r.buffer.set (i + bufOff) c
    bitmap := r.bitmap.set (i + bufOff) true
    unassSize := r.unassSize + 1 }

def store (data : List Byte) (dataOff bufOff realLen : Nat) (r : StreamReassembler) :
    Except Fault StreamReassembler :=
  (List.range realLen).foldlM (storeByte data dataOff bufOff) r

/-- The branch of `push_substring` for data that starts in the window. -/
def placeAhead (r : StreamReassembler) (data : List Byte) (index : Nat) :
    Except Fault StreamReassembler :=
  let offset := widen (narrow (index - r.unassBase))
  let realLen := min data.length (sub64 (sub64 r.capacity r.output.bufferSize) offset)
  store data 0 offset realLen (if realLen < data.length then { r with eof := false } else r)

/-- The branch of `push_substring` for data that starts before the window and
reaches into it. -/
def placeOverlap (r : StreamReassembler) (data : List Byte) (index : Nat) :
    Except Fault StreamReassembler :=
  let offset := widen (narrow (r.unassBase - index))
  let rest := sub64 data.length offset
  let realLen := min rest (sub64 r.capacity r.output.bufferSize)
  store data offset 0 realLen (if realLen < rest then { r with eof := false } else r)

def place (r : StreamReassembler) (data : List Byte) (index : Nat) :
    Except Fault StreamReassembler :=
  if r.unassBase ≤ index then r.placeAhead data index
  else if r.unassBase < index + data.length then r.placeOverlap data index
  else .ok r

/-- `if (_eof && unass_size == 0) _output.end_input()`. -/
def closeIfDone (r : StreamReassembler) : StreamReassembler :=
  if r.eof && r.unassSize == 0 then { r with output := r.output.endInput } else r

def noteEof (r : StreamReassembler) (eof : Bool) : StreamReassembler :=
  if eof then { r with eof := true } else r

def pushSubstring (r : StreamReassembler) (data : List Byte) (index : Nat) (eof : Bool) :
    Except Fault StreamReassembler := do
  let r := r.noteEof eof
  if data.length == 0 && r.eof && r.unassSize == 0 then
    return { r with output := r.output.endInput }
  if r.unassBase + r.capacity ≤ index then
    return r
  let r ← r.place data index
  let r ← r.checkContiguous
  return r.closeIfDone

/-- The application takes `len` bytes off `stream_out()`. -/
def popOut (r : StreamReassembler) (len : Nat) : StreamReassembler :=
  { r with output := r.output.popOutput len }

def unassembledBytes (r : StreamReassembler) : Nat := r.unassSize

def empty (r : StreamReassembler) : Bool := r.unassSize == 0

def ackIndex (r : StreamReassembler) : Nat := r.unassBase

end StreamReassembler

end Sponge
