import Sponge.Basic

/-!
# The in-order byte stream

`ByteStream` of `byte_stream.cc`: a bounded queue of bytes with counters of what
went in and out. A value carries the two facts every operation keeps: the buffer
fits its capacity and the counters differ by what is buffered.
-/

namespace Sponge

structure ByteStream where
  buffer : List Byte
  capacity : Nat
  endWrite : Bool
  writtenBytes : Nat
  readBytes : Nat
  error : Bool
  fits : buffer.length ≤ capacity
  counts : writtenBytes = readBytes + buffer.length
  deriving DecidableEq

namespace ByteStream

def new (capacity : Nat) : ByteStream where
  buffer := []
  capacity := capacity
  endWrite := false
  writtenBytes := 0
  readBytes := 0
  error := false
  fits := Nat.zero_le _
  counts := rfl

def remainingCapacity (s : ByteStream) : Nat := s.capacity - s.buffer.length

/-- Accept as many bytes as fit, and say how many that was. Nothing here looks at
`endWrite`: an ended stream still accepts bytes. -/
def write (s : ByteStream) (data : List Byte) : ByteStream × Nat :=
  let canWrite := s.capacity - s.buffer.length
  let realWrite := min canWrite data.length
  ({ s with
      buffer := s.buffer ++ data.take realWrite
      writtenBytes := s.writtenBytes + realWrite
      fits := by have := s.fits; simp only [List.length_append, List.length_take]; omega
      counts := by have := s.counts; simp only [List.length_append, List.length_take]; omega },
    realWrite)

def endInput (s : ByteStream) : ByteStream := { s with endWrite := true }

def setError (s : ByteStream) : ByteStream := { s with error := true }

def peekOutput (s : ByteStream) (len : Nat) : List Byte := s.buffer.take (min len s.buffer.length)

/-- A pop of more than is buffered only raises the error flag. -/
def popOutput (s : ByteStream) (len : Nat) : ByteStream :=
  if h : s.buffer.length < len then s.setError
  else
    { s with
      buffer := s.buffer.drop len
      readBytes := s.readBytes + len
      fits := by have := s.fits; simp only [List.length_drop]; omega
      counts := by have := s.counts; simp only [List.length_drop]; omega }

def read (s : ByteStream) (len : Nat) : ByteStream × List Byte :=
  if s.buffer.length < len then (s.setError, []) else (s.popOutput len, s.buffer.take len)

def inputEnded (s : ByteStream) : Bool := s.endWrite

def bufferSize (s : ByteStream) : Nat := s.buffer.length

def bufferEmpty (s : ByteStream) : Bool := s.buffer.isEmpty

def eof (s : ByteStream) : Bool := s.buffer.isEmpty && s.endWrite

def bytesWritten (s : ByteStream) : Nat := s.writtenBytes

def bytesRead (s : ByteStream) : Nat := s.readBytes

@[simp] theorem write_readBytes (s : ByteStream) (data : List Byte) :
    (s.write data).1.readBytes = s.readBytes := rfl

@[simp] theorem write_nil (s : ByteStream) : (s.write []).1 = s := by
  cases s
  simp [write]

/-- Data that fits is accepted whole. -/
theorem write_fits {s : ByteStream} {data : List Byte}
    (h : s.buffer.length + data.length ≤ s.capacity) :
    (s.write data).1.buffer = s.buffer ++ data := by
  have hm : min (s.capacity - s.buffer.length) data.length = data.length := by omega
  simp only [write, hm, List.take_length]

theorem read_fst (s : ByteStream) (len : Nat) : (s.read len).1 = s.popOutput len := by
  unfold read
  split
  · rename_i h; simp [popOutput, h]
  · rfl

/-- A pop either takes its bytes off the front or only raises the error flag. -/
theorem popOutput_cases (s : ByteStream) (len : Nat) :
    (s.buffer.length < len ∧ s.popOutput len = s.setError) ∨
    (len ≤ s.buffer.length ∧ (s.popOutput len).buffer = s.buffer.drop len ∧
      (s.popOutput len).readBytes = s.readBytes + len) := by
  unfold popOutput
  split
  · rename_i h; exact .inl ⟨h, rfl⟩
  · rename_i h; exact .inr ⟨by omega, rfl, rfl⟩

@[simp] theorem popOutput_capacity (s : ByteStream) (len : Nat) :
    (s.popOutput len).capacity = s.capacity := by
  unfold popOutput; split <;> rfl

@[simp] theorem popOutput_writtenBytes (s : ByteStream) (len : Nat) :
    (s.popOutput len).writtenBytes = s.writtenBytes := by
  unfold popOutput; split <;> rfl

@[simp] theorem popOutput_endWrite (s : ByteStream) (len : Nat) :
    (s.popOutput len).endWrite = s.endWrite := by
  unfold popOutput; split <;> rfl

theorem popOutput_error (s : ByteStream) (len : Nat) (h : s.error = true) :
    (s.popOutput len).error = true := by
  unfold popOutput; split
  · rfl
  · exact h

/-- What is left and what was taken are the old buffer. -/
theorem popOutput_buffer (s : ByteStream) (len : Nat) :
    (s.popOutput len).buffer = s.buffer.drop ((s.popOutput len).readBytes - s.readBytes) := by
  obtain ⟨_, h⟩ | ⟨_, hb, hr⟩ := s.popOutput_cases len
  · simp [h, setError]
  · rw [hb, hr, Nat.add_sub_cancel_left]

theorem read_snd (s : ByteStream) (len : Nat) :
    (s.read len).2 = s.buffer.take ((s.popOutput len).readBytes - s.readBytes) := by
  unfold read
  obtain ⟨hlt, h⟩ | ⟨hle, _, hr⟩ := s.popOutput_cases len
  · simp [hlt, h, setError]
  · rw [if_neg (by omega), hr, Nat.add_sub_cancel_left]

theorem readBytes_le_popOutput (s : ByteStream) (len : Nat) :
    s.readBytes ≤ (s.popOutput len).readBytes := by
  obtain ⟨_, h⟩ | ⟨_, _, hr⟩ := s.popOutput_cases len
  · rw [h]; exact Nat.le_refl _
  · omega

theorem read_le_written (s : ByteStream) : s.readBytes ≤ s.writtenBytes := by
  have := s.counts
  omega

end ByteStream

end Sponge
