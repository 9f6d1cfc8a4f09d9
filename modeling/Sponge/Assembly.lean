import Sponge.ReassemblerSpec
import Sponge.Lib.Marks
import Mathlib.Order.Interval.Finset.Nat

/-!
# Runs of the reassembler

Any interleaving of pushes and reads. The history beside the reassembler is the
bytes taken off its output and the stream positions accepted so far: those some push
covered while they were below the right edge `bytes_read + capacity` of the window.
-/

namespace Sponge.Assembly

open StreamReassembler

inductive Call
  | push (data : List Byte) (index : Nat) (eof : Bool)
  | read (len : Nat)
  | pop (len : Nat)

structure State where
  r : StreamReassembler
  got : List Byte
  accepted : Finset Nat

def init (capacity : Nat) : State := ⟨.new capacity, [], ∅⟩

def State.edge (s : State) : Nat := s.r.output.bytesRead + s.r.capacity

def step (s : State) : Call → Except Fault State
  | .push data index eof => do
    let r ← s.r.pushSubstring data index eof
    return { s with
      r := r
      accepted := s.accepted ∪ Finset.Ico index (min (index + data.length) s.edge) }
  | .read len =>
    let (output, bytes) := s.r.output.read len
    .ok { s with r := { s.r with output := output }, got := s.got ++ bytes }
  | .pop len => .ok { s with r := s.r.popOut len, got := s.got ++ (s.r.output.read len).2 }

theorem step_read (s : State) (len : Nat) : step s (.read len) = step s (.pop len) := by
  simp only [step, popOut, ← ByteStream.read_fst]

/-- The condition under which a push computes its offsets exactly. -/
def Call.Exact (s : State) : Call → Prop
  | .push data index _ => StreamReassembler.Exact s.r data index
  | .read _ | .pop _ => True

instance (s : State) : (c : Call) → Decidable (c.Exact s)
  | .push data index _ => inferInstanceAs (Decidable (StreamReassembler.Exact s.r data index))
  | .read _ | .pop _ => inferInstanceAs (Decidable True)

/-- What a push does. -/
theorem step_push {s : State} (hs : Inv s.r) {data : List Byte} {index : Nat} {eof : Bool}
    (hx : Call.Exact s (.push data index eof)) :
    ∃ r, s.r.pushSubstring data index eof = .ok r ∧ Pushed s.r data index eof r ∧
      step s (.push data index eof) = .ok { s with
        r := r
        accepted := s.accepted ∪ Finset.Ico index (min (index + data.length) s.edge) } := by
  obtain ⟨r, hr, pushed⟩ := push_spec hs eof hx
  refine ⟨r, hr, pushed, ?_⟩
  rw [step, hr]
  rfl

/-- Exact calls return. -/
theorem step_returns {s : State} (hs : Inv s.r) {c : Call} (hx : c.Exact s) :
    ∃ t, step s c = .ok t := by
  cases c with
  | push data index eof =>
    obtain ⟨r, -, -, hstep⟩ := step_push hs hx
    exact ⟨_, hstep⟩
  | read len => exact ⟨_, rfl⟩
  | pop len => exact ⟨_, rfl⟩

structure Sound (C : Nat) (s : State) : Prop where
  inv : Inv s.r
  capacity : s.r.capacity = C
  accepted : ∀ p, p ∈ s.accepted ↔ Held s.r p

theorem sound_init {C : Nat} (h : 1 ≤ C) : Sound C (init C) :=
  ⟨inv_new h, rfl, fun p => by simp [init, Held, new, List.getElem?_replicate]⟩

theorem sound_step {C : Nat} {s t : State} {c : Call} (hs : Sound C s) (hx : c.Exact s)
    (h : step s c = .ok t) : Sound C t := by
  have pop (len : Nat) (h : step s (.pop len) = .ok t) : Sound C t := by
    cases h
    exact ⟨popOut_inv hs.inv len, hs.capacity, hs.accepted⟩
  cases c with
  | push data index eof =>
    obtain ⟨r, -, pushed, hstep⟩ := step_push hs.inv hx
    rw [hstep] at h
    cases h
    refine ⟨pushed.inv, pushed.frame.1.trans hs.capacity, ?_⟩
    intro p
    simp only [Finset.mem_union, Finset.mem_Ico, Nat.lt_min, hs.accepted, pushed.held,
      State.edge, ByteStream.bytesRead]
  | read len => exact pop len (step_read s len ▸ h)
  | pop len => exact pop len h

/-! ## The bytes of one stream -/

/-- `data` is `S[index .. index + |data|)`, and it ends the stream if it says so. -/
def Call.Consistent (S : List Byte) : Call → Prop
  | .push data index eof => index + data.length ≤ S.length ∧
      (S.drop index).take data.length = data ∧ (eof = true → index + data.length = S.length)
  | .read _ | .pop _ => True

instance (S : List Byte) : (c : Call) → Decidable (c.Consistent S)
  | .push data index eof => inferInstanceAs (Decidable (index + data.length ≤ S.length ∧
      (S.drop index).take data.length = data ∧ (eof = true → index + data.length = S.length)))
  | .read _ | .pop _ => inferInstanceAs (Decidable True)

structure Faithful (S : List Byte) (s : State) : Prop where
  agrees : Agrees S s.r
  got : s.got = S.take s.r.output.readBytes

theorem faithful_init (S : List Byte) (C : Nat) : Faithful S (init C) :=
  ⟨agrees_new S C, by simp [init, new, ByteStream.new]⟩

theorem faithful_step {S : List Byte} {C : Nat} {s t : State} {c : Call} (hs : Sound C s)
    (hf : Faithful S s) (hx : c.Exact s) (hc : c.Consistent S) (h : step s c = .ok t) :
    Faithful S t := by
  have pop (len : Nat) (h : step s (.pop len) = .ok t) : Faithful S t := by
    cases h
    exact ⟨popOut_agrees hf.agrees len, hf.agrees.read_got hf.got len⟩
  cases c with
  | push data index eof =>
    obtain ⟨r, hr, pushed, hstep⟩ := step_push hs.inv hx
    rw [hstep] at h
    cases h
    refine ⟨push_agrees hs.inv hf.agrees hx (fun _ => sliceAt_iff.mpr hc.2.1) hr, ?_⟩
    rw [pushed.frame.2]
    exact hf.got
  | read len => exact pop len (step_read s len ▸ h)
  | pop len => exact pop len h

/-- All bytes ever written to the output are the first `bytes_written` of the stream. -/
theorem Faithful.written {S : List Byte} {s : State} (h : Faithful S s) :
    s.got ++ s.r.output.buffer = S.take s.r.output.writtenBytes := h.agrees.got_buffer h.got

/-! ## Pushes inside the window -/

/-- Pushes start no later than the right edge of the window, reads take at most what
is buffered. -/
def Call.InWindow (s : State) : Call → Prop
  | .push _ index _ => index ≤ s.edge
  | .read len | .pop len => len ≤ s.r.output.bufferSize

instance (s : State) : (c : Call) → Decidable (c.InWindow s)
  | .push _ index _ => inferInstanceAs (Decidable (index ≤ s.edge))
  | .read len | .pop len => inferInstanceAs (Decidable (len ≤ s.r.output.bufferSize))

/-- A push that covers the window's first byte starts less than `2 ^ 31` bytes before
it. -/
def Call.StartsNear (s : State) : Call → Prop
  | .push data index _ => index + data.length ≤ s.r.unassBase ∨ s.r.unassBase < index + 2 ^ 31
  | .read _ | .pop _ => True

instance (s : State) : (c : Call) → Decidable (c.StartsNear s)
  | .push data index _ => inferInstanceAs (Decidable
      (index + data.length ≤ s.r.unassBase ∨ s.r.unassBase < index + 2 ^ 31))
  | .read _ | .pop _ => inferInstanceAs (Decidable True)

theorem exact_of_inWindow {C : Nat} (hC : C < 2 ^ 31) {s : State} (hs : Sound C s) {c : Call}
    (hw : c.InWindow s) (hn : c.StartsNear s) : c.Exact s := by
  cases c with
  | push data index eof =>
    have hcap := hs.capacity
    have hbase := hs.inv.base
    have hcount := s.r.output.counts
    simp only [Call.InWindow, State.edge, ByteStream.bytesRead] at hw
    simp only [Call.StartsNear] at hn
    by_cases h : s.r.unassBase ≤ index
    · exact .inr (.inr (.inl ⟨h, hw, by omega⟩))
    · exact .inr (.inr (.inr ⟨by omega, by omega⟩))
  | read len => trivial
  | pop len => trivial

/-- The first position not accepted is where the window starts. -/
theorem Sound.first_missing {C : Nat} {s : State} (h : Sound C s) :
    (∀ p, p < s.r.unassBase → p ∈ s.accepted) ∧ s.r.unassBase ∉ s.accepted := by
  refine ⟨fun p hp => (h.accepted p).mpr (.inl hp), fun hm => ?_⟩
  rcases (h.accepted _).mp hm with hlt | hbit
  · omega
  · rw [Nat.sub_self] at hbit
    exact h.inv.front hbit

/-- The bytes stored are the accepted positions not yet assembled. -/
theorem Sound.waiting {C : Nat} {s : State} (h : Sound C s) :
    s.r.unassSize = (s.accepted.filter (s.r.unassBase ≤ ·)).card := by
  rw [h.inv.size]
  apply Marks.count_eq_card _ s.r.unassBase
  intro p
  rw [Finset.mem_filter, h.accepted p, Held]
  constructor
  · rintro ⟨hp | hp, hle⟩
    · omega
    · exact ⟨hle, hp⟩
  · rintro ⟨hle, hp⟩
    exact ⟨.inr hp, hle⟩

/-- Slices of `S` in the window that do not reach back too far. -/
abbrev WindowCall (S : List Byte) (s : State) (c : Call) : Prop :=
  c.Consistent S ∧ c.InWindow s ∧ c.StartsNear s

theorem windowCall_sound {S : List Byte} {C : Nat} (hC : 1 ≤ C) (hC' : C < 2 ^ 31) {s : State}
    (h : Exec.Reach step (WindowCall S) (init C) s) : Sound C s ∧ Faithful S s := by
  apply h.invariant (I := fun s => Sound C s ∧ Faithful S s)
    ⟨sound_init hC, faithful_init S C⟩
  rintro s c t ⟨hs, hf⟩ ⟨hc, hw, hn⟩ hstep
  have hx := exact_of_inWindow hC' hs hw hn
  exact ⟨sound_step hs hx hstep, faithful_step hs hf hx hc hstep⟩

/-- **Reassembly in the window.** With `L` the first position not accepted, exactly
`S[0..L)` has been written, and what waits are the accepted positions beyond. Every
further such call returns. -/
theorem window_reassembly (S : List Byte) (C : Nat) (hC : 1 ≤ C) (hC' : C < 2 ^ 31) (s : State)
    (h : Exec.Reach step (WindowCall S) (init C) s) :
    (∃ L, (∀ p, p < L → p ∈ s.accepted) ∧ L ∉ s.accepted ∧ L ≤ S.length ∧
      s.got ++ s.r.output.buffer = S.take L ∧
      s.r.ackIndex = L ∧ s.r.output.bytesWritten = L ∧
      s.r.unassembledBytes = (s.accepted.filter (L ≤ ·)).card ∧
      (s.r.empty = true ↔ (s.accepted.filter (L ≤ ·)).card = 0)) ∧
    ∀ c : Call, c.Consistent S → c.InWindow s → c.StartsNear s → ∃ t, step s c = .ok t := by
  obtain ⟨hs, hf⟩ := windowCall_sound hC hC' h
  have hbase := hs.inv.base
  obtain ⟨hall, hnot⟩ := hs.first_missing
  constructor
  · refine ⟨s.r.unassBase, hall, hnot, ?_, ?_, rfl, hbase.symm, hs.waiting, ?_⟩
    · rw [hbase]; exact hf.agrees.within
    · rw [hbase]; exact hf.written
    · simp only [StreamReassembler.empty, beq_iff_eq, hs.waiting]
  · intro c _ hw hn
    exact step_returns hs.inv (exact_of_inWindow hC' hs hw hn)

/-- Three bytes out of order, with the end of the stream first. -/
theorem window_reassembly_abc :
    ∃ s, Exec.Reach step (WindowCall [97, 98, 99]) (init 4) s ∧ s.r.ackIndex = 3 ∧
      s.got = [97] ∧ s.got ++ s.r.output.buffer = [97, 98, 99] ∧ s.r.unassembledBytes = 0 := by
  obtain ⟨s, reached, hv⟩ := Exec.reach_of_view step (WindowCall [97, 98, 99]) (init 4)
    [.push [98, 99] 1 true, .push [97] 0 false, .read 1]
    (fun s => (s.r.ackIndex, s.got, s.r.unassembledBytes)) (3, [97], 0) (by decide)
  obtain ⟨h3, hgot, hun⟩ : s.r.ackIndex = 3 ∧ s.got = [97] ∧ s.r.unassembledBytes = 0 := by
    simpa using hv
  obtain ⟨L, _, _, _, hbytes, hack, _⟩ :=
    (window_reassembly [97, 98, 99] 4 (by decide) (by decide) s reached).1
  refine ⟨s, reached, h3, hgot, ?_, hun⟩
  rw [hbytes, ← hack, h3]
  rfl

/-- Slices of `S` in the window, however far they reach back. -/
abbrev LooseCall (S : List Byte) (s : State) (c : Call) : Prop := c.Consistent S ∧ c.InWindow s

theorem Sound.base_eq {C L : Nat} {s : State} (h : Sound C s) (hall : ∀ p, p < L → p ∈ s.accepted)
    (hnot : L ∉ s.accepted) : s.r.unassBase = L := by
  obtain ⟨hall', hnot'⟩ := h.first_missing
  rcases Nat.lt_trichotomy s.r.unassBase L with hlt | heq | hgt
  · exact absurd (hall _ hlt) hnot'
  · exact heq
  · exact absurd (hall' _ hgt) hnot

/-- One step of a window run, with the state it leads to. -/
theorem window_push {C : Nat} (hC' : C < 2 ^ 31) {s : State} (hs : Sound C s)
    (data : List Byte) (index : Nat) (eof : Bool) (hw : index ≤ s.edge)
    (hn : Call.StartsNear s (.push data index eof)) :
    ∃ t, step s (.push data index eof) = .ok t ∧ Sound C t ∧
      t.accepted = s.accepted ∪ Finset.Ico index (min (index + data.length) s.edge) ∧
      Pushed s.r data index eof t.r := by
  have hx := exact_of_inWindow hC' hs (c := .push data index eof) hw hn
  obtain ⟨r, -, pushed, hstep⟩ := step_push hs.inv hx
  exact ⟨_, hstep, sound_step hs hx hstep, rfl, pushed⟩

theorem zeros_consistent {N n index : Nat} (h : index + n ≤ N) :
    Call.Consistent (List.replicate N 0) (.push (List.replicate n 0) index false) := by
  refine ⟨by simpa using h, ?_, by simp⟩
  simp only [List.length_replicate, List.drop_replicate, List.take_replicate]
  congr 1
  omega

/-- Exactly the first `n` bytes have been accepted, and no end mark. -/
structure Opening (C n : Nat) (s : State) : Prop extends Sound C s where
  front : ∀ p, p ∈ s.accepted ↔ p < n
  flag : s.r.eof = false
  going : s.r.output.endWrite = false

theorem Opening.base_eq {C n : Nat} {s : State} (h : Opening C n s) : s.r.unassBase = n :=
  h.toSound.base_eq (by simp [h.front]) (by simp [h.front])

/-- One more zero behind the `n` that have been accepted. -/
theorem zeros_push {C : Nat} (hC' : C < 2 ^ 31) {N n : Nat} {s : State} (hs : Opening C n s)
    (hroom : n < s.edge) (hn : n < N) :
    ∃ t, LooseCall (List.replicate N 0) s (.push (List.replicate 1 0) n false) ∧
      step s (.push (List.replicate 1 0) n false) = .ok t ∧ Opening C (n + 1) t ∧
      t.r.output.readBytes = s.r.output.readBytes := by
  have hbase := hs.base_eq
  obtain ⟨t, ht, hsound, hacc, pushed⟩ := window_push hC' hs.toSound (List.replicate 1 0) n false
    (Nat.le_of_lt hroom) (.inr (by omega))
  have hflag : t.r.eof = false := by
    apply Bool.eq_false_iff.mpr
    intro h
    simpa [hs.flag] using (pushed.eof.mp h).1
  have hgoing : t.r.output.endWrite = false := by
    apply Bool.eq_false_iff.mpr
    intro h
    simpa [hs.going, hflag] using pushed.ended.mp h
  refine ⟨t, ⟨zeros_consistent (by omega), Nat.le_of_lt hroom⟩, ht, ⟨hsound, ?_, hflag, hgoing⟩,
    pushed.frame.2⟩
  intro p
  simp only [hacc, Finset.mem_union, hs.front, Finset.mem_Ico, List.length_replicate]
  omega

/-- Zeros pushed and read one by one. -/
theorem zeros_drained {C : Nat} (hC : 1 ≤ C) (hC' : C < 2 ^ 31) {N n : Nat} (hn : n ≤ N) :
    ∃ s, Exec.Reach step (LooseCall (List.replicate N 0)) (init C) s ∧ Opening C n s ∧
      s.r.output.readBytes = n := by
  induction n with
  | zero => exact ⟨init C, .start, ⟨sound_init hC, by simp [init], rfl, rfl⟩, rfl⟩
  | succ n ih =>
    obtain ⟨s, reached, hs, hread⟩ := ih (by omega)
    have hedge : s.edge = n + C := by rw [State.edge, ByteStream.bytesRead, hread, hs.capacity]
    obtain ⟨t, hcall, ht, ho, hread'⟩ := zeros_push hC' hs (by omega) hn
    have hbase := ho.base_eq
    have hcount := t.r.output.counts
    have hwritten := ho.inv.base
    have hlen : t.r.output.buffer.length = 1 := by omega
    refine ⟨⟨t.r.popOut 1, t.got ++ (t.r.output.read 1).2, t.accepted⟩, ?_,
      ⟨⟨popOut_inv ho.inv 1, ho.capacity, ho.accepted⟩, ho.front, ho.flag, ?_⟩, ?_⟩
    · have hpop : Call.InWindow t (.pop 1) := Nat.le_of_eq hlen.symm
      exact (reached.next hcall ht).next (e := .pop 1) ⟨trivial, hpop⟩ rfl
    · exact (t.r.output.popOutput_endWrite 1).trans ho.going
    · obtain ⟨hlt, _⟩ | ⟨_, _, hr⟩ := t.r.output.popOutput_cases 1
      · omega
      · simp only [popOut, hr]
        omega

/-- A stream of zeros two bytes longer than the window is. -/
def zeros (C : Nat) : List Byte := List.replicate (C + 2) 0

/-- Read the first `2 ^ 31 - 1` bytes and push one byte more: the window now starts `2 ^ 31`
bytes after the stream does. -/
theorem zeros_reached {C : Nat} (hC : C + 1 = 2 ^ 31) :
    ∃ s, Exec.Reach step (LooseCall (zeros C)) (init C) s ∧ Sound C s ∧
      s.r.unassBase = C + 1 ∧ s.r.output.readBytes = C := by
  obtain ⟨s, reached, hs, hread⟩ :=
    zeros_drained (C := C) (by omega) (by omega) (show C ≤ C + 2 by omega)
  have hedge : s.edge = C + C := by rw [State.edge, ByteStream.bytesRead, hread, hs.capacity]
  obtain ⟨t, hcall, ht, ho, hread'⟩ := zeros_push (N := C + 2) (by omega) hs (by omega) (by omega)
  exact ⟨t, reached.next hcall ht, ho.toSound, ho.base_eq, hread'.trans hread⟩

/-- Pushing the whole stream again there reads `data[-2147483648]`. -/
theorem whole_stream_faults :
    ∃ s, Exec.Reach step (LooseCall (zeros (2 ^ 31 - 1))) (init (2 ^ 31 - 1)) s ∧
      Call.Consistent (zeros (2 ^ 31 - 1)) (.push (zeros (2 ^ 31 - 1)) 0 true) ∧
      Call.InWindow s (.push (zeros (2 ^ 31 - 1)) 0 true) ∧
      step s (.push (zeros (2 ^ 31 - 1)) 0 true) = .error .outOfRange := by
  obtain ⟨C, hC, hC'⟩ : ∃ C, 2 ^ 31 - 1 = C ∧ C + 1 = 2 ^ 31 := ⟨_, rfl, by omega⟩
  rw [hC]
  obtain ⟨s, reached, hs, hb, hr⟩ := zeros_reached hC'
  have hlen : (zeros C).length = C + 2 := by simp [zeros]
  have hcap := hs.capacity
  have hcount := s.r.output.counts
  have hbase := hs.inv.base
  refine ⟨s, reached, ⟨by omega, by simp, fun _ => by omega⟩, Nat.zero_le _, ?_⟩
  rw [step, far_overlap_faults hs.inv] <;> first | rfl | omega

/-! ## Arbitrary pushes -/

theorem exactCalls_sound {C : Nat} (hC : 1 ≤ C) {s : State}
    (h : Exec.Reach step (fun s c => c.Exact s) (init C) s) : Sound C s :=
  h.invariant (sound_init hC) (fun _ _ _ hs hx hstep => sound_step hs hx hstep)

theorem Sound.within_capacity {C : Nat} {s : State} (h : Sound C s) :
    s.r.output.bufferSize + s.r.unassembledBytes ≤ C := by
  have hfit := s.r.output.fits
  rw [h.inv.room, h.capacity] at hfit
  have hcount : s.r.bitmap.count true ≤ C - s.r.output.buffer.length := by
    apply Marks.count_le
    intro j hj
    have := h.inv.window j hj
    have := h.capacity
    omega
  simp only [ByteStream.bufferSize, unassembledBytes, h.inv.size]
  omega

/-- **Memory and capacity.** As long as every push computes its offsets exactly, a push
returns, so that each of its subscripts on the two deques is below their length `C`;
what is buffered stays within the capacity; and `check_contiguous` never hands the
output more than it has room for. The contents of the pushes are arbitrary. -/
theorem capacity_respected (C : Nat) (hC : 1 ≤ C) (s : State)
    (h : Exec.Reach step (fun s c => c.Exact s) (init C) s) (data : List Byte) (index : Nat)
    (eof : Bool) (hx : StreamReassembler.Exact s.r data index) :
    s.r.bitmap.length = C ∧ s.r.buffer.length = C ∧
    (∃ t, s.r.pushSubstring data index eof = .ok t ∧
      t.output.bufferSize + t.unassembledBytes ≤ C ∧
      t.unassBase = t.output.bytesWritten) ∧
    ∀ u tmp rest, index < s.r.unassBase + C → (s.r.noteEof eof).place data index = .ok u →
      u.gather = .ok (tmp, rest) → tmp.length ≤ u.output.remainingCapacity := by
  have hs := exactCalls_sound hC h
  refine ⟨by rw [hs.inv.bits, hs.capacity], by rw [hs.inv.cells, hs.capacity], ?_, ?_⟩
  · obtain ⟨t, ht⟩ := step_returns hs.inv (c := .push data index eof) hx
    have hs' := sound_step hs (c := .push data index eof) hx ht
    obtain ⟨r, hr, hq⟩ := Exec.bind_eq_ok.mp ht
    cases hq
    exact ⟨r, hr, hs'.within_capacity, hs'.inv.base⟩
  · intro u tmp rest hin hu hg
    rw [noteEof_eq] at hu
    obtain ⟨t, ht, placed⟩ := place_spec (hs.inv.withEof (s.r.eof || eof)).toShape
      (by rw [hs.capacity]; exact hin)
      (show StreamReassembler.Exact { s.r with eof := s.r.eof || eof } data index from hx)
    rw [ht] at hu
    cases hu
    obtain ⟨k, hk, _, hgk⟩ := gather_spec placed.shape.regular
      (by rw [placed.frame.2.2]; exact hs.inv.nonempty)
    rw [hgk] at hg
    cases hg
    have := hk.fits placed.shape
    rw [ByteStream.remainingCapacity, placed.shape.room, List.length_take]
    omega

/-- Half of a push fits beside an unread byte; the other half is discarded. -/
theorem capacity_respected_two :
    ∃ s, Exec.Reach step (fun s c => c.Exact s) (init 2) s ∧
      ∃ t, s.r.pushSubstring [99, 100] 2 false = .ok t ∧
        t.output.bufferSize + t.unassembledBytes ≤ 2 ∧ t.unassBase = t.output.bytesWritten := by
  obtain ⟨s, reached, hv⟩ := Exec.reach_of_view step (fun s c => c.Exact s) (init 2)
    [.push [97, 98] 0 false, .read 1]
    (fun s => decide (StreamReassembler.Exact s.r [99, 100] 2)) true (by decide)
  exact ⟨s, reached, (capacity_respected 2 (by decide) s reached [99, 100] 2 false
    (of_decide_eq_true hv)).2.2.1⟩

/-- Two bytes wait unread in a reassembler of capacity 2. A push at index 3 passes the
check against `unass_base + capacity`, and `capacity - buffered - offset` wraps. With two
bytes it stores past the end of the deques. With one byte three are buffered; then,
after one is read and index 2 arrives, two bytes are handed to an output with room for
one. -/
theorem unread_output_overflows :
    (∃ s, Exec.Reach step (fun _ _ => True) (init 2) s ∧
      s.r.pushSubstring [120, 121] 3 false = .error .outOfRange) ∧
    (∃ s, Exec.Reach step (fun _ _ => True) (init 2) s ∧
      s.r.output.bufferSize + s.r.unassembledBytes = 3) ∧
    ∃ s, Exec.Reach step (fun _ _ => True) (init 2) s ∧
      s.r.unassBase = 4 ∧ s.r.output.bytesWritten = 3 := by
  refine ⟨?_, ?_, ?_⟩
  · obtain ⟨s, reached, h⟩ := Exec.reach_of_view step (fun _ _ => True) (init 2)
      [.push [97, 98] 0 false] (fun s => Exec.fault (s.r.pushSubstring [120, 121] 3 false))
      (some .outOfRange) (by decide)
    exact ⟨s, reached, Exec.error_of_fault h⟩
  · exact Exec.reach_of_view step (fun _ _ => True) (init 2)
      [.push [97, 98] 0 false, .push [120] 3 false]
      (fun s => s.r.output.bufferSize + s.r.unassembledBytes) 3 (by decide)
  · obtain ⟨s, reached, h⟩ := Exec.reach_of_view step (fun _ _ => True) (init 2)
      [.push [97, 98] 0 false, .push [120] 3 false, .read 1, .push [99] 2 false]
      (fun s => (s.r.unassBase, s.r.output.bytesWritten)) (4, 3) (by decide)
    exact ⟨s, reached, by simpa using h⟩

/-! ## The end of input -/

/-- A push that carries the end of the stream either brings data that starts below
`unass_base + capacity`, or comes when the last byte is held already. -/
def Call.EndHeld (s : State) : Call → Prop
  | .push data index eof => eof = true → LastHeld s.r (index + data.length) ∨
      (data ≠ [] ∧ index < s.r.unassBase + s.r.capacity)
  | .read _ | .pop _ => True

instance (s : State) : (c : Call) → Decidable (c.EndHeld s)
  | .push _ _ eof => inferInstanceAs (Decidable (eof = true → _ ∨ _ ∧ _))
  | .read _ | .pop _ => inferInstanceAs (Decidable True)

/-- The flag is only set while the last byte is held, and the input only ended once
every byte is written. -/
structure Ends (S : List Byte) (s : State) : Prop where
  flag : s.r.eof = true → LastHeld s.r S.length
  ended : s.r.output.endWrite = true → S.length ≤ s.r.unassBase

theorem ends_step {S : List Byte} {C : Nat} {s t : State} {c : Call} (hs : Sound C s)
    (he : Ends S s) (hx : c.Exact s) (hc : c.Consistent S) (hk : c.EndHeld s)
    (h : step s c = .ok t) : Ends S t := by
  have pop (len : Nat) (h : step s (.pop len) = .ok t) : Ends S t := by
    cases h
    refine ⟨he.flag, ?_⟩
    simpa only [popOut, ByteStream.popOutput_endWrite] using he.ended
  cases c with
  | push data index eof =>
    obtain ⟨r, -, pushed, hstep⟩ := step_push hs.inv hx
    rw [hstep] at h
    cases h
    have flag : r.eof = true → LastHeld r S.length := by
      intro hflag
      obtain ⟨hold | hnew, hcut⟩ := pushed.eof.mp hflag
      · exact pushed.lastHeld_mono (he.flag hold)
      · rw [← hc.2.2 hnew]
        rcases hk hnew with hl | ⟨hd, hin⟩
        · exact pushed.lastHeld_mono hl
        · -- not truncated, or the flag would have been cleared
          apply pushed.lastHeld_end hd
          apply Nat.le_of_not_lt
          intro hlt
          exact hcut ⟨hin, hd, hlt⟩
    refine ⟨flag, ?_⟩
    intro hend
    rcases pushed.ended.mp hend with hold | ⟨hflag, hz, _⟩
    · exact Nat.le_trans (he.ended hold) pushed.forward
    · exact pushed.inv.lastHeld_empty (flag hflag) hz
  | read len => exact pop len (step_read s len ▸ h)
  | pop len => exact pop len h

/-- Slices of `S` with exact offsets whose end mark comes with the end. -/
abbrev EndingCall (S : List Byte) (s : State) (c : Call) : Prop :=
  c.Consistent S ∧ c.Exact s ∧ c.EndHeld s

/-- **No premature end.** Whenever the input of the output stream has ended, every byte
of `S` has been written to it. -/
theorem ended_complete (S : List Byte) (C : Nat) (hC : 1 ≤ C) (s : State)
    (h : Exec.Reach step (EndingCall S) (init C) s) (hend : s.r.output.inputEnded = true) :
    s.r.output.bytesWritten = S.length := by
  obtain ⟨hs, hf, he⟩ := h.invariant (I := fun s => Sound C s ∧ Faithful S s ∧ Ends S s)
    ⟨sound_init hC, faithful_init S C, ⟨by simp [init, new], by simp [init, new, ByteStream.new]⟩⟩
    (by
      rintro s c t ⟨hs, hf, he⟩ ⟨hc, hx, hk⟩ hstep
      exact ⟨sound_step hs hx hstep, faithful_step hs hf hx hc hstep,
        ends_step hs he hx hc hk hstep⟩)
  have hle := he.ended hend
  have hbase := hs.inv.base
  have hwithin := hf.agrees.within
  simp only [ByteStream.bytesWritten]
  omega

/-- The last byte first, cut off at the window, then everything in order. -/
theorem ended_complete_abc :
    ∃ s, Exec.Reach step (EndingCall [97, 98, 99]) (init 2) s ∧
      s.r.output.inputEnded = true ∧ s.r.output.bytesWritten = 3 := by
  obtain ⟨s, reached, hv⟩ := Exec.reach_of_view step (EndingCall [97, 98, 99]) (init 2)
    [.push [98, 99] 1 true, .push [97] 0 false, .read 2, .push [99] 2 true]
    (fun s => s.r.output.inputEnded) true (by decide)
  exact ⟨s, reached, hv, ended_complete [97, 98, 99] 2 (by decide) s reached hv⟩

/-- An empty end mark that overtakes the data ends the input at once, with no byte
written; one past the window is remembered and ends it at the first gap. -/
theorem empty_end_premature :
    (∃ s, Exec.Reach step (fun _ c => c.Consistent [97, 98, 99]) (init 4) s ∧
      s.r.output.inputEnded = true ∧ s.r.output.bytesWritten = 0) ∧
    ∃ s, Exec.Reach step (fun _ c => c.Consistent [97, 98, 99]) (init 2) s ∧
      s.r.output.inputEnded = true ∧ s.r.output.bytesWritten = 1 := by
  constructor
  · obtain ⟨s, reached, hv⟩ := Exec.reach_of_view step (fun _ c => c.Consistent [97, 98, 99])
      (init 4) [.push [] 3 true] (fun s => (s.r.output.inputEnded, s.r.output.bytesWritten))
      (true, 0) (by decide)
    exact ⟨s, reached, by simpa using hv⟩
  · obtain ⟨s, reached, hv⟩ := Exec.reach_of_view step (fun _ c => c.Consistent [97, 98, 99])
      (init 2) [.push [99] 2 true, .push [97] 0 false]
      (fun s => (s.r.output.inputEnded, s.r.output.bytesWritten)) (true, 1) (by decide)
    exact ⟨s, reached, by simpa using hv⟩

end Sponge.Assembly
