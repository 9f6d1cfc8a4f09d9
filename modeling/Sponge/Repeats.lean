import Sponge.StaleAcks

/-!
# Calls made twice

The runs are any sequence of calls of the sender, however many numbers are in flight.

* `LowBook`, `lowBook_step`: the books hold in all of them, since nothing from `2 ^ 64 - 2 ^ 32` up
  ever comes off the queue;
* `fillWindow_idle`: after `fill_window` there is nothing to send or no room for it, so the
  next call sends nothing;
* `fill_window_fills`: what `fill_window` leaves in the stream and in the window;
* `repeated_ack`: the second of two equal acknowledgements finds its work done.
-/

namespace Sponge.TCPSender

open Words WrappingInt32
open StaleAcks (Behind behind_acked behind_fillWindow ackReceived_stale ackReceived_future leftover
  acked_self_iff)

/-! ## The books of every run -/

theorem Chain.split {isn : WrappingInt32} {xs ys : List TCPSegment} {a b : Nat}
    (h : Chain isn (xs ++ ys) a b) :
    Chain isn xs a (a + totalLength xs) ∧ Chain isn ys (a + totalLength xs) b := by
  induction xs generalizing a with
  | nil => exact ⟨rfl, h⟩
  | cons seg rest ih =>
    obtain ⟨hxs, hys⟩ := ih h.2.2
    rw [totalLength_cons, ← Nat.add_assoc]
    exact ⟨⟨h.1, h.2.1, hxs⟩, hys⟩

/-- A segment that starts below `2 ^ 64 - 2 ^ 32` and comes off the queue ends below it. -/
theorem Covers.low {s : TCPSender} {ackno : WrappingInt32} {absAckno a : Nat} {seg : TCPSegment}
    (hcov : s.Covers absAckno seg) (hseq : seg.header.seqno = wrap a s.isn)
    (hle : a ≤ s.nextSeqno) (low : a + 2 ^ 32 < 2 ^ 64)
    (habs : unwrap ackno s.isn s.nextSeqno = .ok absAckno) (hack : absAckno ≤ s.nextSeqno) :
    a + seg.lengthInSequenceSpace + 2 ^ 32 < 2 ^ 64 := by
  obtain ⟨first, hfirst, hend⟩ := hcov
  rw [hseq] at hfirst
  have hnear := unwrap_near hfirst
  have hnear' := unwrap_near habs
  rw [offset_wrap] at hnear
  by_cases top : s.nextSeqno < 2 ^ 64
  · omega
  · -- both numbers are in the block below that of the checkpoint
    have hhigh := unwrap_high (by omega) hfirst
    have hhigh' := unwrap_high (by omega) habs
    rw [offset_wrap] at hhigh
    omega

theorem covered_low {s : TCPSender} {ackno : WrappingInt32} {absAckno : Nat}
    (habs : unwrap ackno s.isn s.nextSeqno = .ok absAckno) (hack : absAckno ≤ s.nextSeqno)
    {gone : List TCPSegment} {a m : Nat} (hc : Chain s.isn gone a m) (hm : m ≤ s.nextSeqno)
    (low : a + 2 ^ 32 < 2 ^ 64) (hcov : ∀ seg ∈ gone, s.Covers absAckno seg) :
    m + 2 ^ 32 < 2 ^ 64 := by
  induction gone generalizing a with
  | nil =>
    cases hc
    exact low
  | cons seg rest ih =>
    have hend := hc.2.2.end_eq
    apply ih hc.2.2
    · exact (hcov seg List.mem_cons_self).low hc.1 (by omega) low habs hack
    · intro x hx
      exact hcov x (List.mem_cons_of_mem _ hx)

/-- What every call keeps. -/
structure LowBook (s : TCPSender) : Prop where
  book : Book s
  low : s.unacked + 2 ^ 32 < 2 ^ 64
  fresh : s.synSent = false → s.segmentsOutstanding = []

theorem lowBook_new (capacity : Nat) (retxTimeout : UInt16) (isn : WrappingInt32) :
    LowBook (new capacity retxTimeout isn) :=
  ⟨book_new _ _ _, by simp [new, unacked], fun _ => rfl⟩

theorem Emits.started {s t : TCPSender} (he : Emits s t) : t.synSent = true := by
  cases he with
  | syn _ => rfl
  | bytes may => exact may.started

theorem lowBook_fillWindow {s t : TCPSender} (h : LowBook s) (ht : s.fillWindow = .ok t) :
    LowBook t := by
  obtain ⟨hbook, hun⟩ := book_fillWindow h.book ht
  refine ⟨hbook, by rw [hun]; exact h.low, ?_⟩
  apply fillWindow_invariant (P := fun t => t.synSent = false → t.segmentsOutstanding = []) _
    h.fresh ht
  intro u v _ he hno
  rw [he.started] at hno
  cases hno

theorem lowBook_trimmed {s : TCPSender} (h : LowBook s) {ackno : WrappingInt32} {absAckno : Nat}
    (habs : unwrap ackno s.isn s.nextSeqno = .ok absAckno) (hack : absAckno ≤ s.nextSeqno)
    (windowSize freeSpace : UInt16) {gone rest : List TCPSegment}
    (hsplit : s.segmentsOutstanding = gone ++ rest)
    (hcov : ∀ seg ∈ gone, s.Covers absAckno seg) :
    LowBook (s.trimmed windowSize freeSpace gone rest) := by
  have hchain := h.book.chain
  rw [hsplit] at hchain
  obtain ⟨hgone, hrest⟩ := hchain.split
  have hend := hrest.end_eq
  have hlow := covered_low habs hack hgone (by omega) h.low hcov
  have hun : (s.trimmed windowSize freeSpace gone rest).unacked =
      s.unacked + totalLength gone := by
    simp only [trimmed, keep, unacked] at hend ⊢
    omega
  have htally := tally_trimmed h.book.tally windowSize freeSpace hsplit
  refine ⟨⟨?_, htally.flight, htally.timer, ?_⟩, ?_, ?_⟩
  · rw [hun]
    exact hrest
  · rw [hun]
    exact Nat.le_of_lt hlow
  · rw [hun]
    exact hlow
  · intro hno
    have hnil := h.fresh hno
    rw [hsplit] at hnil
    exact (List.append_eq_nil_iff.mp hnil).2

theorem lowBook_step {s t : TCPSender} {op : Op} (h : LowBook s) (ht : step s op = .ok t) :
    LowBook t := by
  cases op with
  | write _ | endInput =>
    cases ht
    exact ⟨h.book.withStream _, h.low, h.fresh⟩
  | sendEmptySegment =>
    cases ht
    exact ⟨h.book.withOut _, h.low, h.fresh⟩
  | fillWindow => exact lowBook_fillWindow h ht
  | tick ms =>
    have hbook := book_tick h.book ht
    obtain ⟨_, _, _, _, _, rfl⟩ := tick_ok ht
    exact ⟨hbook, h.low, h.fresh⟩
  | ackReceived ackno windowSize =>
    obtain ⟨absAckno, habs, ⟨rfl, -⟩ | ⟨gone, rest, freeSpace, hle, hsplit, -, hcov, -, hfill⟩⟩ :=
      ackReceived_pops h.book.tally ht
    · exact h
    · exact lowBook_fillWindow (lowBook_trimmed h habs hle windowSize freeSpace hsplit hcov) hfill

theorem lowBook_of_reach {capacity : Nat} {retxTimeout : UInt16} {isn : WrappingInt32}
    {s : TCPSender} (h : Exec.Reach step (fun _ _ => True) (new capacity retxTimeout isn) s) :
    LowBook s :=
  h.invariant (lowBook_new capacity retxTimeout isn) fun _ _ _ hs _ ht => lowBook_step hs ht

/-! ## Filling the window twice -/

/-- Bytes without the FIN of a stream that has ended leave no room for it. -/
theorem bytes_no_room {s : TCPSender} {size : Nat} (may : MaySend s size false)
    (hroom : size ≤ s.receiverFreeSpace.toNat) (hall : ¬ size < s.receiverFreeSpace.toNat) :
    (s.bytes size false).receiverFreeSpace = 0 := by
  have hfree := bytes_freeSpace may hroom
  simp only [Bool.toNat_false, Nat.add_zero] at hfree
  apply UInt16.toNat_inj.mp
  simp only [UInt16.toNat_zero]
  omega

/-- A segment with the last bytes of the stream leaves nothing to send, or no room. -/
theorem bytes_last_idle {s : TCPSender} {size : Nat} {fin : Bool} (may : MaySend s size fin)
    (hwin : s.receiverWindowSize ≠ 0) (hroom : size + fin.toNat ≤ s.receiverFreeSpace.toNat)
    (hfin : fin = true ↔ (s.stream.buffer.length ≤ size ∧ s.stream.endWrite = true) ∧
      size < s.receiverFreeSpace.toNat)
    (hbuf : (s.bytes size fin).stream.buffer = []) : Idle (s.bytes size fin) := by
  have hall : s.stream.buffer.length ≤ size := by
    rw [bytes_buffer fin may.buffered] at hbuf
    exact List.drop_eq_nil_iff.mp hbuf
  refine ⟨may.started, .inr ?_⟩
  cases hend : s.stream.endWrite with
  | false =>
    have hopen : (s.bytes size fin).stream.endWrite = s.stream.endWrite :=
      s.stream.popOutput_endWrite size
    exact .inl ⟨hbuf, hopen.trans hend⟩
  | true =>
    right
    cases fin with
    | true => exact .inl rfl
    | false =>
      have hlast : ¬ size < s.receiverFreeSpace.toNat := by
        intro hlt
        cases hfin.mpr ⟨⟨hall, hend⟩, hlt⟩
      have hwin' : (s.bytes size false).receiverWindowSize ≠ 0 := hwin
      exact .inr (by simp [hwin', bytes_no_room may hroom hlast])

/-- A round that ends the loop leaves no room, or nothing to send. -/
theorem fillRound_done {s u t : TCPSender} (h : Filling s u) (ht : fillRound u = .ok (.done t)) :
    Idle t := by
  by_cases hz : u.receiverFreeSpace = 0
  · simp only [fillRound, hz, ↓reduceIte, Except.ok.injEq, ForInStep.done.injEq] at ht
    subst ht
    exact ⟨h.started, .inr (.inr (.inr (by simp [h.window, hz])))⟩
  · obtain ⟨size, fin, may, hroom, hfin, hround⟩ := fillRound_sends h hz
    rw [hround] at ht
    split at ht
    · rename_i hempty
      cases ht
      apply bytes_last_idle may h.window hroom hfin
      simpa [ByteStream.bufferEmpty] using hempty
    · cases ht

theorem fillLoop_idle {s t : TCPSender} (h : Ready s) (hwin : s.receiverWindowSize ≠ 0)
    (ht : Exec.loop .spins fillRound (s.receiverFreeSpace.toNat + 1) s = .ok t) : Idle t := by
  have hround : ∀ u, Filling s u → (∃ v, fillRound u = .ok (.done v) ∧ Idle v) ∨
      ∃ v, fillRound u = .ok (.yield v) ∧ Filling s v ∧
        v.receiverFreeSpace.toNat < u.receiverFreeSpace.toNat := by
    intro u hu
    obtain ⟨v, hv, -⟩ | hv := fillRound_spec hu
    · exact .inl ⟨v, hv, fillRound_done hu hv⟩
    · exact .inr hv
  obtain ⟨v, hv, hidle⟩ := Exec.loop_total .spins (Filling s) Idle
    (fun t => t.receiverFreeSpace.toNat) hround (s.receiverFreeSpace.toNat + 1) s
    ⟨.refl, h.started, h.acked, h.going, hwin, h.more, rfl⟩ (Nat.lt_succ_self _)
  rw [hv] at ht
  cases ht
  exact hidle

/-- **After `fill_window`** there is nothing to send, or no room for it. -/
theorem fillWindow_idle {s t : TCPSender} (fresh : s.synSent = false → s.segmentsOutstanding = [])
    (ht : s.fillWindow = .ok t) : Idle t := by
  have hpath := fillWindow_path s
  rw [ht] at hpath
  generalize hresult : Except.ok t = result at hpath
  cases hpath with
  | syn hsyn =>
    cases hresult
    refine ⟨rfl, .inl ?_⟩
    simp [synOutstanding, syn, push, segment, fresh hsyn]
  | idle hidle =>
    cases hresult
    exact hidle
  | loop ready hwin => exact fillLoop_idle ready hwin hresult.symm
  | @probe size fin ready hwin hzero hone hsize hlast =>
    cases hresult
    rw [sendBytes_eq (maySend_probe ready hwin hzero hone hsize hlast)]
    refine ⟨ready.started, .inr (.inr (.inr ?_))⟩
    simp [bytes, push, hwin, hzero, Nat.min_eq_left hsize, hone]

/-- What the window and the stream are left with: no room, or an empty stream that goes on
or whose FIN has been sent. -/
def Full (s : TCPSender) : Prop :=
  s.receiverFreeSpace = 0 ∨
    s.stream.buffer = [] ∧ (s.stream.inputEnded = false ∨ s.finSent = true)

/-- The segments `new` are sent from `s`: their numbers come off the free space, which does
not wrap while the window is open, and no payload is longer than `MAX_PAYLOAD_SIZE`. -/
structure Sends (s t : TCPSender) (new : List TCPSegment) : Prop where
  out : t.segmentsOut = s.segmentsOut ++ new
  uses : Uses s t new
  bounded : ∀ seg ∈ new, seg.payload.length ≤ maxPayloadSize
  isn : t.isn = s.isn
  window : t.receiverWindowSize = s.receiverWindowSize
  free : t.receiverFreeSpace = s.receiverFreeSpace - UInt16.ofNat (totalLength new)
  within : s.synSent = true → s.receiverWindowSize ≠ 0 →
    t.synSent = true ∧ t.receiverFreeSpace.toNat + totalLength new = s.receiverFreeSpace.toNat

theorem sends_nil (s : TCPSender) : Sends s s [] where
  out := (List.append_nil _).symm
  uses := uses_nil s
  bounded := by simp
  isn := rfl
  window := rfl
  free := by simp [totalLength]
  within := fun hsyn _ => ⟨hsyn, rfl⟩

theorem Sends.append {s t u : TCPSender} {xs ys : List TCPSegment} (h : Sends s t xs)
    (h' : Sends t u ys) : Sends s u (xs ++ ys) where
  out := by rw [h'.out, h.out, List.append_assoc]
  uses := h.uses.append h'.uses
  bounded := by
    intro seg hseg
    rcases List.mem_append.mp hseg with hseg | hseg
    · exact h.bounded seg hseg
    · exact h'.bounded seg hseg
  isn := h'.isn.trans h.isn
  window := h'.window.trans h.window
  free := by
    rw [h'.free, h.free, totalLength_append, UInt16.ofNat_add]
    grind
  within := by
    intro hsyn hwin
    obtain ⟨hsyn', hfree⟩ := h.within hsyn hwin
    obtain ⟨hsyn'', hfree'⟩ := h'.within hsyn' (by rw [h.window]; exact hwin)
    rw [totalLength_append]
    exact ⟨hsyn'', by omega⟩

theorem Emits.sends {s t : TCPSender} (h : Emits s t) : ∃ seg, Sends s t [seg] := by
  obtain ⟨seg, hout, huses⟩ := h.uses
  refine ⟨seg, ?_⟩
  cases h with
  | syn hsyn =>
    obtain rfl : s.segment true false [] = seg := by simpa [TCPSender.syn, push] using hout
    refine ⟨hout, huses, by simp [segment], rfl, rfl, rfl, ?_⟩
    intro hno
    rw [hsyn] at hno
    cases hno
  | @bytes size fin may =>
    obtain rfl : s.segment false fin (s.stream.buffer.take size) = seg := by
      simpa [TCPSender.bytes, push] using hout
    have hlen : totalLength [s.segment false fin (s.stream.buffer.take size)] =
        size + fin.toNat := by
      simp [totalLength, Nat.min_eq_left may.buffered]
    refine ⟨hout, huses, ?_, rfl, rfl, rfl, ?_⟩
    · intro seg hseg
      rw [List.mem_singleton.mp hseg]
      simp only [segment, List.length_take]
      exact Nat.le_trans (Nat.min_le_left _ _) may.bounded
    · intro hsyn hwin
      refine ⟨hsyn, ?_⟩
      rw [hlen]
      obtain ⟨_, hroom⟩ | ⟨hclosed, _⟩ := may.room
      · exact bytes_freeSpace may hroom
      · exact absurd hclosed hwin

theorem fillWindow_sends {s t : TCPSender} (ht : s.fillWindow = .ok t) :
    ∃ new, Sends s t new := by
  apply fillWindow_invariant (P := fun t => ∃ new, Sends s t new) _ ⟨[], sends_nil s⟩ ht
  rintro u v ⟨new, hnew⟩ he
  obtain ⟨seg, hseg⟩ := he.sends
  exact ⟨new ++ [seg], hnew.append hseg⟩

/-- A FIN is sent with the last bytes of the stream. -/
theorem fillWindow_fin {s t : TCPSender} (ht : s.fillWindow = .ok t) :
    t.finSent = true → s.finSent = true ∨ t.stream.buffer = [] := by
  apply fillWindow_invariant
    (P := fun t => t.finSent = true → s.finSent = true ∨ t.stream.buffer = []) _ .inl ht
  intro u v hu he hfin
  cases he with
  | syn _ => exact hu hfin
  | @bytes size fin may =>
    obtain rfl : fin = true := hfin
    right
    rw [bytes_buffer true may.buffered, (may.last rfl).2, List.drop_length]

theorem fillWindow_acked {s t : TCPSender} (ht : s.fillWindow = .ok t) (hsyn : s.synSent = true)
    (hacked : s.synOutstanding = false) : t.synOutstanding = false := by
  refine (fillWindow_invariant (P := fun t => t.synSent = true ∧ t.synOutstanding = false) ?_
    ⟨hsyn, hacked⟩ ht).2
  rintro u v ⟨hu, hua⟩ he
  refine ⟨he.started, ?_⟩
  cases he with
  | syn hno =>
    rw [hu] at hno
    cases hno
  | @bytes size fin _ => exact bytes_synOutstanding size fin hua

/-- With the window open, `fill_window` leaves it full unless bytes were written behind a FIN
that had been sent. -/
theorem fillWindow_full_iff {s t : TCPSender} (fresh : s.synSent = false →
    s.segmentsOutstanding = []) (ht : s.fillWindow = .ok t) (hsyn : s.synSent = true)
    (hacked : s.synOutstanding = false) (hwin : s.receiverWindowSize ≠ 0) :
    Full t ↔ s.finSent = false ∨ s.stream.buffer = [] ∨ s.receiverFreeSpace = 0 := by
  obtain ⟨u, hu, -, -, houtcome⟩ := fillWindow_spec s
  obtain rfl : u = t := Except.ok.inj (hu.symm.trans ht)
  obtain ⟨new, hnew⟩ := fillWindow_sends ht
  cases hfin : s.finSent with
  | true =>
    have hidle : Idle s := ⟨hsyn, .inr (.inr (.inl hfin))⟩
    obtain ⟨-, rfl⟩ | ⟨hbusy, -⟩ := houtcome
    · simp only [Full, hfin, or_true, and_true, Bool.true_eq_false, false_or]
      exact or_comm
    · exact absurd hidle hbusy
  | false =>
    simp only [true_or, iff_true]
    have hacked' := fillWindow_acked ht hsyn hacked
    obtain ⟨-, hsyn' | ⟨hbuf, hend⟩ | hsent | hroom⟩ := fillWindow_idle fresh ht
    · rw [hacked'] at hsyn'
      cases hsyn'
    · exact .inr ⟨hbuf, .inl hend⟩
    · obtain hfin' | hbuf := fillWindow_fin ht hsent
      · rw [hfin] at hfin'
        cases hfin'
      · exact .inr ⟨hbuf, .inr hsent⟩
    · rw [hnew.window] at hroom
      left
      apply Decidable.byContradiction
      intro hne
      exact hwin (hroom.mpr hne)

/-- **Filling the window.** In every state that calls can reach, `fill_window` returns, and a
second call changes nothing. Every segment sent takes up numbers and has at most 1000 bytes,
and the loop takes no more off the free space than there is. With the SYN acknowledged and
the window open the window is left full, unless bytes were written behind a FIN that had been
sent. -/
theorem fill_window_fills (capacity : Nat) (retxTimeout : UInt16) (isn : WrappingInt32)
    (s : TCPSender) (h : Exec.Reach step (fun _ _ => True) (new capacity retxTimeout isn) s) :
    ∃ t sent, s.fillWindow = .ok t ∧ t.fillWindow = .ok t ∧
      t.segmentsOut = s.segmentsOut ++ sent ∧
      (∀ seg ∈ sent, 0 < seg.lengthInSequenceSpace ∧ seg.payload.length ≤ 1000) ∧
      (s.synSent = true → s.receiverWindowSize ≠ 0 →
        t.receiverFreeSpace.toNat + totalLength sent = s.receiverFreeSpace.toNat) ∧
      (s.synSent = true → s.synOutstanding = false → s.receiverWindowSize ≠ 0 →
        (Full t ↔ s.finSent = false ∨ s.stream.buffer = [] ∨ s.receiverFreeSpace = 0)) := by
  have hs := lowBook_of_reach h
  obtain ⟨t, ht, -⟩ := fillWindow_spec s
  obtain ⟨sent, hsent⟩ := fillWindow_sends ht
  refine ⟨t, sent, ht, ?_, hsent.out, ?_, ?_, ?_⟩
  · exact (fillWindow_eq_iff rfl).mpr ⟨rfl, fillWindow_idle hs.fresh ht⟩
  · intro seg hseg
    exact ⟨hsent.uses.pos seg hseg, hsent.bounded seg hseg⟩
  · intro hsyn hwin
    exact (hsent.within hsyn hwin).2
  · intro hsyn hacked hwin
    exact fillWindow_full_iff hs.fresh ht hsyn hacked hwin

/-- Two bytes and the FIN, in a window of four. -/
theorem fill_window_fills_ab :
    ∃ s t, Exec.Reach step (fun _ _ => True) (new 8 1000 ⟨7⟩) s ∧
      s.stream.buffer = [97, 98] ∧ s.receiverFreeSpace = 4 ∧ s.fillWindow = .ok t ∧
      t.fillWindow = .ok t ∧ Full t := by
  obtain ⟨s, reached, hv⟩ := Exec.reach_of_view step (fun _ _ => True) (new 8 1000 ⟨7⟩)
    [.fillWindow, .ackReceived ⟨8⟩ 4, .write [97, 98], .endInput]
    (fun s => ((s.synSent, s.synOutstanding, s.finSent), s.receiverWindowSize,
      s.receiverFreeSpace, s.stream.buffer))
    ((true, false, false), 4, 4, [97, 98]) (by decide +kernel)
  simp only [Prod.mk.injEq] at hv
  obtain ⟨⟨hsyn, hacked, hfin⟩, hwin, hfree, hbuf⟩ := hv
  obtain ⟨t, sent, ht, hagain, -, -, -, hfull⟩ := fill_window_fills 8 1000 ⟨7⟩ s reached
  exact ⟨s, t, reached, hbuf, hfree, ht, hagain,
    (hfull hsyn hacked (by rw [hwin]; decide)).mpr (.inl hfin)⟩

/-- The stream is ended and the FIN sent, and then a byte is written: it stays in the stream
with three numbers of the window free. -/
theorem byte_behind_fin :
    ∃ s t, Exec.Reach step (fun _ _ => True) (new 8 1000 ⟨7⟩) s ∧ s.synSent = true ∧
      s.synOutstanding = false ∧ s.receiverWindowSize = 4 ∧ s.fillWindow = .ok t ∧
      t.receiverFreeSpace = 3 ∧ t.stream.buffer = [97] := by
  obtain ⟨s, reached, hv⟩ := Exec.reach_of_view step (fun _ _ => True) (new 8 1000 ⟨7⟩)
    [.fillWindow, .ackReceived ⟨8⟩ 4, .endInput, .fillWindow, .write [97]]
    (fun s => ((s.synSent, s.synOutstanding), s.receiverWindowSize,
      s.fillWindow.toOption.map fun t => (t.receiverFreeSpace, t.stream.buffer)))
    ((true, false), 4, some (3, [97])) (by decide +kernel)
  simp only [Prod.mk.injEq] at hv
  obtain ⟨⟨hsyn, hacked⟩, hwin, hview⟩ := hv
  obtain ⟨t, ht, hleft⟩ := Exec.ok_of_view _ _ hview
  obtain ⟨hfree, hbuf⟩ := Prod.mk.inj hleft
  exact ⟨s, t, reached, hsyn, hacked, hwin, ht, hfree, hbuf⟩

/-! ## The same acknowledgement twice -/

theorem ofNat_sub64 {x y : Nat} (hy : y < 2 ^ 64) :
    UInt16.ofNat (sub64 x y) = UInt16.ofNat x - UInt16.ofNat y := by
  apply UInt16.toNat_inj.mp
  simp only [toNat_sub16, UInt16.toNat_ofNat']
  unfold sub64
  split <;> omega

/-- What the first call leaves of the window is what the second one computes. -/
theorem free_eq_leftover {s t : TCPSender} {a : Nat} {windowSize : UInt16}
    {gone rest sent : List TCPSegment} {m : Nat} (hd : Divides s a gone rest m)
    (hle : a ≤ s.nextSeqno) (hsent : Sends (s.acked a windowSize gone rest) t sent)
    (hun : t.unacked = m) (hbook : Book t) (top : t.nextSeqno < 2 ^ 64) (hacc : Accepts t a) :
    t.receiverFreeSpace = leftover t a windowSize := by
  have hnext : t.nextSeqno = s.nextSeqno + totalLength sent := hsent.uses.numbers
  have hfree := hsent.free
  have hend := hd.after.end_eq
  simp only [acked, List.isEmpty_iff] at hfree
  simp only [leftover, List.isEmpty_iff]
  by_cases ho : t.segmentsOutstanding = []
  · -- nothing is outstanding, so nothing was sent either
    have hflight := hbook.flight_le
    rw [hbook.flight, ho, hun, hnext] at hflight
    simp only [totalLength] at hflight
    have hzero : totalLength sent = 0 := by omega
    have hrest : rest = [] := (totalLength_eq_zero hd.after.pos).mp (by omega)
    rw [if_pos ho, hfree, if_pos hrest, hzero]
    simp
  · rw [if_neg ho, ofNat_sub64 top, hnext, hfree]
    by_cases hrest : rest = []
    · -- everything was acknowledged, so the number is the next one of the first call
      have hm : m ≤ a := by
        obtain hnil | hle' := hacc.2
        · exact absurd hnil ho
        · exact hun ▸ hle'
      rw [if_pos hrest]
      rw [hrest] at hend
      simp only [totalLength] at hend
      obtain rfl : a = s.nextSeqno := by omega
      simp only [UInt16.ofNat_add, UInt16.ofNat_toNat]
      grind
    · rw [if_neg hrest, ofNat_sub64 (by omega)]
      simp only [UInt16.ofNat_add]
      grind

theorem ackReceived_twice {s t : TCPSender} (h : LowBook s) (near : s.bytesInFlight < 2 ^ 30)
    {ackno : WrappingInt32} {windowSize : UInt16} (ht : s.ackReceived ackno windowSize = .ok t) :
    t.ackReceived ackno windowSize = .ok t := by
  have hflight := h.book.flight_le
  have hlow := h.low
  obtain ⟨a, habs, ⟨_, rfl⟩ | ⟨_, hacc, gone, rest, m, hd, hbook, hm, hfill⟩⟩ :=
    ackReceived_spec h.book (by omega) ht
  · exact ht
  · obtain ⟨hmod, _, htop⟩ := unwrap_ok (by omega) habs
    have htop := htop hacc.1
    obtain ⟨sent, hsent⟩ := fillWindow_sends hfill
    obtain ⟨hbook', hun⟩ := book_fillWindow hbook hfill
    have hgrow := fillWindow_growth hfill
    have hflight' := hbook'.flight_le
    have hgone := hd.before.end_eq
    have hbehind : Behind a t := behind_fillWindow hbook
      (behind_acked windowSize hd (.inr ⟨rfl, hacc.1, htop⟩)) hfill
    have hnext : t.nextSeqno ≤ s.nextSeqno + 2 ^ 16 := hgrow
    have hun' : t.unacked = m := hun.trans hm
    have low' : t.unacked + 2 ^ 32 < 2 ^ 64 := by
      obtain rfl | hcov := hd.covered
      · have : s.unacked = m := hd.before
        omega
      · omega
    have near' : t.bytesInFlight < 2 ^ 31 := by omega
    have hack : wrap a t.isn = ackno := by
      rw [hsent.isn]
      exact wrap_eq_iff.mpr hmod
    rw [← hack]
    by_cases hfar : a + 2 ^ 31 ≤ t.nextSeqno
    · exact ackReceived_future hbook' near' low' htop hfar (by omega) windowSize
    · rw [ackReceived_stale hbook' near' low' hbehind (by omega)]
      by_cases hacc' : Accepts t a
      · have hfree := free_eq_leftover hd hacc.1 hsent hun' hbook' (by omega) hacc'
        rw [if_pos hacc', (acked_self_iff hbook' a windowSize).mpr ⟨hsent.window, hfree⟩]
        have hfresh : s.synSent = false → rest = [] := by
          intro hno
          have hnil := h.fresh hno
          rw [hd.split] at hnil
          exact (List.append_eq_nil_iff.mp hnil).2
        exact (fillWindow_eq_iff rfl).mpr ⟨rfl, fillWindow_idle hfresh hfill⟩
      · rw [if_neg hacc']

/-- **Repeated acknowledgements.** In every state that calls can reach with fewer than
`2 ^ 30` numbers in flight, an acknowledgement given twice in a row is the same as given
once, and both calls return while the numbers stay clear of `2 ^ 64`. -/
theorem repeated_ack (capacity : Nat) (retxTimeout : UInt16) (isn : WrappingInt32)
    (s : TCPSender) (h : Exec.Reach step (fun _ _ => True) (new capacity retxTimeout isn) s)
    (near : s.bytesInFlight < 2 ^ 30) (ackno : WrappingInt32) (windowSize : UInt16) :
    (s.ackReceived ackno windowSize >>= fun t => t.ackReceived ackno windowSize) =
        s.ackReceived ackno windowSize ∧
      (s.nextSeqno + 2 ^ 32 < 2 ^ 64 → ∃ t, s.ackReceived ackno windowSize = .ok t ∧
        t.ackReceived ackno windowSize = .ok t) := by
  have hs := lowBook_of_reach h
  constructor
  · cases ht : s.ackReceived ackno windowSize with
    | error e => rfl
    | ok t =>
      rw [Exec.ok_bind]
      exact ackReceived_twice hs near ht
  · intro top
    obtain ⟨t, ht⟩ := ackReceived_returns top ackno windowSize
    exact ⟨t, ht, ackReceived_twice hs near ht⟩

/-- An acknowledgement inside the four bytes in flight, which lets the last two go out. -/
theorem repeated_ack_inside :
    ∃ s t, Exec.Reach step (fun _ _ => True) (new 8 1000 ⟨7⟩) s ∧ s.bytesInFlight = 4 ∧
      s.ackReceived ⟨10⟩ 5 = .ok t ∧ t.ackReceived ⟨10⟩ 5 = .ok t := by
  obtain ⟨s, reached, hv⟩ := Exec.reach_of_view step (fun _ _ => True) (new 8 1000 ⟨7⟩)
    [.fillWindow, .write [97, 98, 99, 100, 101, 102], .ackReceived ⟨8⟩ 4]
    (fun s => (s.bytesInFlight, s.nextSeqno)) (4, 5) (by decide +kernel)
  obtain ⟨hflight, hnext⟩ := Prod.mk.inj hv
  obtain ⟨t, ht, hagain⟩ := (repeated_ack 8 1000 ⟨7⟩ s reached (by omega) ⟨10⟩ 5).2 (by omega)
  exact ⟨s, t, reached, hflight, ht, hagain⟩

end Sponge.TCPSender
