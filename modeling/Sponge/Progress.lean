import Sponge.Bookkeeping

/-!
# The sender never stalls

While segments are outstanding the timer runs, and it will send one of them again. So a
stall would be a call of `fill_window` that leaves work unsent with nothing outstanding.
`Awake` excludes it: with nothing outstanding the free space is the whole window, and then
an open window has room, and a closed one for the probe.
-/

namespace Sponge.TCPSender

/-- Fewer than `2 ^ 31` numbers are in flight, and nothing is written after the end of
input. -/
def Orderly (s : TCPSender) (op : Op) : Prop :=
  FewInFlight s op ∧ match op with
    | .write _ => s.stream.inputEnded = false
    | _ => True

instance (s : TCPSender) : (op : Op) → Decidable (Orderly s op)
  | .write _ => inferInstanceAs (Decidable (_ ∧ _))
  | .endInput | .fillWindow | .ackReceived _ _ | .tick _ | .sendEmptySegment =>
    inferInstanceAs (Decidable (_ ∧ True))

structure Awake (s : TCPSender) : Prop where
  book : Book s
  window : s.segmentsOutstanding = [] → s.synSent = true →
    s.receiverFreeSpace = s.receiverWindowSize
  finished : s.finSent = true → s.stream.endWrite = true ∧ s.stream.buffer = []

theorem awake_new (capacity : Nat) (retxTimeout : UInt16) (isn : WrappingInt32) :
    Awake (new capacity retxTimeout isn) :=
  ⟨book_new _ _ _, by simp [new], by simp [new]⟩

theorem Emits.awake {s t : TCPSender} (he : Emits s t) (h : Awake s) : Awake t := by
  refine ⟨he.book h.book, ?_, ?_⟩
  · intro hnil
    cases he <;> exact absurd hnil (by simp [TCPSender.syn, TCPSender.bytes, push])
  · cases he with
    | syn _ => exact h.finished
    | @bytes size fin may =>
      intro hf
      obtain ⟨hend, hall⟩ := may.last hf
      refine ⟨(s.stream.popOutput_endWrite size).trans hend, ?_⟩
      rw [bytes_buffer fin may.buffered, hall, List.drop_length]

theorem awake_fillWindow {s t : TCPSender} (h : Awake s) (ht : s.fillWindow = .ok t) : Awake t :=
  fillWindow_invariant (P := Awake) (fun _ _ hu he => Emits.awake he hu) h ht

/-- An acknowledgement that leaves nothing outstanding sets the free space to the window. -/
theorem awake_acked {s : TCPSender} (h : Awake s) {absAckno : Nat} (windowSize : UInt16)
    {gone rest : List TCPSegment} (hb : Book (s.acked absAckno windowSize gone rest)) :
    Awake (s.acked absAckno windowSize gone rest) := by
  refine ⟨hb, ?_, h.finished⟩
  intro hnil _
  have : rest = [] := hnil
  simp [acked, this]

theorem awake_step {s t : TCPSender} {op : Op} (h : Awake s) (hl : Orderly s op)
    (ht : step s op = .ok t) : Awake t := by
  have hb := h.book
  cases op with
  | write data =>
    cases ht
    refine ⟨hb.withStream _, h.window, ?_⟩
    intro hf
    have hended := (h.finished hf).1
    rw [show s.stream.endWrite = false from hl.2] at hended
    cases hended
  | endInput =>
    cases ht
    exact ⟨hb.withStream _, h.window, fun hf => ⟨rfl, (h.finished hf).2⟩⟩
  | fillWindow => exact awake_fillWindow h ht
  | ackReceived ackno windowSize =>
    obtain ⟨_, _, ⟨_, rfl⟩ | ⟨_, _, gone, rest, _, _, hbook, _, hfill⟩⟩ :=
      ackReceived_spec hb hl.1 ht
    · exact h
    · exact awake_fillWindow (awake_acked h windowSize hbook) hfill
  | tick ms =>
    have hbook := book_tick hb ht
    obtain ⟨_, _, _, _, _, rfl⟩ := tick_ok ht
    exact ⟨hbook, h.window, h.finished⟩
  | sendEmptySegment =>
    cases ht
    exact ⟨hb.withOut _, h.window, h.finished⟩

/-- Bytes that have not been sent, or a FIN. -/
def Unsent (s : TCPSender) : Prop :=
  s.stream.buffer ≠ [] ∨ (s.stream.eof = true ∧ s.finSent = false)

/-- With nothing outstanding and something to send, `fill_window` is not idle. -/
theorem Awake.busy {s : TCPSender} (h : Awake s) (hnil : s.segmentsOutstanding = [])
    (hwork : Unsent s) : ¬ Idle s := by
  rintro ⟨hsyn, hout | ⟨hb, he⟩ | hf | hwin⟩
  · simp [synOutstanding, hnil] at hout
  · rcases hwork with hw | ⟨hw, _⟩
    · exact hw hb
    · simp [ByteStream.eof, he] at hw
  · rcases hwork with hw | ⟨_, hw⟩
    · exact hw (h.finished hf).2
    · rw [hf] at hw
      cases hw
  · rw [h.window hnil hsyn] at hwin
    by_cases hz : s.receiverWindowSize = 0 <;> simp [hz] at hwin

/-- `fill_window` leaves work unsent only with something outstanding. -/
theorem fillWindow_outstanding {s t : TCPSender} (h : Awake s) (ht : s.fillWindow = .ok t)
    (hwork : Unsent t) : t.segmentsOutstanding ≠ [] := by
  intro hnil
  have hawake := awake_fillWindow h ht
  obtain ⟨u, hu, _, _, hcase⟩ := fillWindow_spec s
  rw [hu] at ht
  cases ht
  obtain ⟨hidle, rfl⟩ | ⟨_, hlt⟩ := hcase
  · exact hawake.busy hnil hwork hidle
  · -- something was sent, and nothing of it can be acknowledged yet
    obtain ⟨_, hsame⟩ := book_fillWindow h.book hu
    have hs := h.book.flight_le
    have ht := hawake.book.flight_le
    have hzero := hawake.book.flight
    rw [hnil, totalLength] at hzero
    omega

/-- A call of `fill_window`, by the owner or from an acknowledgement that is accepted. -/
inductive Fills (s : TCPSender) : TCPSender → Prop
  | direct {t : TCPSender} : s.fillWindow = .ok t → Fills s t
  | acked {t : TCPSender} {ackno : WrappingInt32} {windowSize : UInt16} {absAckno : Nat} :
      unwrap ackno s.isn s.nextSeqno = .ok absAckno → s.ackValid absAckno = .ok true →
      s.ackReceived ackno windowSize = .ok t → Fills s t

theorem fills_outstanding {s t : TCPSender} (h : Awake s) (near : s.bytesInFlight < 2 ^ 31)
    (ht : Fills s t) (hwork : Unsent t) : Awake t ∧ t.segmentsOutstanding ≠ [] := by
  cases ht with
  | direct ht => exact ⟨awake_fillWindow h ht, fillWindow_outstanding h ht hwork⟩
  | @acked _ windowSize _ habs hok ht =>
    obtain ⟨_, habs', ⟨hno, _⟩ | ⟨_, _, gone, rest, _, _, hbook, _, hfill⟩⟩ :=
      ackReceived_spec h.book near ht
    · rw [habs] at habs'
      cases habs'
      rw [hok] at hno
      cases hno
    · have hacked := awake_acked h windowSize hbook
      exact ⟨awake_fillWindow hacked hfill, fillWindow_outstanding hacked hfill hwork⟩

/-- What a running timer still has to wait is at most the timeout. -/
theorem exists_timeout (elapsed rto : UInt32) :
    ∃ ms, ms ≤ rto.toNat ∧ elapsed + UInt32.ofNat ms ≥ rto := by
  have he := elapsed.toNat_lt
  have hr := rto.toNat_lt
  refine ⟨rto.toNat - elapsed.toNat, Nat.sub_le _ _, ?_⟩
  rw [ge_iff_le, UInt32.le_iff_toNat_le, UInt32.toNat_add, UInt32.toNat_ofNat',
    Nat.mod_eq_of_lt (show rto.toNat - elapsed.toNat < 2 ^ 32 by omega),
    Nat.mod_eq_of_lt (by omega)]
  omega

/-- **The sender never stalls.** Whenever `fill_window` returns with work left unsent,
numbers are in flight and the timer runs, and a tick of at most the timeout sends the
oldest segment again. -/
theorem never_stalls (capacity : Nat) (retxTimeout : UInt16) (isn : WrappingInt32)
    (s t : TCPSender) (h : Exec.Reach step Orderly (new capacity retxTimeout isn) s)
    (near : s.bytesInFlight < 2 ^ 31) (ht : Fills s t) (hwork : Unsent t) :
    0 < t.bytesInFlight ∧ t.timerRunning = true ∧
      ∃ seg rest ms u, t.segmentsOutstanding = seg :: rest ∧ ms ≤ t.rto.toNat ∧
        t.tick ms = .ok u ∧ u.segmentsOut = t.segmentsOut ++ [seg] := by
  have hs := h.invariant (awake_new capacity retxTimeout isn)
    (fun _ _ _ hs hl hstep => awake_step hs hl hstep)
  obtain ⟨hawake, hne⟩ := fills_outstanding hs near ht hwork
  have hrun := hawake.book.timer.mpr hne
  obtain ⟨seg, rest, ho⟩ := List.exists_cons_of_ne_nil hne
  obtain ⟨ms, hms, hover⟩ := exists_timeout t.timeElapsed t.rto
  refine ⟨?_, hrun, seg, rest, ms, _, ho, hms, tick_fires hrun hover ho, rfl⟩
  have hpos := hawake.book.chain.pos seg (by rw [ho]; exact List.mem_cons_self)
  rw [hawake.book.flight, ho, totalLength_cons]
  omega

/-- Three bytes and a closed window: the probe is in flight and two bytes wait. -/
theorem never_stalls_closed :
    ∃ s t, Exec.Reach step Orderly (new 8 1000 ⟨7⟩) s ∧ s.ackReceived ⟨8⟩ 0 = .ok t ∧
      t.stream.buffer = [98, 99] ∧ 0 < t.bytesInFlight ∧ t.timerRunning = true := by
  obtain ⟨s, reached, hv⟩ := Exec.reach_of_view step Orderly (new 8 1000 ⟨7⟩)
    [.fillWindow, .write [97, 98, 99]]
    (fun s => (s.bytesInFlight, (unwrap ⟨8⟩ s.isn s.nextSeqno).toOption.map id,
      (s.ackValid 1).toOption.map id,
      (s.ackReceived ⟨8⟩ 0).toOption.map fun t => t.stream.buffer))
    (1, some 1, some true, some [98, 99]) (by decide +kernel)
  simp only [Prod.mk.injEq] at hv
  obtain ⟨hflight, habs, hok, hview⟩ := hv
  obtain ⟨_, habs, rfl⟩ := Exec.ok_of_view id 1 habs
  obtain ⟨_, hok, rfl⟩ := Exec.ok_of_view id true hok
  obtain ⟨t, ht, hbuf⟩ := Exec.ok_of_view (fun t : TCPSender => t.stream.buffer) [98, 99] hview
  obtain ⟨hpos, hrun, _⟩ := never_stalls 8 1000 ⟨7⟩ s t reached (by omega)
    (.acked habs hok ht) (.inl (by rw [hbuf]; decide))
  exact ⟨s, t, reached, ht, hbuf, hpos, hrun⟩

end Sponge.TCPSender
