import Sponge.FlowControl

/-!
# Outdated acknowledgements

Runs of the sender beside the absolute numbers of the acknowledgements it has accepted. An
acknowledgement below one of those takes nothing off the queue any more, but `_ack_valid`
only compares it with the oldest outstanding segment: with none outstanding, or after an
acknowledgement in the middle of that segment, it is accepted, and its window counts.

* `ackReceived_stale`: what such an acknowledgement does;
* `outdated_harmless`: when it is ignored, and what it sets otherwise.
-/

namespace Sponge.StaleAcks

open Words TCPSender

structure State where
  tx : TCPSender
  /-- The acknowledgements accepted so far. -/
  accepted : List Nat

def init (capacity : Nat) (retxTimeout : UInt16) (isn : WrappingInt32) : State :=
  ⟨.new capacity retxTimeout isn, []⟩

def step (s : State) (op : Op) : Except Fault State := do
  let tx ← s.tx.step op
  return ⟨tx, s.accepted ++ ((FlowControl.accepted s.tx op).map Prod.fst).toList⟩

/-- The number is behind the end of the oldest outstanding segment, and behind every one
that can still be sent. -/
structure Behind (a : Nat) (s : TCPSender) : Prop where
  next : a ≤ s.nextSeqno
  front : ∀ seg rest, s.segmentsOutstanding = seg :: rest →
    a < s.unacked + seg.lengthInSequenceSpace
  low : a + 2 ^ 32 < 2 ^ 64

theorem Emits.behind {a : Nat} {s t : TCPSender} (he : Emits s t) (hb : Book s)
    (h : Behind a s) : Behind a t := by
  have hforward := he.forward
  have hnext := h.next
  refine ⟨by omega, ?_, h.low⟩
  rw [he.unacked_eq hb]
  have queue {seg : TCPSegment} (hlen : 0 < seg.lengthInSequenceSpace) : ∀ x rest,
      s.segmentsOutstanding ++ [seg] = x :: rest → a < s.unacked + x.lengthInSequenceSpace := by
    intro x rest heq
    cases ho : s.segmentsOutstanding with
    | nil =>
      rw [ho] at heq
      cases heq
      have hflight := hb.flight_le
      rw [hb.flight, ho, totalLength] at hflight
      omega
    | cons y tail =>
      rw [ho] at heq
      cases heq
      exact h.front x tail ho
  cases he with
  | syn _ => exact queue (by simp)
  | bytes may =>
    have := may.nonempty
    exact queue (by simpa [Nat.min_eq_left may.buffered] using this)

theorem behind_fillWindow {a : Nat} {s t : TCPSender} (hb : Book s) (h : Behind a s)
    (ht : s.fillWindow = .ok t) : Behind a t := by
  refine (fillWindow_invariant (P := fun t => Book t ∧ Behind a t) ?_ ⟨hb, h⟩ ht).2
  rintro u v ⟨hu, hbehind⟩ he
  exact ⟨he.book hu, Emits.behind he hu hbehind⟩

/-- Taking segments off the queue leaves a number behind, and puts the acknowledgement
that did it there. -/
theorem behind_acked {a absAckno : Nat} {s : TCPSender} (windowSize : UInt16)
    {gone rest : List TCPSegment} {m : Nat} (hd : Divides s absAckno gone rest m)
    (h : Behind a s ∨ a = absAckno ∧ absAckno ≤ s.nextSeqno ∧ absAckno + 2 ^ 32 < 2 ^ 64) :
    Behind a (s.acked absAckno windowSize gone rest) := by
  have front : ∀ seg tail, rest = seg :: tail → a < m + seg.lengthInSequenceSpace := by
    intro seg tail hrest
    rcases h with h | ⟨rfl, _⟩
    · have hend := hd.before.end_eq
      cases gone with
      | nil =>
        have := h.front seg tail (by rw [hd.split, hrest]; rfl)
        rw [totalLength] at hend
        omega
      | cons x xs =>
        have := h.front x (xs ++ rest) hd.split
        rw [totalLength_cons] at hend
        omega
    · exact hd.uncovered seg tail hrest
  refine ⟨?_, ?_, ?_⟩
  · rcases h with h | ⟨rfl, hle, _⟩
    · exact h.next
    · exact hle
  · rw [acked_unacked windowSize hd]
    exact front
  · rcases h with h | ⟨rfl, _, hlow⟩
    · exact h.low
    · exact hlow

structure AcksBehind (s : State) : Prop where
  book : Book s.tx
  low : s.tx.unacked + 2 ^ 32 < 2 ^ 64
  behind : ∀ a ∈ s.accepted, Behind a s.tx

theorem acksBehind_init (capacity : Nat) (retxTimeout : UInt16) (isn : WrappingInt32) :
    AcksBehind (init capacity retxTimeout isn) :=
  ⟨book_new _ _ _, by simp [init, new, unacked], by simp [init]⟩

/-- Nothing is accepted where the queue and the numbers stay the same. -/
theorem AcksBehind.frame {s t : State} (h : AcksBehind s) (hb : Book t.tx)
    (hnext : t.tx.nextSeqno = s.tx.nextSeqno) (hun : t.tx.unacked = s.tx.unacked)
    (hqueue : t.tx.segmentsOutstanding = s.tx.segmentsOutstanding)
    (hacc : t.accepted = s.accepted) : AcksBehind t := by
  refine ⟨hb, by rw [hun]; exact h.low, ?_⟩
  intro a ha
  rw [hacc] at ha
  have hbehind := h.behind a ha
  exact ⟨by rw [hnext]; exact hbehind.next, by rw [hun, hqueue]; exact hbehind.front,
    hbehind.low⟩

theorem acksBehind_ack {s t : State} {ackno : WrappingInt32} {windowSize : UInt16}
    (h : AcksBehind s) (near : s.tx.bytesInFlight < 2 ^ 31)
    (ht : step s (.ackReceived ackno windowSize) = .ok t) : AcksBehind t := by
  have hflight := h.book.flight_le
  have hlow := h.low
  obtain ⟨tx, htx, ht⟩ := Exec.bind_eq_ok.mp ht
  cases ht
  obtain ⟨absAckno, habs, ⟨hno, rfl⟩ | ⟨hok, hacc, gone, rest, m, hd, hbook, hm, hfill⟩⟩ :=
    ackReceived_spec h.book near htx
  · have hnone : FlowControl.accepted s.tx (.ackReceived ackno windowSize) = none := by
      simp only [FlowControl.accepted, habs, hno]
    simp only [hnone, Option.map_none, Option.toList_none, List.append_nil]
    exact h.frame h.book rfl rfl rfl rfl
  · have hsome : FlowControl.accepted s.tx (.ackReceived ackno windowSize) =
        some (absAckno, windowSize) := by
      simp only [FlowControl.accepted, habs, hok]
    simp only [hsome, Option.map_some, Option.toList_some]
    have hle : absAckno + 2 ^ 32 < 2 ^ 64 := (unwrap_ok (by omega) habs).2.2 hacc.1
    obtain ⟨hbook', hun⟩ := book_fillWindow hbook hfill
    refine ⟨hbook', ?_, ?_⟩
    · rw [hun, hm]
      rcases hd.covered with rfl | hcov
      · have : s.tx.unacked = m := hd.before
        omega
      · omega
    · intro a ha
      apply behind_fillWindow hbook _ hfill
      apply behind_acked windowSize hd
      rcases List.mem_append.mp ha with ha | ha
      · exact .inl (h.behind a ha)
      · exact .inr ⟨List.mem_singleton.mp ha, hacc.1, hle⟩

theorem acksBehind_step {s t : State} {op : Op} (h : AcksBehind s)
    (near : s.tx.bytesInFlight < 2 ^ 31) (ht : step s op = .ok t) : AcksBehind t := by
  cases op with
  | ackReceived ackno windowSize => exact acksBehind_ack h near ht
  | write _ | endInput =>
    cases ht
    exact h.frame (h.book.withStream _) rfl rfl rfl (by simp [FlowControl.accepted])
  | sendEmptySegment =>
    cases ht
    exact h.frame (h.book.withOut _) rfl rfl rfl (by simp [FlowControl.accepted])
  | tick ms =>
    obtain ⟨tx, htx, ht⟩ := Exec.bind_eq_ok.mp ht
    cases ht
    have hbook := book_tick h.book htx
    obtain ⟨_, _, _, _, _, rfl⟩ := tick_ok htx
    exact h.frame hbook rfl rfl rfl (by simp [FlowControl.accepted])
  | fillWindow =>
    obtain ⟨tx, htx, ht⟩ := Exec.bind_eq_ok.mp ht
    cases ht
    obtain ⟨hbook, hun⟩ := book_fillWindow h.book htx
    refine ⟨hbook, by rw [hun]; exact h.low, ?_⟩
    simp only [FlowControl.accepted, Option.map_none, Option.toList_none, List.append_nil]
    intro a ha
    exact behind_fillWindow h.book (h.behind a ha) htx

/-! ## One outdated acknowledgement -/

theorem ackValid_eq {s : TCPSender} (hb : Book s) (near : s.bytesInFlight < 2 ^ 31)
    (low : s.unacked + 2 ^ 32 < 2 ^ 64) (a : Nat) :
    s.ackValid a = .ok (decide (Accepts s a)) := by
  have hflight := hb.flight_le
  have hc := hb.chain
  cases ho : s.segmentsOutstanding with
  | nil => simp [ackValid, Accepts, ho]
  | cons seg rest =>
    rw [ho] at hc
    have hfirst : unwrap seg.header.seqno s.isn s.nextSeqno = .ok s.unacked := by
      rw [hc.1, unwrap_recent (by omega) (by omega) low]
    by_cases hle : a ≤ s.nextSeqno
    · simp [ackValid, Accepts, ho, hle, hfirst]
    · simp [ackValid, Accepts, ho, hle]

/-- **An outdated acknowledgement.** It is ignored, or takes nothing off the queue and sets
the window. -/
theorem ackReceived_stale {s : TCPSender} (hb : Book s) (near : s.bytesInFlight < 2 ^ 31)
    (low : s.unacked + 2 ^ 32 < 2 ^ 64) {a : Nat} (h : Behind a s)
    (hrecent : s.nextSeqno < a + 2 ^ 31) (windowSize : UInt16) :
    s.ackReceived (wrap a s.isn) windowSize =
      if Accepts s a then (s.acked a windowSize [] s.segmentsOutstanding).fillWindow
      else .ok s := by
  have hflight := hb.flight_le
  have hnext := h.next
  simp only [ackReceived, unwrap_recent hnext hrecent h.low, ackValid_eq hb near low, Exec.ok_bind]
  by_cases hacc : Accepts s a
  · simp only [hacc, decide_true, Bool.not_true, Bool.false_eq_true, ↓reduceIte]
    have hsplit : Divides s a [] s.segmentsOutstanding s.unacked :=
      ⟨rfl, rfl, hb.chain, .inl rfl, h.front⟩
    have hpop : popAcked a s.segmentsOutstanding
        { s with receiverWindowSize := windowSize, receiverFreeSpace := windowSize } =
        .ok (keep { s with receiverWindowSize := windowSize, receiverFreeSpace := windowSize } []
          s.segmentsOutstanding) := by
      rw [keep_self
        (s := { s with receiverWindowSize := windowSize, receiverFreeSpace := windowSize }) rfl
        hb.flight]
      cases ho : s.segmentsOutstanding with
      | nil => rfl
      | cons seg rest =>
        have hc := hb.chain
        rw [ho] at hc
        have hlt := h.front seg rest ho
        rw [popAcked, hc.1]
        dsimp only
        rw [unwrap_recent (by omega) (by omega) low, Exec.ok_bind, if_neg (by omega)]
        simp [← ho]
    obtain ⟨w, hw⟩ : ∃ w, (keep
        { s with receiverWindowSize := windowSize, receiverFreeSpace := windowSize } []
        s.segmentsOutstanding).setFreeSpace a windowSize = .ok w := by
      unfold setFreeSpace
      cases ho : s.segmentsOutstanding with
      | nil => exact ⟨_, rfl⟩
      | cons seg rest =>
        have hc := hb.chain
        rw [ho] at hc
        simp only [keep, hc.1, unwrap_recent (show s.unacked ≤ s.nextSeqno by omega)
          (show s.nextSeqno < s.unacked + 2 ^ 31 by omega) low, Exec.ok_bind]
        exact ⟨_, rfl⟩
    rw [hpop, Exec.ok_bind, hw, Exec.ok_bind,
      setFreeSpace_spec hsplit hacc (by omega) (by omega) hw]
  · simp [hacc]

/-- From half the numbers behind, the number above the checkpoint is the one taken, and is
ignored. -/
theorem ackReceived_future {s : TCPSender} (hb : Book s) (near : s.bytesInFlight < 2 ^ 31)
    (low : s.unacked + 2 ^ 32 < 2 ^ 64) {a : Nat} (top : a + 2 ^ 32 < 2 ^ 64)
    (hfar : a + 2 ^ 31 ≤ s.nextSeqno) (hnext : s.nextSeqno < a + 2 ^ 32) (windowSize : UInt16) :
    s.ackReceived (wrap a s.isn) windowSize = .ok s := by
  obtain ⟨v, hv⟩ := unwrap_returns_below s.isn (by omega) hnext top
  have hspec := unwrap_ok (by omega) hv
  rw [WrappingInt32.offset_wrap] at hspec
  have habove : s.nextSeqno < v := by omega
  have hinvalid : ¬ Accepts s v := fun hacc => Nat.not_le_of_lt habove hacc.1
  simp [ackReceived, hv, ackValid_eq hb near low, hinvalid]

/-- The free space that the acknowledgement `a` with a window leaves. -/
def leftover (s : TCPSender) (a : Nat) (windowSize : UInt16) : UInt16 :=
  if s.segmentsOutstanding.isEmpty then windowSize
  else UInt16.ofNat (sub64 (a + windowSize.toNat) s.nextSeqno)

theorem acked_self_iff {s : TCPSender} (hb : Book s) (a : Nat) (windowSize : UInt16) :
    s.acked a windowSize [] s.segmentsOutstanding = s ↔
      s.receiverWindowSize = windowSize ∧ s.receiverFreeSpace = leftover s a windowSize := by
  have htimer : (s.timerRunning && !s.segmentsOutstanding.isEmpty) = s.timerRunning := by
    have h := hb.timer
    cases ho : s.segmentsOutstanding with
    | nil =>
      rw [ho] at h
      cases hr : s.timerRunning with
      | false => rfl
      | true => exact absurd rfl (h.mp hr)
    | cons seg rest => simp
  have hform : s.acked a windowSize [] s.segmentsOutstanding =
      { s with
        receiverWindowSize := windowSize
        receiverFreeSpace := leftover s a windowSize } := by
    rw [acked, keep_self rfl hb.flight, htimer]
    rfl
  rw [hform]
  constructor
  · intro h
    exact ⟨(congrArg TCPSender.receiverWindowSize h).symm,
      (congrArg TCPSender.receiverFreeSpace h).symm⟩
  · rintro ⟨h1, h2⟩
    rw [← h2, ← h1]

/-- An outdated acknowledgement that is taken for one of the future, or that the oldest
outstanding segment starts above. -/
def Ignored (s : TCPSender) (a : Nat) : Prop :=
  s.nextSeqno = a + 2 ^ 31 ∨ (s.segmentsOutstanding ≠ [] ∧ a < s.unacked)

theorem fillWindow_window {s t : TCPSender} (ht : s.fillWindow = .ok t) :
    t.receiverWindowSize = s.receiverWindowSize ∧
      s.segmentsOutstanding <+: t.segmentsOutstanding := by
  apply fillWindow_invariant (P := fun t => t.receiverWindowSize = s.receiverWindowSize ∧
    s.segmentsOutstanding <+: t.segmentsOutstanding) _ ⟨rfl, List.prefix_refl _⟩ ht
  rintro u v ⟨hwindow, hqueue⟩ he
  cases he with
  | syn _ => exact ⟨hwindow, hqueue.trans (List.prefix_append _ _)⟩
  | bytes _ => exact ⟨hwindow, hqueue.trans (List.prefix_append _ _)⟩

/-- **Outdated acknowledgements.** With fewer than `2 ^ 31` numbers in flight, an
acknowledgement below one that was accepted before leaves the whole sender as it is when
`Ignored` says so. In every other case it is accepted: it takes nothing off the queue, but
its window replaces the one held. -/
theorem outdated_harmless (capacity : Nat) (retxTimeout : UInt16) (isn : WrappingInt32)
    (s : State)
    (h : Exec.Reach step (fun s _ => s.tx.bytesInFlight < 2 ^ 31) (init capacity retxTimeout isn) s)
    (near : s.tx.bytesInFlight < 2 ^ 31) (a b : Nat) (hb : b ∈ s.accepted) (hlt : a < b)
    (hrecent : s.tx.nextSeqno ≤ a + 2 ^ 31) (windowSize : UInt16) :
    (Ignored s.tx a → s.tx.ackReceived (wrap a s.tx.isn) windowSize = .ok s.tx) ∧
    (¬ Ignored s.tx a → ∃ t, s.tx.ackReceived (wrap a s.tx.isn) windowSize = .ok t ∧
      t.receiverWindowSize = windowSize ∧
      s.tx.segmentsOutstanding <+: t.segmentsOutstanding) := by
  have hs := h.invariant (acksBehind_init capacity retxTimeout isn)
    (fun _ _ _ hs hl ht => acksBehind_step hs hl ht)
  have hbook := hs.book
  have hbehind : Behind a s.tx := by
    have hold := hs.behind b hb
    have hnext := hold.next
    have hlow := hold.low
    refine ⟨by omega, ?_, by omega⟩
    intro seg rest ho
    exact Nat.lt_trans hlt (hold.front seg rest ho)
  have hnext := hbehind.next
  have hstale : s.tx.nextSeqno ≠ a + 2 ^ 31 →
      s.tx.ackReceived (wrap a s.tx.isn) windowSize =
        if Accepts s.tx a then (s.tx.acked a windowSize [] s.tx.segmentsOutstanding).fillWindow
        else .ok s.tx :=
    fun hne => ackReceived_stale hbook near hs.low hbehind (by omega) windowSize
  constructor
  · intro hignored
    by_cases htie : s.tx.nextSeqno = a + 2 ^ 31
    · exact ackReceived_future hbook near hs.low hbehind.low (by omega) (by omega) windowSize
    · obtain ⟨hne, hbelow⟩ := hignored.resolve_left htie
      have hrefused : ¬ Accepts s.tx a := by
        rintro ⟨-, hnil | hle⟩
        · exact hne hnil
        · omega
      rw [hstale htie, if_neg hrefused]
  · intro hnot
    obtain ⟨hne, hfront⟩ := not_or.mp hnot
    have hacc : Accepts s.tx a := by
      refine ⟨hnext, ?_⟩
      by_cases hnil : s.tx.segmentsOutstanding = []
      · exact .inl hnil
      · exact .inr (Nat.le_of_not_lt fun hbelow => hfront ⟨hnil, hbelow⟩)
    obtain ⟨t, ht, -⟩ := fillWindow_spec (s.tx.acked a windowSize [] s.tx.segmentsOutstanding)
    obtain ⟨hwindow, hqueue⟩ := fillWindow_window ht
    exact ⟨t, by rw [hstale hne, if_pos hacc, ht], hwindow, hqueue⟩

/-- An acknowledgement inside the oldest of two segments. An outdated one below them is
ignored; after one that leaves nothing outstanding it would not be. -/
theorem outdated_harmless_below :
    (∃ s, Exec.Reach step (fun s _ => s.tx.bytesInFlight < 2 ^ 31) (init 8 1000 ⟨7⟩) s ∧
      s.accepted = [1, 3] ∧ s.tx.unacked = 3 ∧ s.tx.ackReceived ⟨8⟩ 0 = .ok s.tx) ∧
    ∃ s t, Exec.Reach step (fun s _ => s.tx.bytesInFlight < 2 ^ 31) (init 8 1000 ⟨7⟩) s ∧
      s.accepted = [1, 3] ∧ s.tx.ackReceived ⟨8⟩ 9 = .ok t ∧ t.receiverWindowSize = 9 := by
  constructor
  · obtain ⟨s, reached, hv⟩ := Exec.reach_of_view step (fun s _ => s.tx.bytesInFlight < 2 ^ 31)
      (init 8 1000 ⟨7⟩)
      [.fillWindow, .ackReceived ⟨8⟩ 10, .write [97, 98], .fillWindow, .write [99, 100],
        .fillWindow, .ackReceived ⟨10⟩ 10]
      (fun s => (s.accepted, s.tx.unacked, s.tx.bytesInFlight, s.tx.nextSeqno, s.tx.isn,
        s.tx.segmentsOutstanding.length))
      ([1, 3], 3, 2, 5, ⟨7⟩, 1) (by decide)
    simp only [Prod.mk.injEq] at hv
    obtain ⟨hacc, hun, hflight, hnext, hisn, hlen⟩ := hv
    have hne : s.tx.segmentsOutstanding ≠ [] := by
      intro hnil
      rw [hnil] at hlen
      cases hlen
    have hsame := (outdated_harmless 8 1000 ⟨7⟩ s reached (by omega) 1 3 (by simp [hacc])
      (by decide) (by omega) 0).1 (.inr ⟨hne, by omega⟩)
    rw [hisn] at hsame
    exact ⟨s, reached, hacc, hun, hsame⟩
  · obtain ⟨s, reached, hv⟩ := Exec.reach_of_view step (fun s _ => s.tx.bytesInFlight < 2 ^ 31)
      (init 8 1000 ⟨7⟩)
      [.fillWindow, .ackReceived ⟨8⟩ 4, .write [97, 98], .fillWindow, .ackReceived ⟨10⟩ 4]
      (fun s => (s.accepted, s.tx.bytesInFlight, s.tx.nextSeqno, s.tx.isn,
        s.tx.segmentsOutstanding))
      ([1, 3], 0, 3, ⟨7⟩, []) (by decide)
    simp only [Prod.mk.injEq] at hv
    obtain ⟨hacc, hflight, hnext, hisn, hnone⟩ := hv
    have hnot : ¬ Ignored s.tx 1 := by
      rintro (htie | ⟨hne, -⟩)
      · omega
      · exact hne hnone
    obtain ⟨t, ht, hwindow, -⟩ := (outdated_harmless 8 1000 ⟨7⟩ s reached (by omega) 1 3
      (by simp [hacc]) (by decide) (by omega) 9).2 hnot
    rw [hisn] at ht
    exact ⟨s, t, reached, hacc, ht, hwindow⟩

/-- With all acknowledged up to 3, or the middle of a segment acknowledged at 3, an
acknowledgement of 1 or 2 is accepted again and sets the window. In the second run it sends
two bytes more. -/
theorem outdated_sets_window :
    (∃ s t, Exec.Reach step (fun s _ => s.tx.bytesInFlight < 2 ^ 31) (init 8 1000 ⟨7⟩) s ∧
      s.accepted = [1, 3] ∧ s.tx.receiverWindowSize = 4 ∧ s.tx.ackReceived ⟨8⟩ 9 = .ok t ∧
      t.receiverWindowSize = 9) ∧
    ∃ s t, Exec.Reach step (fun s _ => s.tx.bytesInFlight < 2 ^ 31) (init 8 1000 ⟨7⟩) s ∧
      s.accepted = [1, 3] ∧ s.tx.segmentsOut.length = 2 ∧ s.tx.ackReceived ⟨9⟩ 5 = .ok t ∧
      t.segmentsOut.length = 3 := by
  constructor
  · obtain ⟨s, reached, hv⟩ := Exec.reach_of_view step (fun s _ => s.tx.bytesInFlight < 2 ^ 31)
      (init 8 1000 ⟨7⟩)
      [.fillWindow, .ackReceived ⟨8⟩ 4, .write [97, 98], .fillWindow, .ackReceived ⟨10⟩ 4]
      (fun s => (s.accepted, s.tx.receiverWindowSize,
        (s.tx.ackReceived ⟨8⟩ 9).toOption.map fun t => t.receiverWindowSize))
      ([1, 3], 4, some 9) (by decide +kernel)
    simp only [Prod.mk.injEq] at hv
    obtain ⟨hacc, hwin, hview⟩ := hv
    obtain ⟨t, ht, hwin'⟩ := Exec.ok_of_view _ _ hview
    exact ⟨s, t, reached, hacc, hwin, ht, hwin'⟩
  · obtain ⟨s, reached, hv⟩ := Exec.reach_of_view step (fun s _ => s.tx.bytesInFlight < 2 ^ 31)
      (init 8 1000 ⟨7⟩)
      [.fillWindow, .write [97, 98, 99, 100, 101, 102], .ackReceived ⟨8⟩ 4, .ackReceived ⟨10⟩ 2]
      (fun s => (s.accepted, s.tx.segmentsOut.length,
        (s.tx.ackReceived ⟨9⟩ 5).toOption.map fun t => t.segmentsOut.length))
      ([1, 3], 2, some 3) (by decide +kernel)
    simp only [Prod.mk.injEq] at hv
    obtain ⟨hacc, hout, hview⟩ := hv
    obtain ⟨t, ht, hout'⟩ := Exec.ok_of_view _ _ hview
    exact ⟨s, t, reached, hacc, hout, ht, hout'⟩

end Sponge.StaleAcks
