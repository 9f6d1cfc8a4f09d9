import Sponge.ConnectionRuns

/-!
# Giving up

One connection, up to the moment it becomes inactive, with any segments arriving. The
history beside it starts anew when the oldest outstanding segment is acknowledged and when
the timer starts: the ticks since then, and the segments that the timeouts which count have
sent again.

* `BacksOff`: the counter, the timeout in force and the time passed, for the sender alone;
* `gives_up`: `tick` aborts the connection at the ninth timeout that counts, and only then.
-/

namespace Sponge.GiveUp

open TCPConnection TCPSender

structure State where
  conn : TCPConnection
  elapsed : Nat
  counted : List TCPSegment

def init (cfg : TCPConfig) : State := ⟨.new cfg, 0, []⟩

/-- The timer runs out in this tick. -/
def Fires (s : TCPSender) (ms : Nat) : Prop :=
  s.timerRunning = true ∧ s.timeElapsed + UInt32.ofNat ms ≥ s.rto

instance (s : TCPSender) (ms : Nat) : Decidable (Fires s ms) :=
  inferInstanceAs (Decidable (_ ∧ _))

/-- The segment sent again by a tick whose timeout counts. -/
def countedBy (s : TCPSender) (ms : Nat) : List TCPSegment :=
  match s.segmentsOutstanding with
  | [] => []
  | seg :: _ => if Fires s ms ∧ Counts s seg then [seg] else []

/-- An arriving segment acknowledges the whole of the oldest outstanding one. -/
def acksOldest (s : TCPSender) (seg : TCPSegment) : Bool :=
  seg.header.ack && !seg.header.rst &&
    (unwrap seg.header.ackno s.isn s.nextSeqno).toOption.any fun absAckno =>
      absAckno ≤ s.nextSeqno && s.acksFront absAckno

/-- The call starts the timer, or takes the oldest outstanding segment off the queue. -/
def startsAnew (s t : TCPSender) : Event → Bool
  | .segmentReceived seg => (!s.timerRunning && t.timerRunning) || acksOldest s seg
  | _ => !s.timerRunning && t.timerRunning

def note (s : State) (conn : TCPConnection) (e : Event) : State :=
  if startsAnew s.conn.sender conn.sender e then ⟨conn, 0, []⟩
  else
    match e with
    | .tick ms => ⟨conn, s.elapsed + ms, s.counted ++ countedBy s.conn.sender ms⟩
    | _ => { s with conn := conn }

def step (s : State) (e : Event) : Except Fault State := do
  let conn ← s.conn.call e
  return note s conn e

/-- The connection is active when the call is made. -/
def Active (s : State) (_ : Event) : Prop := s.conn.active = true

instance (s : State) (e : Event) : Decidable (Active s e) := inferInstanceAs (Decidable (_ = _))

/-! ## The sender's part -/

/-- The counter is the number of timeouts counted, all of the oldest outstanding segment; it
gives the timeout in force, and those before it have passed. -/
structure BacksOff (rt elapsed : Nat) (counted : List TCPSegment) (s : TCPSender) : Prop
    extends RawQueues s where
  initial : s.initialRetransmissionTimeout.toNat = rt
  count : s.consecutiveRetransmissions.toNat = counted.length
  rto : s.rto.toNat = rt * 2 ^ counted.length
  oldest : ∀ seg ∈ counted, s.segmentsOutstanding.head? = some seg
  time : s.timerRunning = true → rt * (2 ^ counted.length - 1) + s.timeElapsed.toNat ≤ elapsed

variable {rt elapsed : Nat} {counted : List TCPSegment} {s t : TCPSender}

theorem BacksOff.drained (h : BacksOff rt elapsed counted s) :
    BacksOff rt elapsed counted { s with segmentsOut := [] } :=
  ⟨h.toRawQueues.drained, h.initial, h.count, h.rto, h.oldest, h.time⟩

theorem BacksOff.withStream (h : BacksOff rt elapsed counted s) (stream : ByteStream) :
    BacksOff rt elapsed counted { s with stream := stream } :=
  ⟨h.toRawQueues.withStream stream, h.initial, h.count, h.rto, h.oldest, h.time⟩

/-- With the timer off nothing is outstanding, so nothing is counted. -/
theorem BacksOff.none_counted (h : BacksOff rt elapsed counted s) (hoff : s.timerRunning = false) :
    counted = [] := by
  have hnone : s.segmentsOutstanding = [] := by
    by_cases hne : s.segmentsOutstanding = []
    · exact hne
    · rw [h.timer.mpr hne] at hoff
      cases hoff
  cases counted with
  | nil => rfl
  | cons seg rest =>
    have := h.oldest seg List.mem_cons_self
    rw [hnone] at this
    cases this

/-- With the timer off the history can start anew. -/
theorem BacksOff.anew (h : BacksOff rt elapsed counted s) (hoff : s.timerRunning = false)
    (elapsed' : Nat) : BacksOff rt elapsed' [] s := by
  have hnone := h.none_counted hoff
  subst hnone
  refine ⟨h.toRawQueues, h.initial, h.count, h.rto, h.oldest, ?_⟩
  rw [hoff]
  intro h
  cases h

theorem backsOff_push (h : BacksOff rt elapsed counted s) {seg : TCPSegment}
    (hlen : 0 < seg.lengthInSequenceSpace) (hseg : Raw seg) :
    BacksOff rt elapsed counted (s.push seg) := by
  refine ⟨rawQueues_push h.toRawQueues hlen hseg, h.initial, h.count, h.rto, ?_, ?_⟩
  · intro x hx
    have := h.oldest x hx
    cases ho : s.segmentsOutstanding with
    | nil =>
      rw [ho] at this
      cases this
    | cons y ys =>
      rw [ho] at this
      simpa [push, ho] using this
  · intro _
    cases hrun : s.timerRunning with
    | true => simpa [push, hrun] using h.time hrun
    | false => simp [push, hrun, h.none_counted hrun]

theorem backsOff_emits (h : BacksOff rt elapsed counted s) (he : Emits s t) :
    BacksOff rt elapsed counted t := by
  cases he with
  | syn _ =>
    exact backsOff_push (s := { s with synSent := true })
      ⟨⟨h.toTally.frame rfl rfl rfl, h.out, h.outstanding⟩, h.initial, h.count, h.rto, h.oldest,
        h.time⟩ (by simp) (raw_syn s)
  | @bytes size fin may =>
    apply backsOff_push (s := { s with stream := s.stream.popOutput size, finSent := fin })
      ⟨⟨h.toTally.frame rfl rfl rfl, h.out, h.outstanding⟩, h.initial, h.count, h.rto, h.oldest,
        h.time⟩
    · have := may.nonempty
      simpa [Nat.min_eq_left may.buffered] using this
    · exact raw_bytes may

theorem backsOff_fillWindow (h : BacksOff rt elapsed counted s) (ht : s.fillWindow = .ok t) :
    BacksOff rt elapsed counted t :=
  fillWindow_invariant (P := BacksOff rt elapsed counted)
    (fun _ _ hu he => backsOff_emits hu he) h ht

/-- An acknowledgement that takes no segment off the queue leaves the history as it is. -/
theorem backsOff_trimmed (h : BacksOff rt elapsed counted s) (windowSize freeSpace : UInt16) :
    BacksOff rt elapsed counted (s.trimmed windowSize freeSpace [] s.segmentsOutstanding) := by
  refine ⟨rawQueues_trimmed h.toRawQueues _ _ rfl, h.initial, h.count, h.rto, h.oldest, ?_⟩
  intro hrun
  exact h.time (Bool.and_eq_true_iff.mp hrun).1

/-- One that takes the oldest off starts it anew. -/
theorem backsOff_trimmed_anew (h : BacksOff rt elapsed counted s) (windowSize freeSpace : UInt16)
    {gone rest : List TCPSegment} (hsplit : s.segmentsOutstanding = gone ++ rest)
    (hgone : gone.isEmpty = false) (elapsed' : Nat) :
    BacksOff rt elapsed' [] (s.trimmed windowSize freeSpace gone rest) := by
  refine ⟨rawQueues_trimmed h.toRawQueues _ _ hsplit, h.initial, ?_, ?_, by simp, ?_⟩
  · simp [trimmed, keep, hgone]
  · simp [trimmed, keep, hgone, h.initial]
  · intro _
    simp [trimmed, keep, hgone]

theorem backsOff_takesAck {seg : TCPSegment} {segs : List TCPSegment}
    (h : BacksOff rt elapsed counted s) (hrst : seg.header.rst = false)
    (ht : TakesAck seg s t segs) :
    if acksOldest s seg then BacksOff rt 0 [] t else BacksOff rt elapsed counted t := by
  cases ht with
  | without hack =>
    have hno : acksOldest s seg = false := by simp [acksOldest, hack]
    rw [hno]
    exact h
  | @given u hack hr =>
    obtain ⟨absAckno, habs, hcases⟩ := ackReceived_pops h.toTally hr
    have hacks : acksOldest s seg = (decide (absAckno ≤ s.nextSeqno) && s.acksFront absAckno) := by
      simp [acksOldest, hack, hrst, habs, Except.toOption]
    rcases hcases with ⟨heq, hfront⟩ | ⟨gone, rest, freeSpace, hle, hsplit, hgone, -, -, hfill⟩
    · have hno : acksOldest s seg = false := by
        rw [hacks]
        by_cases hle : absAckno ≤ s.nextSeqno
        · rw [hfront hle, Bool.and_false]
        · rw [decide_eq_false hle, Bool.false_and]
      rw [hno, heq]
      exact h.drained
    · rw [hacks, decide_eq_true hle, Bool.true_and]
      cases hfront : s.acksFront absAckno with
      | true =>
        rw [hfront, Bool.not_true] at hgone
        exact (backsOff_fillWindow (backsOff_trimmed_anew h _ _ hsplit hgone 0) hfill).drained
      | false =>
        rw [hfront, Bool.not_false, List.isEmpty_iff] at hgone
        subst hgone
        rw [List.nil_append] at hsplit
        subst hsplit
        exact (backsOff_fillWindow (backsOff_trimmed h _ _) hfill).drained

theorem backsOff_answers {seg : TCPSegment} {segs : List TCPSegment}
    (h : BacksOff rt elapsed counted s) (ht : Answers seg s t segs) :
    BacksOff rt elapsed counted t := by
  cases ht with
  | nothing => exact h
  | fills _ hfill => exact (backsOff_fillWindow h hfill).drained
  | empty _ hfill => exact backsOff_fillWindow h hfill

/-- The time that a running timer shows is not more than what has passed. -/
theorem toNat_add_ofNat_le (a : UInt32) (ms : Nat) :
    (a + UInt32.ofNat ms).toNat ≤ a.toNat + ms := by
  rw [UInt32.toNat_add, UInt32.toNat_ofNat']
  have := Nat.mod_le (a.toNat + ms % 2 ^ 32) (2 ^ 32)
  have := Nat.mod_le ms (2 ^ 32)
  omega

theorem countedBy_quiet {ms : Nat} (h : ¬ Fires s ms) : countedBy s ms = [] := by
  unfold countedBy
  split
  · rfl
  · simp [h]

theorem countedBy_fires {ms : Nat} {seg : TCPSegment} (h : Fires s ms)
    (hfront : s.segmentsOutstanding.head? = some seg) :
    countedBy s ms = if Counts s seg then [seg] else [] := by
  obtain ⟨rest, ho⟩ := List.head?_eq_some_iff.mp hfront
  simp [countedBy, ho, h]

theorem rawQueues_resent {seg : TCPSegment} {rest : List TCPSegment} (h : RawQueues s)
    (ho : s.segmentsOutstanding = seg :: rest) : RawQueues (s.resent seg) := by
  refine ⟨h.toTally.frame rfl rfl rfl, forall_mem_snoc h.out ?_, h.outstanding⟩
  exact h.outstanding seg (by rw [ho]; exact List.mem_cons_self)

/-- A timeout that counts is one more, and doubles the timeout in force. -/
theorem backsOff_counts {ms : Nat} {seg : TCPSegment} {rest : List TCPSegment}
    (h : BacksOff rt elapsed counted s) (hrt : rt < 2 ^ 16)
    (hfew : counted.length ≤ maxRetxAttempts) (hrun : s.timerRunning = true)
    (hover : s.rto.toNat ≤ (s.timeElapsed + UInt32.ofNat ms).toNat)
    (ho : s.segmentsOutstanding = seg :: rest) (hc : Counts s seg) :
    BacksOff rt (elapsed + ms) (counted ++ [seg]) (s.resent seg) := by
  have hpassed := h.time hrun
  have hlate := toNat_add_ofNat_le s.timeElapsed ms
  have hcount := h.count
  have hrto := h.rto
  have hpow : 2 ^ counted.length ≤ 2 ^ 8 := Nat.pow_le_pow_right (by decide) hfew
  have hmul : rt * 2 ^ counted.length ≤ 2 ^ 16 * 2 ^ 8 := Nat.mul_le_mul (Nat.le_of_lt hrt) hpow
  have hfew' : counted.length ≤ 8 := hfew
  refine ⟨rawQueues_resent h.toRawQueues ho, h.initial, ?_, ?_, ?_, ?_⟩
  · simp only [resent, hc, ↓reduceIte, List.length_append, List.length_singleton,
      UInt16.toNat_add, hcount]
    exact Nat.mod_eq_of_lt (by simp; omega)
  · simp only [resent, hc, ↓reduceIte, List.length_append, List.length_singleton,
      UInt32.toNat_shiftLeft, hrto, Nat.shiftLeft_eq, Nat.pow_succ]
    rw [Nat.mod_eq_of_lt (by simp; omega)]
    simp [Nat.mul_assoc]
  · exact forall_mem_snoc h.oldest (by simp [resent, ho])
  · intro _
    have hzero : (s.resent seg).timeElapsed.toNat = 0 := rfl
    have hpos : 1 ≤ 2 ^ counted.length := Nat.one_le_two_pow
    have hnow : rt * (2 ^ (counted.length + 1) - 1) =
        rt * (2 ^ counted.length - 1) + rt * 2 ^ counted.length := by
      rw [← Nat.mul_add, Nat.pow_succ]
      congr 1
      omega
    rw [hzero, List.length_append, List.length_singleton, hnow]
    omega

/-- One that does not count only starts the timer again. -/
theorem backsOff_uncounted {ms : Nat} {seg : TCPSegment} {rest : List TCPSegment}
    (h : BacksOff rt elapsed counted s) (hrun : s.timerRunning = true)
    (ho : s.segmentsOutstanding = seg :: rest) (hc : ¬ Counts s seg) :
    BacksOff rt (elapsed + ms) counted (s.resent seg) := by
  have hpassed := h.time hrun
  refine ⟨rawQueues_resent h.toRawQueues ho, h.initial, ?_, ?_, h.oldest, ?_⟩
  · simpa [resent, hc] using h.count
  · simpa [resent, hc] using h.rto
  · intro _
    have hzero : (s.resent seg).timeElapsed.toNat = 0 := rfl
    omega

/-- **A tick.** Only a timeout that counts changes what is counted. -/
theorem backsOff_tick {ms : Nat} (h : BacksOff rt elapsed counted s) (hrt : rt < 2 ^ 16)
    (hfew : counted.length ≤ maxRetxAttempts) (ht : s.tick ms = .ok t) :
    BacksOff rt (elapsed + ms) (counted ++ countedBy s ms) t := by
  cases TCPSender.tick_spec ht with
  | stopped hoff =>
    have hquiet : ¬ Fires s ms := by simp [Fires, hoff]
    rw [countedBy_quiet hquiet, List.append_nil, h.none_counted hoff]
    exact h.anew hoff _
  | waits hrun hearly =>
    rw [countedBy_quiet fun hfires => hearly hfires.2, List.append_nil]
    refine ⟨⟨h.toTally.frame rfl rfl rfl, h.out, h.outstanding⟩, h.initial, h.count, h.rto,
      h.oldest, ?_⟩
    intro _
    have := h.time hrun
    have := toNat_add_ofNat_le s.timeElapsed ms
    dsimp only
    omega
  | @fires seg rest hrun hover ho =>
    have hfront : s.segmentsOutstanding.head? = some seg := by rw [ho]; rfl
    rw [countedBy_fires ⟨hrun, hover⟩ hfront]
    by_cases hc : Counts s seg
    · rw [if_pos hc]
      exact backsOff_counts h hrt hfew hrun (UInt32.le_iff_toNat_le.mp hover) ho hc
    · rw [if_neg hc, List.append_nil]
      exact backsOff_uncounted h hrun ho hc

/-! ## The whole connection -/

structure Sound (cfg : TCPConfig) (s : State) : Prop where
  drained : s.conn.sender.segmentsOut = []
  backsOff : BacksOff cfg.rtTimeout.toNat s.elapsed s.counted s.conn.sender
  few : s.conn.active = true → s.counted.length ≤ maxRetxAttempts

theorem sound_init (cfg : TCPConfig) : Sound cfg (init cfg) := by
  constructor
  · rfl
  · constructor
    · exact rawQueues_new _ _ _
    all_goals simp [init, TCPConnection.new, TCPSender.new]
  · intro _
    exact Nat.zero_le _

/-- A call that keeps the pace, whatever the history, keeps it with the history it leaves. -/
theorem Sound.noted {cfg : TCPConfig} {s : State} {d : TCPConnection} (h : Sound cfg s)
    (hactive : s.conn.active = true) (hq : d.sender.segmentsOut = []) (anew : Bool)
    (keeps : ∀ elapsed counted, BacksOff cfg.rtTimeout.toNat elapsed counted s.conn.sender →
      if anew then BacksOff cfg.rtTimeout.toNat 0 [] d.sender
      else BacksOff cfg.rtTimeout.toNat elapsed counted d.sender) :
    Sound cfg (if (!s.conn.sender.timerRunning && d.sender.timerRunning) || anew then ⟨d, 0, []⟩
      else { s with conn := d }) := by
  have hkept := keeps _ _ h.backsOff
  cases anew with
  | true =>
    rw [Bool.or_true]
    exact ⟨hq, hkept, fun _ => Nat.zero_le _⟩
  | false =>
    rw [Bool.or_false]
    split
    · rename_i hstarts
      have hoff : s.conn.sender.timerRunning = false := by
        simpa using (Bool.and_eq_true_iff.mp hstarts).1
      exact ⟨hq, keeps _ _ (h.backsOff.anew hoff 0), fun _ => Nat.zero_le _⟩
    · exact ⟨hq, hkept, fun _ => h.few hactive⟩

theorem Sound.kept {cfg : TCPConfig} {s : State} {d : TCPConnection} (h : Sound cfg s)
    (hactive : s.conn.active = true) (hq : d.sender.segmentsOut = [])
    (keeps : ∀ elapsed counted, BacksOff cfg.rtTimeout.toNat elapsed counted s.conn.sender →
      BacksOff cfg.rtTimeout.toNat elapsed counted d.sender) :
    Sound cfg (if !s.conn.sender.timerRunning && d.sender.timerRunning then ⟨d, 0, []⟩
      else { s with conn := d }) := by
  simpa using h.noted hactive hq false keeps

theorem sound_segment {cfg : TCPConfig} {s : State} {seg : TCPSegment} {d : TCPConnection}
    (h : Sound cfg s) (hactive : s.conn.active = true)
    (hd : s.conn.segmentReceived seg = .ok d) : Sound cfg (note s d (.segmentReceived seg)) := by
  rcases segmentReceived_spec h.drained hd with
    ⟨hrst, rfl⟩ | ⟨hrst, r, s₁, s₂, xs, ys, -, hack, hans, rfl⟩
  · have hno : acksOldest s.conn.sender seg = false := by simp [acksOldest, hrst]
    refine h.noted hactive (by exact h.drained) (acksOldest s.conn.sender seg) ?_
    intro elapsed counted hp
    rw [hno]
    exact hp.withStream _
  · refine h.noted hactive rfl (acksOldest s.conn.sender seg) ?_
    intro elapsed counted hp
    have htaken := backsOff_takesAck hp hrst hack
    cases hold : acksOldest s.conn.sender seg with
    | true =>
      rw [hold] at htaken
      exact (backsOff_answers htaken hans).drained
    | false =>
      rw [hold] at htaken
      exact (backsOff_answers htaken hans).drained

/-- What `tick` leaves of the sender before it checks whether the connection is done. -/
theorem ticks_sender {c e : TCPConnection} {ms : Nat} (h : Ticks c ms e) :
    ∃ t stream, c.sender.tick ms = .ok t ∧
      e.sender = { t with segmentsOut := [], stream := stream } := by
  cases h with
  | quiet ht => exact ⟨_, _, ht, rfl⟩
  | resends ht => exact ⟨_, _, ht, rfl⟩
  | aborts ht => exact ⟨_, _, ht, rfl⟩

theorem note_tick {s : State} {e : TCPConnection} {ms : Nat} (h : Ticks s.conn ms e) :
    note s e.closeIfDone (.tick ms) =
      ⟨e.closeIfDone, s.elapsed + ms, s.counted ++ countedBy s.conn.sender ms⟩ := by
  obtain ⟨t, stream, ht, hsender⟩ := ticks_sender h
  have hsame : e.closeIfDone.sender.timerRunning = s.conn.sender.timerRunning := by
    rw [closeIfDone_sender, hsender]
    obtain ⟨_, _, _, _, _, rfl⟩ := tick_ok ht
    rfl
  have hno : startsAnew s.conn.sender e.closeIfDone.sender (.tick ms) = false := by
    simp [startsAnew, hsame]
  simp only [note, hno, Bool.false_eq_true, ↓reduceIte]

/-- Without a segment to send again the timer has not run out. -/
theorem quiet_tick {ms : Nat} (hq : s.segmentsOut = []) (ht : s.tick ms = .ok t)
    (hnone : t.segmentsOut = []) : ¬ Fires s ms := by
  cases TCPSender.tick_spec ht with
  | stopped hoff => simp [Fires, hoff]
  | waits _ hearly => exact fun hfires => hearly hfires.2
  | fires => simp [resent, hq] at hnone

/-- The segment that a tick leaves is the oldest outstanding one. -/
theorem tick_resends {ms : Nat} {seg : TCPSegment} (hq : s.segmentsOut = [])
    (ht : s.tick ms = .ok t) (hone : t.segmentsOut = [seg]) :
    Fires s ms ∧ s.segmentsOutstanding.head? = some seg := by
  cases TCPSender.tick_spec ht with
  | stopped => simp [hq] at hone
  | waits => simp [hq] at hone
  | fires hrun hover ho =>
    simp only [resent, hq, List.nil_append, List.cons.injEq, and_true] at hone
    subst hone
    exact ⟨⟨hrun, hover⟩, by rw [ho]; rfl⟩

theorem length_countedBy (s : TCPSender) (ms : Nat) : (countedBy s ms).length ≤ 1 := by
  unfold countedBy
  split
  · exact Nat.zero_le _
  · split
    · exact Nat.le_refl _
    · exact Nat.zero_le _

theorem backsOff_ticks {cfg : TCPConfig} {s : State} {e : TCPConnection} {ms : Nat}
    (h : Sound cfg s) (hactive : s.conn.active = true) (he : Ticks s.conn ms e) :
    BacksOff cfg.rtTimeout.toNat (s.elapsed + ms) (s.counted ++ countedBy s.conn.sender ms)
        e.sender ∧
      (s.counted ++ countedBy s.conn.sender ms).length ≤ maxRetxAttempts + 1 := by
  have hfew := h.few hactive
  constructor
  · obtain ⟨t, stream, ht, hsender⟩ := ticks_sender he
    rw [hsender]
    exact ((backsOff_tick h.backsOff cfg.rtTimeout.toNat_lt hfew ht).drained).withStream stream
  · have := length_countedBy s.conn.sender ms
    rw [List.length_append]
    omega

theorem sound_tick {cfg : TCPConfig} {s : State} {ms : Nat} {d : TCPConnection} (h : Sound cfg s)
    (hactive : s.conn.active = true) (hd : s.conn.tick ms = .ok d) :
    Sound cfg (note s d (.tick ms)) := by
  have hdrained := drained_call (e := .tick ms) h.drained hd
  obtain ⟨e, he, rfl⟩ := TCPConnection.tick_spec h.drained hd
  obtain ⟨hbacks, -⟩ := backsOff_ticks h hactive he
  rw [note_tick he]
  refine ⟨hdrained, by rw [closeIfDone_sender]; exact hbacks, ?_⟩
  intro hstill
  cases he with
  | quiet ht hnone =>
    dsimp only
    rw [countedBy_quiet (quiet_tick h.drained ht hnone), List.append_nil]
    exact h.few hactive
  | resends ht _ hcount =>
    have hlen := hbacks.count
    dsimp only at hlen ⊢
    rw [← hlen]
    exact hcount
  | aborts =>
    rcases closeIfDone_eq ((s.conn.waited ms).aborted _ _) with heq | heq
    · rw [heq] at hstill
      cases hstill
    · rw [heq] at hstill
      cases hstill

theorem sound_step {cfg : TCPConfig} {s t : State} {e : Event} (h : Sound cfg s)
    (hactive : Active s e) (ht : step s e = .ok t) : Sound cfg t := by
  obtain ⟨d, hd, ht⟩ := Exec.bind_eq_ok.mp ht
  cases ht
  cases e with
  | connect | write _ | endInputStream =>
    rcases fills_spec rfl hd with rfl | ⟨stream, u, hu, rfl⟩
    · exact h.kept hactive h.drained fun _ _ hp => hp
    · exact h.kept hactive rfl fun _ _ hp => (backsOff_fillWindow (hp.withStream stream) hu).drained
  | tick ms => exact sound_tick h hactive hd
  | segmentReceived seg => exact sound_segment h hactive hd
  | read len =>
    cases hd
    exact h.kept hactive (by exact h.drained) fun _ _ hp => hp
  | collect =>
    cases hd
    exact h.kept hactive (by exact h.drained) fun _ _ hp => hp

/-! ## Aborting -/

/-- The connection is given up, and its oldest outstanding segment goes out as a RST. -/
structure Aborted (c d : TCPConnection) : Prop where
  inactive : d.active = false
  outbound : d.sender.stream.error = true
  inbound : d.inboundStream.error = true
  rst : ∃ seg, c.sender.segmentsOutstanding.head? = some seg ∧
    d.segmentsOut = c.segmentsOut ++ [c.stamped true seg]

/-- Neither stream gets an error, and no RST goes out. -/
structure CarriesOn (c d : TCPConnection) : Prop where
  outbound : d.sender.stream.error = c.sender.stream.error
  inbound : d.inboundStream.error = c.inboundStream.error
  plain : ∃ segs, d.segmentsOut = c.segmentsOut ++ segs ∧ ∀ seg ∈ segs, seg.header.rst = false

theorem tick_call_returns {c : TCPConnection} {ms : Nat} {s : TCPSender}
    (h : c.sender.tick ms = .ok s) : ∃ d, c.tick ms = .ok d := by
  have hresend : ∀ c : TCPConnection, ∃ d, c.resend = .ok d := by
    intro c
    unfold resend
    split
    · rename_i hlen
      obtain ⟨seg, rest, ho⟩ := List.exists_cons_of_length_pos hlen
      simp only [takeSegment, ho, Exec.ok_bind]
      split
      · exact ⟨_, rfl⟩
      · exact ⟨_, rfl⟩
    · exact ⟨c, rfl⟩
  obtain ⟨d, hd⟩ := hresend { c.waited ms with sender := s }
  refine ⟨d.closeIfDone, ?_⟩
  simp only [TCPConnection.tick, h, Exec.ok_bind]
  exact Exec.bind_eq_ok.mpr ⟨d, hd, rfl⟩

theorem tick_stream {ms : Nat} (ht : s.tick ms = .ok t) : t.stream = s.stream := by
  obtain ⟨_, _, _, _, _, rfl⟩ := tick_ok ht
  rfl

theorem closeIfDone_aborted {c d : TCPConnection} (h : Aborted c d) : Aborted c d.closeIfDone := by
  rcases closeIfDone_eq d with heq | heq
  · rw [heq]
    exact h
  · rw [heq]
    exact ⟨rfl, h.outbound, h.inbound, h.rst⟩

theorem closeIfDone_carriesOn {c d : TCPConnection} (h : CarriesOn c d) :
    CarriesOn c d.closeIfDone := by
  rcases closeIfDone_eq d with heq | heq
  · rw [heq]
    exact h
  · rw [heq]
    exact ⟨h.outbound, h.inbound, h.plain⟩

theorem setAckAndWindowsize_rst (c : TCPConnection) (seg : TCPSegment) :
    (c.setAckAndWindowsize seg).header.rst = seg.header.rst := by
  unfold setAckAndWindowsize
  split <;> rfl

/-- The time that nine timeouts take. -/
theorem BacksOff.nine {rt elapsed : Nat} {counted : List TCPSegment} {s : TCPSender}
    (h : BacksOff rt elapsed counted s) (hnine : counted.length = maxRetxAttempts + 1) :
    511 * rt ≤ elapsed := by
  have hrun : s.timerRunning = true := by
    cases hoff : s.timerRunning with
    | true => rfl
    | false =>
      rw [h.none_counted hoff] at hnine
      cases hnine
  have htime := h.time hrun
  rw [hnine] at htime
  change rt * 511 + _ ≤ _ at htime
  omega

/-- What a tick does, by the number of timeouts counted after it. -/
theorem ticks_outcome {cfg : TCPConfig} {s : State} {e : TCPConnection} {ms n : Nat}
    (h : Sound cfg s) (hactive : s.conn.active = true) (he : Ticks s.conn ms e)
    (hn : (s.counted ++ countedBy s.conn.sender ms).length = n) :
    (n = maxRetxAttempts + 1 ∧ Aborted s.conn e) ∨
      (n ≤ maxRetxAttempts ∧ CarriesOn s.conn e) := by
  obtain ⟨hbacks, hle⟩ := backsOff_ticks h hactive he
  have hcount := hbacks.count
  rw [hn] at hle hcount
  cases he with
  | @quiet u ht hnone =>
    right
    constructor
    · rw [← hn, countedBy_quiet (quiet_tick h.drained ht hnone), List.append_nil]
      exact h.few hactive
    · have hstream := tick_stream ht
      exact ⟨congrArg ByteStream.error hstream, rfl, [], rfl, by simp⟩
  | @resends u seg ht hone hcounted =>
    right
    constructor
    · exact hcount ▸ hcounted
    · have hstream := tick_stream ht
      refine ⟨congrArg ByteStream.error hstream, rfl, _, rfl, ?_⟩
      intro x hx
      rw [List.map_singleton, List.mem_singleton] at hx
      rw [hx, setAckAndWindowsize_rst]
      have hfront := List.mem_of_mem_head? (tick_resends h.drained ht hone).2
      exact (h.backsOff.outstanding seg hfront).rst
  | @aborts u seg ht hone hcounted =>
    left
    constructor
    · change maxRetxAttempts < u.consecutiveRetransmissions.toNat at hcounted
      change u.consecutiveRetransmissions.toNat = n at hcount
      omega
    · exact ⟨rfl, rfl, rfl, seg, (tick_resends h.drained ht hone).2, rfl⟩

/-- What a tick puts out. When the timer runs out it is the oldest outstanding segment again,
with the acknowledgement and the window of the moment, and as a RST at the ninth timeout; the
timeout counts with an open window or for the SYN. Otherwise it is nothing. -/
structure Resends (s : State) (ms : Nat) (t : State) : Prop where
  fires : Fires s.conn.sender ms → ∃ seg, s.conn.sender.segmentsOutstanding.head? = some seg ∧
    t.conn.segmentsOut = s.conn.segmentsOut ++
      [s.conn.stamped (decide (t.counted.length = maxRetxAttempts + 1)) seg] ∧
    t.counted = if Counts s.conn.sender seg then s.counted ++ [seg] else s.counted
  quiet : ¬ Fires s.conn.sender ms →
    t.conn.segmentsOut = s.conn.segmentsOut ∧ t.counted = s.counted

theorem resends_ticks {cfg : TCPConfig} {s : State} {e : TCPConnection} {ms : Nat}
    (h : Sound cfg s) (hactive : s.conn.active = true) (he : Ticks s.conn ms e) :
    Resends s ms (note s e.closeIfDone (.tick ms)) := by
  have hout : e.closeIfDone.segmentsOut = e.segmentsOut := by
    rcases closeIfDone_eq e with heq | heq <;> rw [heq]
  obtain ⟨hbacks, hle⟩ := backsOff_ticks h hactive he
  have hcount := hbacks.count
  rw [note_tick he]
  have hagain : ∀ (u : TCPSender) (seg : TCPSegment) (rst : Bool), s.conn.sender.tick ms = .ok u →
      u.segmentsOut = [seg] → e.segmentsOut = s.conn.segmentsOut ++ [s.conn.stamped rst seg] →
      rst = decide ((s.counted ++ countedBy s.conn.sender ms).length = maxRetxAttempts + 1) →
      Resends s ms ⟨e.closeIfDone, s.elapsed + ms,
        s.counted ++ countedBy s.conn.sender ms⟩ := by
    intro u seg rst ht hone hsegs hrst
    obtain ⟨hfires, hfront⟩ := tick_resends h.drained ht hone
    refine ⟨fun _ => ⟨seg, hfront, ?_, ?_⟩, fun hquiet => absurd hfires hquiet⟩
    · rw [← hrst]
      exact hout.trans hsegs
    · dsimp only
      rw [countedBy_fires hfires hfront]
      split
      · rfl
      · exact List.append_nil _
  cases he with
  | quiet ht hnone =>
    have hquiet := quiet_tick h.drained ht hnone
    refine ⟨fun hfires => absurd hfires hquiet, fun _ => ⟨?_, ?_⟩⟩
    · exact hout.trans (List.append_nil _)
    · dsimp only
      rw [countedBy_quiet hquiet, List.append_nil]
  | @resends u seg ht hone hfew =>
    apply hagain u seg false ht hone rfl
    change u.consecutiveRetransmissions.toNat = _ at hcount
    exact (decide_eq_false (by omega)).symm
  | @aborts u seg ht hone hmany =>
    apply hagain u seg true ht hone rfl
    change u.consecutiveRetransmissions.toNat = _ at hcount
    exact (decide_eq_true (by omega)).symm

/-- **Giving up.** In every state in which the connection is active,

* the timeout in force is the initial one doubled for each timeout counted, and these are
  the timeouts, with an open window or of the SYN, since the sender last had a segment
  acknowledged or started its timer;
* `tick` returns; when the timer runs out it puts out the oldest outstanding segment again, and
  all the timeouts counted after it are of that segment;
* it aborts the connection at the ninth, which comes after at least 511 initial timeouts of
  ticks, and at no other. -/
theorem gives_up (cfg : TCPConfig) (s : State) (h : Exec.Reach step Active (init cfg) s)
    (hactive : s.conn.active = true) (ms : Nat) :
    s.conn.sender.consecutiveRetransmissions.toNat = s.counted.length ∧
    s.conn.sender.rto.toNat =
      cfg.rtTimeout.toNat * 2 ^ s.conn.sender.consecutiveRetransmissions.toNat ∧
    ∃ t, step s (.tick ms) = .ok t ∧ Resends s ms t ∧
      (∀ seg ∈ t.counted, s.conn.sender.segmentsOutstanding.head? = some seg) ∧
      (t.counted.length = maxRetxAttempts + 1 →
        Aborted s.conn t.conn ∧ 511 * cfg.rtTimeout.toNat ≤ t.elapsed) ∧
      (t.counted.length ≠ maxRetxAttempts + 1 → CarriesOn s.conn t.conn) := by
  have hs := h.invariant (sound_init cfg) (fun _ _ _ hs ha ht => sound_step hs ha ht)
  have hfew := hs.few hactive
  refine ⟨hs.backsOff.count, hs.backsOff.count ▸ hs.backsOff.rto, ?_⟩
  obtain ⟨u, hu⟩ := tick_returns hs.backsOff.timer.mp ms
  obtain ⟨d, hd⟩ := tick_call_returns hu
  obtain ⟨e, he, rfl⟩ := TCPConnection.tick_spec hs.drained hd
  obtain ⟨hbacks, hle⟩ := backsOff_ticks hs hactive he
  refine ⟨note s e.closeIfDone (.tick ms), Exec.bind_eq_ok.mpr ⟨_, hd, rfl⟩, ?_⟩
  refine ⟨resends_ticks hs hactive he, ?_⟩
  rw [note_tick he]
  refine ⟨?_, ?_, ?_⟩
  · intro seg hseg
    obtain ⟨v, stream, hv, hsender⟩ := ticks_sender he
    have hfront := hbacks.oldest seg hseg
    rw [hsender] at hfront
    obtain ⟨_, _, _, _, _, rfl⟩ := tick_ok hv
    exact hfront
  · intro hnine
    rcases ticks_outcome hs hactive he hnine with ⟨-, haborted⟩ | ⟨hfewer, -⟩
    · exact ⟨closeIfDone_aborted haborted, hbacks.nine hnine⟩
    · omega
  · intro hother
    rcases ticks_outcome hs hactive he rfl with ⟨hnine, -⟩ | ⟨-, hcarries⟩
    · exact absurd hnine hother
    · exact closeIfDone_carriesOn hcarries

/-- A millisecond for the initial timeout. -/
def oneMs : TCPConfig := { rtTimeout := 1, recvCapacity := 4, fixedIsn := ⟨7⟩ }

/-- A SYN without an answer: eight timeouts in 255 milliseconds, and the ninth after 256
more, which sends it once more. -/
theorem gives_up_syn :
    ∃ s t seg, Exec.Reach step Active (init oneMs) s ∧ s.conn.active = true ∧
      s.conn.sender.rto.toNat = 256 ∧ step s (.tick 256) = .ok t ∧ Aborted s.conn t.conn ∧
      s.conn.sender.segmentsOutstanding.head? = some seg ∧
      t.conn.segmentsOut = s.conn.segmentsOut ++ [s.conn.stamped true seg] := by
  obtain ⟨s, reached, hv⟩ := Exec.reach_of_view step Active (init oneMs)
    [.connect, .tick 1, .tick 2, .tick 4, .tick 8, .tick 16, .tick 32, .tick 64, .tick 128]
    (fun s => (s.conn.active, s.conn.sender.consecutiveRetransmissions,
      decide (Fires s.conn.sender 256),
      (step s (.tick 256)).toOption.map fun t => t.counted.length))
    (true, 8, true, some 9) (by decide +kernel)
  simp only [Prod.mk.injEq, decide_eq_true_eq] at hv
  obtain ⟨hactive, hcount, hfires, hv⟩ := hv
  obtain ⟨-, hrto, t, ht, hresends, -, hnine, -⟩ := gives_up oneMs s reached hactive 256
  rw [hcount] at hrto
  rw [ht] at hv
  have hlen : t.counted.length = 9 := Option.some.inj hv
  obtain ⟨seg, hfront, hout, -⟩ := hresends.fires hfires
  rw [hlen] at hout
  exact ⟨s, t, seg, reached, hactive, hrto, ht, (hnine hlen).1, hfront, hout⟩

end Sponge.GiveUp
