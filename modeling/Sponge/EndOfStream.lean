import Sponge.Assembly

/-!
# The end of the stream is not missed

`_eof` remembers an end mark, and any push that is cut off at the window clears it again. An
end mark that came with data inside the window stays remembered: the window's right edge never
moves back, so no slice of the same stream is cut off from then on.

* `EndMarked`: what holds from that push on;
* `end_not_missed`: completing the stream then ends the input;
* `end_missed`: a push that reaches back `2 ^ 32` bytes is cut off all the same.
-/

namespace Sponge.Assembly

open StreamReassembler

/-- The end of `S` is marked and inside the window, and the input has ended if `S` is
complete. -/
structure EndMarked (S : List Byte) (s : State) : Prop where
  flag : s.r.eof = true
  inside : S.length ≤ s.edge
  ended : S.length ≤ s.r.unassBase → s.r.output.endWrite = true

/-- A slice of the stream that ends inside the window is not cut off. -/
theorem not_truncated {s : State} {data : List Byte} {index : Nat}
    (h : index + data.length ≤ s.edge) : ¬ Truncated s.r data index := by
  rintro ⟨_, hlt⟩
  simp only [State.edge, ByteStream.bytesRead] at h
  omega

/-- A push that ends inside the window keeps the mark or sets it, and completing the stream
ends the input. -/
theorem endMarked_push {S : List Byte} {C : Nat} {s t : State} {data : List Byte} {index : Nat}
    {eof : Bool} (hs : Sound C s) (hf : Faithful S t) (hx : Call.Exact s (.push data index eof))
    (hend : index + data.length ≤ s.edge) (hmark : s.r.eof = true ∨ eof = true)
    (hinside : S.length ≤ s.edge) (h : step s (.push data index eof) = .ok t) : EndMarked S t := by
  obtain ⟨r, -, pushed, hstep⟩ := step_push hs.inv hx
  rw [hstep] at h
  cases h
  have hflag : r.eof = true :=
    pushed.eof.mpr ⟨hmark, fun hcut => not_truncated hend hcut.2⟩
  refine ⟨hflag, ?_, ?_⟩
  · simpa only [State.edge, ByteStream.bytesRead, pushed.frame.1, pushed.frame.2] using hinside
  · intro hall
    apply pushed.ended.mpr
    refine .inr ⟨hflag, hf.agrees.full_empty pushed.inv hall, ?_⟩
    -- the data, if there are any, start below the right edge
    have hcount := s.r.output.counts
    have hbase := hs.inv.base
    simp only [State.edge, ByteStream.bytesRead] at hend
    cases data with
    | nil => exact .inl rfl
    | cons c rest =>
      right
      rw [List.length_cons] at hend
      omega

theorem endMarked_step {S : List Byte} {C : Nat} {s t : State} {c : Call} (hs : Sound C s)
    (hm : EndMarked S s) (hf : Faithful S t) (hx : c.Exact s) (hc : c.Consistent S)
    (h : step s c = .ok t) : EndMarked S t := by
  have pop (len : Nat) (h : step s (.pop len) = .ok t) : EndMarked S t := by
    cases h
    refine ⟨hm.flag, ?_, ?_⟩
    · have hread := s.r.output.readBytes_le_popOutput len
      have hinside := hm.inside
      simp only [State.edge, ByteStream.bytesRead, popOut] at hinside ⊢
      omega
    · simpa only [popOut, ByteStream.popOutput_endWrite] using hm.ended
  cases c with
  | push data index eof =>
    exact endMarked_push hs hf hx (Nat.le_trans hc.1 hm.inside) (.inl hm.flag) hm.inside h
  | read len => exact pop len (step_read s len ▸ h)
  | pop len => exact pop len h

/-- **The end is not missed.** A push with an end mark that ends at or below
`bytes_read + capacity` returns, and whenever all of `S` is written from there on, the input
has ended. -/
theorem end_not_missed (S : List Byte) (C : Nat) (hC : 1 ≤ C) (hC' : C < 2 ^ 31) (s : State)
    (h : Exec.Reach step (WindowCall S) (init C) s) (data : List Byte) (index : Nat)
    (hcall : WindowCall S s (.push data index true)) (hend : index + data.length ≤ s.edge) :
    ∃ t, step s (.push data index true) = .ok t ∧
      ∀ u, Exec.Reach step (WindowCall S) t u → u.r.output.bytesWritten = S.length →
        u.r.output.inputEnded = true := by
  obtain ⟨hs, hf⟩ := windowCall_sound hC hC' h
  obtain ⟨hc, hw, hn⟩ := hcall
  have hx := exact_of_inWindow hC' hs hw hn
  obtain ⟨t, ht⟩ := step_returns hs.inv hx
  refine ⟨t, ht, ?_⟩
  have hf' := faithful_step hs hf hx hc ht
  have hlen : index + data.length = S.length := hc.2.2 rfl
  have hm : EndMarked S t := endMarked_push hs hf' hx hend (.inr rfl) (by omega) ht
  intro u hu hall
  obtain ⟨hs', _, hm'⟩ := hu.invariant (I := fun u => Sound C u ∧ Faithful S u ∧ EndMarked S u)
    ⟨sound_step hs hx ht, hf', hm⟩
    (by
      rintro s c t ⟨hs, hf, hm⟩ ⟨hc, hw, hn⟩ hstep
      have hx := exact_of_inWindow hC' hs hw hn
      have hf' := faithful_step hs hf hx hc hstep
      exact ⟨sound_step hs hx hstep, hf', endMarked_step hs hm hf' hx hc hstep⟩)
  apply hm'.ended
  rw [hs'.inv.base]
  exact Nat.le_of_eq hall.symm

/-- The end first, in a window that has just room for it, then the two bytes before it. -/
theorem end_not_missed_abc :
    ∃ s t u, Exec.Reach step (WindowCall [97, 98, 99]) (init 3) s ∧
      step s (.push [99] 2 true) = .ok t ∧ t.r.output.inputEnded = false ∧
      Exec.Reach step (WindowCall [97, 98, 99]) t u ∧ u.r.output.inputEnded = true := by
  obtain ⟨t, ht, hlater⟩ := end_not_missed [97, 98, 99] 3 (by decide) (by decide) (init 3) .start
    [99] 2 (by decide) (by decide)
  have hview : ((step (init 3) (.push [99] 2 true)).toOption.map fun t =>
      (t.r.output.inputEnded, (Exec.drive step (WindowCall [97, 98, 99])
        [.push [97, 98] 0 false] t).map fun u => u.r.output.bytesWritten)) =
      some (false, some 3) := by decide +kernel
  rw [ht] at hview
  obtain ⟨hopen, hdrive⟩ := Prod.mk.inj (Option.some.inj hview)
  obtain ⟨u, hu, hall⟩ := Exec.reach_of_view step (WindowCall [97, 98, 99]) t
    [.push [97, 98] 0 false] (fun u => u.r.output.bytesWritten) 3 hdrive
  exact ⟨init 3, t, u, .start, ht, hopen, hu, hlater u hu hall⟩

/-- In a window of one byte the first `2 ^ 32` zeros of a stream are read, and then all of the
stream is pushed, with its end. Its last byte is written and the input goes on. -/
theorem end_missed :
    ∃ s t, Exec.Reach step (LooseCall (List.replicate (2 ^ 32 + 1) 0)) (init 1) s ∧
      LooseCall (List.replicate (2 ^ 32 + 1) 0) s (.push (List.replicate (2 ^ 32 + 1) 0) 0 true) ∧
      2 ^ 32 + 1 ≤ s.edge ∧ step s (.push (List.replicate (2 ^ 32 + 1) 0) 0 true) = .ok t ∧
      t.r.output.bytesWritten = 2 ^ 32 + 1 ∧ t.r.output.inputEnded = false := by
  obtain ⟨N, hN⟩ : ∃ N, 2 ^ 32 + 1 = N := ⟨_, rfl⟩
  rw [hN]
  obtain ⟨s, reached, hs, hread⟩ :=
    zeros_drained (C := 1) (by decide) (by decide) (show 2 ^ 32 ≤ N by omega)
  have hbase := hs.base_eq
  have hcap := hs.capacity
  have hcount := s.r.output.counts
  have hwritten := hs.inv.base
  have hlen : (List.replicate N (0 : Byte)).length = N := List.length_replicate
  have hempty : s.r.output.buffer = [] := List.eq_nil_of_length_eq_zero (by omega)
  have hbehind : s.r.unassBase = 0 + 2 ^ 32 := by omega
  have hwhole : (List.replicate N (0 : Byte)).length = 2 ^ 32 + s.r.capacity := by omega
  obtain ⟨r, hr, hinv, _, hmoved, hgoing⟩ := wrapped_overlap hs.inv true hbehind hwhole hempty
  refine ⟨s, _, reached, ⟨⟨by omega, ?_, fun _ => by omega⟩, Nat.zero_le _⟩, ?_,
    by rw [step, hr]; rfl, ?_, ?_⟩
  · rw [List.drop_zero, List.take_length]
  · simp only [State.edge, ByteStream.bytesRead]
    omega
  · have := hinv.base
    simp only [ByteStream.bytesWritten]
    omega
  · exact hgoing.trans hs.going

end Sponge.Assembly
