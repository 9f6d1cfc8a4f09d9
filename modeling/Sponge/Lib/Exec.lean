/-!
# Calls that may not return

Generic results about computations in `Except φ`, where an error stands for a
call that does not come back to its caller:

* `bind_eq_ok`: a sequence returns exactly when each of its parts does;
* `FailsIn`: the ways in which a call can fail, with a rule for each way to put calls together;
* `loop`, `loop_total`: a loop with a bound on its rounds, and the rule that an
  invariant with a falling measure makes it return;
* `loop_outcome`: the same for a loop whose rounds may fail;
* `range_total`, `range_ok`: the same for a counted loop, and for one known to return;
* `foldlM_keeps`: what each step of a fold keeps;
* `run_bounded`: a run is no longer than what is there to be spent and what is added;
* `Reach`, `Reach.trans`, `Reach.invariant`: the states that allowed events reach, and what
  each step keeps;
* `drive`, `reach_of_view`, `reach_of_all`, `ok_of_view`: an executable run, which is one of
  those.
-/

namespace Exec

variable {φ α β σ τ ε : Type}

@[simp] theorem ok_bind (a : α) (f : α → Except φ β) : (Except.ok a >>= f) = f a := rfl

@[simp] theorem error_bind (e : φ) (f : α → Except φ β) :
    ((Except.error e : Except φ α) >>= f) = .error e := rfl

@[simp] theorem pure_ok (a : α) : (pure a : Except φ α) = .ok a := rfl

theorem bind_eq_ok {x : Except φ α} {f : α → Except φ β} {b : β} :
    (x >>= f) = .ok b ↔ ∃ a, x = .ok a ∧ f a = .ok b := by
  cases x with
  | error e => simp
  | ok a => simp

/-- An early return. -/
theorem ite_pure_eq_ok {p : Prop} [Decidable p] {a b : α} {x : Except φ α} :
    (if p then pure a else x) = .ok b ↔ p ∧ a = b ∨ ¬ p ∧ x = .ok b := by
  by_cases h : p
  · rw [if_pos h]
    simp [h, pure_ok]
  · rw [if_neg h]
    simp [h]

/-- Run `body` until it asks to stop, for at most `n` rounds. `spin` is the
error of a loop that is still running then. -/
def loop (spin : φ) (body : σ → Except φ (ForInStep σ)) : Nat → σ → Except φ σ
  | 0, _ => .error spin
  | n + 1, s =>
    match body s with
    | .error e => .error e
    | .ok (.done t) => .ok t
    | .ok (.yield t) => loop spin body n t

/-- When the call fails, it is in one of these ways. -/
def FailsIn (P : φ → Prop) (x : Except φ α) : Prop := ∀ e, x = .error e → P e

section
variable {P : φ → Prop}

@[simp] theorem failsIn_ok (a : α) : FailsIn P (.ok a : Except φ α) := by
  intro e h
  cases h

@[simp] theorem failsIn_error {e : φ} : FailsIn P (.error e : Except φ α) ↔ P e := by
  constructor
  · intro h
    exact h e rfl
  · intro he e' h
    cases h
    exact he

theorem failsIn_of_returns {x : Except φ α} (h : ∃ a, x = .ok a) : FailsIn P x := by
  obtain ⟨a, rfl⟩ := h
  exact failsIn_ok a

theorem FailsIn.bind {x : Except φ α} {f : α → Except φ β} (hx : FailsIn P x)
    (hf : ∀ a, FailsIn P (f a)) : FailsIn P (x >>= f) := by
  cases x with
  | error e => simpa using hx
  | ok a => simpa using hf a

theorem FailsIn.ite {p : Prop} [Decidable p] {x y : Except φ α} (hx : FailsIn P x)
    (hy : FailsIn P y) : FailsIn P (if p then x else y) := by
  split
  · exact hx
  · exact hy

theorem FailsIn.loop {spin : φ} {body : σ → Except φ (ForInStep σ)} (hspin : P spin)
    (hbody : ∀ s, FailsIn P (body s)) (n : Nat) (s : σ) : FailsIn P (loop spin body n s) := by
  induction n generalizing s with
  | zero => exact failsIn_error.mpr hspin
  | succ n ih =>
    unfold Exec.loop
    cases hb : body s with
    | error e => exact failsIn_error.mpr (hbody s e hb)
    | ok r =>
      cases r with
      | done t => exact failsIn_ok t
      | yield t => exact ih t

theorem FailsIn.foldlM {f : σ → α → Except φ σ} (hf : ∀ s a, FailsIn P (f s a)) (as : List α)
    (s : σ) : FailsIn P (as.foldlM f s) := by
  induction as generalizing s with
  | nil => exact failsIn_ok s
  | cons a as ih =>
    rw [List.foldlM_cons]
    exact (hf s a).bind ih

end

/-- **Loops return.** When every round from an invariant state either stops in
`Post` or keeps the invariant and lowers the measure, enough rounds end in `Post`. -/
theorem loop_total (spin : φ) {body : σ → Except φ (ForInStep σ)} (Inv Post : σ → Prop)
    (μ : σ → Nat)
    (round : ∀ s, Inv s → (∃ t, body s = .ok (.done t) ∧ Post t) ∨
      ∃ t, body s = .ok (.yield t) ∧ Inv t ∧ μ t < μ s) :
    ∀ n s, Inv s → μ s < n → ∃ t, loop spin body n s = .ok t ∧ Post t := by
  intro n
  induction n with
  | zero => intro s _ hn; omega
  | succ n ih =>
    intro s hs hn
    obtain ⟨t, hb, ht⟩ | ⟨t, hb, ht, hm⟩ := round s hs
    · exact ⟨t, by simp only [loop, hb], ht⟩
    · obtain ⟨u, hu, hp⟩ := ih t ht (by omega)
      exact ⟨u, by simp only [loop, hb, hu], hp⟩

/-- **How a loop ends.** When a round may also fail, so may the loop, in the same way; a
falling measure still keeps it from going on for ever. -/
theorem loop_outcome (spin : φ) {body : σ → Except φ (ForInStep σ)} (Inv Post : σ → Prop)
    (Bad : φ → Prop) (μ : σ → Nat)
    (round : ∀ s, Inv s → (∃ e, body s = .error e ∧ Bad e) ∨
      (∃ t, body s = .ok (.done t) ∧ Post t) ∨ ∃ t, body s = .ok (.yield t) ∧ Inv t ∧ μ t < μ s)
    (n : Nat) (s : σ) (hs : Inv s) (hn : μ s < n) :
    (∃ e, loop spin body n s = .error e ∧ Bad e) ∨ ∃ t, loop spin body n s = .ok t ∧ Post t := by
  induction n generalizing s with
  | zero => exact absurd hn (Nat.not_lt_zero _)
  | succ n ih =>
    obtain ⟨e, hb, he⟩ | ⟨t, hb, ht⟩ | ⟨t, hb, ht, hm⟩ := round s hs
    · exact .inl ⟨e, by simp only [loop, hb], he⟩
    · exact .inr ⟨t, by simp only [loop, hb], ht⟩
    · simpa only [loop, hb] using ih t ht (Nat.lt_of_lt_of_le hm (Nat.lt_succ_iff.mp hn))

/-- **Counted loops return.** An invariant indexed by the rounds done so far. -/
theorem range_total {f : σ → Nat → Except φ σ} (P : Nat → σ → Prop) {n : Nat} {s : σ}
    (start : P 0 s) (round : ∀ i t, i < n → P i t → ∃ u, f t i = .ok u ∧ P (i + 1) u) :
    ∃ t, (List.range n).foldlM f s = .ok t ∧ P n t := by
  induction n with
  | zero => exact ⟨s, rfl, start⟩
  | succ n ih =>
    obtain ⟨t, ht, hp⟩ := ih (fun i t hi => round i t (by omega))
    obtain ⟨u, hu, hq⟩ := round n t (by omega) hp
    refine ⟨u, ?_, hq⟩
    rw [List.range_succ, List.foldlM_append, ht]
    simp [hu]

/-- **Counted loops that return.** What each round that returns keeps, the loop keeps. -/
theorem range_ok {f : σ → Nat → Except φ σ} (P : Nat → σ → Prop) {n : Nat} {s t : σ}
    (start : P 0 s) (round : ∀ i t u, i < n → P i t → f t i = .ok u → P (i + 1) u)
    (h : (List.range n).foldlM f s = .ok t) : P n t := by
  induction n generalizing t with
  | zero =>
    cases h
    exact start
  | succ n ih =>
    rw [List.range_succ, List.foldlM_append] at h
    obtain ⟨u, hu, h⟩ := bind_eq_ok.mp h
    have hp := ih (fun i t u hi => round i t u (by omega)) hu
    simp only [List.foldlM_cons, List.foldlM_nil, bind_pure] at h
    exact round n u t (by omega) hp h

/-- What each step of a fold that returns keeps, the fold keeps. -/
theorem foldlM_keeps {f : σ → α → Except φ σ} {P : σ → Prop} {as : List α} {s t : σ}
    (keeps : ∀ a ∈ as, ∀ s t, P s → f s a = .ok t → P t) (hs : P s)
    (h : as.foldlM f s = .ok t) : P t := by
  induction as generalizing s with
  | nil =>
    cases h
    exact hs
  | cons a as ih =>
    rw [List.foldlM_cons] at h
    obtain ⟨u, hu, h⟩ := bind_eq_ok.mp h
    obtain ⟨hfirst, hrest⟩ := List.forall_mem_cons.mp keeps
    exact ih hrest (hfirst s u hs hu) h

theorem map_bind {view : β → τ} (x : Except φ α) (f : α → Except φ β) :
    (x >>= f).map view = x >>= fun a => (f a).map view := by
  cases x with
  | error e => rfl
  | ok a => rfl

/-- **Bounded runs.** When each step from an invariant state that counts spends a unit of
`cost`, or is paid for by the growth of `gain`, and no other step spends less than it gets,
the number of steps that count is bounded by the two. -/
theorem run_bounded {step : σ → ε → Except φ σ} (Inv : σ → Prop) (cost gain : σ → Nat)
    (counts : ε → Bool)
    (spends : ∀ s e t, Inv s → step s e = .ok t →
      Inv t ∧ cost t + (if counts e then 1 else 0) + gain s ≤ cost s + gain t)
    {s t : σ} (es : List ε) (hs : Inv s) (h : es.foldlM step s = .ok t) :
    cost t + es.countP counts + gain s ≤ cost s + gain t := by
  induction es generalizing s with
  | nil =>
    cases h
    exact Nat.le_refl _
  | cons e es ih =>
    rw [List.foldlM_cons] at h
    obtain ⟨u, hu, h⟩ := bind_eq_ok.mp h
    obtain ⟨hinv, hone⟩ := spends s e u hs hu
    have hrest := ih hinv h
    rw [List.countP_cons]
    omega

/-- The states reached from `s₀` by events that are allowed where they happen and
whose step returns. -/
inductive Reach (step : σ → ε → Except φ σ) (allowed : σ → ε → Prop) (s₀ : σ) : σ → Prop
  | start : Reach step allowed s₀ s₀
  | next {s t : σ} {e : ε} : Reach step allowed s₀ s → allowed s e → step s e = .ok t →
      Reach step allowed s₀ t

/-- What holds at the start and survives each step holds in every state reached. -/
theorem Reach.invariant {step : σ → ε → Except φ σ} {allowed : σ → ε → Prop} {s₀ s : σ}
    {I : σ → Prop} (h : Reach step allowed s₀ s) (start : I s₀)
    (keeps : ∀ s e t, I s → allowed s e → step s e = .ok t → I t) : I s := by
  induction h with
  | start => exact start
  | next _ ha hs ih => exact keeps _ _ _ ih ha hs

theorem Reach.trans {step : σ → ε → Except φ σ} {allowed : σ → ε → Prop} {s₀ s t : σ}
    (h : Reach step allowed s₀ s) (h' : Reach step allowed s t) : Reach step allowed s₀ t := by
  induction h' with
  | start => exact h
  | next _ ha hs ih => exact ih.next ha hs

theorem Reach.one {step : σ → ε → Except φ σ} {allowed : σ → ε → Prop} {s t : σ} {e : ε}
    (ha : allowed s e) (h : step s e = .ok t) : Reach step allowed s t :=
  Reach.start.next ha h

theorem Reach.mono {step : σ → ε → Except φ σ} {allowed allowed' : σ → ε → Prop} {s₀ s : σ}
    (h : Reach step allowed s₀ s) (hle : ∀ s e, allowed s e → allowed' s e) :
    Reach step allowed' s₀ s := by
  induction h with
  | start => exact .start
  | next _ ha hs ih => exact ih.next (hle _ _ ha) hs

/-- Run the events in order while each is allowed and returns. -/
def drive (step : σ → ε → Except φ σ) (allowed : σ → ε → Prop) [∀ s e, Decidable (allowed s e)] :
    List ε → σ → Option σ
  | [], s => some s
  | e :: es, s =>
    if allowed s e then
      match step s e with
      | .error _ => none
      | .ok t => drive step allowed es t
    else none

theorem reach_of_drive {step : σ → ε → Except φ σ} {allowed : σ → ε → Prop}
    [∀ s e, Decidable (allowed s e)] {s₀ s t : σ} (reached : Reach step allowed s₀ s)
    (es : List ε) (h : drive step allowed es s = some t) : Reach step allowed s₀ t := by
  induction es generalizing s with
  | nil => cases h; exact reached
  | cons e es ih =>
    simp only [drive] at h
    split at h
    · rename_i ha
      split at h
      · cases h
      · rename_i u hu
        exact ih (reached.next ha hu) h
    · cases h

/-- What an executable run shows of its last state holds of a reachable one. -/
theorem reach_of_view (step : σ → ε → Except φ σ) (allowed : σ → ε → Prop)
    [∀ s e, Decidable (allowed s e)] (s₀ : σ) (es : List ε) (view : σ → β) (b : β)
    (h : (drive step allowed es s₀).map view = some b) :
    ∃ s, Reach step allowed s₀ s ∧ view s = b := by
  obtain ⟨s, hs, hv⟩ := Option.map_eq_some_iff.mp h
  exact ⟨s, reach_of_drive .start es hs, hv⟩

/-- The same when whether an event is allowed cannot be decided, but is known of those in the
list. -/
theorem reach_of_all (step : σ → ε → Except φ σ) (allowed : ε → Prop) (s₀ : σ) (es : List ε)
    (hall : ∀ e ∈ es, allowed e) (view : σ → β) (b : β)
    (h : (drive step (fun _ _ => True) es s₀).map view = some b) :
    ∃ s, Reach step (fun _ e => allowed e) s₀ s ∧ view s = b := by
  induction es generalizing s₀ with
  | nil => exact ⟨s₀, .start, Option.some.inj h⟩
  | cons e es ih =>
    obtain ⟨hfirst, hrest⟩ := List.forall_mem_cons.mp hall
    rw [drive, if_pos trivial] at h
    cases hs : step s₀ e with
    | error e =>
      rw [hs] at h
      cases h
    | ok t =>
      rw [hs] at h
      obtain ⟨s, reached, hv⟩ := ih t hrest h
      exact ⟨s, (Reach.one hfirst hs).trans reached, hv⟩

/-- What an executable call shows of its result holds of that result. -/
theorem ok_of_view {x : Except φ σ} (view : σ → β) (b : β)
    (h : x.toOption.map view = some b) : ∃ t, x = .ok t ∧ view t = b := by
  cases x with
  | error e => cases h
  | ok t => exact ⟨t, rfl, Option.some.inj h⟩

theorem ok_of_toOption {x : Except φ σ} {t : σ} (h : x.toOption = some t) : x = .ok t := by
  cases x with
  | error e => cases h
  | ok t' => rw [Option.some.inj h]

/-- What a failing call shows. -/
def fault : Except φ σ → Option φ
  | .error e => some e
  | .ok _ => none

theorem error_of_fault {x : Except φ σ} {e : φ} (h : fault x = some e) : x = .error e := by
  cases x with
  | error e' => exact congrArg Except.error (Option.some.inj h)
  | ok t => cases h

end Exec
