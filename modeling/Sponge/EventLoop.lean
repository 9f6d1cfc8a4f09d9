import Sponge.FileDescriptor

/-!
# The event loop

`EventLoop::wait_next_event` of `eventloop.cc`, over the state of the program that its callbacks
work on. The rules have names, and the loop keeps the names of those that are not cancelled.
What `poll(2)` answers, and what the kernel answers to the calls that a callback makes, is an
argument.

A rule's interest is asked for before `poll`, and its callback comes after those of the rules
before it. What is known of the rule when it is polled (`Guards`) must therefore survive what
happens in between.

* `waitNextEvent_outcome`: a call is a sequence of callbacks and cancellations, each of a rule
  that is not cancelled, and the ways it can throw.
-/

namespace Sponge

inductive Direction
  | input
  | output
  deriving DecidableEq, Repr

/-- A rule, whose callback and conditions work on a state `σ`. -/
structure Rule (σ ι : Type) where
  fd : σ → FileDescriptor
  direction : Direction
  /-- The callback, with what the kernel answers to it. -/
  callback : σ → ι → Except Fault σ
  interest : σ → Bool
  cancel : σ → Except Fault σ

/-- The bits of `revents`. -/
structure Revents where
  pollIn : Bool := false
  pollOut : Bool := false
  pollErr : Bool := false
  pollHup : Bool := false
  pollNval : Bool := false
  deriving DecidableEq, Repr

/-- The bit that a direction asks for. -/
def Revents.has (revents : Revents) : Direction → Bool
  | .input => revents.pollIn
  | .output => revents.pollOut

/-- What `poll` answers. -/
inductive Poll (ι : Type)
  /-- Zero. -/
  | timeout
  /-- `EINTR`. -/
  | interrupted
  /-- Any other error, which is caught and not looked at. -/
  | failed
  /-- The `revents` of the descriptors in their order, and what the callbacks will be answered. -/
  | ready (answers : List (Revents × ι))

def Poll.isInterrupted {ι : Type} : Poll ι → Bool
  | .interrupted => true
  | _ => false

namespace EventLoop

inductive Result
  | success
  | timeout
  | exit
  deriving DecidableEq, Repr

end EventLoop

section
variable {σ ι : Type}

def Rule.serviceCount (rule : Rule σ ι) (s : σ) : UInt32 :=
  match rule.direction with
  | .input => (rule.fd s).readCount
  | .output => (rule.fd s).writeCount

/-- There is no more to read, or the descriptor is closed. -/
def Rule.expired (rule : Rule σ ι) (s : σ) : Bool :=
  rule.direction == .input && (rule.fd s).eof || (rule.fd s).closed

end

namespace EventLoop

variable {κ σ ι : Type}

section
variable (table : κ → Rule σ ι)

/-- The first loop: which rules stay, and which of these are polled. -/
def setUp : List κ → σ → Except Fault (List (κ × Bool) × σ)
  | [], s => .ok ([], s)
  | k :: rules, s =>
    if (table k).expired s then do
      let s ← (table k).cancel s
      setUp rules s
    else do
      let polled := (table k).interest s
      let (pollfds, s) ← setUp rules s
      return ((k, polled) :: pollfds, s)

/-- The second loop at one rule: whether the rule stays, and the state. -/
def handle (k : κ) (polled : Bool) (revents : Revents) (kernel : ι) (s : σ) :
    Except Fault (Bool × σ) :=
  if revents.pollErr || revents.pollNval then
    .error (.throws "EventLoop: error on polled file descriptor")
  else
    let pollReady := polled && revents.has (table k).direction
    if revents.pollHup && polled && !pollReady then do
      let s ← (table k).cancel s
      return (false, s)
    else if pollReady then do
      let countBefore := (table k).serviceCount s
      let s ← (table k).callback s kernel
      if countBefore == (table k).serviceCount s && (table k).interest s then
        .error (.throws
          "EventLoop: busy wait detected: callback did not read/write fd and is still interested")
      else
        return (true, s)
    else
      return (true, s)

/-- The second loop. -/
def service : List (κ × Bool) → List (Revents × ι) → σ → Except Fault (List κ × σ)
  | [], _, s => .ok ([], s)
  | pollfds, [], s => .ok (pollfds.map Prod.fst, s)
  | (k, polled) :: pollfds, (revents, kernel) :: answers, s => do
    let (stays, s) ← handle table k polled revents kernel s
    let (rules, s) ← service pollfds answers s
    return (if stays then k :: rules else rules, s)

def waitNextEvent (rules : List κ) (s : σ) (poll : Poll ι) :
    Except Fault (Result × List κ × σ) := do
  let (pollfds, s) ← setUp table rules s
  if !pollfds.any Prod.snd then
    return (.exit, pollfds.map Prod.fst, s)
  match poll with
  | .timeout => return (.timeout, pollfds.map Prod.fst, s)
  | .interrupted => return (.exit, pollfds.map Prod.fst, s)
  | .failed => return (.success, pollfds.map Prod.fst, s)
  | .ready answers => do
    let (rules, s) ← service table pollfds answers s
    return (.success, rules, s)

end

/-! ## A call as a sequence of events -/

inductive Event (κ ι : Type)
  | callback (k : κ) (kernel : ι)
  | cancel (k : κ)

section
variable [DecidableEq κ] (table : κ → Rule σ ι)

/-- The rules that are left, and the state. -/
def step (x : List κ × σ) : Event κ ι → Except Fault (List κ × σ)
  | .callback k kernel => do
    let s ← (table k).callback x.2 kernel
    return (x.1, s)
  | .cancel k => do
    let s ← (table k).cancel x.2
    return (x.1.erase k, s)

/-- `G k polled` is known of a rule that has been set up. It must survive the cancellations of
the rules after it, which are set up later, and then the rules before it, which are served
earlier. `P` is known as long as rules are set up. -/
structure Guards (P : σ → Prop) (R : κ → κ → Prop) (G : κ → Bool → σ → Prop) : Prop where
  irrefl : ∀ k, ¬ R k k
  settingUp : ∀ {j : κ} {s t : σ}, P s → (table j).cancel s = .ok t → P t
  fresh : ∀ k s, P s → (table k).expired s = false → G k ((table k).interest s) s
  later : ∀ {j k : κ} {polled : Bool} {s t : σ}, R k j → G k polled s →
    (table j).cancel s = .ok t → G k polled t
  cancel : ∀ {j k : κ} {s t : σ}, R j k → G k true s → (table j).cancel s = .ok t → G k true t
  callback : ∀ {j k : κ} {s t : σ} {kernel : ι}, R j k → G k true s →
    (table j).callback s kernel = .ok t → G k true t

/-- Only a hangup is reported. -/
def Hangup (k : κ) (revents : Revents) : Prop :=
  revents.pollHup = true ∧ revents.has (table k).direction = false

/-- An event of a rule that is not cancelled. A callback has its guard; a cancellation has its
reason. What the kernel answers is bound by `E`. -/
def Allowed (G : κ → Bool → σ → Prop) (E : κ → Revents → ι → Prop) (x : List κ × σ) :
    Event κ ι → Prop
  | .callback k kernel => k ∈ x.1 ∧ G k true x.2 ∧ ∃ revents, E k revents kernel
  | .cancel k => k ∈ x.1 ∧ ((table k).expired x.2 = true ∨
      ∃ revents kernel, E k revents kernel ∧ Hangup table k revents)

/-- Why a call throws: an event fails in a state that has been reached, a callback leaves its
rule as it was, or an error is reported for a descriptor. -/
inductive Throws (G : κ → Bool → σ → Prop) (E : κ → Revents → ι → Prop) (x : List κ × σ) :
    Fault → Prop
  | event {y : List κ × σ} {e : Event κ ι} {fault : Fault} :
      Exec.Reach (step table) (Allowed table G E) x y → Allowed table G E y e →
      step table y e = .error fault → Throws G E x fault
  | busy {y z : List κ × σ} {k : κ} {kernel : ι} :
      Exec.Reach (step table) (Allowed table G E) x y → Allowed table G E y (.callback k kernel) →
      step table y (.callback k kernel) = .ok z →
      (table k).serviceCount y.2 = (table k).serviceCount z.2 →
      (table k).interest z.2 = true →
      Throws G E x (.throws
        "EventLoop: busy wait detected: callback did not read/write fd and is still interested")
  | reported {k : κ} {revents : Revents} {kernel : ι} :
      E k revents kernel → (revents.pollErr || revents.pollNval) = true →
      Throws G E x (.throws "EventLoop: error on polled file descriptor")

/-- What the kernel answers a call keeps to `E`. -/
def Answered (E : κ → Revents → ι → Prop) (rules : List κ) (s : σ) (poll : Poll ι) : Prop :=
  ∀ pollfds t answers, setUp table rules s = .ok (pollfds, t) → poll = .ready answers →
    ∀ x ∈ pollfds.zip answers, E x.1.1 x.2.1 x.2.2

/-- The rules for whose descriptors only a hangup is reported. -/
def hangups (rules : List κ) (s : σ) (poll : Poll ι) : List κ :=
  match setUp table rules s, poll with
  | .ok (pollfds, _), .ready answers =>
    ((pollfds.zip answers).filter fun x =>
      x.2.1.pollHup && !x.2.1.has (table x.1.1).direction).map fun x => x.1.1
  | _, _ => []

omit [DecidableEq κ] in
theorem answered_hangups (rules : List κ) (s : σ) (poll : Poll ι) :
    Answered table (fun k revents _ => Hangup table k revents → k ∈ hangups table rules s poll)
      rules s poll := by
  rintro pollfds t answers hset rfl x hx hup
  simp only [hangups, hset]
  refine List.mem_map.mpr ⟨x, List.mem_filter.mpr ⟨hx, ?_⟩, rfl⟩
  simp [hup.1, hup.2]

variable {table}
variable {P : σ → Prop} {R : κ → κ → Prop} {G : κ → Bool → σ → Prop} {E : κ → Revents → ι → Prop}

omit [DecidableEq κ] in
theorem Guards.nodup (hG : Guards table P R G) {rules : List κ} (h : rules.Pairwise R) :
    rules.Nodup := by
  refine h.imp ?_
  rintro j _ hjk rfl
  exact hG.irrefl j hjk

theorem Throws.earlier {x y : List κ × σ} {fault : Fault}
    (h : Exec.Reach (step table) (Allowed table G E) x y) (ht : Throws table G E y fault) :
    Throws table G E x fault := by
  cases ht with
  | event hr ha he => exact .event (h.trans hr) ha he
  | busy hr ha hs hcount hint => exact .busy (h.trans hr) ha hs hcount hint
  | reported he herr => exact .reported he herr

theorem step_cancel {before after : List κ} {k : κ} {s t : σ}
    (hnodup : (before ++ k :: after).Nodup) (h : (table k).cancel s = .ok t) :
    step table (before ++ k :: after, s) (.cancel k) = .ok (before ++ after, t) := by
  have hk : k ∉ before := by
    intro hmem
    exact (List.nodup_append.mp hnodup).2.2 k hmem k List.mem_cons_self rfl
  simp only [step, h, Exec.ok_bind, Exec.pure_ok, List.erase_append_right _ hk,
    List.erase_cons_head]

/-- What the first loop has done, from the rules `before ++ rules` on. -/
structure IsSetUp (table : κ → Rule σ ι) (R : κ → κ → Prop) (G : κ → Bool → σ → Prop)
    (E : κ → Revents → ι → Prop) (before rules : List κ) (s : σ) (pollfds : List (κ × Bool))
    (t : σ) : Prop where
  reach : Exec.Reach (step table) (Allowed table G E) (before ++ rules, s)
    (before ++ pollfds.map Prod.fst, t)
  guards : ∀ x ∈ pollfds, G x.1 x.2 t
  sublist : (pollfds.map Prod.fst).Sublist rules
  frame : ∀ k polled, (∀ j ∈ rules, R k j) → G k polled s → G k polled t

theorem setUp_outcome (hG : Guards table P R G) (before rules : List κ) (s : σ)
    (hP : P s) (hsorted : (before ++ rules).Pairwise R) :
    (∃ fault, setUp table rules s = .error fault ∧
      Throws table G E (before ++ rules, s) fault) ∨
    ∃ pollfds t, setUp table rules s = .ok (pollfds, t) ∧
      IsSetUp table R G E before rules s pollfds t := by
  induction rules generalizing before s with
  | nil => exact .inr ⟨[], s, rfl, .start, by simp, .slnil, fun _ _ _ h => h⟩
  | cons k rules ih =>
    rw [setUp]
    by_cases hexp : (table k).expired s = true
    · rw [if_pos hexp]
      have hallowed : Allowed table G E (before ++ k :: rules, s) (.cancel k : Event κ ι) :=
        ⟨by simp, .inl hexp⟩
      cases hc : (table k).cancel s with
      | error fault =>
        exact .inl ⟨fault, rfl, .event .start hallowed (by simp only [step, hc, Exec.error_bind])⟩
      | ok t =>
        have hstep := step_cancel (hG.nodup hsorted) hc
        have hrest : (before ++ rules).Pairwise R :=
          hsorted.sublist (List.Sublist.append_left (List.sublist_cons_self _ _) _)
        rw [Exec.ok_bind]
        rcases ih before t (hG.settingUp hP hc) hrest with ⟨fault, hf, ht⟩ | ⟨pollfds, u, hu, hset⟩
        · exact .inl ⟨fault, hf, ht.earlier (.one hallowed hstep)⟩
        · refine .inr ⟨pollfds, u, hu, (Exec.Reach.one hallowed hstep).trans hset.reach,
            hset.guards, hset.sublist.cons _, ?_⟩
          intro j polled hj hg
          exact hset.frame j polled (fun i hi => hj i (List.mem_cons_of_mem _ hi))
            (hG.later (hj k List.mem_cons_self) hg hc)
    · rw [if_neg hexp]
      have hexp' : (table k).expired s = false := by simpa using hexp
      have hsorted' : ((before ++ [k]) ++ rules).Pairwise R := by simpa using hsorted
      have hk : ∀ j ∈ rules, R k j :=
        (List.pairwise_cons.mp (List.pairwise_append.mp hsorted).2.1).1
      rcases ih (before ++ [k]) s hP hsorted' with ⟨fault, hf, ht⟩ | ⟨pollfds, u, hu, hset⟩
      · refine .inl ⟨fault, by rw [hf]; rfl, ?_⟩
        simpa using ht
      · refine .inr ⟨(k, (table k).interest s) :: pollfds, u, by rw [hu]; rfl, ?_, ?_, ?_, ?_⟩
        · simpa using hset.reach
        · intro x hx
          rcases List.mem_cons.mp hx with rfl | hx
          · exact hset.frame k _ hk (hG.fresh k s hP hexp')
          · exact hset.guards x hx
        · exact hset.sublist.cons_cons _
        · intro j polled hj hg
          exact hset.frame j polled (fun i hi => hj i (List.mem_cons_of_mem _ hi)) hg

/-- The second loop at one rule. -/
theorem handle_outcome (hG : Guards table P R G) (before after : List κ) (k : κ) (polled : Bool)
    (revents : Revents) (kernel : ι) (s : σ) (hsorted : (before ++ k :: after).Pairwise R)
    (hguard : polled = true → G k true s) (hE : E k revents kernel) :
    (∃ fault, handle table k polled revents kernel s = .error fault ∧
      Throws table G E (before ++ k :: after, s) fault) ∨
    ∃ stays t, handle table k polled revents kernel s = .ok (stays, t) ∧
      Exec.Reach (step table) (Allowed table G E) (before ++ k :: after, s)
        ((before ++ if stays then [k] else []) ++ after, t) ∧
      ∀ j, R k j → G j true s → G j true t := by
  unfold handle
  by_cases herr : (revents.pollErr || revents.pollNval) = true
  · rw [if_pos herr]
    exact .inl ⟨_, rfl, .reported hE herr⟩
  rw [if_neg herr]
  dsimp only
  by_cases hup : (revents.pollHup && polled && !(polled && revents.has (table k).direction)) = true
  · rw [if_pos hup]
    have hhang : Hangup table k revents := by
      cases polled with
      | true => simpa [Hangup] using hup
      | false => simp at hup
    have hallowed : Allowed table G E (before ++ k :: after, s) (.cancel k : Event κ ι) :=
      ⟨by simp, .inr ⟨revents, kernel, hE, hhang⟩⟩
    cases hc : (table k).cancel s with
    | error fault =>
      exact .inl ⟨fault, rfl, .event .start hallowed (by simp only [step, hc, Exec.error_bind])⟩
    | ok t =>
      refine .inr ⟨false, t, rfl, ?_, fun j hj hg => hG.cancel hj hg hc⟩
      simpa using Exec.Reach.one hallowed (step_cancel (hG.nodup hsorted) hc)
  rw [if_neg hup]
  by_cases hready : (polled && revents.has (table k).direction) = true
  · rw [if_pos hready]
    have hpolled : polled = true := (Bool.and_eq_true_iff.mp hready).1
    have hallowed : Allowed table G E (before ++ k :: after, s) (.callback k kernel) :=
      ⟨by simp, hguard hpolled, revents, hE⟩
    cases hc : (table k).callback s kernel with
    | error fault =>
      exact .inl ⟨fault, rfl, .event .start hallowed (by simp only [step, hc, Exec.error_bind])⟩
    | ok t =>
      have hstep : step table (before ++ k :: after, s) (.callback k kernel) =
          .ok (before ++ k :: after, t) := by
        simp only [step, hc, Exec.ok_bind, Exec.pure_ok]
      rw [Exec.ok_bind]
      by_cases hbusy :
          ((table k).serviceCount s == (table k).serviceCount t && (table k).interest t) = true
      · rw [if_pos hbusy]
        obtain ⟨hcount, hint⟩ := Bool.and_eq_true_iff.mp hbusy
        exact .inl ⟨_, rfl, .busy .start hallowed hstep (beq_iff_eq.mp hcount) hint⟩
      · rw [if_neg hbusy]
        refine .inr ⟨true, t, rfl, ?_, fun j hj hg => hG.callback hj hg hc⟩
        simpa using Exec.Reach.one hallowed hstep
  · rw [if_neg hready]
    refine .inr ⟨true, s, rfl, ?_, fun _ _ hg => hg⟩
    simpa using Exec.Reach.start

theorem service_outcome (hG : Guards table P R G) (before : List κ) (pollfds : List (κ × Bool))
    (answers : List (Revents × ι)) (s : σ)
    (hsorted : (before ++ pollfds.map Prod.fst).Pairwise R)
    (hguards : ∀ x ∈ pollfds, x.2 = true → G x.1 true s)
    (hE : ∀ x ∈ pollfds.zip answers, E x.1.1 x.2.1 x.2.2) :
    (∃ fault, service table pollfds answers s = .error fault ∧
      Throws table G E (before ++ pollfds.map Prod.fst, s) fault) ∨
    ∃ rules t, service table pollfds answers s = .ok (rules, t) ∧
      Exec.Reach (step table) (Allowed table G E) (before ++ pollfds.map Prod.fst, s)
        (before ++ rules, t) ∧ rules.Sublist (pollfds.map Prod.fst) := by
  induction pollfds generalizing before answers s with
  | nil => exact .inr ⟨[], s, rfl, .start, .slnil⟩
  | cons x pollfds ih =>
    obtain ⟨k, polled⟩ := x
    cases answers with
    | nil => exact .inr ⟨_, s, rfl, .start, .refl _⟩
    | cons answer answers =>
      obtain ⟨revents, kernel⟩ := answer
      have hk : ∀ j ∈ pollfds.map Prod.fst, R k j :=
        (List.pairwise_cons.mp (List.pairwise_append.mp hsorted).2.1).1
      have hone : E k revents kernel := hE ((k, polled), revents, kernel) (by simp)
      have hmore : ∀ x ∈ pollfds.zip answers, E x.1.1 x.2.1 x.2.2 := by
        intro x hx
        exact hE x (by rw [List.zip_cons_cons]; exact List.mem_cons_of_mem _ hx)
      rw [service]
      rcases handle_outcome hG before (pollfds.map Prod.fst) k polled revents kernel s hsorted
          (hguards (k, polled) List.mem_cons_self) hone with
        ⟨fault, hf, hthrows⟩ | ⟨stays, t, ht, hreach, hframe⟩
      · exact .inl ⟨fault, by rw [hf]; rfl, hthrows⟩
      · have hguards' : ∀ x ∈ pollfds, x.2 = true → G x.1 true t := by
          intro x hx hp
          exact hframe x.1 (hk x.1 (List.mem_map_of_mem hx))
            (hguards x (List.mem_cons_of_mem _ hx) hp)
        have hsub' : ((before ++ if stays then [k] else []) ++ pollfds.map Prod.fst).Sublist
            (before ++ k :: pollfds.map Prod.fst) := by
          cases stays with
          | true => simp
          | false => simp
        rw [ht, Exec.ok_bind]
        rcases ih (before ++ if stays then [k] else []) answers t (hsorted.sublist hsub') hguards'
            hmore with ⟨fault, hf, hthrows⟩ | ⟨rules, u, hu, hreach', hsub⟩
        · exact .inl ⟨fault, by simp only [hf, Exec.error_bind], hthrows.earlier hreach⟩
        · refine .inr ⟨if stays then k :: rules else rules, u, by simp only [hu]; rfl, ?_, ?_⟩
          · have hall := hreach.trans hreach'
            cases stays with
            | true => simpa using hall
            | false => simpa using hall
          · cases stays with
            | true => exact hsub.cons_cons _
            | false => exact hsub.cons _

/-- **A call of `wait_next_event`.** It reaches its result by callbacks and cancellations, and
throws because one of these does, because a callback did nothing, or because `poll` reports an
error. When it exits, and not because of a signal, no rule that is left was interested. -/
theorem waitNextEvent_outcome (hG : Guards table P R G) {rules : List κ} {s : σ} {poll : Poll ι}
    (hP : P s) (hsorted : rules.Pairwise R) (hE : Answered table E rules s poll) :
    (∃ fault, waitNextEvent table rules s poll = .error fault ∧ Throws table G E (rules, s) fault) ∨
    ∃ res left t, waitNextEvent table rules s poll = .ok (res, left, t) ∧
      Exec.Reach (step table) (Allowed table G E) (rules, s) (left, t) ∧ left.Sublist rules ∧
      (res = .exit → (∀ k ∈ left, G k false t) ∨ poll = .interrupted) := by
  unfold waitNextEvent
  rcases setUp_outcome (E := E) hG [] rules s hP hsorted with
    ⟨fault, hf, ht⟩ | ⟨pollfds, u, hu, hset⟩
  · exact .inl ⟨fault, by rw [hf]; rfl, ht⟩
  rw [hu, Exec.ok_bind]
  dsimp only
  have hreach := hset.reach
  rw [List.nil_append, List.nil_append] at hreach
  by_cases hpoll : (!pollfds.any Prod.snd) = true
  · rw [if_pos hpoll]
    refine .inr ⟨.exit, _, u, rfl, hreach, hset.sublist, fun _ => .inl ?_⟩
    intro k hk
    obtain ⟨⟨k, polled⟩, hx, rfl⟩ := List.mem_map.mp hk
    have hidle : polled = false := by
      have hnone : pollfds.any Prod.snd = false := by simpa using hpoll
      simpa using List.any_eq_false.mp hnone (k, polled) hx
    rw [← hidle]
    exact hset.guards (k, polled) hx
  rw [if_neg hpoll]
  cases poll with
  | timeout => exact .inr ⟨.timeout, _, u, rfl, hreach, hset.sublist, fun h => nomatch h⟩
  | interrupted => exact .inr ⟨.exit, _, u, rfl, hreach, hset.sublist, fun _ => .inr rfl⟩
  | failed => exact .inr ⟨.success, _, u, rfl, hreach, hset.sublist, fun h => nomatch h⟩
  | ready answers =>
    have hguards : ∀ x ∈ pollfds, x.2 = true → G x.1 true u := by
      intro x hx hp
      rw [← hp]
      exact hset.guards x hx
    rcases service_outcome hG [] pollfds answers u (hsorted.sublist hset.sublist) hguards
        (hE pollfds u answers hu rfl) with ⟨fault, hf, hthrows⟩ | ⟨left, t, ht, hreach', hsub⟩
    · exact .inl ⟨fault, by simp only [hf, Exec.error_bind], hthrows.earlier hreach⟩
    · exact .inr ⟨.success, left, t, by simp only [ht]; rfl, hreach.trans hreach',
        hsub.trans hset.sublist, fun h => nomatch h⟩

end

end EventLoop

end Sponge
