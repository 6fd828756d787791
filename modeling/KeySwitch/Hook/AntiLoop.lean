import KeySwitch.Hook.Evidence
import KeySwitch.Hook.Ticker

/-!
# The anti-loop rule

Over any run of the watchdog thread's passes, at instants that never go back:

1. a request is made only while none is outstanding, which is while the ticker
   keeps no receiver (`Bound`);
2. no callback was counted by the tick that asks, nor by any tick later than
   `quietSince`;
3. the silence is the one the backoff asks for: `SILENCE * 2 ^ min n 6`, where `n`
   (`failures`) counts the reinstalled and failed answers since the last callback;
4. after an answer or a decline a whole such window passes, and the request rests
   on raw key events that were read after it and that no callback explains;
5. so two requests that were sent are that far apart, unless the main thread
   dropped the first one unanswered.

The last exception is real: a dropped request counts as one that was not sent, and
the next tick asks again (`dropped_request_asked_again`).

Each part is a fact about one pass (`Bound.turn`, `quiet_turn`, `attempts_turn`,
`settled_turn`), carried along the passes in between.
-/

namespace KeySwitch.Hook

open Data Lib

/-- One pass of a run. -/
abbrev Turn := Moment Ticker Wake Passed

namespace Turn

/-- The calls of the pass. -/
def calls (x : Turn) : List Call := x.before.watchdog.passCalls x.before.reply x.input

/-- The watchdog when the pass looks whether its tick is due. -/
def met (x : Turn) : Watchdog := x.before.watchdog.met x.before.reply x.input

/-- The tick of the pass counted a callback. -/
def countsCallback (x : Turn) : Bool :=
  x.output.verdict.isSome && decide (x.input.callbacks ≠ x.before.watchdog.lastCallbacks)

/-- The pass took the answer to a reinstall, done or failed. -/
def failure (x : Turn) : Bool :=
  decide (x.output.answer = some (.ok .reinstalled) ∨ x.output.answer = some (.ok .failed))

/-- The pass took an answer or declined: the watchdog starts over. -/
def settles (x : Turn) : Prop :=
  (∃ outcome, x.output.answer = some (.ok outcome)) ∨ x.output.declined = true

/-- The pass asked for a reinstall. -/
def asks (x : Turn) : Bool := x.output.verdict.any Verdict.isReinstall

/-- The pass sent a request. -/
def sends (x : Turn) : Bool := Ticker.sent x.output.verdict x.input

end Turn

/-- `n` failures in a row before a pass, and after it. -/
def failuresAfter (n : Nat) (x : Turn) : Nat :=
  if x.countsCallback then 0 else if x.failure then n + 1 else n

/-- The reinstalled and failed answers since the last tick that counted a callback. -/
def failures (past : List Turn) : Nat := past.foldl failuresAfter 0

/-- The silence a request needs after `n` attempts in a row. -/
def windowOf (n : Nat) : Duration := SILENCE * 2 ^ min n MAX_BACKOFF_SHIFT

/-! ## One turn -/

/-- The signal of the timer is nothing to the rest of a pass. -/
theorem Ticker.turn_spec (t : Ticker) (wake : Wake) :
    (t.turn wake).1.watchdog = decision.run t.watchdog (t.watchdog.passCalls t.reply wake) ∧
      (t.turn wake).2.answer = (if t.reply ∧ wake.recv ≠ .empty then some wake.recv else none) ∧
      (t.turn wake).2.verdict =
        (if (t.watchdog.met t.reply wake).due wake.now then
          some ((t.watchdog.met t.reply wake).tick wake.now wake.callbacks wake.pending).2
        else none) ∧
      (t.turn wake).1.reply =
        ((t.reply && decide (wake.recv = .empty)) || sent (t.turn wake).2.verdict wake) ∧
      (t.turn wake).2.declined =
        ((t.turn wake).2.verdict.any Verdict.isReinstall &&
          decide (wake.inputHere ≠ some true)) := by
  have hpass : ∀ u : Ticker, u.watchdog = t.watchdog → u.reply = t.reply →
      (u.pass wake).1.watchdog = decision.run t.watchdog (t.watchdog.passCalls t.reply wake) ∧
      (u.pass wake).2.answer = (if t.reply ∧ wake.recv ≠ .empty then some wake.recv else none) ∧
      (u.pass wake).2.verdict =
        (if (t.watchdog.met t.reply wake).due wake.now then
          some ((t.watchdog.met t.reply wake).tick wake.now wake.callbacks wake.pending).2
        else none) ∧
      (u.pass wake).1.reply =
        ((t.reply && decide (wake.recv = .empty)) || sent (u.pass wake).2.verdict wake) ∧
      (u.pass wake).2.declined =
        ((u.pass wake).2.verdict.any Verdict.isReinstall &&
          decide (wake.inputHere ≠ some true)) := by
    rintro u hw hr
    rw [← hw, ← hr]
    exact ⟨u.pass_watchdog wake, u.pass_answer wake, u.pass_verdict wake, u.pass_reply wake,
      u.pass_declined wake⟩
  unfold turn
  split
  next => exact hpass t.fired rfl rfl
  next => exact hpass t rfl rfl

/-- A moment of a run of passes is one turn. -/
theorem turn_of_mem {t : Ticker} {wakes : List Wake} {x : Turn} (hx : x ∈ ticker.trace t wakes) :
    x = ticker.moment x.before x.input := by
  have hall : ticker.Invariant (fun _ => True) := fun _ _ _ _ => trivial
  exact (hall.trace trivial (ticker.legal_of_enabled (fun _ _ => trivial) t wakes) x hx).2.2

namespace Watchdog

/-! ## The calls of a pass and each part of the watchdog -/

/-- No call moves the silence back. -/
theorem le_quietSince_call {w : Watchdog} {c : Call} {t : Instant} (h : t ≤ w.quietSince)
    (hc : ∀ now ∈ c.now?, t ≤ now) : t ≤ (w.call c).1.quietSince := by
  cases c with
  | rawBatch count now =>
    show t ≤ (w.rawBatch count now).quietSince
    by_cases hz : count = 0
    · rw [hz, rawBatch_zero]
      exact h
    · cases hn : w.nextTick with
      | some due =>
        rw [rawBatch_ticking hz hn]
        exact h
      | none =>
        rw [rawBatch_idle hz hn]
        exact hc now rfl
  | tick now callbacks backlog =>
    show t ≤ (w.tick now callbacks backlog).1.quietSince
    by_cases hh : 0 < w.heard callbacks
    · rw [tick_heard hh]
      exact hc now rfl
    · rw [tick_silent (by omega)]
      exact h
  | answered now outcome => cases outcome <;> exact hc now rfl
  | notSent => exact h
  | declined now => exact hc now rfl

theorem le_quietSince_run {w : Watchdog} {calls : List Call} {t : Instant}
    (h : t ≤ w.quietSince) (hc : ∀ c ∈ calls, ∀ now ∈ c.now?, t ≤ now) :
    t ≤ (decision.run w calls).quietSince := by
  induction calls generalizing w with
  | nil => exact h
  | cons c calls ih =>
    exact ih (le_quietSince_call h (hc c List.mem_cons_self))
      fun d hd => hc d (List.mem_cons_of_mem _ hd)

end Watchdog

/-- Every call of a pass is given the pass's instant. -/
theorem passCalls_now {w : Watchdog} {reply : Bool} {wake : Wake} :
    ∀ c ∈ w.passCalls reply wake, ∀ now ∈ c.now?, now = wake.now := by
  have hbefore : ∀ c ∈ callsBefore reply wake, ∀ now ∈ c.now?, now = wake.now := by
    unfold callsBefore
    intro c hc now hnow
    rcases List.mem_append.mp hc with hc | hc
    · split at hc
      next =>
        obtain rfl := List.mem_singleton.mp hc
        exact (Option.some.inj hnow).symm
      next => cases hc
    · split at hc
      next =>
        split at hc
        next =>
          obtain rfl := List.mem_singleton.mp hc
          exact (Option.some.inj hnow).symm
        next => cases hc
        next =>
          obtain rfl := List.mem_singleton.mp hc
          cases hnow
      next => cases hc
  have hask : ∀ c ∈ askCalls wake, ∀ now ∈ c.now?, now = wake.now := by
    unfold askCalls
    intro c hc now hnow
    split at hc
    next =>
      split at hc
      next => cases hc
      next =>
        obtain rfl := List.mem_singleton.mp hc
        cases hnow
    next =>
      obtain rfl := List.mem_singleton.mp hc
      exact (Option.some.inj hnow).symm
  intro c hc now hnow
  unfold Watchdog.passCalls at hc
  rcases List.mem_append.mp hc with hc | hc
  · exact hbefore c hc now hnow
  · split at hc
    next =>
      rcases List.mem_cons.mp hc with rfl | hc
      · exact (Option.some.inj hnow).symm
      · split at hc
        next => exact hask c hc now hnow
        next => cases hc
    next => cases hc

namespace Watchdog

/-- The watchdog after the batch of a pass, which counts or not. -/
theorem met_eq (w : Watchdog) (reply : Bool) (wake : Wake) :
    ∃ b : Watchdog, (b = w ∨ b = w.rawBatch wake.keys wake.now) ∧
      w.met reply wake =
        if reply then
          match wake.recv with
          | .ok outcome => b.answered wake.now outcome
          | .empty => b
          | .disconnected => b.notSent
        else b := by
  unfold met callsBefore
  rw [Machine.run_append]
  split
  next =>
    refine ⟨w.rawBatch wake.keys wake.now, .inr rfl, ?_⟩
    cases reply with
    | false => rfl
    | true => cases wake.recv <;> rfl
  next =>
    refine ⟨w, .inl rfl, ?_⟩
    cases reply with
    | false => rfl
    | true => cases wake.recv <;> rfl

/-- What the batch and the answer of a pass do to the flags and the backoff. -/
theorem met_flags (w : Watchdog) (reply : Bool) (wake : Wake) :
    (w.met reply wake).lastCallbacks = w.lastCallbacks ∧
      (w.met reply wake).outstanding =
        (w.outstanding && !(reply && decide (wake.recv ≠ .empty))) ∧
      (w.met reply wake).attempts =
        if reply ∧ (wake.recv = .ok .reinstalled ∨ wake.recv = .ok .failed) then
          saturatingAdd U32_MAX w.attempts 1
        else w.attempts := by
  obtain ⟨b, hb, hmet⟩ := met_eq w reply wake
  have hsame : b.lastCallbacks = w.lastCallbacks ∧ b.outstanding = w.outstanding ∧
      b.attempts = w.attempts := by
    rcases hb with rfl | rfl
    · exact ⟨rfl, rfl, rfl⟩
    · obtain ⟨-, h1, -, h2, h3⟩ := w.rawBatch_keeps wake.keys wake.now
      exact ⟨h1, h2, h3⟩
  obtain ⟨h1, h2, h3⟩ := hsame
  rw [hmet]
  cases reply with
  | false => simp [h1, h2, h3]
  | true =>
    cases hv : wake.recv with
    | ok outcome => cases outcome <;> simp [answered, startOver, h1, h3]
    | empty => simp [h1, h2, h3]
    | disconnected => simp [notSent, h1, h3]

/-- An answer taken starts the watchdog over. -/
theorem met_answered {w : Watchdog} {wake : Wake} {outcome : ReinstallOutcome}
    (h : wake.recv = .ok outcome) :
    (w.met true wake).evidence = 0 ∧ (w.met true wake).quietSince = wake.now ∧
      (w.met true wake).rawAtLastTick = (w.met true wake).rawEvents := by
  obtain ⟨b, -, hmet⟩ := met_eq w true wake
  rw [hmet, if_pos rfl, h]
  cases outcome <;> exact ⟨rfl, rfl, rfl⟩

end Watchdog

/-! ## What one pass does -/

namespace Turn

/-- The watchdog right after the tick of the pass. -/
def ticked (x : Turn) : Watchdog :=
  (x.met.tick x.input.now x.input.callbacks x.input.pending).1

variable {x : Turn}

theorem verdict_eq (hx : x = ticker.moment x.before x.input) :
    x.output.verdict = if x.met.due x.input.now then
      some (x.met.tick x.input.now x.input.callbacks x.input.pending).2 else none := by
  rw [hx]
  exact (Ticker.turn_spec x.before x.input).2.2.1

theorem asks_eq (hx : x = ticker.moment x.before x.input) :
    x.asks = (x.met.due x.input.now &&
      (x.met.tick x.input.now x.input.callbacks x.input.pending).2.isReinstall) := by
  unfold asks
  rw [verdict_eq hx]
  cases x.met.due x.input.now <;> rfl

/-- A pass that asks counts no callback, and its decision said so. -/
theorem asks_iff (hx : x = ticker.moment x.before x.input) :
    x.asks = true ↔ x.met.due x.input.now = true ∧ x.met.heard x.input.callbacks = 0 ∧
      x.met.decides x.input.now = true := by
  rw [asks_eq hx, Bool.and_eq_true, Watchdog.tick_isReinstall]

theorem countsCallback_iff (hx : x = ticker.moment x.before x.input) :
    x.countsCallback = true ↔
      x.met.due x.input.now = true ∧ 0 < x.met.heard x.input.callbacks := by
  have hlast : x.met.lastCallbacks = x.before.watchdog.lastCallbacks :=
    (x.before.watchdog.met_flags x.before.reply x.input).1
  have hheard : 0 < x.met.heard x.input.callbacks ↔
      x.input.callbacks ≠ x.before.watchdog.lastCallbacks := by
    rw [Nat.pos_iff_ne_zero, ne_eq, Watchdog.heard_eq_zero, hlast]
  unfold countsCallback
  rw [verdict_eq hx, hheard]
  cases x.met.due x.input.now <;> simp

/-- The watchdog a pass leaves. -/
theorem after_eq (hx : x = ticker.moment x.before x.input) :
    x.after.watchdog =
      if x.met.due x.input.now then
        if x.asks then decision.run x.ticked (askCalls x.input) else x.ticked
      else x.met := by
  rw [asks_eq hx]
  rw [show x.after.watchdog = (x.before.turn x.input).1.watchdog by rw [hx]; rfl]
  rw [(Ticker.turn_spec x.before x.input).1]
  show decision.run x.before.watchdog (x.before.watchdog.passCalls x.before.reply x.input) = _
  unfold Watchdog.passCalls
  rw [Machine.run_append]
  show decision.run x.met (if x.met.due x.input.now then tickCalls x.met x.input else []) = _
  cases x.met.due x.input.now with
  | false => rfl
  | true =>
    unfold tickCalls
    rw [if_pos rfl, if_pos rfl, Bool.true_and]
    cases (x.met.tick x.input.now x.input.callbacks x.input.pending).2.isReinstall <;> rfl

theorem reply_eq (hx : x = ticker.moment x.before x.input) :
    x.after.reply = ((x.before.reply && decide (x.input.recv = .empty)) || x.sends) := by
  have h := (Ticker.turn_spec x.before x.input).2.2.2.1
  unfold sends
  rw [hx]
  exact h

theorem answer_eq (hx : x = ticker.moment x.before x.input) :
    x.output.answer =
      if x.before.reply ∧ x.input.recv ≠ .empty then some x.input.recv else none := by
  rw [hx]
  exact (Ticker.turn_spec x.before x.input).2.1

theorem declined_eq (hx : x = ticker.moment x.before x.input) :
    x.output.declined = (x.asks && decide (x.input.inputHere ≠ some true)) := by
  have h := (Ticker.turn_spec x.before x.input).2.2.2.2
  unfold asks
  rw [hx]
  exact h

theorem sends_eq : x.sends =
    (x.asks && decide (x.input.inputHere = some true) && x.input.accepts) := rfl

end Turn

/-- A request that is asked for stays outstanding if it is sent; if not, nothing is
outstanding. -/
theorem askCalls_outstanding (w : Watchdog) (wake : Wake) :
    (decision.run w (askCalls wake)).outstanding =
      (w.outstanding && (decide (wake.inputHere = some true) && wake.accepts)) := by
  unfold askCalls
  cases wake.inputHere with
  | none => simp [Machine.run, decision, Watchdog.call, Watchdog.declined, Watchdog.startOver]
  | some here =>
    cases here with
    | false => simp [Machine.run, decision, Watchdog.call, Watchdog.declined, Watchdog.startOver]
    | true =>
      cases ha : wake.accepts <;> simp [Machine.run, decision, Watchdog.call, Watchdog.notSent]

theorem askCalls_attempts (w : Watchdog) (wake : Wake) :
    (decision.run w (askCalls wake)).attempts = w.attempts := by
  unfold askCalls
  split
  next => split <;> rfl
  next => rfl

/-- A request is outstanding exactly while the ticker keeps the receiver of its
answer. -/
def Bound (t : Ticker) : Prop := t.watchdog.outstanding = t.reply

namespace Turn

variable {x : Turn}

/-- When a pass looks at its tick, a request is outstanding if no answer came. -/
theorem met_outstanding (hb : Bound x.before) :
    x.met.outstanding = (x.before.reply && decide (x.input.recv = .empty)) := by
  unfold met
  rw [(x.before.watchdog.met_flags x.before.reply x.input).2.1, hb]
  cases x.before.reply <;> cases hv : x.input.recv <;> simp

theorem bound (hx : x = ticker.moment x.before x.input) (hb : Bound x.before) : Bound x.after := by
  have hmet := met_outstanding hb
  unfold Bound
  rw [reply_eq hx, after_eq hx, sends_eq, ← hmet]
  split
  next hd =>
    have htick : x.ticked.outstanding = (x.met.outstanding || x.asks) := by
      rw [asks_eq hx, hd, Bool.true_and]
      exact Watchdog.tick_outstanding
    cases ha : x.asks with
    | false =>
      rw [if_neg Bool.false_ne_true, htick, ha]
      rfl
    | true =>
      have hfree : x.met.outstanding = false :=
        (Watchdog.decides_iff.mp ((asks_iff hx).mp ha).2.2).1
      rw [if_pos rfl, askCalls_outstanding, htick, ha, hfree]
      simp
  next hd =>
    have ha : x.asks = false := by
      rw [asks_eq hx]
      simp [hd]
    simp [ha]

/-- What a pass does to the backoff. -/
theorem attempts_eq (hx : x = ticker.moment x.before x.input) :
    x.after.watchdog.attempts =
      if x.countsCallback then 0
      else if x.failure then saturatingAdd U32_MAX x.before.watchdog.attempts 1
      else x.before.watchdog.attempts := by
  have hmet : x.met.attempts =
      if x.failure then saturatingAdd U32_MAX x.before.watchdog.attempts 1
      else x.before.watchdog.attempts := by
    unfold met failure
    rw [(x.before.watchdog.met_flags x.before.reply x.input).2.2, answer_eq hx]
    cases x.before.reply <;> cases hv : x.input.recv <;> simp
  have hcounts := countsCallback_iff hx
  rw [after_eq hx, ← hmet]
  cases hd : x.met.due x.input.now with
  | false =>
    have hno : ¬ x.countsCallback = true := fun h => by
      rw [hd] at hcounts
      exact Bool.false_ne_true (hcounts.mp h).1
    rw [if_neg hno, if_neg Bool.false_ne_true]
  | true =>
    have htick : x.ticked.attempts = if x.countsCallback then 0 else x.met.attempts := by
      refine Watchdog.tick_attempts.trans ?_
      rw [hd] at hcounts
      simp only [hcounts, true_and]
    rw [if_pos rfl, ← htick]
    split
    next => exact askCalls_attempts x.ticked x.input
    next => rfl

theorem calls_eq (hx : x = ticker.moment x.before x.input) :
    x.after.watchdog = decision.run x.before.watchdog x.calls := by
  have h := (Ticker.turn_spec x.before x.input).1
  unfold calls
  rw [hx]
  exact h

/-- No pass moves the silence back. -/
theorem le_quietSince (hx : x = ticker.moment x.before x.input) {t : Instant}
    (h : t ≤ x.before.watchdog.quietSince) (hnow : t ≤ x.input.now) :
    t ≤ x.after.watchdog.quietSince := by
  rw [calls_eq hx]
  exact Watchdog.le_quietSince_run h fun c hc now hcnow => passCalls_now c hc now hcnow ▸ hnow

theorem le_quietSince_met {t : Instant} (h : t ≤ x.before.watchdog.quietSince)
    (hnow : t ≤ x.input.now) : t ≤ x.met.quietSince :=
  Watchdog.le_quietSince_run h fun c hc now hcnow =>
    (passCalls_now (w := x.before.watchdog) c (List.mem_append_left _ hc) now hcnow) ▸ hnow

/-- A pass that counts a callback starts the silence again. -/
theorem quietSince_counts (hx : x = ticker.moment x.before x.input)
    (h : x.countsCallback = true) : x.after.watchdog.quietSince = x.input.now := by
  obtain ⟨hd, hh⟩ := (countsCallback_iff hx).mp h
  have hno : x.asks = false := by
    by_contra ha
    have := ((asks_iff hx).mp (Bool.eq_true_of_not_eq_false ha)).2.1
    omega
  rw [after_eq hx, if_pos hd, hno, if_neg Bool.false_ne_true]
  unfold ticked
  rw [Watchdog.tick_heard hh]

/-- A pass that takes an answer asks for nothing. -/
theorem asks_answered (hx : x = ticker.moment x.before x.input) {outcome : ReinstallOutcome}
    (h : x.output.answer = some (.ok outcome)) :
    x.asks = false ∧ x.before.reply = true ∧ x.input.recv = .ok outcome := by
  rw [answer_eq hx] at h
  split at h
  next hc =>
    have hr := Option.some.inj h
    refine ⟨?_, hc.1, hr⟩
    by_contra ha
    have hmin := (Watchdog.decides_iff.mp
      ((asks_iff hx).mp (Bool.eq_true_of_not_eq_false ha)).2.2).2.1
    unfold met at hmin
    rw [hc.1, (Watchdog.met_answered hr).1] at hmin
    cases hmin
  next => cases h

/-- **A pass that takes an answer or declines** leaves no evidence, no event to
count, and a silence that starts there. -/
theorem settled (hx : x = ticker.moment x.before x.input) (h : x.settles) :
    x.after.watchdog.evidence = 0 ∧ x.after.watchdog.quietSince = x.input.now ∧
      x.after.watchdog.rawAtLastTick = x.after.watchdog.rawEvents := by
  rcases h with ⟨outcome, h⟩ | h
  · obtain ⟨ha, hreply, hr⟩ := asks_answered hx h
    obtain ⟨h1, h2, h3⟩ := Watchdog.met_answered (w := x.before.watchdog) hr
    rw [← hreply] at h1 h2 h3
    rw [after_eq hx, ha, if_neg Bool.false_ne_true]
    split
    next =>
      -- the tick of the same pass finds no event to count
      unfold ticked
      have hunexplained : x.met.unexplained = 0 := by
        rw [Watchdog.unexplained_eq]
        unfold Watchdog.arrived met
        rw [h3]
        omega
      by_cases hh : 0 < x.met.heard x.input.callbacks
      · rw [Watchdog.tick_heard hh]
        exact ⟨rfl, rfl, rfl⟩
      · rw [Watchdog.tick_silent (by omega), hunexplained]
        refine ⟨?_, h2, rfl⟩
        show saturatingAdd U64_MAX x.met.evidence 0 = 0
        unfold met
        rw [h1]
        rfl
    next => exact ⟨h1, h2, h3⟩
  · rw [declined_eq hx, Bool.and_eq_true, decide_eq_true_eq] at h
    have hd := ((asks_iff hx).mp h.1).1
    rw [after_eq hx, if_pos hd, if_pos h.1]
    have hask : askCalls x.input = [.declined x.input.now] := by
      unfold askCalls
      split
      next heq => exact absurd heq h.2
      next => rfl
    rw [hask]
    exact ⟨rfl, rfl, rfl⟩

end Turn

/-! ## Along a run -/

/-- The calls of the passes since `y` and of `x` before its tick. -/
def callsBetween (since : List Turn) (x : Turn) : List Call :=
  since.flatMap Turn.calls ++ callsBefore x.before.reply x.input

/-- The raw key events that were read after the pass `y` and that no callback
explains, when the tick of `x` decides. -/
def unexplainedSince (y : Turn) (since : List Turn) (x : Turn) : List Sighting :=
  (sighted.run (Sighted.start y.after.watchdog y.input.now) (callsBetween since x)).backing

/-- The decision over a run of passes is a run of its calls. -/
theorem run_watchdog (t : Ticker) (wakes : List Wake) :
    (ticker.run t wakes).watchdog =
      decision.run t.watchdog ((ticker.trace t wakes).flatMap Turn.calls) := by
  induction wakes generalizing t with
  | nil => rfl
  | cons wake wakes ih =>
    rw [Machine.run_cons, ih, Machine.trace_cons, List.flatMap_cons, Machine.run_append]
    have h : (ticker.moment t wake).after.watchdog =
        decision.run t.watchdog (Turn.calls (ticker.moment t wake)) := Turn.calls_eq rfl
    rw [← h]
    rfl

theorem run_bound {t : Ticker} (hb : Bound t) (wakes : List Wake) :
    Bound (ticker.run t wakes) := by
  induction wakes generalizing t with
  | nil => exact hb
  | cons wake wakes ih => exact ih (Turn.bound (x := ticker.moment t wake) rfl hb)

/-- A silence that starts no earlier than `u` starts no earlier than that in a run
after `u`. -/
theorem run_quietSince {t : Ticker} {u : Instant} (h : u ≤ t.watchdog.quietSince)
    {wakes : List Wake} (hw : ∀ wake ∈ wakes, u ≤ wake.now) :
    u ≤ (ticker.run t wakes).watchdog.quietSince := by
  induction wakes generalizing t with
  | nil => exact h
  | cons wake wakes ih =>
    exact ih (Turn.le_quietSince (x := ticker.moment t wake) rfl h (hw wake List.mem_cons_self))
      fun v hv => hw v (List.mem_cons_of_mem _ hv)

/-- The backoff counts the failures since the last callback. -/
theorem run_attempts (t : Ticker) (wakes : List Wake) {n : Nat}
    (h : t.watchdog.attempts = min n U32_MAX) :
    (ticker.run t wakes).watchdog.attempts =
      min ((ticker.trace t wakes).foldl failuresAfter n) U32_MAX := by
  induction wakes generalizing t n with
  | nil => exact h
  | cons wake wakes ih =>
    refine ih _ ?_
    have hstep := Turn.attempts_eq (x := ticker.moment t wake) rfl
    rw [show (ticker.step t wake).1.watchdog.attempts =
      (ticker.moment t wake).after.watchdog.attempts from rfl, hstep, Machine.moment_before, h]
    unfold failuresAfter
    split
    next => rfl
    next =>
      split
      next =>
        unfold saturatingAdd U32_MAX
        omega
      next => rfl

/-- Where a pass stands in a run: the state it met, and the passes before it. -/
theorem run_split {t : Ticker} {wakes : List Wake} {pre post : List Turn} {x : Turn}
    (h : ticker.trace t wakes = pre ++ x :: post) :
    ∃ js, pre = ticker.trace t js ∧ x.before = ticker.run t js ∧
      x = ticker.moment x.before x.input := by
  obtain ⟨js, i, ks, -, hpre, hx, -⟩ := Machine.trace_split h
  exact ⟨js, hpre, by rw [hx]; rfl, by rw [hx]; rfl⟩

/-- An earlier pass in a run, with the passes between. -/
theorem run_between {t : Ticker} {wakes : List Wake} {old since post : List Turn} {y x : Turn}
    (h : ticker.trace t wakes = old ++ y :: (since ++ x :: post)) :
    y = ticker.moment y.before y.input ∧ x = ticker.moment x.before x.input ∧
      ∃ js, since = ticker.trace y.after js ∧ x.before = ticker.run y.after js := by
  obtain ⟨js, i, ks, -, -, hy, hrest⟩ := Machine.trace_split h
  obtain ⟨ls, hsince, hbefore, hx⟩ := run_split hrest.symm
  exact ⟨by rw [hy]; rfl, hx, ls, hsince, hbefore⟩

/-- Instants do not go back along a run. -/
theorem run_ordered {t : Ticker} {wakes : List Wake} {old since post : List Turn} {y x : Turn}
    (htimes : (wakes.map Wake.now).Pairwise (· ≤ ·))
    (h : ticker.trace t wakes = old ++ y :: (since ++ x :: post)) :
    (∀ z ∈ since, y.input.now ≤ z.input.now) ∧ y.input.now ≤ x.input.now ∧
      ∀ z ∈ since, z.input.now ≤ x.input.now := by
  rw [← ticker.trace_inputs t wakes, h] at htimes
  simp only [List.map_append, List.map_cons, List.pairwise_append, List.pairwise_cons,
    List.mem_append, List.mem_cons, List.mem_map] at htimes
  obtain ⟨-, ⟨hy, -, -, hsince⟩, -⟩ := htimes
  refine ⟨fun z hz => hy _ (.inl ⟨z.input, ⟨z, hz, rfl⟩, rfl⟩), hy _ (.inr (.inl rfl)), ?_⟩
  exact fun z hz => hsince _ ⟨z.input, ⟨z, hz, rfl⟩, rfl⟩ _ (.inl rfl)

/-- The silence of a later pass starts no earlier than a pass that started it again. -/
theorem quietSince_met {t : Ticker} {wakes : List Wake} {old since post : List Turn} {y x : Turn}
    (htimes : (wakes.map Wake.now).Pairwise (· ≤ ·))
    (h : ticker.trace t wakes = old ++ y :: (since ++ x :: post))
    (hy : y.after.watchdog.quietSince = y.input.now) : y.input.now ≤ x.met.quietSince := by
  obtain ⟨-, -, js, hsince, hbefore⟩ := run_between h
  obtain ⟨hlater, hx, -⟩ := run_ordered htimes h
  refine Turn.le_quietSince_met ?_ hx
  rw [hbefore]
  refine run_quietSince (Nat.le_of_eq hy.symm) fun wake hw => ?_
  rw [← ticker.trace_inputs y.after js, ← hsince] at hw
  obtain ⟨z, hz, rfl⟩ := List.mem_map.mp hw
  exact hlater z hz

/-- The evidence of a later pass counts events read after a pass that started over. -/
theorem evidence_since {t : Ticker} {wakes : List Wake} {old since post : List Turn} {y x : Turn}
    (h : ticker.trace t wakes = old ++ y :: (since ++ x :: post)) (hy : y.settles) :
    x.met.evidence ≤ (unexplainedSince y since x).length := by
  obtain ⟨hmoment, -, js, hsince, hbefore⟩ := run_between h
  obtain ⟨he, -, ha⟩ := Turn.settled hmoment hy
  have hbook := booked_run (booked_start ha he y.input.now) (callsBetween since x)
  have hdog : (sighted.run (Sighted.start y.after.watchdog y.input.now)
      (callsBetween since x)).dog = x.met := by
    rw [sighted_dog]
    unfold callsBetween
    rw [Machine.run_append, hsince]
    show decision.run (decision.run y.after.watchdog _) _ = _
    rw [← run_watchdog, ← hbefore]
    rfl
  have hevidence := hbook.evidence
  rw [hdog] at hevidence
  exact hevidence

/-- A receiver that is gone went in some pass. -/
theorem reply_gone {t : Ticker} {wakes : List Wake} (h : t.reply = true)
    (hgone : (ticker.run t wakes).reply = false) :
    ∃ z ∈ ticker.trace t wakes, z.before.reply = true ∧ z.after.reply = false := by
  induction wakes generalizing t with
  | nil =>
    rw [Machine.run_nil, h] at hgone
    cases hgone
  | cons wake wakes ih =>
    cases hnext : (ticker.step t wake).1.reply with
    | false => exact ⟨ticker.moment t wake, List.mem_cons_self, h, hnext⟩
    | true =>
      obtain ⟨z, hz, hzr⟩ := ih hnext hgone
      exact ⟨z, List.mem_cons_of_mem _ hz, hzr⟩

/-- Between two requests that were sent, the answer to the first came, unless the main
thread dropped it. -/
theorem answered_between {t : Ticker} {wakes : List Wake} {old since post : List Turn}
    {y x : Turn} (h : ticker.trace t wakes = old ++ y :: (since ++ x :: post))
    (hb : Bound x.before) (hy : y.sends = true) (hx : x.asks = true)
    (hdrop : ∀ z ∈ since ++ [x], z.output.answer ≠ some .disconnected) :
    ∃ z ∈ since, ∃ outcome, z.output.answer = some (.ok outcome) := by
  obtain ⟨hymoment, hxmoment, js, hsince, hbefore⟩ := run_between h
  have hkept : y.after.reply = true := by
    rw [Turn.reply_eq hymoment, hy, Bool.or_true]
  have hanswer : ∀ z ∈ since ++ [x], z = ticker.moment z.before z.input →
      z.before.reply = true → z.input.recv ≠ .empty →
      ∃ outcome, z.output.answer = some (.ok outcome) := by
    intro z hz hmoment hreply hrecv
    have hans := Turn.answer_eq hmoment
    rw [if_pos ⟨hreply, hrecv⟩] at hans
    have hno := hdrop z hz
    cases hv : z.input.recv with
    | ok outcome => exact ⟨outcome, by rw [hans, hv]⟩
    | empty => exact absurd hv hrecv
    | disconnected =>
      rw [hv] at hans
      exact absurd hans hno
  have hfree := (Watchdog.decides_iff.mp ((Turn.asks_iff hxmoment).mp hx).2.2).1
  rw [Turn.met_outstanding hb] at hfree
  cases hreply : x.before.reply with
  | true =>
    -- the tick of a pass that takes an answer asks for nothing
    exfalso
    rw [hreply, Bool.true_and, decide_eq_false_iff_not] at hfree
    obtain ⟨outcome, hans⟩ :=
      hanswer x (List.mem_append_right _ List.mem_cons_self) hxmoment hreply hfree
    rw [(Turn.asks_answered hxmoment hans).1] at hx
    cases hx
  | false =>
    rw [hbefore] at hreply
    obtain ⟨z, hz, hzkept, hzgone⟩ := reply_gone hkept hreply
    have hmoment := turn_of_mem hz
    rw [← hsince] at hz
    refine ⟨z, hz, hanswer z (List.mem_append_left _ hz) hmoment hzkept fun hempty => ?_⟩
    rw [Turn.reply_eq hmoment, hzkept, hempty] at hzgone
    simp at hzgone

/-- The window of a pass that asks is the one of the failures before it. -/
theorem window_met {t : Ticker} {wakes : List Wake} {pre post : List Turn} {x : Turn}
    (h : ticker.trace t wakes = pre ++ x :: post) (ht : t.watchdog.attempts = 0)
    (hx : x.asks = true) : x.met.window = windowOf (failures (pre ++ [x])) := by
  obtain ⟨js, hpre, hbefore, hmoment⟩ := run_split h
  have hattempts : x.before.watchdog.attempts = min (failures pre) U32_MAX := by
    rw [hbefore, hpre]
    exact run_attempts t js (by rw [ht]; rfl)
  have hcounts : x.countsCallback = false := by
    by_contra hc
    have := ((Turn.countsCallback_iff hmoment).mp (Bool.eq_true_of_not_eq_false hc)).2
    have := ((Turn.asks_iff hmoment).mp hx).2.1
    omega
  have hfail : ∀ outcome, x.output.answer ≠ some (.ok outcome) := fun outcome hans => by
    rw [(Turn.asks_answered hmoment hans).1] at hx
    cases hx
  have hno : x.failure = false := by
    unfold Turn.failure
    simp [hfail]
  have hn : failures (pre ++ [x]) = failures pre := by
    unfold failures
    rw [List.foldl_append]
    simp [failuresAfter, hcounts, hno]
  have hmet : x.met.attempts = x.before.watchdog.attempts := by
    have hflags := (x.before.watchdog.met_flags x.before.reply x.input).2.2
    have hans := Turn.answer_eq hmoment
    unfold Turn.met
    rw [hflags, if_neg]
    rintro ⟨hreply, hr⟩
    rcases hr with hr | hr
    · exact hfail .reinstalled (by rw [hans, if_pos ⟨hreply, by rw [hr]; simp⟩, hr])
    · exact hfail .failed (by rw [hans, if_pos ⟨hreply, by rw [hr]; simp⟩, hr])
  have hmin : min x.met.attempts MAX_BACKOFF_SHIFT = min (failures pre) MAX_BACKOFF_SHIFT := by
    rw [hmet, hattempts]
    unfold U32_MAX MAX_BACKOFF_SHIFT
    omega
  unfold Watchdog.window windowOf
  rw [hn, hmin]

/-- **The anti-loop rule**, in every run of passes whose instants never go back. -/
theorem anti_loop {start : Instant} {seen : UInt64} {wakes : List Wake}
    (htimes : (wakes.map Wake.now).Pairwise (· ≤ ·)) :
    ∀ pre x post, ticker.trace (Ticker.new start seen) wakes = pre ++ x :: post →
      x.after.watchdog.outstanding = x.after.reply ∧
      (x.asks = true →
        let window := windowOf (failures (pre ++ [x]))
        x.met.outstanding = false ∧
        x.countsCallback = false ∧
        (∀ y ∈ pre, x.met.quietSince < y.input.now → y.countsCallback = false) ∧
        x.met.quietSince + window ≤ x.input.now ∧
        (∀ outcome, x.output.answer ≠ some (.ok outcome)) ∧
        (∀ old y since, pre = old ++ y :: since → y.settles →
          y.input.now + window ≤ x.input.now ∧
            MIN_EVIDENCE ≤ (unexplainedSince y since x).length) ∧
        ∀ old y since, pre = old ++ y :: since → y.sends = true → x.sends = true →
          (∀ z ∈ since ++ [x], z.output.answer ≠ some .disconnected) →
          y.input.now + window ≤ x.input.now) := by
  intro pre x post h
  obtain ⟨js, hpre, hbefore, hmoment⟩ := run_split h
  have hbound : Bound x.before := by
    rw [hbefore]
    exact run_bound (show Bound (Ticker.new start seen) from rfl) js
  refine ⟨Turn.bound hmoment hbound, fun hx => ?_⟩
  obtain ⟨-, hz, hd⟩ := (Turn.asks_iff hmoment).mp hx
  obtain ⟨hfree, hmin, hsilence⟩ := Watchdog.decides_iff.mp hd
  rw [window_met h rfl hx] at hsilence
  have hsplit : ∀ {old y since}, pre = old ++ y :: since →
      ticker.trace (Ticker.new start seen) wakes = old ++ y :: (since ++ x :: post) := by
    intro old y since hold
    rw [h, hold, List.append_assoc, List.cons_append]
  have hsettled : ∀ old y since, pre = old ++ y :: since → y.settles →
      y.input.now + windowOf (failures (pre ++ [x])) ≤ x.input.now ∧
        MIN_EVIDENCE ≤ (unexplainedSince y since x).length := by
    intro old y since hold hy
    have htrace := hsplit hold
    have hquiet := (Turn.settled (run_between htrace).1 hy).2.1
    have hle := quietSince_met htimes htrace hquiet
    exact ⟨Nat.le_trans (Nat.add_le_add_right hle _) hsilence,
      Nat.le_trans hmin (evidence_since htrace hy)⟩
  refine ⟨hfree, ?_, ?_, hsilence, ?_, hsettled, ?_⟩
  · by_contra hc
    have := ((Turn.countsCallback_iff hmoment).mp (Bool.eq_true_of_not_eq_false hc)).2
    omega
  · intro y hy hlater
    by_contra hc
    obtain ⟨old, since, hold⟩ := List.append_of_mem hy
    have htrace := hsplit hold
    have hquiet := Turn.quietSince_counts (run_between htrace).1 (Bool.eq_true_of_not_eq_false hc)
    exact absurd hlater (Nat.not_lt.mpr (quietSince_met htimes htrace hquiet))
  · intro outcome hans
    rw [(Turn.asks_answered hmoment hans).1] at hx
    cases hx
  · intro old y since hold hy _ hdrop
    have htrace := hsplit hold
    obtain ⟨z, hzmem, hans⟩ := answered_between htrace hbound hy hx hdrop
    obtain ⟨s₁, s₂, hs⟩ := List.append_of_mem hzmem
    -- the answer came no earlier than the first request, and the window starts there
    have hyz := (run_ordered htimes htrace).1 z hzmem
    have hz := (hsettled (old ++ y :: s₁) z s₂ (by rw [hold, hs]; simp) (.inl hans)).1
    exact Nat.le_trans (Nat.add_le_add_right hyz _) hz

/-- A turn at `now` of a ticker whose hook is silent: `keys` events read, and what the
reply channel gives. -/
def silentTurn (now : Instant) (keys : Nat) (recv : TryRecv) : Wake where
  now := now
  fired := true
  keys := keys
  pending := false
  hookInstalled := true
  callbacks := 0
  recv := recv
  inputHere := some true
  accepts := true
  timerSets := true

/-- Keys for a second and a quarter with no callback; what the main thread does with
the request of the fourth tick comes at the fifth. -/
def askedTwice (recv : TryRecv) : List Wake :=
  silentTurn 0 2 .empty :: (List.range 4).map (fun i => silentTurn ((i + 1) * TICK) 1 .empty) ++
    [silentTurn (5 * TICK) 1 recv]

/-- The fourth tick of `askedTwice`, which makes the first request. -/
def firstRequest (recv : TryRecv) : Turn :=
  ticker.moment (ticker.run (Ticker.new 0 0) ((askedTwice recv).take 4))
    (silentTurn (4 * TICK) 1 .empty)

theorem anti_loop_askedTwice :
    (firstRequest (.ok .reinstalled)).met.quietSince +
        windowOf (failures ((ticker.trace (Ticker.new 0 0)
          (askedTwice (.ok .reinstalled))).take 4 ++ [firstRequest (.ok .reinstalled)])) ≤
      (firstRequest (.ok .reinstalled)).input.now :=
  ((@anti_loop 0 0 (askedTwice (.ok .reinstalled)) (by decide) _ _
    [ticker.moment (ticker.run (Ticker.new 0 0) ((askedTwice (.ok .reinstalled)).take 5))
      (silentTurn (5 * TICK) 1 (.ok .reinstalled))] rfl).2 (by decide)).2.2.2.1

/-- The main thread drops the first request unanswered, and the next tick sends a
second one: a quarter of a second later, with no callback counted. -/
theorem dropped_request_asked_again :
    ∃ (old : List Turn) (y x : Turn),
      ticker.trace (Ticker.new 0 0) (askedTwice .disconnected) = old ++ y :: [x] ∧
        y.sends = true ∧ x.sends = true ∧ (∀ z ∈ old ++ y :: [x], z.countsCallback = false) ∧
        x.input.now < y.input.now + windowOf (failures (old ++ y :: [x])) :=
  ⟨(ticker.trace (Ticker.new 0 0) (askedTwice .disconnected)).take 4,
    firstRequest .disconnected,
    ticker.moment (ticker.run (Ticker.new 0 0) ((askedTwice .disconnected).take 5))
      (silentTurn (5 * TICK) 1 .disconnected),
    rfl, by decide, by decide, by decide, by decide⟩

end KeySwitch.Hook
