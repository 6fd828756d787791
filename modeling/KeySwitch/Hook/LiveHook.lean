import KeySwitch.Hook.Rounds

/-!
# A live hook, and the credit that an idle watchdog forgets

Where the hook is alive every raw key event has a callback of its own. `Seen`
names the tick that reads the event and the tick that counts its callback; which
of the two Windows delivers first is open, within the bounds of `Explains`: the
callback is counted by the tick after the read at the latest, and an event whose
callback was counted is read by the first later tick that leaves no backlog.

The watchdog matches the two as totals. Between ticks `k - 1` and `k`, `owed`
events are unread although their callback was counted, and `due` were read and
wait for theirs. The invariant (`Covered`): the credit and the callbacks due cover
the events owed, as far as the raw counter has room for more, and evidence stands
only while a callback is due, so the tick before a decision drops it.

One step breaks it. `rawBatch` clears the credit when it wakes an idle watchdog,
also of the callbacks the last tick counted for events still on their way
(`idle_forgets_credit`): a live hook is then reported. In every run in which no
event is owed when ticking starts again, or no credit is left, a live hook is
never reported (`live_hook_kept`).
-/

namespace KeySwitch.Hook

open Data Lib

/-- A raw key event of a live hook: the tick that reads it, and the tick that
counts its callback. -/
structure Seen where
  read : Nat
  counted : Nat
  deriving DecidableEq, Repr

/-- The events unread at tick `k` whose callback an earlier tick counted. -/
def owed (seen : List Seen) (k : Nat) : Nat := seen.countP fun e => e.counted < k ∧ k ≤ e.read

/-- The events read before tick `k` whose callback no earlier tick counted. -/
def due (seen : List Seen) (k : Nat) : Nat := seen.countP fun e => e.read < k ∧ k ≤ e.counted

/-- No callback is counted later than the first tick after the one that reads its event. -/
def Prompt (seen : List Seen) : Prop := ∀ e ∈ seen, e.counted ≤ e.read + 1

/-- The round of tick `k` is one of the schedule `seen`: its drains read the events
to be read there, its tick counts a callback for each event to be counted there
(and any number more), and a drain that leaves no backlog has read every event
whose callback was counted before. -/
def Explains (seen : List Seen) (s : Nat × Watchdog) (r : Round) : Prop :=
  events r.batches = seen.countP (fun e => e.read = s.1) ∧
    seen.countP (fun e => e.counted = s.1) ≤ s.2.heard r.callbacks ∧
    (r.backlog = false → ∀ e ∈ seen, e.counted < s.1 → e.read ≤ s.1)

instance (seen : List Seen) : Decidable (Prompt seen) := by
  unfold Prompt
  infer_instance

instance (seen : List Seen) (s : Nat × Watchdog) (r : Round) :
    Decidable (Explains seen s r) := by
  unfold Explains
  infer_instance

/-- The schedules of a live hook. -/
def live (seen : List Seen) : Machine (Nat × Watchdog) Round Verdict :=
  rounds.restrict (Explains seen)

instance (seen : List Seen) (s : Nat × Watchdog) (r : Round) :
    Decidable ((live seen).enabled s r) :=
  inferInstanceAs (Decidable (True ∧ Explains seen s r))

/-! ## Counting a tick's events by where their callbacks are -/

/-- How the events of tick `k` split: `old` of those owed are read now and `rest`
are not; of the callbacks counted now, `same` are of events read now and `new` of
events still to be read; `next` of the events read now are counted later. -/
theorem split_events {seen : List Seen} (hp : Prompt seen) (k : Nat) :
    ∃ old rest same new next,
      owed seen k = old + rest ∧ seen.countP (fun e => e.read = k) = old + same + next ∧
      seen.countP (fun e => e.counted = k) = due seen k + same + new ∧
      owed seen (k + 1) = rest + new ∧ due seen (k + 1) = next ∧
      ((∀ e ∈ seen, e.counted < k → e.read ≤ k) → rest = 0) := by
  refine ⟨seen.countP fun e => e.counted < k ∧ e.read = k,
    seen.countP fun e => e.counted < k ∧ k < e.read,
    seen.countP fun e => e.counted = k ∧ e.read = k,
    seen.countP fun e => e.counted = k ∧ k < e.read,
    seen.countP fun e => e.read = k ∧ e.counted = k + 1, ?_⟩
  unfold owed due
  induction seen with
  | nil => simp
  | cons e es ih =>
    obtain ⟨h1, h2, h3, h4, h5, h6⟩ := ih fun x hx => hp x (List.mem_cons_of_mem _ hx)
    have he := hp e List.mem_cons_self
    simp only [List.countP_cons, decide_eq_true_eq]
    refine ⟨?_, ?_, ?_, ?_, ?_, ?_⟩
    · rw [h1]; split_ifs <;> omega
    · rw [h2]; split_ifs <;> omega
    · rw [h3]; split_ifs <;> omega
    · rw [h4]; split_ifs <;> omega
    · rw [h5]; split_ifs <;> omega
    · intro hread
      have hrest := h6 fun x hx => hread x (List.mem_cons_of_mem _ hx)
      have := hread e List.mem_cons_self
      rw [hrest]
      split_ifs <;> omega

/-! ## The invariant -/

/-- Between two ticks: every event read was counted, the credit and the callbacks
due cover the events owed as far as the counter has room, and evidence stands only
while a callback is due. -/
structure Covered (seen : List Seen) (s : Nat × Watchdog) : Prop where
  room : s.2.rawEvents ≤ U64_MAX
  read : s.2.rawAtLastTick = s.2.rawEvents
  credit : min (owed seen s.1) (U64_MAX - s.2.rawEvents) ≤ s.2.credit + due seen s.1
  evidence : 0 < s.2.evidence → 0 < due seen s.1

/-- Where an idle watchdog is woken, no event is owed or no credit is left. -/
def WakesSettled (seen : List Seen) (s : Nat × Watchdog) (r : Round) : Prop :=
  s.2.nextTick = none → (firstRead r.batches).isSome → owed seen s.1 = 0 ∨ s.2.credit = 0

instance (seen : List Seen) (s : Nat × Watchdog) (r : Round) :
    Decidable (WakesSettled seen s r) := by
  unfold WakesSettled
  infer_instance

/-- Reading an interval's batches leaves the events owed covered. -/
theorem read_covers {seen : List Seen} {s : Nat × Watchdog} {r : Round} (hc : Covered seen s)
    (hw : WakesSettled seen s r) :
    min (owed seen s.1) (U64_MAX - s.2.rawEvents) ≤
      (s.2.read r.batches).credit + due seen s.1 := by
  have hold := hc.credit
  cases hn : s.2.nextTick with
  | some next =>
    rw [(Watchdog.read_ticking hn r.batches).2.2]
    exact hold
  | none =>
    cases hf : firstRead r.batches with
    | none =>
      rw [Watchdog.read_none hf]
      exact hold
    | some b =>
      rw [(Watchdog.read_idle hn hf).2.2]
      have hsettled := hw hn (by rw [hf]; rfl)
      omega

/-- One round of a live hook keeps the cover. -/
theorem covered_round {seen : List Seen} (hp : Prompt seen) {s : Nat × Watchdog} {r : Round}
    (hc : Covered seen s) (hx : Explains seen s r) (hw : WakesSettled seen s r) :
    Covered seen (rounds.step s r).1 := by
  obtain ⟨old, rest, same, new, next, howed, hread, hcounted, howed', hdue', hrest⟩ :=
    split_events hp s.1
  obtain ⟨hevents, hheard, hbacklog⟩ := hx
  have hcover := read_covers hc hw
  have hroom := hc.room
  obtain ⟨hraw, hlast, hcalls, hevidence, -, -⟩ := s.2.read_counts r.batches hc.room
  have hsame := hc.read
  have hold := hc.evidence
  show Covered seen (s.1 + 1, ((s.2.read r.batches).tick r.now r.callbacks r.backlog).1)
  generalize s.2.read r.batches = w at *
  have hh : w.heard r.callbacks = s.2.heard r.callbacks := by
    unfold Watchdog.heard
    rw [hcalls]
  have harrived : w.arrived = w.rawEvents - s.2.rawEvents := by
    unfold Watchdog.arrived
    rw [hlast, hsame]
  have hunexplained := w.unexplained_eq
  by_cases hz : w.heard r.callbacks = 0
  · -- no callback is due, so what the credit does not cover is read before its callback
    rw [Watchdog.tick_silent hz]
    refine ⟨by show w.rawEvents ≤ _; omega, rfl, ?_, ?_⟩
    · show min (owed seen (s.1 + 1)) (U64_MAX - w.rawEvents) ≤
        w.kept r.backlog + due seen (s.1 + 1)
      unfold Watchdog.kept Watchdog.explained
      split
      next => omega
      next hb =>
        have := hrest (hbacklog (by simpa using hb))
        omega
    · show 0 < saturatingAdd U64_MAX w.evidence w.unexplained → 0 < due seen (s.1 + 1)
      unfold saturatingAdd
      omega
  · rw [Watchdog.tick_heard (by omega)]
    refine ⟨by show w.rawEvents ≤ _; omega, rfl, ?_, fun h => absurd h (Nat.lt_irrefl 0)⟩
    show min (owed seen (s.1 + 1)) (U64_MAX - w.rawEvents) ≤
      saturatingAdd U64_MAX (w.kept r.backlog) (w.heard r.callbacks - w.unexplained) +
        due seen (s.1 + 1)
    unfold saturatingAdd Watchdog.kept Watchdog.explained
    split
    next => omega
    next hb =>
      have := hrest (hbacklog (by simpa using hb))
      omega

theorem covered_invariant {seen : List Seen} (hp : Prompt seen) :
    ((live seen).restrict (WakesSettled seen)).Invariant (Covered seen) :=
  fun _ _ hc he => covered_round hp hc he.1.2 he.2

/-- A covered watchdog asks for nothing: what evidence there is goes with the
callback that is due. -/
theorem covered_keeps {seen : List Seen} (hp : Prompt seen) {s : Nat × Watchdog} {r : Round}
    (hc : Covered seen s) (hx : Explains seen s r) :
    (rounds.step s r).2.isReinstall = false := by
  by_contra h
  obtain ⟨old, rest, same, new, next, -, -, hcounted, -, -, -⟩ := split_events hp s.1
  obtain ⟨-, -, hcalls, hevidence, -, -⟩ := s.2.read_counts r.batches hc.room
  have hasks : ((s.2.read r.batches).tick r.now r.callbacks r.backlog).2.isReinstall = true :=
    Bool.eq_true_of_not_eq_false h
  obtain ⟨hz, hd⟩ := Watchdog.tick_isReinstall.mp hasks
  have hheard : s.2.heard r.callbacks = 0 := by
    unfold Watchdog.heard at hz ⊢
    rw [← hcalls]
    exact hz
  have hmin := (Watchdog.decides_iff.mp hd).2.1
  rw [hevidence] at hmin
  have hdue := hc.evidence (by unfold MIN_EVIDENCE at hmin; omega)
  have := hx.2.1
  omega

/-! ## The claim of a live hook -/

/-- **A live hook is never reported**, in every schedule of a live hook in which no
event is owed or no credit is left whenever ticking starts again. -/
theorem live_hook_kept {seen : List Seen} (hp : Prompt seen) {now : Instant}
    {callbacks : UInt64} {schedule : List Round}
    (hl : ((live seen).restrict (WakesSettled seen)).Legal (0, Watchdog.new now callbacks)
      schedule) :
    ∀ x ∈ (live seen).trace (0, Watchdog.new now callbacks) schedule,
      x.output.isReinstall = false := by
  intro x hx
  have hstart : Covered seen (0, Watchdog.new now callbacks) := by
    refine ⟨Nat.zero_le _, rfl, ?_, fun h => absurd h (Nat.lt_irrefl 0)⟩
    have howed : owed seen 0 = 0 := by simp [owed]
    rw [howed]
    omega
  rw [← Machine.restrict_trace (WakesSettled seen)] at hx
  obtain ⟨hc, he, hmoment⟩ := (covered_invariant hp).trace hstart hl x hx
  rw [hmoment]
  exact covered_keeps hp hc he.1.2

/-- Rounds that read nothing and count no callback beyond `callbacks`, a quarter of
a second apart. -/
def emptyRounds (first : Instant) (callbacks : UInt64) (n : Nat) : List Round :=
  (List.range n).map fun i => ⟨[], first + i * TICK, callbacks, false⟩

/-- One key; two seconds later the last tick counts the callbacks of two more, and
their raw input arrives right after it. -/
def lateInput : List Round :=
  ⟨[⟨1, 0⟩], TICK, 1, false⟩ :: emptyRounds (2 * TICK) 1 6 ++
    [⟨[], 8 * TICK, 3, false⟩, ⟨[⟨2, 2010000000⟩], 2260000000, 3, false⟩] ++
    emptyRounds 2510000000 3 3

/-- One key; ticking stops two seconds later, and starts again eight seconds after that
with two keys, of which the callback of the second is counted by the tick after. -/
def keysAgain : List Round :=
  ⟨[⟨1, 0⟩], TICK, 1, false⟩ :: emptyRounds (2 * TICK) 1 7 ++
    [⟨[⟨2, 40 * TICK⟩], 41 * TICK, 2, false⟩] ++ emptyRounds (42 * TICK) 3 6

/-- Idle before the two keys, the watchdog ticks after them, and does not ask for a
reinstall a second later. -/
theorem live_hook_kept_keysAgain :
    let start := ((0, Watchdog.new 0 0) : Nat × Watchdog)
    (rounds.run start (keysAgain.take 8)).2.nextTick = none ∧
      (rounds.run start (keysAgain.take 9)).2.nextTick = some (42 * TICK) ∧
      (rounds.moment (rounds.run start (keysAgain.take 13))
        ⟨[], 46 * TICK, 3, false⟩).output.isReinstall = false := by
  intro start
  have hprompt : Prompt [⟨0, 0⟩, ⟨8, 8⟩, ⟨8, 9⟩] := by decide
  have hlegal : ((live [⟨0, 0⟩, ⟨8, 8⟩, ⟨8, 9⟩]).restrict
      (WakesSettled [⟨0, 0⟩, ⟨8, 8⟩, ⟨8, 9⟩])).Legal start keysAgain := by decide
  exact ⟨by decide, by decide, live_hook_kept hprompt hlegal _
    (List.mem_of_getElem? (show _[13]? = some _ from rfl))⟩

/-- The tick that goes idle counts the callbacks of two events read right after it:
the batch that wakes the watchdog forgets their credit, and a second later the live
hook is reported. -/
theorem idle_forgets_credit :
    Prompt [⟨0, 0⟩, ⟨8, 7⟩, ⟨8, 7⟩] ∧
      (live [⟨0, 0⟩, ⟨8, 7⟩, ⟨8, 7⟩]).Legal (0, Watchdog.new 0 0) lateInput ∧
      ∃ x ∈ (live [⟨0, 0⟩, ⟨8, 7⟩, ⟨8, 7⟩]).trace (0, Watchdog.new 0 0) lateInput,
        x.output.isReinstall = true := by
  decide

end KeySwitch.Hook
