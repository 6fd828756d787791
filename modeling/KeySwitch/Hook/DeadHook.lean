import KeySwitch.Hook.Rounds

/-!
# A dead hook is reported

While the hook is dead no tick counts a callback, keys go on arriving, and every
drain reads them all. From any state with no request outstanding, ticks a `TICK`
apart then bring a request at the first of them that is at least the fifth and has
the silence the backoff asks for (`dead_hook_reported`). The first tick may lose its
events to old credit and the second only begins the evidence; from the third on
there is enough, and each tick keeps the ticking on (`Waiting`).

The counter of raw events saturates. A watchdog that has counted 2^64 - 1 of them
sees none arrive any more, and reports nothing (`full_counter_is_blind`); so the
events of the first three intervals must find room in it.
-/

namespace KeySwitch.Hook

open Data Lib

/-- The round of tick `k` of a dead hook, the first tick at `first`: no callback, no
backlog, and at least one raw event read since the tick before. -/
def Dead (first : Instant) (s : Nat × Watchdog) (r : Round) : Prop :=
  r.now = first + s.1 * TICK ∧ r.callbacks = s.2.lastCallbacks ∧ r.backlog = false ∧
    (firstRead r.batches).isSome ∧ ∀ b ∈ r.batches, b.readAt ≤ r.now ∧ r.now ≤ b.readAt + TICK

instance (first : Instant) (s : Nat × Watchdog) (r : Round) : Decidable (Dead first s r) := by
  unfold Dead
  infer_instance

/-- The continuations of a dead hook. -/
def dead (first : Instant) : Machine (Nat × Watchdog) Round Verdict := rounds.restrict (Dead first)

instance (first : Instant) (s : Nat × Watchdog) (r : Round) :
    Decidable ((dead first).enabled s r) :=
  inferInstanceAs (Decidable (True ∧ Dead first s r))

/-- Where the silence of the continuation starts: at the first batch if the watchdog
was idle. -/
def silenceStart (w : Watchdog) : List Round → Instant
  | [] => w.quietSince
  | r :: _ =>
    match w.nextTick, firstRead r.batches with
    | none, some b => b.readAt
    | _, _ => w.quietSince

/-- After `k` ticks without a request: nothing is outstanding, the silence and the
backoff are the ones of the start, it ticks, and the evidence grows with each tick
but the first. -/
structure Waiting (start : Watchdog) (quiet : Instant) (s : Nat × Watchdog) : Prop where
  free : s.2.outstanding = false
  attempts : s.2.attempts = start.attempts
  quiet : s.2.quietSince = quiet
  ticks : ∃ due, s.2.nextTick = some due
  settled : s.2.credit = 0
  read : s.2.rawAtLastTick = s.2.rawEvents
  room : s.2.rawEvents ≤ U64_MAX
  evidence : min (s.1 - 1) MIN_EVIDENCE ≤ s.2.evidence

/-! ## One tick -/

/-- A tick of a dead hook that asks for nothing. -/
theorem dead_tick {w : Watchdog} {now last : Instant} {callbacks : UInt64}
    (hheard : w.heard callbacks = 0) (hfree : w.outstanding = false)
    (hlast : w.lastRawAt = some last) (hrecent : now ≤ last + TICK)
    (hno : (w.tick now callbacks false).2.isReinstall = false) :
    (w.tick now callbacks false).1 = { w with
      rawAtLastTick := w.rawEvents
      unseenAtLastTick := w.arrived - saturatingAdd U64_MAX w.credit 0
      credit := 0
      evidence := saturatingAdd U64_MAX w.evidence w.unexplained
      nextTick := some (now + TICK) } := by
  have hd : w.decides now = false := by
    by_contra h
    rw [Watchdog.tick_isReinstall.mpr ⟨hheard, Bool.eq_true_of_not_eq_false h⟩] at hno
    cases hno
  have hne : (w.tick now callbacks false).2 ≠ .idle := by
    refine Watchdog.tick_ne_idle hlast ?_
    refine Nat.lt_of_le_of_lt hrecent ?_
    exact Nat.add_lt_add_left (by decide : TICK < ACTIVE_FOR) last
  rw [Watchdog.tick_silent hheard, if_neg hne, hd]
  simp only [hfree, Bool.or_false, Watchdog.kept, Bool.false_eq_true, if_false]

/-- An interval that reads an event while there is room counts one. -/
theorem one_le_events {batches : List Batch} (h : (firstRead batches).isSome) :
    1 ≤ events batches := by
  induction batches with
  | nil => cases h
  | cons b bs ih =>
    unfold firstRead at h ih
    rw [List.find?_cons] at h
    simp only [events, List.map_cons, List.sum_cons]
    split at h
    next hb =>
      have : b.count ≠ 0 := by simpa using hb
      omega
    next hb =>
      have := ih h
      simp only [events] at this
      omega

/-- The events that the first `n` rounds read. -/
def eventsOf (n : Nat) (schedule : List Round) : Nat :=
  ((schedule.take n).map fun r => events r.batches).sum

/-- The first tick of the continuation, from any state. -/
theorem first_round {w : Watchdog} {r : Round} {first : Instant} (rest : List Round)
    (hfree : w.outstanding = false) (hx : Dead first (0, w) r)
    (hroom : w.rawEvents + events r.batches ≤ U64_MAX)
    (hno : (rounds.step (0, w) r).2.isReinstall = false) :
    Waiting w (silenceStart w (r :: rest)) (rounds.step (0, w) r).1 := by
  obtain ⟨-, hcalls, hbacklog, hread, hnear⟩ := hx
  obtain ⟨b, hb⟩ := Option.isSome_iff_exists.mp hread
  obtain ⟨c, hc, hlast⟩ := Watchdog.read_lastRawAt (w := w) hb
  obtain ⟨hraw, -, hsame, -, hout, hattempts⟩ := w.read_counts r.batches (by omega)
  have hquiet : (w.read r.batches).quietSince = silenceStart w (r :: rest) := by
    unfold silenceStart
    dsimp only
    cases hn : w.nextTick with
    | none =>
      rw [hb]
      exact (Watchdog.read_idle hn hb).2.1
    | some due => exact (Watchdog.read_ticking hn r.batches).2.1
  have hno' : ((w.read r.batches).tick r.now r.callbacks r.backlog).2.isReinstall = false := hno
  rw [hbacklog] at hno'
  have hstep : (rounds.step (0, w) r).1 =
      (1, ((w.read r.batches).tick r.now r.callbacks r.backlog).1) := rfl
  rw [hstep, hbacklog]
  rw [dead_tick (Watchdog.heard_eq_zero.mpr (hcalls.trans hsame.symm)) (hout.trans hfree) hlast
    (hnear c hc).2 hno']
  refine ⟨hout.trans hfree, hattempts, hquiet, ⟨_, rfl⟩, rfl, rfl, ?_, Nat.zero_le _⟩
  exact Nat.le_trans (Nat.le_of_eq hraw) (Nat.min_le_right ..)

/-- A later tick, which finds the credit gone and the account settled. -/
theorem next_round {start : Watchdog} {quiet first : Instant} {s : Nat × Watchdog} {r : Round}
    (hw : Waiting start quiet s) (hpos : 0 < s.1) (hx : Dead first s r)
    (hroom : s.1 < 3 → s.2.rawEvents + events r.batches ≤ U64_MAX)
    (hno : (rounds.step s r).2.isReinstall = false) :
    Waiting start quiet (rounds.step s r).1 := by
  obtain ⟨-, hcalls, hbacklog, hread, hnear⟩ := hx
  obtain ⟨b, hb⟩ := Option.isSome_iff_exists.mp hread
  obtain ⟨c, hc, hlast⟩ := Watchdog.read_lastRawAt (w := s.2) hb
  obtain ⟨hraw, hat, hsame, hevidence, hout, hattempts⟩ := s.2.read_counts r.batches hw.room
  obtain ⟨due, hdue⟩ := hw.ticks
  obtain ⟨-, hquiet, hcredit⟩ := Watchdog.read_ticking hdue r.batches
  have hold := hw.evidence
  have hread := hw.read
  have hsettled := hw.settled
  have hone : 1 ≤ events r.batches := one_le_events (by rw [hb]; rfl)
  have hunexplained := (s.2.read r.batches).unexplained_eq
  have hno' : ((s.2.read r.batches).tick r.now r.callbacks r.backlog).2.isReinstall = false := hno
  rw [hbacklog] at hno'
  have hstep : (rounds.step s r).1 =
      (s.1 + 1, ((s.2.read r.batches).tick r.now r.callbacks r.backlog).1) := rfl
  rw [hstep, hbacklog]
  rw [dead_tick (Watchdog.heard_eq_zero.mpr (hcalls.trans hsame.symm)) (hout.trans hw.free) hlast
    (hnear c hc).2 hno']
  refine ⟨hout.trans hw.free, hattempts.trans hw.attempts, hquiet.trans hw.quiet, ⟨_, rfl⟩, rfl,
    rfl, Nat.le_trans (Nat.le_of_eq hraw) (Nat.min_le_right ..), ?_⟩
  -- each tick up to the third adds at least one event to the evidence
  show min (s.1 + 1 - 1) MIN_EVIDENCE ≤
    saturatingAdd U64_MAX (s.2.read r.batches).evidence (s.2.read r.batches).unexplained
  unfold Watchdog.arrived at hunexplained
  unfold saturatingAdd
  unfold MIN_EVIDENCE U64_MAX at *
  omega

/-- A waiting watchdog asks at the first tick with enough evidence and silence. -/
theorem waiting_asks {start : Watchdog} {quiet first : Instant} {s : Nat × Watchdog} {r : Round}
    (hw : Waiting start quiet s) (hx : Dead first s r) (hthird : 3 ≤ s.1)
    (hsilence : quiet + start.window ≤ r.now) : (rounds.step s r).2.isReinstall = true := by
  obtain ⟨-, hcalls, -, -, -⟩ := hx
  obtain ⟨-, -, hsame, hevidence, hout, hattempts⟩ := s.2.read_counts r.batches hw.room
  obtain ⟨due, hdue⟩ := hw.ticks
  obtain ⟨-, hquiet, -⟩ := Watchdog.read_ticking hdue r.batches
  have hold := hw.evidence
  have hwindow : (s.2.read r.batches).window = start.window := by
    unfold Watchdog.window
    rw [hattempts, hw.attempts]
  refine Watchdog.tick_isReinstall.mpr
    ⟨Watchdog.heard_eq_zero.mpr (hcalls.trans hsame.symm), Watchdog.decides_iff.mpr ⟨?_, ?_, ?_⟩⟩
  · rw [hout, hw.free]
  · rw [hevidence]
    unfold MIN_EVIDENCE at *
    omega
  · rw [hquiet, hw.quiet, hwindow]
    exact hsilence

/-- From a waiting watchdog on, a request comes no later than the first tick with
enough evidence and silence. -/
theorem waiting_reports {start : Watchdog} {quiet first : Instant} :
    ∀ (schedule : List Round) {s : Nat × Watchdog}, Waiting start quiet s → 0 < s.1 →
      (dead first).Legal s schedule →
      s.2.rawEvents + eventsOf (3 - s.1) schedule ≤ U64_MAX →
      ∀ {k : Nat} {x : Moment (Nat × Watchdog) Round Verdict},
        ((dead first).trace s schedule)[k]? = some x → 3 ≤ s.1 + k →
        quiet + start.window ≤ x.input.now →
        ∃ y ∈ ((dead first).trace s schedule).take (k + 1), y.output.isReinstall = true
  | [], s, _, _, _, _, k, x, hk, _, _ => by simp [Machine.trace] at hk
  | r :: rest, s, hw, hpos, hl, hroom, k, x, hk, hthird, hsilence => by
    rw [Machine.trace_cons] at hk ⊢
    rw [List.take_succ_cons]
    by_cases hre : (rounds.step s r).2.isReinstall = true
    · -- asked already
      exact ⟨_, List.mem_cons_self, hre⟩
    · have hno : (rounds.step s r).2.isReinstall = false := by simpa using hre
      cases k with
      | zero =>
        exfalso
        obtain rfl := Option.some.inj hk
        exact hre (waiting_asks hw hl.1.2 (by simpa using hthird) hsilence)
      | succ k =>
        rw [List.getElem?_cons_succ] at hk
        have hnow : s.1 < 3 → s.2.rawEvents + events r.batches + eventsOf (2 - s.1) rest ≤
            U64_MAX := by
          intro hlt
          have hthree : 3 - s.1 = (2 - s.1) + 1 := by omega
          rw [hthree] at hroom
          simp only [eventsOf, List.take_succ_cons, List.map_cons, List.sum_cons] at hroom ⊢
          omega
        have hnext := next_round hw hpos hl.1.2 (fun hlt => by have := hnow hlt; omega) hno
        have hraw : (rounds.step s r).1.2.rawEvents =
            min (s.2.rawEvents + events r.batches) U64_MAX :=
          Watchdog.tick_rawEvents.trans (s.2.read_counts r.batches hw.room).1
        have hrest : (rounds.step s r).1.2.rawEvents + eventsOf (3 - (s.1 + 1)) rest ≤ U64_MAX := by
          by_cases hlt : s.1 < 3
          · have := hnow hlt
            rw [show 3 - (s.1 + 1) = 2 - s.1 by omega]
            omega
          · have hzero : eventsOf (3 - (s.1 + 1)) rest = 0 := by
              rw [show 3 - (s.1 + 1) = 0 by omega]
              rfl
            have := hnext.room
            omega
        have hlate : 3 ≤ s.1 + 1 + k := by omega
        obtain ⟨y, hy, hyre⟩ :=
          waiting_reports rest hnext (Nat.succ_pos _) hl.2 hrest hk hlate hsilence
        exact ⟨y, List.mem_cons_of_mem _ hy, hyre⟩

/-! ## The claim of a dead hook -/

/-- **A dead hook is reported**, from any state with no request outstanding: at the
first tick that is at least the fifth and has the silence the backoff asks for, a
request has been made; and no tick stops the ticking while its evidence and silence
allow a request. -/
theorem dead_hook_reported {w : Watchdog} {first : Instant} {schedule : List Round}
    (hfree : w.outstanding = false) (hl : (dead first).Legal (0, w) schedule)
    (hroom : w.rawEvents + eventsOf 3 schedule ≤ U64_MAX) :
    (∀ (k : Nat) (x : Moment (Nat × Watchdog) Round Verdict),
      ((dead first).trace (0, w) schedule)[k]? = some x → 4 ≤ k →
      silenceStart w schedule + SILENCE * 2 ^ min w.attempts MAX_BACKOFF_SHIFT ≤ x.input.now →
      ∃ y ∈ ((dead first).trace (0, w) schedule).take (k + 1), y.output.isReinstall = true) ∧
    ∀ (v : Watchdog) (now : Instant) (callbacks : UInt64) (backlog : Bool),
      callbacks = v.lastCallbacks → MIN_EVIDENCE ≤ v.evidence →
      v.quietSince + v.window ≤ now → (v.tick now callbacks backlog).2 ≠ .idle := by
  refine ⟨?_, ?_⟩
  · intro k x hk hfifth hsilence
    cases schedule with
    | nil => simp [Machine.trace] at hk
    | cons r rest =>
      obtain ⟨k, rfl⟩ : ∃ j, k = j + 1 := ⟨k - 1, by omega⟩
      rw [Machine.trace_cons, List.take_succ_cons]
      rw [Machine.trace_cons, List.getElem?_cons_succ] at hk
      by_cases hre : (rounds.step (0, w) r).2.isReinstall = true
      · exact ⟨_, List.mem_cons_self, hre⟩
      · have hno : (rounds.step (0, w) r).2.isReinstall = false := by simpa using hre
        have hsum : w.rawEvents + events r.batches + eventsOf 2 rest ≤ U64_MAX := by
          simp only [eventsOf, List.take_succ_cons, List.map_cons, List.sum_cons] at hroom ⊢
          omega
        have hwait := first_round rest hfree hl.1.2 (by omega) hno
        have hraw : (rounds.step (0, w) r).1.2.rawEvents =
            min (w.rawEvents + events r.batches) U64_MAX :=
          Watchdog.tick_rawEvents.trans (w.read_counts r.batches (by omega)).1
        have hrest : (rounds.step (0, w) r).1.2.rawEvents + eventsOf (3 - 1) rest ≤ U64_MAX := by
          show _ + eventsOf 2 rest ≤ _
          omega
        obtain ⟨y, hy, hyre⟩ :=
          waiting_reports rest hwait Nat.one_pos hl.2 hrest hk (by omega) hsilence
        exact ⟨y, List.mem_cons_of_mem _ hy, hyre⟩
  · intro v now callbacks backlog hcalls hevidence hsilence hidle
    by_cases hout : v.outstanding = true
    · exact Watchdog.tick_ne_idle_of_outstanding hout hidle
    · have hz : v.heard callbacks = 0 := Watchdog.heard_eq_zero.mpr hcalls
      have hd : v.decides now = true :=
        Watchdog.decides_iff.mpr ⟨Bool.eq_false_of_not_eq_true hout, hevidence, hsilence⟩
      exact (Watchdog.tick_idle_iff.mp hidle).1 ⟨hz, hd⟩

/-- A key every quarter of a second, each read right after the tick before, and a
heartbeat that stands still. -/
def typing (first : Instant) (callbacks : UInt64) (n : Nat) : List Round :=
  (List.range n).map fun i => ⟨[⟨1, first + i * TICK⟩], first + (i + 1) * TICK, callbacks, false⟩

theorem dead_hook_reported_typing :
    ∃ y ∈ ((dead TICK).trace (0, Watchdog.new 0 0) (typing 0 0 5)).take 5,
      y.output.isReinstall = true :=
  (dead_hook_reported rfl (by decide) (by decide)).1 4 _ rfl (by decide) (by decide)

/-- A watchdog that has read as many events as its counter can hold, and counted
their callback. -/
def fullCounter : Watchdog := (((Watchdog.new 0 0).rawBatch U64_MAX 0).tick TICK 1 false).1

/-- A full counter counts no event any more: no request in forty ticks of a dead
hook, ten seconds. -/
theorem full_counter_is_blind :
    fullCounter.outstanding = false ∧ (dead (2 * TICK)).Legal (0, fullCounter) (typing TICK 1 40) ∧
      silenceStart fullCounter (typing TICK 1 40) +
        SILENCE * 2 ^ min fullCounter.attempts MAX_BACKOFF_SHIFT ≤ 40 * TICK ∧
      ∀ y ∈ (dead (2 * TICK)).trace (0, fullCounter) (typing TICK 1 40),
        y.output.isReinstall = false := by
  decide

end KeySwitch.Hook
