import KeySwitch.Hook.Decision

/-!
# Evidence belongs to the silence

A request rests on raw key events that no callback explains, and on a silence
measured from `quietSince`. `Sighted` is the watchdog with the read time of every
raw key event it counts: `fresh` are those read since the last tick, `backing`
those a tick found unexplained, the first of an interval's events taken as the
explained ones. It only watches: `sighted_dog` says that its watchdog is the one
of `decision`.

Three calls move `quietSince`. A tick that counts a callback and an answer or a
decline drop the evidence with it. `rawBatch` after idle does not: evidence of
long ago counts toward the new silence (`stray_evidence`). Where ticking starts
again with no evidence left, each request is backed by events of its own silence
(`requests_backed`).
-/

namespace KeySwitch.Hook

open Data Lib

/-- One raw key event that a drain read. -/
structure Sighting where
  readAt : Instant
  /-- How many ticks had ended before it was read. -/
  ticksBefore : Nat
  deriving DecidableEq, Repr

/-- The watchdog, with the raw key events behind its counts. -/
structure Sighted where
  dog : Watchdog
  clock : Instant
  ticks : Nat
  /-- The events read since the last tick. -/
  fresh : List Sighting
  /-- The events no callback explained, since the evidence was dropped last. -/
  backing : List Sighting
  deriving DecidableEq, Repr

namespace Sighted

/-- A watchdog that has no raw key event on its books. -/
def start (dog : Watchdog) (now : Instant) : Sighted := ⟨dog, now, 0, [], []⟩

/-- What becomes of the raw key events at a call. -/
def note (s : Sighted) : Call → Sighted
  | .rawBatch count now => { s with fresh := s.fresh ++ List.replicate count ⟨now, s.ticks⟩ }
  | .tick _ callbacks _ => { s with
      ticks := s.ticks + 1
      fresh := []
      backing :=
        if 0 < s.dog.heard callbacks then [] else s.backing ++ s.fresh.drop s.dog.explained }
  | .answered .. | .declined _ => { s with fresh := [], backing := [] }
  | .notSent => s

/-- One call, with the events it reads, explains or drops. -/
def call (s : Sighted) (c : Call) : Sighted × Option Verdict :=
  ({ s.note c with dog := (s.dog.call c).1, clock := c.now?.getD s.clock }, (s.dog.call c).2)

/-- Of the raw key events no callback explains, those the silence of a request
can rest on: read within it, and before the previous tick ended. -/
def ofSilence (s : Sighted) : List Sighting :=
  s.backing.filter fun e => decide (s.dog.quietSince ≤ e.readAt ∧ e.ticksBefore < s.ticks)

end Sighted

/-- The watchdog under calls whose instants never go back. -/
def sighted : Machine Sighted Call (Option Verdict) where
  step := Sighted.call
  enabled s c := ∀ now ∈ c.now?, s.clock ≤ now

instance (s : Sighted) (c : Call) : Decidable (sighted.enabled s c) :=
  inferInstanceAs (Decidable (∀ now ∈ c.now?, s.clock ≤ now))

/-- The sightings change nothing: the watchdog is the decision's. -/
theorem sighted_dog (s : Sighted) (calls : List Call) :
    (sighted.run s calls).dog = decision.run s.dog calls := by
  induction calls generalizing s with
  | nil => rfl
  | cons c calls ih => exact ih _

/-! ## What the counts count -/

/-- Each count is one of events on the list. -/
structure Booked (s : Sighted) : Prop where
  arrived : s.dog.arrived ≤ s.fresh.length
  evidence : s.dog.evidence ≤ s.backing.length

theorem booked_start {w : Watchdog} (ha : w.rawAtLastTick = w.rawEvents) (he : w.evidence = 0)
    (now : Instant) : Booked (Sighted.start w now) where
  arrived := by
    show w.rawEvents - w.rawAtLastTick ≤ 0
    omega
  evidence := by
    show w.evidence ≤ 0
    omega

/-- A batch puts its events on the list of those read since the last tick. -/
theorem arrived_rawBatch {s : Sighted} (h : s.dog.arrived ≤ s.fresh.length) (count : Nat)
    (now : Instant) :
    (s.dog.rawBatch count now).arrived ≤
      (s.fresh ++ List.replicate count (Sighting.mk now s.ticks)).length := by
  rw [List.length_append, List.length_replicate]
  by_cases hc : count = 0
  · rw [hc, Watchdog.rawBatch_zero]
    exact h
  · unfold Watchdog.arrived at h ⊢
    rw [Watchdog.rawBatch_rawEvents hc, (s.dog.rawBatch_keeps count now).1]
    unfold saturatingAdd
    omega

/-- Any call keeps each count one of events on the list. -/
theorem booked_call {s : Sighted} (hb : Booked s) (c : Call) : Booked (s.call c).1 := by
  cases c with
  | rawBatch count now =>
    refine ⟨arrived_rawBatch hb.arrived count now, ?_⟩
    show (s.dog.rawBatch count now).evidence ≤ s.backing.length
    rw [(s.dog.rawBatch_keeps count now).2.2.1]
    exact hb.evidence
  | tick now callbacks backlog =>
    have hcall : (s.call (.tick now callbacks backlog)).1 =
        ⟨(s.dog.tick now callbacks backlog).1, now, s.ticks + 1, [],
          if 0 < s.dog.heard callbacks then [] else s.backing ++ s.fresh.drop s.dog.explained⟩ :=
      rfl
    rw [hcall]
    by_cases hh : 0 < s.dog.heard callbacks
    · rw [if_pos hh, Watchdog.tick_heard hh]
      exact ⟨by simp [Watchdog.arrived], Nat.zero_le _⟩
    · rw [if_neg hh, Watchdog.tick_silent (by omega)]
      refine ⟨by simp [Watchdog.arrived], ?_⟩
      have hold := hb.evidence
      have hlen := hb.arrived
      show saturatingAdd U64_MAX s.dog.evidence s.dog.unexplained ≤ _
      rw [List.length_append, List.length_drop]
      unfold saturatingAdd Watchdog.unexplained
      omega
  | answered now outcome => exact ⟨by simp [Sighted.call, Watchdog.call, Watchdog.answered,
      Watchdog.startOver, Watchdog.arrived], Nat.zero_le _⟩
  | notSent => exact ⟨hb.arrived, hb.evidence⟩
  | declined now => exact ⟨by simp [Sighted.call, Watchdog.call, Watchdog.declined,
      Watchdog.startOver, Watchdog.arrived], Nat.zero_le _⟩

/-- After any calls, the evidence counts events that the calls themselves read. -/
theorem booked_run {s : Sighted} (hb : Booked s) (calls : List Call) :
    Booked (sighted.run s calls) := by
  induction calls generalizing s with
  | nil => exact hb
  | cons c calls ih => exact ih (booked_call hb c)

/-- The books are right: each count is one of events on the list, and the events
read since the last tick are of the silence. -/
structure Backed (s : Sighted) : Prop where
  arrived : s.dog.arrived ≤ s.fresh.length
  evidence : s.dog.evidence ≤ s.ofSilence.length
  quiet : s.dog.quietSince ≤ s.clock
  since : ∀ e ∈ s.fresh, s.dog.quietSince ≤ e.readAt
  before : ∀ e ∈ s.fresh, e.ticksBefore ≤ s.ticks
  /-- Idle, no event waits for a tick. -/
  asleep : s.dog.nextTick = none → s.fresh = []

theorem backed_start {w : Watchdog} {now : Instant} (ha : w.rawAtLastTick = w.rawEvents)
    (he : w.evidence = 0) (hq : w.quietSince ≤ now) : Backed (Sighted.start w now) where
  arrived := by
    show w.rawEvents - w.rawAtLastTick ≤ 0
    omega
  evidence := by
    show w.evidence ≤ _
    omega
  quiet := hq
  since := by simp [Sighted.start]
  before := by simp [Sighted.start]
  asleep := fun _ => rfl

/-- The call wakes an idle watchdog. -/
def Wakes (w : Watchdog) : Call → Prop
  | .rawBatch count _ => count ≠ 0 ∧ w.nextTick = none
  | _ => False

instance (w : Watchdog) (c : Call) : Decidable (Wakes w c) := by
  unfold Wakes
  split <;> infer_instance

/-- Ticking starts again with no evidence left. -/
def WakesFresh (s : Sighted) (c : Call) : Prop := Wakes s.dog c → s.dog.evidence = 0

instance (s : Sighted) (c : Call) : Decidable (WakesFresh s c) :=
  inferInstanceAs (Decidable (Wakes s.dog c → s.dog.evidence = 0))

theorem backed_rawBatch {s : Sighted} {count : Nat} {now : Instant} (hb : Backed s)
    (hnow : s.clock ≤ now) (hw : WakesFresh s (.rawBatch count now)) :
    Backed (s.call (.rawBatch count now)).1 := by
  have hcall : (s.call (.rawBatch count now)).1 = { s with
      dog := s.dog.rawBatch count now
      clock := now
      fresh := s.fresh ++ List.replicate count ⟨now, s.ticks⟩ } := rfl
  rw [hcall]
  have hquiet := hb.quiet
  by_cases hc : count = 0
  · subst hc
    rw [Watchdog.rawBatch_zero, List.replicate_zero, List.append_nil]
    exact { hb with quiet := Nat.le_trans hquiet hnow }
  have hcounted := arrived_rawBatch hb.arrived count now
  have hread : ∀ e ∈ s.fresh ++ List.replicate count (Sighting.mk now s.ticks),
      e ∈ s.fresh ∨ e = ⟨now, s.ticks⟩ := fun e he =>
    (List.mem_append.mp he).imp id List.eq_of_mem_replicate
  have hbefore : ∀ e ∈ s.fresh ++ List.replicate count (Sighting.mk now s.ticks),
      e.ticksBefore ≤ s.ticks := by
    intro e he
    rcases hread e he with he | rfl
    · exact hb.before e he
    · exact Nat.le_refl _
  cases hn : s.dog.nextTick with
  | some due =>
    rw [Watchdog.rawBatch_ticking hc hn] at hcounted ⊢
    refine ⟨hcounted, hb.evidence, Nat.le_trans hquiet hnow, ?_, hbefore, ?_⟩
    · intro e he
      show s.dog.quietSince ≤ e.readAt
      rcases hread e he with he | rfl
      · exact hb.since e he
      · exact Nat.le_trans hquiet hnow
    · intro hnone
      rw [show s.dog.nextTick = none from hnone] at hn
      cases hn
  | none =>
    rw [Watchdog.rawBatch_idle hc hn] at hcounted ⊢
    refine ⟨hcounted, ?_, Nat.le_refl now, ?_, hbefore, fun h => by cases h⟩
    · -- the silence starts again here, and no evidence is left of the one before
      show s.dog.evidence ≤ _
      rw [hw ⟨hc, hn⟩]
      exact Nat.zero_le _
    · intro e he
      show now ≤ e.readAt
      rcases hread e he with he | rfl
      · rw [hb.asleep hn] at he
        cases he
      · exact Nat.le_refl _

/-- A tick keeps the books: the unexplained events of its interval back what it
adds to the evidence. -/
theorem backed_tick {s : Sighted} {now : Instant} {callbacks : UInt64} {backlog : Bool}
    (hb : Backed s) (hnow : s.clock ≤ now) :
    Backed (s.call (.tick now callbacks backlog)).1 := by
  have hcall : (s.call (.tick now callbacks backlog)).1 =
      ⟨(s.dog.tick now callbacks backlog).1, now, s.ticks + 1, [],
        if 0 < s.dog.heard callbacks then [] else s.backing ++ s.fresh.drop s.dog.explained⟩ := rfl
  rw [hcall]
  by_cases hh : 0 < s.dog.heard callbacks
  · rw [if_pos hh, Watchdog.tick_heard hh]
    refine ⟨?_, Nat.zero_le _, Nat.le_refl now, ?_, ?_, fun _ => rfl⟩
    · simp [Watchdog.arrived]
    · simp
    · simp
  · rw [if_neg hh, Watchdog.tick_silent (by omega)]
    refine ⟨?_, ?_, Nat.le_trans hb.quiet hnow, ?_, ?_, fun _ => rfl⟩
    · simp [Watchdog.arrived]
    · -- what the tick found unexplained is on the list, after what was there
      have hold := hb.evidence
      have hkeep : s.ofSilence.length ≤ (s.backing.filter fun e =>
          decide (s.dog.quietSince ≤ e.readAt ∧ e.ticksBefore < s.ticks + 1)).length := by
        refine (List.monotone_filter_right s.backing ?_).length_le
        intro e he
        obtain ⟨hq, ht⟩ := of_decide_eq_true he
        exact decide_eq_true ⟨hq, by omega⟩
      have hnew : ((s.fresh.drop s.dog.explained).filter fun e =>
          decide (s.dog.quietSince ≤ e.readAt ∧ e.ticksBefore < s.ticks + 1)) =
            s.fresh.drop s.dog.explained := by
        rw [List.filter_eq_self]
        intro e he
        have hmem := List.mem_of_mem_drop he
        have hbefore := hb.before e hmem
        exact decide_eq_true ⟨hb.since e hmem, by omega⟩
      have hlen := hb.arrived
      have hmax : saturatingAdd U64_MAX s.dog.evidence s.dog.unexplained ≤
          s.dog.evidence + s.dog.unexplained := Nat.min_le_left ..
      show saturatingAdd U64_MAX s.dog.evidence s.dog.unexplained ≤ _
      unfold Sighted.ofSilence
      dsimp only
      rw [List.filter_append, List.length_append, hnew, List.length_drop]
      unfold Watchdog.unexplained at hmax ⊢
      omega
    · simp
    · simp

/-- An answer or a decline takes the evidence off the books. -/
theorem backed_startOver {w : Watchdog} {now : Instant} {ticks : Nat} :
    Backed ⟨w.startOver now, now, ticks, [], []⟩ where
  arrived := by simp [Watchdog.startOver, Watchdog.arrived]
  evidence := Nat.zero_le _
  quiet := Nat.le_refl now
  since := by simp
  before := by simp
  asleep := fun _ => rfl

/-- One call keeps the books, where ticking starts again with no evidence. -/
theorem backed_call {s : Sighted} {c : Call} (hb : Backed s) (hc : sighted.enabled s c)
    (hw : WakesFresh s c) : Backed (s.call c).1 := by
  cases c with
  | rawBatch count now => exact backed_rawBatch hb (hc now rfl) hw
  | tick now callbacks backlog => exact backed_tick hb (hc now rfl)
  | answered now outcome =>
    have hcall : (s.call (.answered now outcome)).1 =
        ⟨s.dog.answered now outcome, now, s.ticks, [], []⟩ := rfl
    rw [hcall]
    exact backed_startOver
  | notSent => exact { hb with }
  | declined now =>
    have hcall : (s.call (.declined now)).1 =
        ⟨s.dog.declined now, now, s.ticks, [], []⟩ := rfl
    rw [hcall]
    exact backed_startOver

theorem backed_invariant : (sighted.restrict WakesFresh).Invariant Backed :=
  fun _ _ hb hc => backed_call hb hc.1 hc.2

/-! ## The claim of a request -/

/-- A watchdog made at `now`, with no event on its books. -/
def Sighted.new (now : Instant) (callbacks : UInt64) : Sighted :=
  Sighted.start (Watchdog.new now callbacks) now

/-- **Each request is backed by its own silence**, in every run whose ticking
starts again with no evidence left: by at least two raw key events that no callback
explains, all read within the silence and each before the previous tick ended. -/
theorem requests_backed {now : Instant} {callbacks : UInt64} {calls : List Call}
    (hl : (sighted.restrict WakesFresh).Legal (Sighted.new now callbacks) calls) :
    ∀ x ∈ sighted.trace (Sighted.new now callbacks) calls,
      x.output.any Verdict.isReinstall = true → MIN_EVIDENCE ≤ x.before.ofSilence.length := by
  intro x hx hv
  have hstart : Backed (Sighted.new now callbacks) := backed_start rfl rfl (Nat.le_refl now)
  rw [← Machine.restrict_trace WakesFresh] at hx
  obtain ⟨hb, -, hmoment⟩ := backed_invariant.trace hstart hl x hx
  rw [hmoment] at hv
  obtain ⟨t, heartbeat, backlog, -, -, hd⟩ := Watchdog.call_asks (w := x.before.dog) hv
  exact Nat.le_trans (Watchdog.decides_iff.mp hd).2.1 hb.evidence

/-- Ticks a quarter of a second apart from `due` on, no callback counted. -/
def quietTicks (due : Instant) (n : Nat) : List Call :=
  (List.range n).map fun i => .tick (due + i * TICK) 0 false

/-- One stray event that no callback explains, and ticking goes idle; one more
eight seconds later. -/
def strayCalls : List Call :=
  .rawBatch 1 0 :: quietTicks TICK 8 ++ .rawBatch 1 10000000000 :: quietTicks 10250000000 4

/-- Two keys of the silence: the tick that asks a second later has both. -/
theorem requests_backed_typing :
    MIN_EVIDENCE ≤
      (sighted.run (Sighted.new 0 0) (.rawBatch 2 0 :: quietTicks TICK 3)).ofSilence.length :=
  @requests_backed 0 0 (.rawBatch 2 0 :: quietTicks TICK 4) (by decide)
    (sighted.moment (sighted.run (Sighted.new 0 0) (.rawBatch 2 0 :: quietTicks TICK 3))
      (.tick (4 * TICK) 0 false))
    (List.mem_of_getElem? (show _[4]? = some _ from rfl)) (by decide)

/-- The last tick of `strayCalls` asks for a reinstall, and of its two pieces of
evidence one is older than the silence. -/
theorem stray_evidence :
    sighted.Legal (Sighted.new 0 0) strayCalls ∧
      ∃ x ∈ sighted.trace (Sighted.new 0 0) strayCalls,
        x.output.any Verdict.isReinstall = true ∧ ¬ MIN_EVIDENCE ≤ x.before.ofSilence.length := by
  decide

end KeySwitch.Hook
