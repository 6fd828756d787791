import KeySwitch.Hook.Decision

/-!
# Rounds: the batches of an interval, then its tick

Between two ticks the drains hand over their batches; a `Round` is one interval
with the tick that ends it, and the machine `rounds` numbers the ticks from 0.
What an interval's batches leave is said here in one place (`read_counts`,
`read_ticking`, `read_idle`), for the two results about schedules of ticks.
-/

namespace KeySwitch.Hook

open Data Lib

/-- The raw key events read in one drain, and when. -/
structure Batch where
  count : Nat
  readAt : Instant
  deriving DecidableEq, Repr

/-- One interval: what its drains read, and the tick that ends it. -/
structure Round where
  batches : List Batch
  now : Instant
  callbacks : UInt64
  backlog : Bool
  deriving DecidableEq, Repr

/-- How many raw key events the batches hold. -/
def events (batches : List Batch) : Nat := (batches.map Batch.count).sum

/-- The first batch that holds an event. -/
def firstRead (batches : List Batch) : Option Batch := batches.find? fun b => b.count != 0

namespace Watchdog

/-- The watchdog after the batches of an interval. -/
def read (w : Watchdog) (batches : List Batch) : Watchdog :=
  batches.foldl (fun w b => w.rawBatch b.count b.readAt) w

/-- One round, with the verdict of its tick. -/
def round (w : Watchdog) (r : Round) : Watchdog × Verdict :=
  (w.read r.batches).tick r.now r.callbacks r.backlog

end Watchdog

/-- The rounds of a watchdog, each with the number of its tick. -/
def rounds : Machine (Nat × Watchdog) Round Verdict where
  step s r := ((s.1 + 1, (s.2.round r).1), (s.2.round r).2)
  enabled _ _ := True

namespace Watchdog

@[simp] theorem read_cons (w : Watchdog) (b : Batch) (bs : List Batch) :
    w.read (b :: bs) = (w.rawBatch b.count b.readAt).read bs := rfl

/-- The batches of an interval add their events to the count, and leave the
account of the last tick alone. -/
theorem read_counts (w : Watchdog) (batches : List Batch) (hmax : w.rawEvents ≤ U64_MAX) :
    (w.read batches).rawEvents = min (w.rawEvents + events batches) U64_MAX ∧
      (w.read batches).rawAtLastTick = w.rawAtLastTick ∧
      (w.read batches).lastCallbacks = w.lastCallbacks ∧
      (w.read batches).evidence = w.evidence ∧
      (w.read batches).outstanding = w.outstanding ∧
      (w.read batches).attempts = w.attempts := by
  induction batches generalizing w with
  | nil =>
    refine ⟨?_, rfl, rfl, rfl, rfl, rfl⟩
    show w.rawEvents = min (w.rawEvents + 0) U64_MAX
    omega
  | cons b bs ih =>
    obtain ⟨h2, h3, h4, h5, h6⟩ := w.rawBatch_keeps b.count b.readAt
    have h1 : (w.rawBatch b.count b.readAt).rawEvents = min (w.rawEvents + b.count) U64_MAX := by
      by_cases hc : b.count = 0
      · rw [hc, rawBatch_zero]
        omega
      · exact rawBatch_rawEvents hc b.readAt
    obtain ⟨i1, i2, i3, i4, i5, i6⟩ := ih (w.rawBatch b.count b.readAt) (by omega)
    rw [read_cons]
    refine ⟨?_, i2.trans h2, i3.trans h3, i4.trans h4, i5.trans h5, i6.trans h6⟩
    rw [i1, h1]
    simp only [events, List.map_cons, List.sum_cons]
    omega

/-- While ticking, the batches move neither the silence nor the credit. -/
theorem read_ticking {w : Watchdog} {due : Instant} (h : w.nextTick = some due)
    (batches : List Batch) :
    (w.read batches).nextTick = some due ∧ (w.read batches).quietSince = w.quietSince ∧
      (w.read batches).credit = w.credit := by
  induction batches generalizing w with
  | nil => exact ⟨h, rfl, rfl⟩
  | cons b bs ih =>
    rw [read_cons]
    by_cases hc : b.count = 0
    · rw [hc, rawBatch_zero]
      exact ih h
    · rw [rawBatch_ticking hc h]
      exact @ih { w with
        rawEvents := saturatingAdd U64_MAX w.rawEvents b.count, lastRawAt := some b.readAt } h

/-- Idle, batches with no event change nothing. -/
theorem read_none {w : Watchdog} {batches : List Batch} (h : firstRead batches = none) :
    w.read batches = w := by
  induction batches generalizing w with
  | nil => rfl
  | cons b bs ih =>
    unfold firstRead at h ih
    rw [List.find?_cons] at h
    split at h
    next => cases h
    next hb =>
      have hc : b.count = 0 := by simpa using hb
      rw [read_cons, hc, rawBatch_zero]
      exact ih h

/-- The first batch with an event wakes an idle watchdog: the silence starts
there, with no credit. -/
theorem read_idle {w : Watchdog} (h : w.nextTick = none) {batches : List Batch} {b : Batch}
    (hb : firstRead batches = some b) :
    (w.read batches).nextTick = some (b.readAt + TICK) ∧
      (w.read batches).quietSince = b.readAt ∧ (w.read batches).credit = 0 := by
  induction batches generalizing w with
  | nil => cases hb
  | cons c cs ih =>
    unfold firstRead at hb ih
    rw [List.find?_cons] at hb
    rw [read_cons]
    split at hb
    next hc =>
      obtain rfl := Option.some.inj hb
      rw [rawBatch_idle (by simpa using hc) h]
      exact read_ticking rfl cs
    next hc =>
      have hz : c.count = 0 := by simpa using hc
      rw [hz, rawBatch_zero]
      exact ih h hb

theorem rawBatch_lastRawAt {w : Watchdog} {count : Nat} (hc : count ≠ 0) (now : Instant) :
    (w.rawBatch count now).lastRawAt = some now := by
  cases hn : w.nextTick with
  | some due => rw [rawBatch_ticking hc hn]
  | none => rw [rawBatch_idle hc hn]

/-- The newest event known is the old one or one of the batches'. -/
theorem read_lastRawAt_or (w : Watchdog) (batches : List Batch) :
    (w.read batches).lastRawAt = w.lastRawAt ∨
      ∃ c ∈ batches, (w.read batches).lastRawAt = some c.readAt := by
  induction batches generalizing w with
  | nil => exact .inl rfl
  | cons b bs ih =>
    rw [read_cons]
    rcases ih (w.rawBatch b.count b.readAt) with h | ⟨c, hc, h⟩
    · by_cases hz : b.count = 0
      · rw [hz, rawBatch_zero] at h ⊢
        exact .inl h
      · exact .inr ⟨b, List.mem_cons_self, h.trans (rawBatch_lastRawAt hz b.readAt)⟩
    · exact .inr ⟨c, List.mem_cons_of_mem _ hc, h⟩

/-- The newest event of an interval that read one was read in one of its batches. -/
theorem read_lastRawAt {w : Watchdog} {batches : List Batch} {b : Batch}
    (hb : firstRead batches = some b) :
    ∃ c ∈ batches, (w.read batches).lastRawAt = some c.readAt := by
  induction batches generalizing w with
  | nil => cases hb
  | cons c cs ih =>
    unfold firstRead at hb ih
    rw [List.find?_cons] at hb
    rw [read_cons]
    split at hb
    next hc =>
      rcases read_lastRawAt_or (w.rawBatch c.count c.readAt) cs with h | ⟨d, hd, h⟩
      · refine ⟨c, List.mem_cons_self, h.trans (rawBatch_lastRawAt ?_ c.readAt)⟩
        simpa using hc
      · exact ⟨d, List.mem_cons_of_mem _ hd, h⟩
    next hc =>
      obtain ⟨d, hd, h⟩ := ih (w := w.rawBatch c.count c.readAt) hb
      exact ⟨d, List.mem_cons_of_mem _ hd, h⟩

end Watchdog

end KeySwitch.Hook
