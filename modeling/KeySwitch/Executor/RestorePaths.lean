import KeySwitch.Executor.PastePaths

/-!
# What the calls about a waiting restore ask and leave

The session's calls besides a paste: `tick` and `restoreIfDue`, which the executor makes
at every poll, and the calls that end a session whatever its restore waits for. As in
`PastePaths`, one lemma for each, over every path of it.
-/

namespace KeySwitch.Executor

open Data Lib Dialogue

namespace Probe

/-- Whether it finds the target busy. -/
def isBusy : Probe → Bool
  | late | noAnswer => true
  | answered | gone => false

/-- Whether the target answered. -/
def isAnswer : Probe → Bool
  | answered | late => true
  | noAnswer | gone => false

end Probe

namespace Pending

/-- The restore, due. -/
def madeDue (p : Pending) : Pending := { p with due := true }

/-- A restore that found the clipboard busy at `now`. -/
def busyAt (p : Pending) (now : Instant) : Pending :=
  { p with
    due := true, retrySince := some (p.retrySince.getD now), nextTry := some (now + RESTORE_RETRY) }

/-- A probe leaves alone what the restore puts back, where, and how its tries went. -/
theorem probed_kept (p : Pending) (now : Instant) (probe : Probe) :
    (p.probed now probe).window = p.window ∧ (p.probed now probe).original = p.original ∧
      (p.probed now probe).written = p.written ∧ (p.probed now probe).target = p.target ∧
      (p.probed now probe).hardLimit = p.hardLimit ∧
      (p.probed now probe).retrySince = p.retrySince ∧
      (p.probed now probe).nextTry = p.nextTry := by
  obtain ⟨window, original, written, restoreAt, hardLimit, target, seenBusy, settled, lastProbe,
    due, retrySince, nextTry, sequence⟩ := p
  cases probe <;> cases seenBusy <;> cases settled <;> simp [probed]

/-- The flags after a probe. -/
theorem probed_flags (p : Pending) (now : Instant) (probe : Probe) :
    (p.probed now probe).seenBusy = (p.seenBusy || probe.isBusy) ∧
      (p.probed now probe).settled =
        (p.settled || probe.isAnswer && (p.seenBusy || probe.isBusy)) := by
  obtain ⟨window, original, written, restoreAt, hardLimit, target, seenBusy, settled, lastProbe,
    due, retrySince, nextTry, sequence⟩ := p
  cases probe <;> cases seenBusy <;> cases settled <;>
    simp [probed, Probe.isAnswer, Probe.isBusy]

/-- A probe makes the restore due, or moves its deadline: after no answer, and after the
first answer of a target found busy. -/
theorem probed_decides (p : Pending) (now : Instant) (probe : Probe) :
    ((p.probed now probe).due = true ∧ (p.probed now probe).restoreAt = p.restoreAt) ∨
      ((p.probed now probe).due = p.due ∧ probe = .noAnswer ∧
        (p.probed now probe).restoreAt = min (now + TARGET_RETRY) p.hardLimit) ∨
      ((p.probed now probe).due = p.due ∧ probe.isAnswer = true ∧ p.settled = false ∧
        (p.probed now probe).restoreAt = min (now + SETTLE) p.hardLimit) := by
  obtain ⟨window, original, written, restoreAt, hardLimit, target, seenBusy, settled, lastProbe,
    due, retrySince, nextTry, sequence⟩ := p
  cases probe <;> cases seenBusy <;> cases settled <;>
    simp [probed, Probe.isAnswer]

end Pending

namespace PasteSession

/-- The session with its restore replaced. -/
def withPending (s : PasteSession) (pending : Pending) : PasteSession :=
  { s with pending := some pending }

/-! ## The tick -/

/-- How a tick at `now` goes. -/
inductive TickPath (s : PasteSession) (now : Instant) :
    List PortCall → PasteSession → Prop
  | idle (hnone : s.pending = none) : TickPath s now [] s
  | early {pending : Pending} (waits : s.pending = some pending)
      (hearly : pending.due = true ∨ now < pending.restoreAt) : TickPath s now [] s
  /-- No keystroke went out, or the target had all its time. -/
  | due {pending : Pending} (waits : s.pending = some pending) (hdue : pending.due = false)
      (hat : pending.restoreAt ≤ now)
      (hlimit : pending.target = none ∨ pending.hardLimit ≤ now) :
      TickPath s now [] (s.withPending pending.madeDue)
  | probed {pending : Pending} {target : Int} {probe : Probe} (waits : s.pending = some pending)
      (hdue : pending.due = false) (hat : pending.restoreAt ≤ now)
      (htarget : pending.target = some target) (hlimit : now < pending.hardLimit) :
      TickPath s now [⟨.responds target TARGET_PROBE, probe⟩]
        (s.withPending (pending.probed now probe))

theorem tick_path {s s' : PasteSession} {now : Instant} {es : List PortCall} {asked : Bool}
    (h : Path (s.tick now) es (s', asked)) : TickPath s now es s' := by
  unfold tick at h
  split at h
  · next hnone =>
    obtain ⟨rfl, heq⟩ := path_done.mp h
    cases heq
    exact .idle hnone
  · next pending hpending =>
    split at h
    · next hearly =>
      obtain ⟨rfl, heq⟩ := path_done.mp h
      cases heq
      exact .early hpending (by simpa using hearly)
    · next hready =>
      have hready' : pending.due = false ∧ pending.restoreAt ≤ now := by simpa using hready
      split at h
      · next htarget =>
        obtain ⟨rfl, heq⟩ := path_done.mp h
        cases heq
        exact .due hpending hready'.1 hready'.2 (Or.inl htarget)
      · next target htarget =>
        split at h
        · next hlimit =>
          obtain ⟨rfl, heq⟩ := path_done.mp h
          cases heq
          exact .due hpending hready'.1 hready'.2 (Or.inr hlimit)
        · next hbefore =>
          rw [path_ask] at h
          obtain ⟨probe, rest, rfl, h⟩ := h
          obtain ⟨rfl, heq⟩ := path_done.mp h
          cases heq
          exact .probed hpending hready'.1 hready'.2 htarget (Nat.lt_of_not_le hbefore)

/-! ## The restore -/

/-- Whether a call is an open that found the clipboard busy. -/
def isBusyOpen : PortCall → Bool
  | ⟨.openClipboard _, opened⟩ => !opened
  | _ => false

/-- How `restoreIfDue` at `now` goes. -/
inductive RestorePath (s : PasteSession) (now : Instant) :
    List PortCall → PasteSession → Prop
  | idle (hnone : s.pending = none) : RestorePath s now [] s
  /-- The restore is not due. -/
  | early {pending : Pending} (waits : s.pending = some pending) (hdue : pending.due = false)
      (hearly : pending.target.isSome = true ∨ now < pending.restoreAt) : RestorePath s now [] s
  /-- The next try is not yet. -/
  | later {pending : Pending} {deadline : Instant} (waits : s.pending = some pending)
      (hready : pending.due = true ∨ pending.target = none ∧ pending.restoreAt ≤ now)
      (hnext : pending.nextTry = some deadline) (hlater : now < deadline) :
      RestorePath s now [] (s.withPending pending.madeDue)
  /-- The session ends: the content was put back, or another program changed it. -/
  | ended {pending : Pending} {es : List PortCall} {s' : PasteSession} {found : Restore}
      (waits : s.pending = some pending)
      (hready : pending.due = true ∨ pending.target = none ∧ pending.restoreAt ≤ now)
      (hnext : ∀ deadline, pending.nextTry = some deadline → deadline ≤ now)
      (hfound : found ≠ .busy)
      (path : Path ((s.withPending pending.madeDue).tryRestore .nextPaste) es (s', found)) :
      RestorePath s now es s'
  | busy (pending : Pending) {n : Nat} (waits : s.pending = some pending)
      (hready : pending.due = true ∨ pending.target = none ∧ pending.restoreAt ≤ now)
      (hnext : ∀ deadline, pending.nextTry = some deadline → deadline ≤ now)
      (hkept : now - pending.retrySince.getD now < RESTORE_RETRY_LIMIT) :
      RestorePath s now [⟨.sequenceNumber, n⟩, ⟨.openClipboard pending.window, false⟩]
        (s.withPending (pending.busyAt now))
  /-- The session ends after a busy clipboard had all its time. -/
  | gaveUp (pending : Pending) {n : Nat} {ended : List PortCall} {s₀ s' : PasteSession}
      (waits : s.pending = some pending)
      (hready : pending.due = true ∨ pending.target = none ∧ pending.restoreAt ≤ now)
      (hnext : ∀ deadline, pending.nextTry = some deadline → deadline ≤ now)
      (hlimit : RESTORE_RETRY_LIMIT ≤ now - pending.retrySince.getD now)
      (ends : Path (s₀.endSession .nextPaste) ended s') (hmarkers : s₀.markers = s.markers) :
      RestorePath s now
        (⟨.sequenceNumber, n⟩ :: ⟨.openClipboard pending.window, false⟩ :: ended) s'

theorem restoreIfDue_path {s s' : PasteSession} {now : Instant} {es : List PortCall}
    {asked : Bool} (h : Path (s.restoreIfDue now) es (s', asked)) : RestorePath s now es s' := by
  unfold restoreIfDue at h
  split at h
  · next hnone =>
    obtain ⟨rfl, heq⟩ := path_done.mp h
    cases heq
    exact .idle hnone
  · next pending hpending =>
    split at h
    · next hearly =>
      obtain ⟨rfl, heq⟩ := path_done.mp h
      cases heq
      have hearly' : pending.due = false ∧
          (pending.target.isSome = true ∨ now < pending.restoreAt) := by simpa using hearly
      exact .early hpending hearly'.1 hearly'.2
    · next hnotEarly =>
      have hready : pending.due = true ∨ pending.target = none ∧ pending.restoreAt ≤ now := by
        cases hdue : pending.due with
        | true => exact Or.inl rfl
        | false => exact Or.inr (by simpa [hdue] using hnotEarly)
      dsimp only at h
      split at h
      · next hlater =>
        obtain ⟨rfl, heq⟩ := path_done.mp h
        cases heq
        obtain ⟨deadline, hnext, hbefore⟩ :
            ∃ deadline, pending.nextTry = some deadline ∧ now < deadline := by
          cases hnext : pending.nextTry with
          | none => simp [hnext] at hlater
          | some deadline => exact ⟨deadline, rfl, by simpa [hnext] using hlater⟩
        exact .later hpending hready hnext hbefore
      · next hnow =>
        have hnext : ∀ deadline, pending.nextTry = some deadline → deadline ≤ now := by
          intro deadline hdeadline
          rw [hdeadline] at hnow
          simpa using hnow
        -- The restore is due and tried now; only a busy clipboard keeps it pending.
        rw [path_bind] at h
        obtain ⟨tried, ⟨s₁, found⟩, rest, rfl, htry, h⟩ := h
        have hdue : (s.withPending pending.madeDue).pending = some pending.madeDue := rfl
        have htried := tryRestore_path hdue htry
        cases found with
        | putBack =>
          obtain ⟨rfl, heq⟩ := path_done.mp h
          cases heq
          rw [List.append_nil]
          exact .ended hpending hready hnext (by simp) htry
        | changed =>
          obtain ⟨rfl, heq⟩ := path_done.mp h
          cases heq
          rw [List.append_nil]
          exact .ended hpending hready hnext (by simp) htry
        | busy =>
          obtain ⟨rfl, n, rfl⟩ := htried.of_busy
          dsimp only at h
          obtain ⟨b, hretry, heq⟩ := path_map.mp h
          cases heq
          unfold retryRestore at hretry
          dsimp only [withPending] at hretry
          split at hretry
          · next hlimit => exact .gaveUp pending hpending hready hnext hlimit hretry rfl
          · next hkept =>
            obtain ⟨rfl, rfl⟩ := path_done.mp hretry
            exact .busy pending hpending hready hnext (Nat.lt_of_not_le hkept)

/-! ## Polls -/

end PasteSession

/-- What the executor calls about the restore at every poll. -/
inductive Poll
  | tick (now : Instant)
  | restoreIfDue (now : Instant)
  deriving DecidableEq, Repr

/-- When it is called. -/
def Poll.time : Poll → Instant
  | tick now | restoreIfDue now => now

/-- The call of a poll. -/
def PasteSession.poll (s : PasteSession) : Poll → Talk PasteSession
  | .tick now => (s.tick now).map Prod.fst
  | .restoreIfDue now => (s.restoreIfDue now).map Prod.fst

theorem PasteSession.poll_tick {s s' : PasteSession} {now : Instant} {es : List PortCall}
    (h : Path (s.poll (.tick now)) es s') : TickPath s now es s' := by
  obtain ⟨⟨s', asked⟩, hpath, rfl⟩ := path_map.mp h
  exact tick_path hpath

theorem PasteSession.poll_restore {s s' : PasteSession} {now : Instant} {es : List PortCall}
    (h : Path (s.poll (.restoreIfDue now)) es s') : RestorePath s now es s' := by
  obtain ⟨⟨s', asked⟩, hpath, rfl⟩ := path_map.mp h
  exact restoreIfDue_path hpath

end KeySwitch.Executor
