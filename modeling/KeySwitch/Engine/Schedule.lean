import KeySwitch.Engine.Tokens

/-!
# Where the engine's timers go

A `Scheduler` starts timers and drops stale ones; `Engine.startTimers` hands it
the timers of a decision, after dropping every timer it holds whose entry is
gone. `TimerQueue` is the plain queue that the daemon and the scenario harness
keep, in start order; it starts every timer and hands out the earliest due one.

What the queue does is said once in list terms: `takeDue` takes out one request
that no other is due before (`takeDue_some`), `startTimers` leaves the live
requests and the new ones (`startTimers_queue`).
-/

namespace KeySwitch.Engine

open Data Lib

variable {α σ : Type}

/-- Keeps the timers the engine asks for. -/
structure Scheduler (σ : Type) where
  /-- Starts a request; also whether it could. -/
  start : σ → TimerRequest → σ × Bool
  /-- Drops every queued timer whose token the test rejects. -/
  retain : (TimerToken → Bool) → σ → σ

/-- The timers started and not yet handed out, in start order. -/
structure TimerQueue where
  pending : List TimerRequest

namespace TimerQueue

def new : TimerQueue := ⟨[]⟩

/-- The earliest due time queued. -/
def nextDue (q : TimerQueue) : Option Instant := (q.pending.map TimerRequest.due).min?

/-- Takes the timer with the earliest due time at or before `now`; of timers
due at the same time, the one started first. -/
def takeDue (q : TimerQueue) (now : Instant) : TimerQueue × Option TimerRequest :=
  match q.nextDue with
  | none => (q, none)
  | some due =>
    -- The earliest of those due is the earliest of all, if that one is due.
    if due ≤ now then
      (⟨q.pending.eraseP fun r => r.due == due⟩, q.pending.find? fun r => r.due == due)
    else (q, none)

/-- A queue has room for every timer. -/
def start (q : TimerQueue) (request : TimerRequest) : TimerQueue × Bool :=
  (⟨q.pending ++ [request]⟩, true)

def retain (live : TimerToken → Bool) (q : TimerQueue) : TimerQueue :=
  ⟨q.pending.filter fun r => live r.token⟩

/-- The queue as the engine's scheduler. -/
def scheduler : Scheduler TimerQueue := ⟨start, retain⟩

end TimerQueue

/-- Hands one timer to the scheduler; a timer it refuses is forgotten. The last
part counts the Holds dropped so far. -/
def startOne (scheduler : Scheduler σ) (acc : Engine α × σ × Nat) (request : TimerRequest) :
    Engine α × σ × Nat :=
  let started := scheduler.start acc.2.1 request
  if started.2 then (acc.1, started.1, acc.2.2)
  else
    let forgotten := acc.1.forgetTimer request.token
    (forgotten.1, started.1, if forgotten.2 then acc.2.2 + 1 else acc.2.2)

/-- Hands the timers of a decision to `scheduler`, after dropping every timer it
holds that is no longer live; also how many Holds were dropped with the refused
timers. -/
def startTimers (scheduler : Scheduler σ) (e : Engine α) (timers : List TimerRequest) (s : σ) :
    Engine α × σ × Nat :=
  if timers.isEmpty then (e, s, 0)
  else timers.foldl (startOne scheduler) (e, scheduler.retain e.isLive s, 0)

/-! ## The queue in list terms -/

namespace TimerQueue

theorem nextDue_eq_none {q : TimerQueue} : q.nextDue = none ↔ q.pending = [] := by
  unfold nextDue
  rw [List.min?_eq_none_iff, List.map_eq_nil_iff]

theorem nextDue_mem {q : TimerQueue} {due : Instant} (h : q.nextDue = some due) :
    ∃ r ∈ q.pending, r.due = due :=
  List.mem_map.mp (List.min?_mem h)

theorem nextDue_le {q : TimerQueue} {due : Instant} (h : q.nextDue = some due) :
    ∀ r ∈ q.pending, due ≤ r.due := by
  intro r hr
  exact (List.le_min?_iff h).mp (Nat.le_refl due) r.due (List.mem_map_of_mem hr)

/-- **A request handed out is due, and none left is due before it.** -/
theorem takeDue_some {q q' : TimerQueue} {now : Instant} {r : TimerRequest}
    (h : q.takeDue now = (q', some r)) :
    r.due ≤ now ∧ (∀ r' ∈ q.pending, r.due ≤ r'.due) ∧
      q.pending.Perm (r :: q'.pending) := by
  unfold takeDue at h
  split at h
  · exact absurd (Prod.mk.inj h).2 (by simp)
  · next due hdue =>
    split at h
    · next hle =>
      obtain ⟨rfl, hfind⟩ := Prod.mk.inj h
      obtain ⟨as, bs, hsplit, -, hours, herase, -⟩ := find?_split hfind
      rw [beq_iff_eq] at hours
      subst hours
      refine ⟨hle, nextDue_le hdue, ?_⟩
      rw [herase, hsplit]
      exact List.perm_middle
    · exact absurd (Prod.mk.inj h).2 (by simp)

end TimerQueue

/-- A queue starts every timer. -/
theorem startOnes_queue (e : Engine α) (timers : List TimerRequest) (q : TimerQueue) :
    timers.foldl (startOne TimerQueue.scheduler) (e, q, 0) = (e, ⟨q.pending ++ timers⟩, 0) := by
  induction timers generalizing q with
  | nil => rw [List.append_nil]; rfl
  | cons request timers ih =>
    have hone : startOne TimerQueue.scheduler (e, q, 0) request =
        (e, ⟨q.pending ++ [request]⟩, 0) := rfl
    rw [List.foldl_cons, hone, ih]
    show (e, TimerQueue.mk (q.pending ++ [request] ++ timers), 0) = _
    rw [List.append_assoc]
    rfl

/-- **What a decision's timers make of the queue**: the live requests and the new
ones, or nothing new where there are none. -/
theorem startTimers_queue (e : Engine α) (timers : List TimerRequest) (q : TimerQueue) :
    startTimers TimerQueue.scheduler e timers q =
      (e, if timers.isEmpty then q else ⟨(q.retain e.isLive).pending ++ timers⟩, 0) := by
  unfold startTimers
  split
  · rfl
  · exact startOnes_queue e timers _

end KeySwitch.Engine
