import KeySwitch.Data.Binding

/-!
# Counters of the log

What must not be logged where it happens is counted. The log's writer takes the counts, each
with a swap that sets it to 0, and reports them in one line; it says nothing while every
count is 0 and no keyboard callback was slow (`summary_eq_none`).
-/

namespace KeySwitch.Logging

open Data

/-- A condition that is counted instead of logged. -/
inductive Counter
  | menuMaskShort
  | keyPressShort
  | holdTimerNotStarted
  | logLinesDropped
  | executorJobsDropped
  | executorUnavailable
  | postMessageFailed
  | mainStateRefused
  | rawInputUnread
  | watchdogTimerNotSet
  | watchdogDesktopCheckFailed
  | hookLate
  | pasteDropped
  deriving DecidableEq, Repr

namespace Counter

/-- Every counter, in the order of `take` and of the report. -/
def ALL : List Counter :=
  [menuMaskShort, keyPressShort, holdTimerNotStarted, logLinesDropped, executorJobsDropped,
    executorUnavailable, postMessageFailed, mainStateRefused, rawInputUnread,
    watchdogTimerNotSet, watchdogDesktopCheckFailed, hookLate, pasteDropped]

/-- Whether a count of this counter makes the report a warning. -/
def warns : Counter → Bool
  | hookLate => false
  | _ => true

def name : Counter → String
  | menuMaskShort => "menu_mask_short"
  | keyPressShort => "key_press_short"
  | holdTimerNotStarted => "hold_timer_not_started"
  | logLinesDropped => "log_lines_dropped"
  | executorJobsDropped => "executor_jobs_dropped"
  | executorUnavailable => "executor_unavailable"
  | postMessageFailed => "post_message_failed"
  | mainStateRefused => "main_state_refused"
  | rawInputUnread => "raw_input_unread"
  | watchdogTimerNotSet => "watchdog_timer_not_set"
  | watchdogDesktopCheckFailed => "watchdog_desktop_check_failed"
  | hookLate => "hook_late"
  | pasteDropped => "paste_dropped"

theorem mem_ALL (counter : Counter) : counter ∈ ALL := by
  cases counter <;> decide

theorem nodup_ALL : ALL.Nodup := by decide

end Counter

/-- A keyboard callback that ran at least this long is reported even alone. -/
def SLOW_CALLBACK : Duration := fromMillis 5

/-- The counts since the last report, and the longest callback in nanoseconds. -/
structure Counters where
  counts : Counter → UInt64
  longestCallbackNs : UInt64

namespace Counters

def new : Counters := ⟨fun _ => 0, 0⟩

def bump (counters : Counters) (counter : Counter) : Counters :=
  { counters with counts := Function.update counters.counts counter (counters.counts counter + 1) }

/-- A time as `u64` nanoseconds. -/
def nanos (took : Duration) : UInt64 :=
  if took < 2 ^ 64 then UInt64.ofNat took else UInt64.ofNat (2 ^ 64 - 1)

def recordCallback (counters : Counters) (took : Duration) : Counters :=
  { counters with longestCallbackNs := max counters.longestCallbackNs (nanos took) }

/-- One swap of `take`. -/
def takeCount (counters : Counters) (counter : Counter) : Counters :=
  { counters with counts := Function.update counters.counts counter 0 }

/-- The last swap of `take`. -/
def takeLongest (counters : Counters) : Counters := { counters with longestCallbackNs := 0 }

end Counters

/-- What `take` returns. -/
structure Snapshot where
  counts : Counter → UInt64
  longestCallback : UInt64

/-- One report: whether it is a warning, and its line. -/
structure Report where
  warns : Bool
  text : String

namespace Snapshot

def slow (snapshot : Snapshot) : Bool := decide (SLOW_CALLBACK ≤ snapshot.longestCallback.toNat)

def summary (snapshot : Snapshot) : Option Report :=
  if Counter.ALL.all (fun counter => snapshot.counts counter == 0) && !snapshot.slow then none
  else
    let warns := snapshot.slow ||
      Counter.ALL.any fun counter => decide (0 < snapshot.counts counter) && counter.warns
    let counts := Counter.ALL.foldl
      (fun text counter => text ++ s!" {counter.name}={snapshot.counts counter}")
      "counters since the last report:"
    some ⟨warns, counts ++ s!" longest_callback_us={snapshot.longestCallback.toNat / 1000}"⟩

theorem summary_eq_none {snapshot : Snapshot} : snapshot.summary = none ↔
    (∀ counter, snapshot.counts counter = 0) ∧ snapshot.slow = false := by
  unfold summary
  split
  · next h =>
    rw [Bool.and_eq_true, List.all_eq_true, Bool.not_eq_true'] at h
    refine ⟨fun _ => ⟨fun counter => ?_, h.2⟩, fun _ => rfl⟩
    exact eq_of_beq (h.1 counter counter.mem_ALL)
  · next h =>
    refine ⟨fun hnone => absurd hnone (by simp), fun ⟨hzero, hslow⟩ => absurd ?_ h⟩
    rw [Bool.and_eq_true, List.all_eq_true, hslow]
    exact ⟨fun counter _ => by rw [hzero counter]; rfl, rfl⟩

end Snapshot

end KeySwitch.Logging
