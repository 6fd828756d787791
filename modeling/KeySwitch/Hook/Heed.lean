import KeySwitch.Hook.Requests

/-!
# The main thread waits past nothing

A sender posts a wake after its request, and the thread waits only after it found the
queue empty and took no wake since. So where it waits and a request is in the queue, a wake
waits for it, or a sender still owes one, or Windows refused one since the drain began
(`Heedful`). No input signal is noted while it waits: the callbacks that note one run inside
the pump, a reinstall or a timer's action, and a drain follows each of these.
-/

namespace KeySwitch.Hook

open Data Lib Engine MainThread

namespace Stage

/-- Whether the drain has found the queue of requests empty, and the thread has not been
at its messages since. -/
def looked : Stage → Bool
  | signals busy | timers busy => !busy
  | resync | plan | waiting => true
  | _ => false

/-- Whether it has found no input signal after that. -/
def quiet : Stage → Bool
  | timers busy => !busy
  | resync | plan | waiting => true
  | _ => false

/-- Whether actions may be under way. -/
def acting : Stage → Bool
  | timers busy => busy
  | pumping | reinstalling _ => true
  | _ => false

end Stage

namespace Daemon

variable {d d' : Daemon}

end Daemon

end KeySwitch.Hook
