import KeySwitch.Data.Binding

/-!
# Actions: what a binding makes the daemon do

The action executor runs the slow ones. Of most actions and macro steps it reads
nothing and hands them to its runner; it walks the steps of a `Sequence` itself
and works a `Paste` in its paste session.
-/

namespace KeySwitch.Data

/-- What a `Paste` puts on the clipboard and how it pastes it. -/
structure PasteSpec where
  /-- The phrase as `CF_UNICODETEXT`, its NUL included. -/
  units : List UInt16
  keys : List VirtualKey
  restoreDelay : Duration
  deriving DecidableEq, Repr

inductive MediaKey
  | playPause
  | stop
  | next
  | previous
  | volumeUp
  | volumeDown
  | volumeMute
  deriving DecidableEq, Repr

inductive WindowOp
  | minimize
  | maximize
  | restore
  | close
  deriving DecidableEq, Repr

/-- One step of a macro. -/
inductive SequenceStep
  | typeText (text : String)
  | paste (spec : PasteSpec)
  | pressKey (vk : VirtualKey)
  | pressCombo (keys : List VirtualKey)
  /-- Wait this many milliseconds before the next step. -/
  | delay (ms : Nat)
  | window (op : WindowOp)
  | launch (exe : String) (args : List String)
  | openUrl (url : String)
  | media (key : MediaKey)
  deriving DecidableEq, Repr

inductive BindAction
  | switchLanguage
  | switchLanguageBackward
  | toggleCapsLock
  | pressKey (vk : VirtualKey)
  | postMessage (msg wparam : Nat) (lparam : Int)
  | sequence (steps : List SequenceStep)
  | launch (exe : String) (args : List String)
  | openUrl (url : String)
  | text (text : String)
  | paste (spec : PasteSpec)
  | media (key : MediaKey)
  | doNothing
  deriving DecidableEq, Repr

namespace BindAction

def isPaste : BindAction → Bool
  | paste _ => true
  | _ => false

/-- Whether the executor runs the action with one call, not as a run. -/
def isPlain : BindAction → Bool
  | sequence _ | paste _ => false
  | _ => true

end BindAction

end KeySwitch.Data
