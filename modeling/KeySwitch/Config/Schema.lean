import KeySwitch.Config.Combos
import KeySwitch.Data.Actions
import KeySwitch.Data.ClipboardText
import KeySwitch.Data.Combo

/-!
# What a config file may say

The types the RON text is read into, before anything in them is checked: keys, messages and
numbers are as the file writes them. Where the file leaves out a field that has a default,
the reader of the text has put the default here.
-/

namespace KeySwitch.Config

/-- `block_original_combo: true | false | MaskOnly`. -/
inductive RawBlockOriginalCombo
  | on
  | off
  | maskOnly
  deriving DecidableEq, Repr

/-- The term of a deferred trigger is in milliseconds. -/
inductive RawTrigger
  | immediate
  | tap (ms : Nat)
  | hold (ms : Nat)
  | doubleTap (ms : Nat)
  deriving DecidableEq, Repr

structure SequenceSpec where
  steps : List String
  maxGapMs : Nat
  deriving Repr

structure ChordSpec where
  keys : List String
  windowMs : Nat
  deriving Repr

inductive RawCondition
  | always
  | appEquals (target : String)
  | titleContains (needle : String)
  | titleEquals (target : String)
  | not (inner : RawCondition)
  | and (parts : List RawCondition)
  | or (parts : List RawCondition)
  deriving Repr

/-- The payload of a `Paste`, in its short form with the text alone. -/
structure RawPaste where
  text : String
  keys : Option String
  restoreDelay : Option Nat
  deriving Repr

inductive MediaKeyRef
  | playPause
  | stop
  | next
  | previous
  | volumeUp
  | volumeDown
  | volumeMute
  deriving DecidableEq, Repr

/-- A window message by its number or by its name. -/
inductive MessageRef
  | code (code : Nat)
  | name (name : String)
  deriving Repr

inductive RawWindowKind
  | minimize
  | maximize
  | restore
  | close
  deriving DecidableEq, Repr

inductive RawStep
  | window (kind : RawWindowKind)
  | delay (ms : Nat)
  | text (text : String)
  | paste (raw : RawPaste)
  | key (name : String)
  | combo (combo : String)
  | launch (exe : String) (args : List String)
  | openUrl (url : String)
  | media (key : MediaKeyRef)
  deriving Repr

inductive RawAction
  | switchLanguage
  | switchLanguageBackward
  | toggleCapsLock
  | pressKey (key : String)
  | postMessage (msg : MessageRef) (wparam : Nat) (lparam : Int)
  | sequence (steps : List RawStep)
  | launch (exe : String) (args : List String)
  | openUrl (url : String)
  | text (text : String)
  | paste (raw : RawPaste)
  | media (key : MediaKeyRef)
  | doNothing
  deriving Repr

/-- An entry of the file: one of `keys`, `sequence` and `chord`, and what it makes happen. -/
structure RawBinding where
  keys : Option String
  sequence : Option SequenceSpec
  chord : Option ChordSpec
  action : RawAction
  blockDefault : Option Bool
  blockOriginalCombo : RawBlockOriginalCombo
  when : RawCondition
  trigger : RawTrigger
  allowExtraModifiers : Bool
  repeats : Option Bool
  deriving Repr

structure RawConfig where
  bindings : List RawBinding
  deriving Repr

end KeySwitch.Config
