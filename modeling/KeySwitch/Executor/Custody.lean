import KeySwitch.Executor.RestorePaths

/-!
# Custody of the user's clipboard

The daemon takes the user's content off the clipboard for a paste and owes it back. A
custody is what it owes: the content it saved, the window it emptied the clipboard with,
and the formats of its own phrase, by which it knows the clipboard for its own.

`Account` says which calls keep the custody straight, one constructor for each way the
session may hold the clipboard open. It never empties the clipboard but under its own
open: right after saving the content it empties, after finding its phrase there, or
again where it just emptied. A custody ends in three ways only: the content is put back,
the clipboard is found changed, or it stays busy longer than the session may wait.

Every try of a paste and of its restore has such an account (`attempt_keeps`,
`tried_keeps`); `CustodyRuns` puts the accounts of a run together.
-/

namespace KeySwitch.Executor

open Data Lib Dialogue

namespace Question

/-- The calls that open, close or change the clipboard. -/
def touches : Question → Bool
  | openClipboard _ | closeClipboard | emptyClipboard | write _ _ => true
  | _ => false

end Question

/-! ## Custody -/

/-- What the daemon owes back. -/
structure Held where
  /-- The window it emptied the clipboard with. -/
  window : OwnerWindow
  /-- The formats of its phrase. -/
  written : List Format
  original : Original
  deriving DecidableEq, Repr

/-- What is written to put the content back, besides the markers. -/
def Original.writes : Original → List Question
  | .saved formats => formats.map fun saved => .write saved.format (.bytes saved.bytes)
  | .privateContent | .empty => []

/-- The calls that put the content back: the clipboard is emptied and the content
written, then markers. -/
def PutsBack (original : Original) (calls : List PortCall) : Prop :=
  ∃ writes marks, calls = ⟨.emptyClipboard, true⟩ :: (writes ++ marks) ∧
    writes.map Exchange.question = original.writes ∧
    ∀ call ∈ marks, ∃ id, call.question = .write id (.bytes MARKER_DATA)

/-- The calls that found the clipboard to hold the phrase of `held` still. -/
def FindsOurs (held : Held) (calls : List PortCall) : Prop :=
  ∃ formats, calls = [⟨.owner, some held.window⟩, ⟨.formats, formats⟩] ∧
    foreignFormatPresent formats held.written = false

/-- The calls that found it changed: another owner, or a format that is not ours. -/
def FindsChanged (held : Held) (calls : List PortCall) : Prop :=
  (∃ owner, calls = [⟨.owner, owner⟩] ∧ owner ≠ some held.window) ∨
    ∃ formats, calls = [⟨.owner, some held.window⟩, ⟨.formats, formats⟩] ∧
      foreignFormatPresent formats held.written = true

/-- What the session may do under an open with `window`, and the custody it leaves. -/
inductive Opening : Option Held → OwnerWindow → List PortCall → Option Held → Prop
  /-- The content is saved, and the phrase takes its place. -/
  | fresh {window : OwnerWindow} {saved clock marks : List PortCall} {original : Original}
      {units : List UInt16} {markers : Markers} (save : Path save saved original)
      (hclock : ∀ call ∈ clock, call.question = .now)
      (hmarks : marks.map Exchange.question =
        markers.phrase.map fun id => .write id (.bytes MARKER_DATA)) :
      Opening none window (saved ++ ⟨.emptyClipboard, true⟩ :: (clock ++
          ⟨.write CF_UNICODETEXT (.units units), true⟩ :: marks))
        (some ⟨window, CF_UNICODETEXT :: markers.phrase, original⟩)
  /-- The phrase could not be written: the content goes back where it was taken. -/
  | freshBack {window : OwnerWindow} {saved clock back : List PortCall} {original : Original}
      {units : List UInt16} (save : Path save saved original)
      (hclock : ∀ call ∈ clock, call.question = .now) (hback : PutsBack original back) :
      Opening none window (saved ++ ⟨.emptyClipboard, true⟩ :: (clock ++
          ⟨.write CF_UNICODETEXT (.units units), false⟩ :: back))
        none
  /-- The next phrase of the chain takes the place of the one before. -/
  | chained {held : Held} {looked clock marks : List PortCall} {units : List UInt16}
      (hours : FindsOurs held looked) (hclock : ∀ call ∈ clock, call.question = .now)
      (hmarks : ∀ call ∈ marks, ∃ id, call.question = .write id (.bytes MARKER_DATA)) :
      Opening (some held) held.window (looked ++ ⟨.emptyClipboard, true⟩ :: (clock ++
          ⟨.write CF_UNICODETEXT (.units units), true⟩ :: marks))
        (some held)
  | chainedBack {held : Held} {looked clock back : List PortCall} {units : List UInt16}
      (hours : FindsOurs held looked) (hclock : ∀ call ∈ clock, call.question = .now)
      (hback : PutsBack held.original back) :
      Opening (some held) held.window (looked ++ ⟨.emptyClipboard, true⟩ :: (clock ++
          ⟨.write CF_UNICODETEXT (.units units), false⟩ :: back))
        none
  /-- The content is put back. -/
  | restored {held : Held} {looked back : List PortCall} (hours : FindsOurs held looked)
      (hback : PutsBack held.original back) :
      Opening (some held) held.window (looked ++ back) none
  /-- Another program changed the clipboard: nothing is emptied. -/
  | changed {held : Held} {looked : List PortCall} (hchanged : FindsChanged held looked) :
      Opening (some held) held.window looked none

/-- The calls of `es` turn the custody `held` into `held'`; `patience` says that the
session may give up a clipboard it finds busy. -/
inductive Account (patience : Prop) : Option Held → List PortCall → Option Held → Prop
  | nil (held : Option Held) : Account patience held [] held
  /-- A call that leaves the clipboard alone. -/
  | aside {held held' : Option Held} {call : PortCall} {es : List PortCall}
      (hplain : call.question.touches = false) (rest : Account patience held es held') :
      Account patience held (call :: es) held'
  | busy {held held' : Option Held} {window : OwnerWindow} {es : List PortCall}
      (rest : Account patience held es held') :
      Account patience held (⟨.openClipboard window, false⟩ :: es) held'
  | givenUp {held : Held} {held' : Option Held} {es : List PortCall} (hpatience : patience)
      (rest : Account patience none es held') :
      Account patience (some held) (⟨.openClipboard held.window, false⟩ :: es) held'
  | opened {held held₁ held' : Option Held} {window : OwnerWindow} {inside es : List PortCall}
      {closed : Bool} (opening : Opening held window inside held₁)
      (rest : Account patience held₁ es held') :
      Account patience held
        (⟨.openClipboard window, true⟩ :: (inside ++ ⟨.closeClipboard, closed⟩ :: es)) held'

namespace Account

variable {patience : Prop} {held held' held'' : Option Held} {es es' : List PortCall}

theorem append (h : Account patience held es held') (h' : Account patience held' es' held'') :
    Account patience held (es ++ es') held'' := by
  induction h with
  | nil held => exact h'
  | aside hplain rest ih => exact .aside hplain (ih h')
  | busy rest ih => exact .busy (ih h')
  | givenUp hpatience rest ih => exact .givenUp hpatience (ih h')
  | opened opening rest ih =>
    rw [List.cons_append, List.append_assoc, List.cons_append]
    exact .opened opening (ih h')

/-- Calls that leave the clipboard alone. -/
theorem asides (h : ∀ call ∈ es, call.question.touches = false) :
    Account patience held es held := by
  induction es with
  | nil => exact .nil held
  | cons call es ih =>
    exact .aside (h call List.mem_cons_self) (ih fun c hc => h c (List.mem_cons_of_mem _ hc))

end Account

/-! ## Parts of the calls -/

/-- What is owed back while the restore `p` waits. -/
def Pending.held (p : Pending) : Held := ⟨p.window, p.written, p.original⟩

/-- What the session `s` owes back. -/
def PasteSession.held (s : PasteSession) : Option Held := s.pending.map Pending.held

/-- When the restore of `s` first found the clipboard busy, if it did. -/
def PasteSession.retrySince (s : PasteSession) : Option Instant :=
  s.pending.bind Pending.retrySince

/-- Whether a call opened the clipboard. -/
def isOpened : PortCall → Bool
  | ⟨.openClipboard _, opened⟩ => opened
  | _ => false

/-- No call opened the clipboard. -/
def Unopened (calls : List PortCall) : Prop := ∀ call ∈ calls, isOpened call = false

namespace PasteSession

/-- The phrase under the open that just emptied the clipboard: written, the clipboard
closed and the custody kept, or not written and the content put back. -/
inductive PhrasePath (pending : Pending) (markers : Markers) (spec : PasteSpec) :
    List PortCall → PasteSession → Prop
  | put {now : Instant} {marks rest : List PortCall} {closed : Bool} {s' : PasteSession}
      (hmarks : marks.map Exchange.question =
        markers.phrase.map fun id => .write id (.bytes MARKER_DATA))
      (hrest : ∀ call ∈ rest, call.question.touches = false) (hheld : s'.held = some pending.held)
      (hretry : s'.retrySince = none) :
      PhrasePath pending markers spec (⟨.now, now⟩ ::
        ⟨.write CF_UNICODETEXT (.units spec.units), true⟩ ::
          (marks ++ ⟨.closeClipboard, closed⟩ :: rest)) s'
  | back {now : Instant} {back rest : List PortCall} {closed : Bool} {s' : PasteSession}
      (hback : PutsBack pending.original back)
      (hrest : ∀ call ∈ rest, call.question.touches = false) (hnone : s'.pending = none) :
      PhrasePath pending markers spec (⟨.now, now⟩ ::
        ⟨.write CF_UNICODETEXT (.units spec.units), false⟩ ::
          (back ++ ⟨.closeClipboard, closed⟩ :: rest)) s'

/-- A call with the account `patience` of the custody, and a wait for a busy clipboard
that goes on only while nothing opens it. -/
structure Keeps (patience : Prop) (s : PasteSession) (es : List PortCall) (s' : PasteSession) :
    Prop where
  account : Account patience s.held es s'.held
  retry : ∀ since, s'.retrySince = some since → s.retrySince = some since ∧ Unopened es

section Keeps

variable {patience : Prop} {s s' s'' : PasteSession} {es es' : List PortCall}

theorem unopened_of_untouched (h : ∀ call ∈ es, call.question.touches = false) : Unopened es := by
  intro call hcall
  have hplain := h call hcall
  obtain ⟨question, answer⟩ := call
  cases question <;> simp_all [Question.touches, isOpened]

theorem Keeps.append (h : Keeps patience s es s') (h' : Keeps patience s' es' s'') :
    Keeps patience s (es ++ es') s'' := by
  refine ⟨h.account.append h'.account, fun since hsince => ?_⟩
  obtain ⟨hmid, hafter⟩ := h'.retry since hsince
  obtain ⟨hstart, hbefore⟩ := h.retry since hmid
  exact ⟨hstart, List.forall_mem_append.mpr ⟨hbefore, hafter⟩⟩

/-- A call that leaves the clipboard and the restore alone. -/
theorem Keeps.asides (h : ∀ call ∈ es, call.question.touches = false)
    (hpending : s'.pending = s.pending) : Keeps patience s es s' := by
  have hheld : s'.held = s.held := by
    unfold held
    rw [hpending]
  have hretry : s'.retrySince = s.retrySince := by
    unfold retrySince
    rw [hpending]
  refine ⟨?_, fun since hsince => ⟨hretry ▸ hsince, unopened_of_untouched h⟩⟩
  rw [hheld]
  exact .asides h

/-- An open that finds the clipboard busy. -/
theorem Keeps.busy {window : OwnerWindow} :
    Keeps patience s [⟨.openClipboard window, false⟩] s := by
  refine ⟨.busy (.nil _), fun since hsince => ⟨hsince, ?_⟩⟩
  intro call hcall
  rw [List.mem_singleton] at hcall
  subst hcall
  rfl

/-- An account after which no wait for a busy clipboard is left. -/
theorem Keeps.of_account (h : Account patience s.held es s'.held) (hretry : s'.retrySince = none) :
    Keeps patience s es s' :=
  ⟨h, fun since hsince => by rw [hretry] at hsince; exact absurd hsince (by simp)⟩

theorem held_of_none (h : s.pending = none) : s.held = none := by
  unfold held
  rw [h]
  rfl

theorem held_of_some {pending : Pending} (h : s.pending = some pending) :
    s.held = some pending.held := by
  unfold held
  rw [h]
  rfl

theorem retrySince_of_none (h : s.pending = none) : s.retrySince = none := by
  unfold retrySince
  rw [h]
  rfl

/-- An open after which the session ends. -/
theorem Keeps.ended {pending : Pending} {inside rest : List PortCall} {closed : Bool}
    (hpending : s.pending = some pending)
    (opening : Opening (some pending.held) pending.window inside none)
    (hrest : ∀ call ∈ rest, call.question.touches = false) (hnone : s'.pending = none) :
    Keeps patience s
      (⟨.openClipboard pending.window, true⟩ ::
        (inside ++ ⟨.closeClipboard, closed⟩ :: rest)) s' := by
  refine .of_account ?_ (retrySince_of_none hnone)
  rw [held_of_some hpending, held_of_none hnone]
  exact .opened opening (.asides hrest)

end Keeps

/-- The open under which the phrase was written, or the content put back. -/
theorem PhrasePath.keeps {pending : Pending} {markers : Markers} {spec : PasteSpec}
    {s s' : PasteSession} {es inside : List PortCall} {window : OwnerWindow} {patience : Prop}
    (h : PhrasePath pending markers spec es s')
    (put : ∀ now marks, marks.map Exchange.question =
        (markers.phrase.map fun id => .write id (.bytes MARKER_DATA)) →
      Opening s.held window (inside ++ ⟨.now, now⟩ ::
        ⟨.write CF_UNICODETEXT (.units spec.units), true⟩ :: marks) (some pending.held))
    (back : ∀ now back, PutsBack pending.original back →
      Opening s.held window (inside ++ ⟨.now, now⟩ ::
        ⟨.write CF_UNICODETEXT (.units spec.units), false⟩ :: back) none) :
    Keeps patience s (⟨.openClipboard window, true⟩ :: (inside ++ es)) s' := by
  cases h with
  | @put now marks rest closed _ hmarks hrest hheld hretry =>
    refine .of_account ?_ hretry
    show Account patience s.held (⟨.openClipboard window, true⟩ :: (inside ++ ((⟨.now, now⟩ ::
      ⟨.write CF_UNICODETEXT (.units spec.units), true⟩ :: marks) ++
        ⟨.closeClipboard, closed⟩ :: rest))) s'.held
    rw [hheld, ← List.append_assoc]
    exact .opened (put now marks hmarks) (.asides hrest)
  | @back now writes rest closed _ hback hrest hnone =>
    refine .of_account ?_ (retrySince_of_none hnone)
    show Account patience s.held (⟨.openClipboard window, true⟩ :: (inside ++ ((⟨.now, now⟩ ::
      ⟨.write CF_UNICODETEXT (.units spec.units), false⟩ :: writes) ++
        ⟨.closeClipboard, closed⟩ :: rest))) s'.held
    rw [held_of_none hnone, ← List.append_assoc]
    exact .opened (back now writes hback) (.asides hrest)

/-- The session after a turn. -/
def Turn.session : Turn → PasteSession
  | .again s | .ended s _ => s

section Restore

variable {patience : Prop} {s s' : PasteSession} {pending : Pending} {es : List PortCall}

theorem Keeps.sequence {n : Nat} : Keeps patience s [⟨.sequenceNumber, n⟩] s :=
  .asides (by simp [Question.touches]) rfl

/-- A call that changes only when the restore is due. -/
theorem Keeps.waits {pending' : Pending} (hpending : s.pending = some pending)
    (h : ∀ call ∈ es, call.question.touches = false) (hheld : pending'.held = pending.held)
    (hretry : pending'.retrySince = pending.retrySince) :
    Keeps patience s es (s.withPending pending') := by
  have hsince : (s.withPending pending').retrySince = s.retrySince := by
    unfold retrySince
    rw [hpending]
    exact hretry
  refine ⟨?_, fun since h' => ⟨hsince ▸ h', unopened_of_untouched h⟩⟩
  rw [held_of_some hpending, held_of_some (s := s.withPending pending') rfl, hheld]
  exact .asides h

end Restore

end PasteSession

end KeySwitch.Executor
