import KeySwitch.Data.Combo
import KeySwitch.Executor.Clipboard
import KeySwitch.Lib.Dialogue
import Mathlib.Data.List.Sort

/-!
# The paste session

A `Paste` saves the clipboard, puts its phrase there, sends the paste keystroke, and
puts the saved content back later. What it needs of the world it asks: the clipboard,
the desk (the foreground window, whether a window answers, the modifiers, the
keystroke), the clock and whether its epoch is live. Every function that asks is a
`Dialogue` over these questions, in the order of the source.

`attempt` is one try of a paste: it goes as far as it can and says when to try again.
The session's restore waits in `pending`: `tick` decides when it is due,
`restoreIfDue` tries it, and `close`, `restoreNow` and `abandon` try it at other
times. The clipboard stays open from an open that succeeds to the close after it,
which the source's guard sends on every way out.
-/

namespace KeySwitch.Executor

open Data Lib

/-! ## Terms -/

def CHAIN_WAIT_LIMIT : Duration := fromMillis 1000
def MODIFIER_POLL : Duration := fromMillis 5
def MODIFIER_LIMIT : Duration := fromMillis 3000
def OWNER_PROBE : Duration := fromMillis 100
def OPEN_BACKOFF : List Duration :=
  [fromMillis 5, fromMillis 10, fromMillis 20, fromMillis 40, fromMillis 80]
def SAVE_BUDGET : Duration := fromMillis 50
/-- The most bytes a save keeps. -/
def SAVE_CAP : Nat := 64 * 2 ^ 20
def HUNG_LIMIT : Duration := fromMillis 5000
def TARGET_PROBE : Duration := fromMillis 20
def TARGET_RETRY : Duration := fromMillis 250
def SETTLE : Duration := fromMillis 100
def RESTORE_RETRY : Duration := fromMillis 25
def RESTORE_RETRY_LIMIT : Duration := fromMillis 1000
def CLOSING_RETRY : Duration := fromMillis 10
def MARKER_READ_LIMIT : Nat := 64
/-- The data of every marker the daemon writes: a DWORD 0. -/
def MARKER_DATA : List UInt8 := [0, 0, 0, 0]

/-! ## What a paste asks -/

/-- A window of the daemon, as an integer. -/
abbrev OwnerWindow := Int

/-- What a probe of a window found. -/
inductive Probe
  | answered
  /-- It answered after a noticeable wait. -/
  | late
  | noAnswer
  | gone
  deriving DecidableEq, Repr

/-- A call of the clipboard, the desk, the clock or the epoch. -/
inductive Question
  | foreground
  | responds (window : Int) (within : Duration)
  | modifierDown
  | press (keys : List VirtualKey)
  | releaseAfter (keys : List VirtualKey) (sent : Nat)
  | createWindow
  | destroyWindow (window : OwnerWindow)
  | owner
  | openClipboard (window : OwnerWindow)
  | closeClipboard
  | emptyClipboard
  | formats
  | formatName (format : Format)
  | read (format : Format) (limit : Nat)
  | write (format : Format) (data : Payload)
  | register (marker : Marker)
  | sequenceNumber
  | now
  | live
  deriving DecidableEq, Repr

/-- What each call answers; a call that can fail answers whether it succeeded. -/
abbrev Question.Answer : Question → Type
  | foreground => TargetWindow
  | responds _ _ => Probe
  | modifierDown => Bool
  | press _ => ComboSent
  | releaseAfter _ _ => Nat
  | createWindow => Option OwnerWindow
  | destroyWindow _ => Unit
  | owner => Option Int
  | openClipboard _ => Bool
  | closeClipboard => Bool
  | emptyClipboard => Bool
  | formats => List Format
  | formatName _ => Option String
  | read _ _ => Read
  | write _ _ => Bool
  | register _ => Option Format
  | sequenceNumber => Nat
  | now => Instant
  | live => Bool

/-- A program that makes such calls. -/
abbrev Talk := Dialogue Question Question.Answer

/-- One call with its answer. -/
abbrev PortCall := Exchange Question Question.Answer

/-! ## The state -/

/-- What a paste that waits keeps between its tries. -/
structure Attempt where
  /-- The foreground window when the paste started. -/
  foreground : TargetWindow
  /-- When it began to wait for the restore of the paste before it. -/
  chainSince : Option Instant
  /-- Whether it went ahead at that wait's limit. -/
  wentAhead : Bool
  /-- When it began to wait for the modifiers' release. -/
  modifiersSince : Option Instant
  /-- Whether the clipboard's owner was probed. -/
  prechecked : Bool
  /-- How many opens failed, and when the first one did. -/
  openTries : Nat
  openSince : Option Instant
  deriving DecidableEq, Repr

/-- What became of a try. -/
inductive Step
  | done
  /-- Try again once the clock reaches this. -/
  | waitUntil (deadline : Instant)
  deriving DecidableEq, Repr

namespace Attempt

def new (foreground : TargetWindow) : Attempt := ⟨foreground, none, false, none, false, 0, none⟩

/-- The wait after an open that failed at `now`, until the retries are spent. -/
def openFailed (state : Attempt) (now : Instant) : Attempt × Step :=
  let state := { state with openSince := some (state.openSince.getD now) }
  match OPEN_BACKOFF[state.openTries]? with
  | some wait => ({ state with openTries := state.openTries + 1 }, .waitUntil (now + wait))
  | none => (state, .done)

end Attempt

/-- A format of the clipboard as the save copied it. -/
structure SavedFormat where
  format : Format
  bytes : List UInt8
  deriving DecidableEq, Repr

/-- What the restore puts back. -/
inductive Original
  | saved (formats : List SavedFormat)
  /-- Content marked private: the restore empties the clipboard. -/
  | privateContent
  /-- Nothing was there, or nothing could be copied. -/
  | empty
  deriving DecidableEq, Repr

/-- The restore that waits. -/
structure Pending where
  /-- The window that emptied the clipboard. -/
  window : OwnerWindow
  original : Original
  /-- The formats of the phrase: the text and the markers. -/
  written : List Format
  /-- When the restore is decided. -/
  restoreAt : Instant
  /-- When it is due whatever the target does. -/
  hardLimit : Instant
  /-- The window the keystroke went to; `none` until it went out. -/
  target : Option Int
  seenBusy : Bool
  /-- Whether the wait after a busy target answered was given. -/
  settled : Bool
  lastProbe : Option Probe
  due : Bool
  /-- When the restore first found the clipboard busy, and when it tries again. -/
  retrySince : Option Instant
  nextTry : Option Instant
  /-- The clipboard's sequence number after the phrase was set. -/
  sequence : Nat
  deriving DecidableEq, Repr

namespace Pending

def new (window : OwnerWindow) (original : Original) (written : List Format) (now : Instant) :
    Pending :=
  ⟨window, original, written, now, now, none, false, false, none, false, none, none, 0⟩

/-- Starts over for a phrase set at `now`. -/
def renew (p : Pending) (now : Instant) : Pending :=
  { p with
    restoreAt := now, hardLimit := now, target := none, seenBusy := false, settled := false,
    lastProbe := none, due := false, retrySince := none, nextTry := none }

/-- The keystroke went out at `keystroke`, to `target`. -/
def keystrokeSent (p : Pending) (keystroke : Instant) (delay : Duration) (target : Int) : Pending :=
  { p with
    restoreAt := keystroke + delay, hardLimit := keystroke + max delay HUNG_LIMIT,
    target := some target }

/-- What a probe of the target at `now` decides. -/
def probed (p : Pending) (now : Instant) (probe : Probe) : Pending :=
  let p := { p with lastProbe := some probe }
  match probe with
  | .gone => { p with due := true }
  | .noAnswer => { p with seenBusy := true, restoreAt := min (now + TARGET_RETRY) p.hardLimit }
  | .answered | .late =>
    let p := { p with seenBusy := p.seenBusy || probe == Probe.late }
    if p.seenBusy && !p.settled then
      { p with settled := true, restoreAt := min (now + SETTLE) p.hardLimit }
    else { p with due := true }

end Pending

/-- What the end of a session leaves for later. -/
inductive After
  /-- The idle window of the next paste. -/
  | nextPaste
  /-- No window: the executor ends. -/
  | exit
  deriving DecidableEq, Repr

/-- What a try at the restore found. -/
inductive Restore
  | putBack
  | changed
  | busy
  deriving DecidableEq, Repr

/-- What the restore at the executor's stop did. -/
inductive Closing
  | done
  | retryAt (deadline : Instant)
  deriving DecidableEq, Repr

/-- The executor's one paste session. -/
structure PasteSession where
  /-- The window the next fresh paste empties the clipboard with. -/
  window : Option OwnerWindow
  /-- The window of the session that ended last. -/
  lastWindow : Option OwnerWindow
  pending : Option Pending
  markers : Option Markers
  deriving DecidableEq, Repr

/-! ## The save -/

/-- The names of the registered formats, each asked for. -/
def registeredNames : List Format → Talk (List (Option String))
  | [] => .done []
  | format :: rest =>
    if isRegistered format then
      .ask (.formatName format) fun name => (registeredNames rest).map (name :: ·)
    else (registeredNames rest).map (none :: ·)

/-- The first format whose name is that of `wanted`. -/
def markerFormat (formats : List Format) (names : List (Option String)) (wanted : Marker) :
    Option Format :=
  ((formats.zip names).find? fun pair => pair.2.bind Marker.named == some wanted).map Prod.fst

/-- Whether the content is marked private, and not by a copy this daemon put back. -/
def isPrivate (formats : List Format) (names : List (Option String)) : Talk Bool :=
  if (markerFormat formats names .restored).isSome then .done false
  else if (markerFormat formats names .excludeFromMonitoring).isSome then .done true
  else
    match markerFormat formats names .canIncludeInHistory with
    | none => .done false
    | some format =>
      .ask (.read format MARKER_READ_LIMIT) fun (found : Read) => .done (!allowsHistory found)

/-- The reads of the save, in their order, with the bytes so far: each format with its
place in the enumeration. The text is read whatever the time. -/
def readKept (text : Option Nat) (started : Instant) :
    List (Nat × Format) → Nat → List (Nat × SavedFormat) → Talk (List (Nat × SavedFormat))
  | [], _, saved => .done saved
  | (index, format) :: rest, total, saved =>
    let readFormat : Talk (List (Nat × SavedFormat)) :=
      .ask (.read format (SAVE_CAP - total)) fun (found : Read) =>
        match found with
        | .bytes bytes =>
          readKept text started rest (total + bytes.length) (saved ++ [(index, ⟨format, bytes⟩)])
        | _ => readKept text started rest total saved
    if some index != text then
      .ask .now fun (now : Instant) =>
        if SAVE_BUDGET ≤ now - started then readKept text started rest total saved
        else readFormat
    else readFormat

/-- Saves what the clipboard, open by the session, holds. -/
def save : Talk Original :=
  .ask .now fun (started : Instant) =>
  .ask .formats fun (formats : List Format) =>
    if formats.isEmpty then .done .empty
    else
      (registeredNames formats).bind fun names =>
      (isPrivate formats names).bind fun secret =>
        if secret then .done .privateContent
        else
          let kept := keptFormats (formats.zip names)
          let text := kept.findIdx? (· == CF_UNICODETEXT)
          let entries := kept.zipIdx.map Prod.swap
          let order := (entries.filter fun entry => some entry.1 == text) ++
            entries.filter fun entry => some entry.1 != text
          (readKept text started order 0 []).map fun saved =>
            if saved.isEmpty then .empty
            else .saved ((saved.insertionSort fun a b => a.1 ≤ b.1).map Prod.snd)

/-! ## The restore -/

/-- Whether the clipboard, open by the session, still holds the daemon's phrase. -/
def stillOurs (pending : Pending) : Talk Bool :=
  .ask .owner fun (owner : Option Int) =>
    if owner != some pending.window then .done false
    else
      .ask .formats fun (formats : List Format) =>
        .done (!foreignFormatPresent formats pending.written)

/-- Writes formats one after the other, whether or not one fails. -/
def writeAll : List (Format × Payload) → Talk Unit
  | [] => .done ()
  | (format, data) :: rest => .ask (.write format data) fun _ => writeAll rest

/-- Puts the original of `pending` back: empty the clipboard, then the saved formats in
order and every marker. -/
def putBack (pending : Pending) (markers : Option Markers) : Talk Unit :=
  .ask .emptyClipboard fun (emptied : Bool) =>
    if !emptied then .done ()
    else
      match pending.original with
      | .saved formats =>
        writeAll (formats.map (fun saved => (saved.format, .bytes saved.bytes)) ++
          (markers.elim [] Markers.restored).map fun id => (id, .bytes MARKER_DATA))
      | .privateContent | .empty => .done ()

namespace PasteSession

def new : PasteSession := ⟨none, none, none, none⟩

/-- The idle window of the next paste, if there is to be one. -/
def makeIdle (s : PasteSession) (after : After) : Talk PasteSession :=
  if after == .nextPaste && s.window.isNone then
    .ask .createWindow fun (window : Option OwnerWindow) => .done { s with window := window }
  else .done s

/-- Ends the session: its window is destroyed, and for the next paste the idle window
is made. -/
def endSession (s : PasteSession) (after : After) : Talk PasteSession :=
  match s.pending with
  | some pending =>
    .ask (.destroyWindow pending.window) fun _ =>
      { s with pending := none, lastWindow := some pending.window }.makeIdle after
  | none => s.makeIdle after

/-- One try at the restore; the session ends, leaving `after`, unless the clipboard was
busy. -/
def tryRestore (s : PasteSession) (after : After) : Talk (PasteSession × Restore) :=
  match s.pending with
  | none => .done (s, .putBack)
  | some pending =>
    .ask .sequenceNumber fun _ =>
    .ask (.openClipboard pending.window) fun (opened : Bool) =>
      if !opened then .done (s, .busy)
      else
        (stillOurs pending).bind fun ours =>
          if ours then
            (putBack pending s.markers).bind fun _ =>
            .ask .closeClipboard fun _ =>
            (s.endSession after).map fun s => (s, .putBack)
          else
            .ask .closeClipboard fun _ => (s.endSession after).map fun s => (s, .changed)

/-- Decides whether the restore is due; also whether it asked. -/
def tick (s : PasteSession) (now : Instant) : Talk (PasteSession × Bool) :=
  match s.pending with
  | none => .done (s, false)
  | some pending =>
    if pending.due || now < pending.restoreAt then .done (s, false)
    else
      match pending.target with
      | none => .done ({ s with pending := some { pending with due := true } }, false)
      | some target =>
        if pending.hardLimit ≤ now then
          .done ({ s with pending := some { pending with due := true } }, false)
        else
          .ask (.responds target TARGET_PROBE) fun (probe : Probe) =>
            .done ({ s with pending := some (pending.probed now probe) }, true)

/-- A busy clipboard at `now`: given up after `RESTORE_RETRY_LIMIT`, or tried again. -/
def retryRestore (s : PasteSession) (now : Instant) : Talk PasteSession :=
  match s.pending with
  | none => .done s
  | some pending =>
    let since := pending.retrySince.getD now
    if RESTORE_RETRY_LIMIT ≤ now - since then
      { s with pending := some { pending with retrySince := some since } }.endSession .nextPaste
    else
      .done { s with
        pending := some
          { pending with retrySince := some since, nextTry := some (now + RESTORE_RETRY) } }

/-- Puts the clipboard back if the restore is due; also whether it asked. -/
def restoreIfDue (s : PasteSession) (now : Instant) : Talk (PasteSession × Bool) :=
  match s.pending with
  | none => .done (s, false)
  | some pending =>
    if !pending.due && (pending.target.isSome || now < pending.restoreAt) then .done (s, false)
    else
      let s := { s with pending := some { pending with due := true } }
      if pending.nextTry.any fun deadline => now < deadline then .done (s, false)
      else
        (s.tryRestore .nextPaste).bind fun tried =>
          match tried.2 with
          | .busy => (tried.1.retryRestore now).map fun s => (s, true)
          | .putBack | .changed => .done (tried.1, true)

/-- When the session must be polled again, if a restore waits. -/
def next (s : PasteSession) : Option Instant :=
  s.pending.map fun pending =>
    match pending.nextTry with
    | some deadline => if pending.due then deadline else pending.restoreAt
    | none => pending.restoreAt

/-- Ends the session after one of its calls panicked. -/
def giveUp (s : PasteSession) : Talk PasteSession := s.endSession .nextPaste

/-- The restore at the executor's stop, until `deadline`. -/
def close (s : PasteSession) (now deadline : Instant) : Talk (PasteSession × Closing) :=
  if s.pending.isNone then .done (s, .done)
  else
    (s.tryRestore .exit).bind fun tried =>
      match tried.2 with
      | .putBack | .changed => .done (tried.1, .done)
      | .busy =>
        if now < deadline then .done (tried.1, .retryAt (min (now + CLOSING_RETRY) deadline))
        else (tried.1.endSession .exit).map fun s => (s, .done)

/-- The restore now, after the executor's timer failed. -/
def restoreNow (s : PasteSession) : Talk PasteSession :=
  if s.pending.isNone then .done s
  else
    (s.tryRestore .nextPaste).bind fun tried =>
      match tried.2 with
      | .putBack | .changed => .done tried.1
      | .busy => tried.1.endSession .nextPaste

/-- The end of the idle window. -/
def destroyIdle (s : PasteSession) : Talk PasteSession :=
  match s.window with
  | some window => .ask (.destroyWindow window) fun _ => .done { s with window := none }
  | none => .done s

/-- The last try at the restore, and the end of the session's windows. -/
def abandon (s : PasteSession) : Talk PasteSession :=
  if s.pending.isNone then s.destroyIdle
  else
    (s.tryRestore .exit).bind fun tried =>
      match tried.2 with
      | .putBack | .changed => tried.1.destroyIdle
      | .busy => (tried.1.endSession .exit).bind destroyIdle

/-! ## A paste -/

/-- The idle window, made if there is none. -/
def idleWindow (s : PasteSession) : Talk (PasteSession × Option OwnerWindow) :=
  match s.window with
  | some window => .done (s, some window)
  | none =>
    .ask .createWindow fun (window : Option OwnerWindow) =>
      .done ({ s with window := window }, window)

/-- Whether the program that owns the clipboard does not answer. -/
def ownerHangs (s : PasteSession) : Talk Bool :=
  .ask .owner fun (owner : Option Int) =>
    match owner with
    | none => .done false
    | some owner =>
      if s.window == some owner || s.lastWindow == some owner then .done false
      else
        .ask (.responds owner OWNER_PROBE) fun (probe : Probe) => .done (probe == .noAnswer)

/-- The ids of the markers, each registered. -/
def registerMarkers : List Marker → Talk (List (Option Format))
  | [] => .done []
  | marker :: rest =>
    .ask (.register marker) fun (id : Option Format) => (registerMarkers rest).map (id :: ·)

/-- The keystroke of `spec` at the window of the paste, with the phrase on the
clipboard. -/
def sendKeystroke (s : PasteSession) (pending : Pending) (state : Attempt) (spec : PasteSpec) :
    Talk PasteSession :=
  .ask (.press spec.keys) fun (combo : ComboSent) =>
  .ask .now fun (keystroke : Instant) =>
    let sent : Talk PasteSession :=
      .done { s with
        pending := some (pending.keystrokeSent keystroke spec.restoreDelay state.foreground) }
    if combo.sent == 0 then .done s
    else if combo.sent < combo.of then
      .ask (.releaseAfter spec.keys combo.sent) fun _ =>
        -- If no key besides modifiers went down, nothing was pasted.
        if combo.sent ≤ (spec.keys.filter isModifier).length then .done s else sent
    else sent

/-- Asks once more what the keystroke depends on, and sends it if nothing changed. -/
def checkAndSend (s : PasteSession) (pending : Pending) (state : Attempt) (spec : PasteSpec) :
    Talk PasteSession :=
  .ask .live fun (live : Bool) =>
    if !live then .done s
    else
      .ask .foreground fun (foreground : TargetWindow) =>
        if foreground != state.foreground then .done s
        else
          .ask .modifierDown fun (down : Bool) =>
            if down then .done s else s.sendKeystroke pending state spec

/-- Puts the phrase and its markers on the clipboard this session has open and just
emptied, closes it, and sends the keystroke if nothing changed meanwhile. -/
def setPhrase (s : PasteSession) (pending : Pending) (markers : Markers) (state : Attempt)
    (spec : PasteSpec) : Talk PasteSession :=
  .ask .now fun (now : Instant) =>
    let pending := pending.renew now
    .ask (.write CF_UNICODETEXT (.units spec.units)) fun (wrote : Bool) =>
      if !wrote then
        (putBack pending (some markers)).bind fun _ =>
        .ask .closeClipboard fun _ =>
        { s with pending := some pending }.endSession .nextPaste
      else
        (writeAll (markers.phrase.map fun id => (id, .bytes MARKER_DATA))).bind fun _ =>
        .ask .closeClipboard fun _ =>
        .ask .sequenceNumber fun (sequence : Nat) =>
          let pending := { pending with sequence := sequence }
          { s with pending := some pending }.checkAndSend pending state spec

/-- How a turn of the paste's loop ends. -/
inductive Turn
  /-- The clipboard was taken over: the session ended, and the loop goes on. -/
  | again (s : PasteSession)
  | ended (s : PasteSession) (step : Step)

/-- A turn with a restore waiting: the phrase of the paste before is taken over if the
clipboard still holds it. -/
def chainedTurn (s : PasteSession) (pending : Pending) (markers : Markers) (state : Attempt)
    (spec : PasteSpec) : Talk (Turn × Attempt) :=
  .ask (.openClipboard pending.window) fun (opened : Bool) =>
    if !opened then
      .ask .now fun (now : Instant) =>
        let failed := state.openFailed now
        .done (.ended s failed.2, failed.1)
    else
      (stillOurs pending).bind fun ours =>
        if !ours then
          .ask .closeClipboard fun _ =>
          (s.endSession .nextPaste).map fun s => (.again s, state)
        else
          .ask .emptyClipboard fun (emptied : Bool) =>
            if !emptied then .ask .closeClipboard fun _ => .done (.ended s .done, state)
            else
              (s.setPhrase pending markers state spec).map fun s => (.ended s .done, state)

/-- Opens the clipboard with the idle window, saves what it holds and empties it. -/
def openFresh (s : PasteSession) (window : OwnerWindow) (markers : Markers) (state : Attempt)
    (spec : PasteSpec) : Talk (Turn × Attempt) :=
  .ask (.openClipboard window) fun (opened : Bool) =>
    if !opened then
      .ask .now fun (now : Instant) =>
        let failed := state.openFailed now
        .done (.ended s failed.2, failed.1)
    else
      save.bind fun original =>
      .ask .emptyClipboard fun (emptied : Bool) =>
        if !emptied then .ask .closeClipboard fun _ => .done (.ended s .done, state)
        else
          .ask .now fun (now : Instant) =>
            let pending := Pending.new window original (CF_UNICODETEXT :: markers.phrase) now
            ({ s with window := none, pending := some pending }.setPhrase pending markers state
              spec).map fun s => (.ended s .done, state)

/-- A turn with no restore waiting: the clipboard's owner is probed once. -/
def freshTurn (s : PasteSession) (markers : Markers) (state : Attempt) (spec : PasteSpec) :
    Talk (Turn × Attempt) :=
  s.idleWindow.bind fun idle =>
    match idle.2 with
    | none => .done (.ended idle.1 .done, state)
    | some window =>
      if state.prechecked then idle.1.openFresh window markers state spec
      else
        let state := { state with prechecked := true }
        idle.1.ownerHangs.bind fun hangs =>
          if hangs then .done (.ended idle.1 .done, state)
          else idle.1.openFresh window markers state spec

/-- One turn of the loop. -/
def turn (s : PasteSession) (markers : Markers) (state : Attempt) (spec : PasteSpec) :
    Talk (Turn × Attempt) :=
  match s.pending with
  | some pending => s.chainedTurn pending markers state spec
  | none => s.freshTurn markers state spec

/-- What a try leaves: the session, what the paste keeps, and what became of it. -/
structure Tried where
  session : PasteSession
  state : Option Attempt
  step : Step

/-- The loop, for at most `rounds` turns; `none` if it would go on. -/
def loop (markers : Markers) (spec : PasteSpec) :
    Nat → PasteSession → Attempt → Talk (Option Tried)
  | 0, _, _ => .done none
  | rounds + 1, s, state =>
    (s.turn markers state spec).bind fun turned =>
      match turned.1 with
      | .again s => loop markers spec rounds s turned.2
      | .ended s step => .done (some ⟨s, some turned.2, step⟩)

/-- The clipboard part of a try, the markers registered once per daemon. -/
def paste (s : PasteSession) (rounds : Nat) (state : Attempt) (spec : PasteSpec) :
    Talk (Option Tried) :=
  match s.markers with
  | some markers => loop markers spec rounds s state
  | none =>
    (registerMarkers Marker.ALL).bind fun ids =>
      loop ⟨ids⟩ spec rounds { s with markers := some ⟨ids⟩ } state

/-- The checks before the clipboard is touched. -/
def checkModifiers (s : PasteSession) (rounds : Nat) (state : Attempt) (spec : PasteSpec) :
    Talk (Option Tried) :=
  .ask .modifierDown fun (down : Bool) =>
    if down then
      .ask .now fun (now : Instant) =>
        let since := state.modifiersSince.getD now
        let state := { state with modifiersSince := some since }
        if MODIFIER_LIMIT ≤ now - since then .done (some ⟨s, some state, .done⟩)
        else .done (some ⟨s, some state, .waitUntil (now + MODIFIER_POLL)⟩)
    else
      .ask .live fun (live : Bool) =>
        if !live then .done (some ⟨s, some state, .done⟩)
        else
          .ask .foreground fun (foreground : TargetWindow) =>
            if foreground != state.foreground then .done (some ⟨s, some state, .done⟩)
            else s.paste rounds state spec

/-- The wait for the restore of the paste before. -/
def checkChain (s : PasteSession) (rounds : Nat) (state : Attempt) (spec : PasteSpec) :
    Talk (Option Tried) :=
  match s.pending with
  | none => s.checkModifiers rounds state spec
  | some pending =>
    if pending.due || state.wentAhead then s.checkModifiers rounds state spec
    else
      .ask .now fun (now : Instant) =>
        let since := state.chainSince.getD now
        let limit := since + CHAIN_WAIT_LIMIT
        let state := { state with chainSince := some since }
        if now < limit then
          .done (some ⟨s, some state, .waitUntil (min pending.restoreAt limit)⟩)
        else s.checkModifiers rounds { state with wentAhead := true } spec

/-- One try: from the first, the foreground window is the one to paste into. -/
def advance (s : PasteSession) (rounds : Nat) (attempt : Option Attempt) (spec : PasteSpec) :
    Talk (Option Tried) :=
  match attempt with
  | some state => s.checkChain rounds state spec
  | none =>
    .ask .foreground fun (foreground : TargetWindow) =>
      if foreground == 0 then .done (some ⟨s, none, .done⟩)
      else s.checkChain rounds (.new foreground) spec

/-- The turns a try's loop may take; it never takes more. -/
def ROUNDS : Nat := 2

/-- Tries the Paste of `spec`; a paste that is over keeps nothing. -/
def attempt (s : PasteSession) (state : Option Attempt) (spec : PasteSpec) :
    Talk (Option Tried) :=
  (s.advance ROUNDS state spec).map fun tried =>
    tried.map fun tried => if tried.step = .done then { tried with state := none } else tried

end PasteSession

end KeySwitch.Executor
