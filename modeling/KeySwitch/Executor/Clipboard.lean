import KeySwitch.Executor.Runs

/-!
# The clipboard's formats

What the paste session decides about clipboard formats without Windows: which ones a
save keeps, which ones show that another program changed the clipboard, and the
markers that the daemon writes next to a phrase and next to a copy it puts back.
-/

namespace KeySwitch.Executor

open Data

/-- The id of a clipboard format. -/
abbrev Format := Nat

def CF_TEXT : Format := 1
def CF_BITMAP : Format := 2
def CF_METAFILEPICT : Format := 3
def CF_SYLK : Format := 4
def CF_DIF : Format := 5
def CF_TIFF : Format := 6
def CF_OEMTEXT : Format := 7
def CF_DIB : Format := 8
def CF_PALETTE : Format := 9
def CF_PENDATA : Format := 10
def CF_RIFF : Format := 11
def CF_WAVE : Format := 12
/-- UTF-16 text, ending with one NUL. -/
def CF_UNICODETEXT : Format := 13
def CF_ENHMETAFILE : Format := 14
def CF_HDROP : Format := 15
def CF_LOCALE : Format := 16
def CF_DIBV5 : Format := 17
def CF_OWNERDISPLAY : Format := 0x80
def CF_DSPTEXT : Format := 0x81
def CF_DSPBITMAP : Format := 0x82
def CF_DSPMETAFILEPICT : Format := 0x83
def CF_DSPENHMETAFILE : Format := 0x8E

/-- `REGISTERED.contains`: the ids that Windows gives to registered names. -/
def isRegistered (format : Format) : Bool := 0xC000 ≤ format && format ≤ 0xFFFF

/-- The registered formats whose data is not a copy of the content. -/
def OLE_FORMATS : List String :=
  ["Ole Private Data", "Object Descriptor", "Link Source", "Link Source Descriptor",
    "Embed Source", "ObjectLink", "OwnerLink", "Native", "DataObject"]

/-! ## Markers -/

/-- The registered formats the daemon writes. -/
inductive Marker
  | excludeFromMonitoring
  | canIncludeInHistory
  | canUploadToCloud
  | viewerIgnore
  /-- The daemon's own: this content is a copy that the daemon put back. -/
  | restored
  deriving DecidableEq, Repr

namespace Marker

/-- Every marker, in the order the daemon registers and writes them. -/
def ALL : List Marker :=
  [excludeFromMonitoring, canIncludeInHistory, canUploadToCloud, viewerIgnore, restored]

def name : Marker → String
  | excludeFromMonitoring => "ExcludeClipboardContentFromMonitorProcessing"
  | canIncludeInHistory => "CanIncludeInClipboardHistory"
  | canUploadToCloud => "CanUploadToCloudClipboard"
  | viewerIgnore => "Clipboard Viewer Ignore"
  | restored => "KeySwitchRsRestored"

/-- The marker registered as `name`. -/
def named (name : String) : Option Marker :=
  ALL.find? fun marker => eqIgnoreAsciiCase marker.name name

end Marker

/-- The ids of the markers, in the order of `Marker.ALL`; `none` for one whose
registration failed. -/
structure Markers where
  ids : List (Option Format)
  deriving DecidableEq, Repr

namespace Markers

/-- The ids a phrase carries: every marker but the daemon's own. -/
def phrase (m : Markers) : List Format :=
  ((Marker.ALL.zip m.ids).filter fun pair => pair.1 != .restored).filterMap Prod.snd

/-- The ids a restored copy carries: every marker. -/
def restored (m : Markers) : List Format := m.ids.filterMap id

end Markers

/-! ## Formats a save keeps -/

/-- What the session does with a format of the clipboard it saves. -/
inductive Class
  | keep
  /-- `CF_DIB` or `CF_DIBV5`: Windows makes the one from the other. -/
  | bitmap
  | skip
  deriving DecidableEq, Repr

/-- The class of `format`, whose registered name is `name`. -/
def classify (format : Format) (name : Option String) : Class :=
  if [CF_UNICODETEXT, CF_SYLK, CF_DIF, CF_TIFF, CF_PENDATA, CF_RIFF, CF_WAVE, CF_HDROP,
      CF_LOCALE, CF_DSPTEXT].contains format then .keep
  else if [CF_DIB, CF_DIBV5].contains format then .bitmap
  else if [CF_TEXT, CF_OEMTEXT, CF_BITMAP, CF_PALETTE, CF_DSPBITMAP, CF_METAFILEPICT,
      CF_ENHMETAFILE, CF_DSPMETAFILEPICT, CF_DSPENHMETAFILE, CF_OWNERDISPLAY].contains format then
    .skip
  else if isRegistered format then
    match name with
    | some name =>
      if (Marker.named name).isNone && !OLE_FORMATS.any (fun ole => eqIgnoreAsciiCase ole name) then
        .keep
      else .skip
    | none => .skip
  else .skip

/-- The formats of an enumeration that the session saves: the ones to keep and the
first bitmap; `bitmap` says whether there was one. -/
def keptFrom (bitmap : Bool) : List (Format × Option String) → List Format
  | [] => []
  | (format, name) :: rest =>
    match classify format name with
    | .keep => format :: keptFrom bitmap rest
    | .bitmap => if bitmap then keptFrom bitmap rest else format :: keptFrom true rest
    | .skip => keptFrom bitmap rest

def keptFormats (enumerated : List (Format × Option String)) : List Format :=
  keptFrom false enumerated

/-- Whether `enumerated` holds a format that is not one of `written` and that Windows
does not make from the text. -/
def foreignFormatPresent (enumerated written : List Format) : Bool :=
  enumerated.any fun format =>
    !written.contains format && !([CF_TEXT, CF_OEMTEXT, CF_LOCALE].contains format)

/-! ## Data -/

/-- What a read of a format found. -/
inductive Read
  | bytes (data : List UInt8)
  /-- The data has this many bytes, more than the limit asked for. -/
  | tooBig (size : Nat)
  | noMemory
  | failed
  deriving DecidableEq, Repr

/-- What a write puts on the clipboard. -/
inductive Payload
  /-- UTF-16 units, the phrase's text. -/
  | units (data : List UInt16)
  | bytes (data : List UInt8)
  deriving DecidableEq, Repr

/-- Whether a `CanIncludeInClipboardHistory` marker lets the content into the
history: a DWORD that is not 0. -/
def allowsHistory : Read → Bool
  | .bytes data => decide (4 ≤ data.length) && (data.take 4).any (· != 0)
  | .tooBig _ | .noMemory | .failed => false

end KeySwitch.Executor
