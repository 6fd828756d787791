import KeySwitch.Executor.Keystroke
import Mathlib.Data.List.Sort

/-!
# What a save keeps

A save enumerates the clipboard with its names, asks whether the content is marked
private, and copies the formats it keeps: the text first, the others while there is time
and room, each by a read that is told how much room is left. Then it puts the copies
back in the order of the enumeration.

So the copies are a sublist of the formats to keep, whatever was skipped, and their
sizes stay within the cap as long as no read returns more than it was allowed
(`isLimited`); the text, read first, depends on no other format and on no clock. All
of it is read off one path of `save`: its opening, the read of a history marker that
decides about privacy, and the reads of the copies (`save_path`).
-/

namespace KeySwitch.Executor

open Data Lib Dialogue

/-! ## The enumeration -/

/-- A format of the clipboard with the name a save found for it. -/
abbrev NamedFormat := Format × Option String

/-- The calls that find the names: one for each registered format. -/
def nameCalls (enumerated : List NamedFormat) : List PortCall :=
  (enumerated.filter fun entry => isRegistered entry.1).map fun entry =>
    ⟨.formatName entry.1, entry.2⟩

theorem nameCalls_registered {format : Format} (h : isRegistered format = true)
    (name : Option String) (rest : List NamedFormat) :
    nameCalls ((format, name) :: rest) = ⟨.formatName format, name⟩ :: nameCalls rest := by
  unfold nameCalls
  simp [h]

theorem nameCalls_other {format : Format} (h : ¬isRegistered format = true)
    (name : Option String) (rest : List NamedFormat) :
    nameCalls ((format, name) :: rest) = nameCalls rest := by
  unfold nameCalls
  simp [h]

/-- Only registered formats have a name. -/
def WellNamed (enumerated : List NamedFormat) : Prop :=
  ∀ entry ∈ enumerated, isRegistered entry.1 = false → entry.2 = none

/-- Whether the format is registered under the name of `marker`. -/
def isMarker (marker : Marker) (entry : NamedFormat) : Bool :=
  entry.2.bind Marker.named == some marker

/-- Whether a format of the enumeration is `marker`. -/
def marked (enumerated : List NamedFormat) (marker : Marker) : Bool :=
  enumerated.any (isMarker marker)

theorem registeredNames_path {formats : List Format} {es : List PortCall}
    {names : List (Option String)} (h : Path (registeredNames formats) es names) :
    ∃ enumerated : List NamedFormat, formats = enumerated.map Prod.fst ∧
      names = enumerated.map Prod.snd ∧ es = nameCalls enumerated ∧ WellNamed enumerated := by
  induction formats generalizing es names with
  | nil =>
    obtain ⟨rfl, rfl⟩ := path_done.mp h
    exact ⟨[], rfl, rfl, rfl, fun _ hentry => absurd hentry List.not_mem_nil⟩
  | cons format rest ih =>
    unfold registeredNames at h
    split at h
    · next hregistered =>
      rw [path_ask] at h
      obtain ⟨name, es', rfl, h⟩ := h
      obtain ⟨names', hrest, rfl⟩ := path_map.mp h
      obtain ⟨enumerated, hformats, hnames, hcalls, hnamed⟩ := ih hrest
      refine ⟨(format, name) :: enumerated, ?_, ?_, ?_, ?_⟩
      · rw [hformats, List.map_cons]
      · rw [hnames, List.map_cons]
      · rw [hcalls, nameCalls_registered hregistered]
      · intro entry hentry hnot
        rcases List.mem_cons.mp hentry with rfl | hentry
        · exact absurd (hnot.symm.trans hregistered) Bool.false_ne_true
        · exact hnamed entry hentry hnot
    · next hregistered =>
      obtain ⟨names', hrest, rfl⟩ := path_map.mp h
      obtain ⟨enumerated, hformats, hnames, hcalls, hnamed⟩ := ih hrest
      refine ⟨(format, none) :: enumerated, ?_, ?_, ?_, ?_⟩
      · rw [hformats, List.map_cons]
      · rw [hnames, List.map_cons]
      · rw [hcalls, nameCalls_other hregistered]
      · intro entry hentry hnot
        rcases List.mem_cons.mp hentry with rfl | hentry
        · rfl
        · exact hnamed entry hentry hnot

/-! ## Private content -/

theorem markerFormat_eq (enumerated : List NamedFormat) (wanted : Marker) :
    markerFormat (enumerated.map Prod.fst) (enumerated.map Prod.snd) wanted =
      (enumerated.find? (isMarker wanted)).map Prod.fst := by
  unfold markerFormat
  rw [List.zip_map', List.map_id'' (fun _ => rfl)]
  rfl

theorem markerFormat_isSome (enumerated : List NamedFormat) (wanted : Marker) :
    (markerFormat (enumerated.map Prod.fst) (enumerated.map Prod.snd) wanted).isSome =
      marked enumerated wanted := by
  rw [markerFormat_eq, Option.isSome_map, Bool.eq_iff_iff, List.find?_isSome]
  exact List.any_eq_true.symm

/-- The read that decides about privacy: of the first history marker, if neither the
daemon's own marker nor the exclusion has decided already. -/
inductive HistoryRead (enumerated : List NamedFormat) : List PortCall → Prop
  | decided (h : marked enumerated .restored = true ∨
      marked enumerated .excludeFromMonitoring = true ∨
      marked enumerated .canIncludeInHistory = false) : HistoryRead enumerated []
  | asked {entry : NamedFormat} (found : Read)
      (hrestored : marked enumerated .restored = false)
      (hexcluded : marked enumerated .excludeFromMonitoring = false)
      (hfirst : enumerated.find? (isMarker .canIncludeInHistory) = some entry) :
      HistoryRead enumerated [⟨.read entry.1 MARKER_READ_LIMIT, found⟩]

/-- The content is marked private: excluded from monitoring, or by a history marker whose
data does not allow the history; and it is no copy that the daemon put back. -/
def Secret (enumerated : List NamedFormat) (history : List PortCall) : Prop :=
  marked enumerated .restored = false ∧
    (marked enumerated .excludeFromMonitoring = true ∨
      ∃ entry ∈ enumerated, isMarker .canIncludeInHistory entry = true ∧
        ∃ found, history = [⟨.read entry.1 MARKER_READ_LIMIT, found⟩] ∧
          allowsHistory found = false)

theorem isPrivate_path {enumerated : List NamedFormat} {es : List PortCall} {secret : Bool}
    (h : Path (isPrivate (enumerated.map Prod.fst) (enumerated.map Prod.snd)) es secret) :
    HistoryRead enumerated es ∧ (secret = true ↔ Secret enumerated es) := by
  unfold isPrivate at h
  rw [markerFormat_isSome, markerFormat_isSome, markerFormat_eq] at h
  split at h
  · next hrestored =>
    obtain ⟨rfl, rfl⟩ := path_done.mp h
    -- What a restore put back is never secret.
    refine ⟨.decided (.inl hrestored), fun hsecret => absurd hsecret Bool.false_ne_true, ?_⟩
    intro hsecret
    rw [hsecret.1] at hrestored
    exact absurd hrestored Bool.false_ne_true
  · next hrestored =>
    have hrestored : marked enumerated .restored = false := Bool.eq_false_iff.mpr hrestored
    split at h
    · next hexcluded =>
      obtain ⟨rfl, rfl⟩ := path_done.mp h
      exact ⟨.decided (.inr (.inl hexcluded)), fun _ => ⟨hrestored, .inl hexcluded⟩, fun _ => rfl⟩
    · next hexcluded =>
      have hexcluded : marked enumerated .excludeFromMonitoring = false :=
        Bool.eq_false_iff.mpr hexcluded
      cases hfirst : enumerated.find? (isMarker .canIncludeInHistory) with
      | none =>
        rw [hfirst] at h
        obtain ⟨rfl, rfl⟩ := path_done.mp h
        have hnone : marked enumerated .canIncludeInHistory = false := by
          unfold marked
          rw [List.any_eq_false]
          exact List.find?_eq_none.mp hfirst
        refine ⟨.decided (.inr (.inr hnone)), fun hsecret => absurd hsecret Bool.false_ne_true, ?_⟩
        rintro ⟨-, hmarked | ⟨entry, hentry, hmarker, -⟩⟩
        · exact absurd (hexcluded.symm.trans hmarked) Bool.false_ne_true
        · exact absurd hmarker (List.find?_eq_none.mp hfirst entry hentry)
      | some first =>
        rw [hfirst] at h
        obtain ⟨found, rest, rfl, hdone⟩ := path_ask.mp h
        obtain ⟨rfl, rfl⟩ := path_done.mp hdone
        refine ⟨.asked found hrestored hexcluded hfirst, ?_, ?_⟩
        · intro hsecret
          refine ⟨hrestored, .inr ⟨first, List.mem_of_find?_eq_some hfirst,
            List.find?_some hfirst, found, rfl, ?_⟩⟩
          rwa [Bool.not_eq_true'] at hsecret
        · rintro ⟨-, hmarked | ⟨entry, -, -, found', hsame, hallows⟩⟩
          · exact absurd (hexcluded.symm.trans hmarked) Bool.false_ne_true
          · -- The one read is the one whose data decides.
            have hfound : found = found' := by
              have hcall := (List.cons.inj hsame).1
              injection hcall
            rw [hfound, hallows]
            rfl

/-! ## The formats to keep -/

/-- The predefined formats that no save copies: those that Windows makes from another
one, and those whose data is no block of memory. -/
def SKIPPED : List Format :=
  [CF_TEXT, CF_OEMTEXT, CF_BITMAP, CF_PALETTE, CF_DSPBITMAP, CF_METAFILEPICT, CF_ENHMETAFILE,
    CF_DSPMETAFILEPICT, CF_DSPENHMETAFILE, CF_OWNERDISPLAY]

def isBitmap (format : Format) : Bool := [CF_DIB, CF_DIBV5].contains format

/-- A format that a save may copy: not one that Windows makes, and if it is registered,
under a name that is no marker's and no OLE format's. -/
structure Copyable (entry : NamedFormat) : Prop where
  made : entry.1 ∉ SKIPPED
  named : isRegistered entry.1 = true → ∃ name, entry.2 = some name ∧ Marker.named name = none ∧
    ∀ ole ∈ OLE_FORMATS, eqIgnoreAsciiCase ole name = false

theorem copyable_predefined {format : Format} (hmade : format ∉ SKIPPED)
    (hpredefined : isRegistered format = false) (name : Option String) :
    Copyable (format, name) :=
  ⟨hmade, fun h => absurd (hpredefined.symm.trans h) Bool.false_ne_true⟩

theorem classify_skip_or (format : Format) (name : Option String) :
    classify format name = .skip ∨ Copyable (format, name) := by
  have hkept : ∀ format ∈ [CF_UNICODETEXT, CF_SYLK, CF_DIF, CF_TIFF, CF_PENDATA, CF_RIFF, CF_WAVE,
      CF_HDROP, CF_LOCALE, CF_DSPTEXT] ++ [CF_DIB, CF_DIBV5],
      format ∉ SKIPPED ∧ isRegistered format = false := by decide
  unfold classify
  split
  · next hkeep =>
    obtain ⟨hmade, hpredefined⟩ :=
      hkept format (List.mem_append_left _ (List.contains_iff_mem.mp hkeep))
    exact .inr (copyable_predefined hmade hpredefined name)
  · split
    · next hbitmap =>
      obtain ⟨hmade, hpredefined⟩ :=
        hkept format (List.mem_append_right _ (List.contains_iff_mem.mp hbitmap))
      exact .inr (copyable_predefined hmade hpredefined name)
    · split
      · exact .inl rfl
      · next hmade =>
        split
        · split
          · next name =>
            split
            · next hname =>
              rw [Bool.and_eq_true, Bool.not_eq_true', Option.isNone_iff_eq_none] at hname
              refine .inr ⟨fun h => hmade (List.contains_iff_mem.mpr h), fun _ =>
                ⟨name, rfl, hname.1, fun ole hole => ?_⟩⟩
              exact Bool.eq_false_iff.mpr (List.any_eq_false.mp hname.2 ole hole)
            · exact .inl rfl
          · exact .inl rfl
        · exact .inl rfl

theorem classify_bitmap_iff (format : Format) (name : Option String) :
    classify format name = .bitmap ↔ isBitmap format = true := by
  unfold classify isBitmap
  split
  · next hkeep =>
    refine ⟨fun h => absurd h (by decide), fun hbitmap => ?_⟩
    revert hkeep
    simp only [List.contains_iff_mem, List.mem_cons, List.not_mem_nil, or_false] at hbitmap
    rcases hbitmap with rfl | rfl <;> decide
  · split
    · next hbitmap => exact ⟨fun _ => hbitmap, fun _ => rfl⟩
    · next hbitmap =>
      refine ⟨fun h => ?_, fun h => absurd h hbitmap⟩
      split at h
      · exact absurd h (by decide)
      · split at h
        · split at h
          · split at h
            · exact absurd h (by decide)
            · exact absurd h (by decide)
          · exact absurd h (by decide)
        · exact absurd h (by decide)

/-- The formats to keep are entries of the enumeration, in its order. -/
theorem keptFrom_sublist (bitmap : Bool) (enumerated : List NamedFormat) :
    (keptFrom bitmap enumerated).Sublist
      ((enumerated.filter fun entry => classify entry.1 entry.2 != .skip).map Prod.fst) := by
  induction enumerated generalizing bitmap with
  | nil => exact .slnil
  | cons entry rest ih =>
    obtain ⟨format, name⟩ := entry
    unfold keptFrom
    cases hclass : classify format name with
    | keep =>
      rw [List.filter_cons_of_pos (by simp [hclass]), List.map_cons]
      exact (ih bitmap).cons_cons format
    | bitmap =>
      rw [List.filter_cons_of_pos (by simp [hclass]), List.map_cons]
      dsimp only
      split
      · exact (ih bitmap).cons format
      · exact (ih true).cons_cons format
    | skip =>
      rw [List.filter_cons_of_neg (by simp [hclass])]
      exact ih bitmap

/-- Of the bitmaps only the first enumerated is kept. -/
theorem keptFrom_bitmap (bitmap : Bool) (enumerated : List NamedFormat) :
    (keptFrom bitmap enumerated).filter isBitmap =
      if bitmap then [] else ((enumerated.map Prod.fst).filter isBitmap).take 1 := by
  induction enumerated generalizing bitmap with
  | nil => cases bitmap <;> rfl
  | cons entry rest ih =>
    obtain ⟨format, name⟩ := entry
    have hbitmap := classify_bitmap_iff format name
    unfold keptFrom
    rw [List.map_cons]
    cases hclass : classify format name with
    | keep =>
      have hnot : ¬isBitmap format = true := fun h => by
        rw [← hbitmap, hclass] at h
        exact absurd h (by decide)
      rw [List.filter_cons_of_neg hnot, List.filter_cons_of_neg hnot, ih]
    | bitmap =>
      have his := hbitmap.mp hclass
      dsimp only
      cases bitmap with
      | true => rw [if_pos rfl, ih, if_pos rfl, if_pos rfl]
      | false =>
        rw [if_neg Bool.false_ne_true, List.filter_cons_of_pos his, ih, if_pos rfl,
          if_neg Bool.false_ne_true, List.filter_cons_of_pos his]
        rfl
    | skip =>
      have hnot : ¬isBitmap format = true := fun h => by
        rw [← hbitmap, hclass] at h
        exact absurd h (by decide)
      rw [List.filter_cons_of_neg hnot]
      exact ih bitmap

/-! ## The reads -/

/-- Whether what a read found is within its limit. -/
def Read.within (limit : Nat) : Read → Bool
  | .bytes data => data.length ≤ limit
  | _ => true

/-- Whether a call, if it is a read, returned at most the bytes it was allowed. -/
def isLimited : PortCall → Bool
  | ⟨.read _ limit, found⟩ => Read.within limit found
  | _ => true

/-- How many bytes the copies take. -/
def copiedBytes (saved : List (Nat × SavedFormat)) : Nat :=
  (saved.map fun copy => copy.2.bytes.length).sum

/-- The place and the format of a copy. -/
def placed (copy : Nat × SavedFormat) : Nat × Format := (copy.1, copy.2.format)

/-- What the reads of `order` add to the copies. -/
structure Reads (order : List (Nat × Format)) (total : Nat) (es : List PortCall)
    (more : List (Nat × SavedFormat)) : Prop where
  ordered : (more.map placed).Sublist order
  read : ∀ copy ∈ more, ∃ limit, (⟨.read copy.2.format limit, .bytes copy.2.bytes⟩ : PortCall) ∈ es
  within : (∀ call ∈ es, isLimited call = true) → total ≤ SAVE_CAP →
    total + copiedBytes more ≤ SAVE_CAP

theorem Reads.skip {entry : Nat × Format} {rest : List (Nat × Format)} {total : Nat}
    {es : List PortCall} {more : List (Nat × SavedFormat)} (before : List PortCall)
    (h : Reads rest total es more) :
    Reads (entry :: rest) total (before ++ es) more := by
  refine ⟨h.ordered.cons entry, fun copy hcopy => ?_, fun hlimited => h.within fun call hcall => ?_⟩
  · obtain ⟨limit, hmem⟩ := h.read copy hcopy
    exact ⟨limit, List.mem_append_right _ hmem⟩
  · exact hlimited call (List.mem_append_right _ hcall)

theorem Reads.copy {index : Nat} {format : Format} {rest : List (Nat × Format)} {total : Nat}
    {es : List PortCall} {bytes : List UInt8} {more : List (Nat × SavedFormat)}
    (before : List PortCall) (h : Reads rest (total + bytes.length) es more) :
    Reads ((index, format) :: rest) total
      (before ++ ⟨.read format (SAVE_CAP - total), .bytes bytes⟩ :: es)
      ((index, ⟨format, bytes⟩) :: more) := by
  refine ⟨h.ordered.cons_cons _, fun copy hcopy => ?_, fun hlimited htotal => ?_⟩
  · rcases List.mem_cons.mp hcopy with rfl | hcopy
    · exact ⟨_, List.mem_append_right _ List.mem_cons_self⟩
    · obtain ⟨limit, hmem⟩ := h.read copy hcopy
      exact ⟨limit, List.mem_append_right _ (List.mem_cons_of_mem _ hmem)⟩
  · have hbytes : bytes.length ≤ SAVE_CAP - total :=
      of_decide_eq_true (hlimited _ (List.mem_append_right _ List.mem_cons_self))
    have hrest := h.within
      (fun call hcall => hlimited call (List.mem_append_right _ (List.mem_cons_of_mem _ hcall)))
      (by omega)
    unfold copiedBytes at hrest ⊢
    rw [List.map_cons, List.sum_cons]
    show total + (bytes.length + _) ≤ SAVE_CAP
    omega

/-- One read of the save's loop, and the reads after it. -/
theorem readOne_path {text : Option Nat} {started : Instant} {index : Nat} {format : Format}
    {rest : List (Nat × Format)} {total : Nat} {saved result : List (Nat × SavedFormat)}
    {es : List PortCall} (before : List PortCall)
    (ih : ∀ total saved es result, Path (readKept text started rest total saved) es result →
      ∃ more, result = saved ++ more ∧ Reads rest total es more)
    (h : Path (.ask (.read format (SAVE_CAP - total)) fun (found : Read) =>
        match found with
        | .bytes bytes =>
          readKept text started rest (total + bytes.length) (saved ++ [(index, ⟨format, bytes⟩)])
        | _ => readKept text started rest total saved) es result) :
    ∃ more, result = saved ++ more ∧ Reads ((index, format) :: rest) total (before ++ es) more := by
  rw [path_ask] at h
  obtain ⟨found, es', rfl, h⟩ := h
  have hskipped : Path (readKept text started rest total saved) es' result →
      ∃ more, result = saved ++ more ∧
        Reads ((index, format) :: rest) total
          (before ++ ⟨.read format (SAVE_CAP - total), found⟩ :: es') more := by
    intro hrest
    obtain ⟨more, hresult, hreads⟩ := ih _ _ _ _ hrest
    refine ⟨more, hresult, ?_⟩
    rw [List.append_cons]
    exact hreads.skip _
  cases found with
  | bytes bytes =>
    obtain ⟨more, hresult, hreads⟩ := ih _ _ _ _ h
    refine ⟨(index, ⟨format, bytes⟩) :: more, ?_, hreads.copy before⟩
    rw [hresult, List.append_assoc, List.singleton_append]
  | tooBig size => exact hskipped h
  | noMemory => exact hskipped h
  | failed => exact hskipped h

theorem readKept_path (text : Option Nat) (started : Instant) (order : List (Nat × Format)) :
    ∀ (total : Nat) (saved : List (Nat × SavedFormat)) (es : List PortCall)
      (result : List (Nat × SavedFormat)),
          Path (readKept text started order total saved) es result →
      ∃ more, result = saved ++ more ∧ Reads order total es more := by
  induction order with
  | nil =>
    intro total saved es result h
    obtain ⟨rfl, rfl⟩ := path_done.mp h
    refine ⟨[], (List.append_nil _).symm, .slnil, fun _ h => absurd h List.not_mem_nil, ?_⟩
    exact fun _ htotal => htotal
  | cons entry rest ih =>
    intro total saved es result h
    obtain ⟨index, format⟩ := entry
    unfold readKept at h
    dsimp only at h
    split at h
    · rw [path_ask] at h
      obtain ⟨now, es', rfl, h⟩ := h
      split at h
      · -- No time is left for this format.
        obtain ⟨more, hresult, hreads⟩ := ih _ _ _ _ h
        exact ⟨more, hresult, hreads.skip [⟨.now, now⟩]⟩
      · exact readOne_path [⟨.now, now⟩] ih h
    · exact readOne_path [] ih h

/-- The text is the first read, with the whole cap for its limit. -/
theorem readText_path {index : Nat} {started : Instant} {format : Format}
    {rest : List (Nat × Format)} {es : List PortCall} {result : List (Nat × SavedFormat)}
    (h : Path (readKept (some index) started ((index, format) :: rest) 0 []) es result) :
    ∃ found es', es = ⟨.read format SAVE_CAP, found⟩ :: es' ∧
      ∀ bytes, found = .bytes bytes → (index, ⟨format, bytes⟩) ∈ result := by
  unfold readKept at h
  rw [if_neg (by simp), path_ask] at h
  obtain ⟨found, es', rfl, h⟩ := h
  refine ⟨found, es', rfl, fun bytes hfound => ?_⟩
  subst hfound
  obtain ⟨more, rfl, -⟩ := readKept_path _ _ _ _ _ _ _ h
  exact List.mem_append_left _ (List.mem_append_right _ List.mem_cons_self)

/-! ## The order of the reads -/

/-- The formats to keep, each with its place. -/
def entriesOf (kept : List Format) : List (Nat × Format) := kept.zipIdx.map Prod.swap

/-- The order in which a save reads them: the text first. -/
def readOrder (kept : List Format) : List (Nat × Format) :=
  let text := kept.findIdx? (· == CF_UNICODETEXT)
  ((entriesOf kept).filter fun entry => some entry.1 == text) ++
    (entriesOf kept).filter fun entry => some entry.1 != text

theorem entriesOf_formats (kept : List Format) : (entriesOf kept).map Prod.snd = kept := by
  unfold entriesOf
  rw [List.map_map]
  exact List.zipIdx_map_fst 0 kept

theorem entriesOf_places (kept : List Format) :
    (entriesOf kept).map Prod.fst = List.range kept.length := by
  unfold entriesOf
  rw [List.map_map, List.range_eq_range']
  exact List.zipIdx_map_snd 0 kept

theorem mem_entriesOf {kept : List Format} {index : Nat} {format : Format} :
    (index, format) ∈ entriesOf kept ↔ kept[index]? = some format := by
  unfold entriesOf
  rw [List.mem_map]
  constructor
  · intro h
    obtain ⟨entry, hentry, heq⟩ := h
    obtain ⟨rfl, rfl⟩ := Prod.mk.inj heq
    exact List.mk_mem_zipIdx_iff_getElem?.mp hentry
  · exact fun h => ⟨(format, index), List.mk_mem_zipIdx_iff_getElem?.mpr h, rfl⟩

theorem readOrder_perm (kept : List Format) : (readOrder kept).Perm (entriesOf kept) :=
  List.filter_append_perm _ _

theorem readOrder_text {kept : List Format} (h : CF_UNICODETEXT ∈ kept) :
    ∃ index rest, kept.findIdx? (· == CF_UNICODETEXT) = some index ∧
      readOrder kept = (index, CF_UNICODETEXT) :: rest := by
  obtain ⟨index, hindex⟩ : ∃ index, kept.findIdx? (· == CF_UNICODETEXT) = some index := by
    rw [← Option.isSome_iff_exists, List.findIdx?_isSome, List.any_eq_true]
    exact ⟨_, h, beq_self_eq_true _⟩
  obtain ⟨hlt, htext, -⟩ := List.findIdx?_eq_some_iff_getElem.mp hindex
  have hget : kept[index]? = some CF_UNICODETEXT := by
    rw [List.getElem?_eq_getElem hlt, eq_of_beq htext]
  unfold readOrder
  rw [hindex]
  dsimp only
  have hmem : (index, CF_UNICODETEXT) ∈
      (entriesOf kept).filter fun entry => some entry.1 == some index :=
    List.mem_filter.mpr ⟨mem_entriesOf.mpr hget, beq_self_eq_true _⟩
  cases hfirst : (entriesOf kept).filter fun entry => some entry.1 == some index with
  | nil =>
    rw [hfirst] at hmem
    exact absurd hmem List.not_mem_nil
  | cons entry rest =>
    -- Every entry at the place of the text is the text.
    have hentry : entry ∈ (entriesOf kept).filter fun entry => some entry.1 == some index :=
      hfirst ▸ List.mem_cons_self
    obtain ⟨place, format⟩ := entry
    obtain ⟨hplaced, hplace⟩ := List.mem_filter.mp hentry
    obtain rfl : place = index := Option.some.inj (eq_of_beq hplace)
    obtain rfl : format = CF_UNICODETEXT :=
      Option.some.inj ((mem_entriesOf.mp hplaced).symm.trans hget)
    exact ⟨place, _, rfl, rfl⟩

/-! ## The copies in the order of the enumeration -/

/-- Places and formats in which no place is named twice: sorted by the places they are a
sublist of the formats. -/
theorem sublist_of_places {kept : List Format} {copies : List (Nat × Format)}
    (hfrom : List.Subperm copies (entriesOf kept))
    (hsorted : copies.Pairwise fun a b => a.1 ≤ b.1) :
    (copies.map Prod.snd).Sublist kept := by
  have hentries : (entriesOf kept).Pairwise fun a b => a.1 < b.1 := by
    have h := List.pairwise_lt_range (n := kept.length)
    rwa [← entriesOf_places kept, List.pairwise_map] at h
  have hdistinct : copies.Pairwise fun a b => a.1 ≠ b.1 := by
    obtain ⟨copies', hperm, hsub⟩ := hfrom
    have hne : copies'.Pairwise fun a b => a.1 ≠ b.1 :=
      (hentries.sublist hsub).imp fun hlt => Nat.ne_of_lt hlt
    exact (hperm.pairwise_iff fun hne => hne.symm).mp hne
  have hstrict : copies.Pairwise fun a b => a.1 < b.1 :=
    hsorted.imp₂ (fun _ _ hle hne => Nat.lt_of_le_of_ne hle hne) hdistinct
  have hsub : copies.Sublist (entriesOf kept) := by
    have : Std.Antisymm fun a b : Nat × Format => a.1 < b.1 :=
      ⟨fun _ _ hab hba => absurd hab (Nat.lt_asymm hba)⟩
    exact List.sublist_of_subperm_of_pairwise hfrom hstrict hentries
  rw [← entriesOf_formats kept]
  exact hsub.map Prod.snd

/-- The copies of a save, put back in order. -/
def inOrder (copies : List (Nat × SavedFormat)) : List SavedFormat :=
  (copies.insertionSort fun a b => a.1 ≤ b.1).map Prod.snd

theorem inOrder_perm (copies : List (Nat × SavedFormat)) :
    (inOrder copies).Perm (copies.map Prod.snd) :=
  (List.perm_insertionSort _ copies).map Prod.snd

theorem inOrder_sublist {kept : List Format} {copies : List (Nat × SavedFormat)}
    (h : (copies.map placed).Sublist (readOrder kept)) :
    ((inOrder copies).map SavedFormat.format).Sublist kept := by
  have hsorted : (copies.insertionSort fun a b => a.1 ≤ b.1).Pairwise fun a b => a.1 ≤ b.1 := by
    have : Std.Total fun a b : Nat × SavedFormat => a.1 ≤ b.1 := ⟨fun a b => Nat.le_total a.1 b.1⟩
    have : IsTrans (Nat × SavedFormat) fun a b => a.1 ≤ b.1 := ⟨fun _ _ _ => Nat.le_trans⟩
    exact List.pairwise_insertionSort _ copies
  have hfrom : List.Subperm ((copies.insertionSort fun a b => a.1 ≤ b.1).map placed)
      (entriesOf kept) :=
    (((List.perm_insertionSort _ copies).map placed).subperm.trans h.subperm).trans
      (readOrder_perm kept).subperm
  have hsub := sublist_of_places hfrom (List.pairwise_map.mpr hsorted)
  unfold inOrder
  rw [List.map_map] at hsub ⊢
  exact hsub

/-! ## A save -/

/-- The copies the restore puts back. -/
def Original.copies : Original → List SavedFormat
  | saved formats => formats
  | privateContent | empty => []

/-- What the copies of a save are, from the `reads` that made them. -/
structure Copies (enumerated : List NamedFormat) (reads : List PortCall)
    (copies : List SavedFormat) : Prop where
  /-- Formats to keep, in the order of the enumeration. -/
  ordered : (copies.map SavedFormat.format).Sublist (keptFormats enumerated)
  /-- No marker, no OLE format and none that Windows makes. -/
  copyable : ∃ picked : List NamedFormat, picked.Sublist enumerated ∧
    copies.map SavedFormat.format = picked.map Prod.fst ∧ ∀ entry ∈ picked, Copyable entry
  /-- Of the bitmaps at most the first enumerated. -/
  bitmap : ((copies.map SavedFormat.format).filter isBitmap).Sublist
    (((enumerated.map Prod.fst).filter isBitmap).take 1)
  read : ∀ copy ∈ copies, ∃ limit, (⟨.read copy.format limit, .bytes copy.bytes⟩ : PortCall) ∈ reads
  capped : (∀ call ∈ reads, isLimited call = true) →
    (copies.map fun copy => copy.bytes.length).sum ≤ SAVE_CAP
  /-- The text is read first, and copied if that read succeeds. -/
  text : CF_UNICODETEXT ∈ keptFormats enumerated → ∃ found rest,
    reads = ⟨.read CF_UNICODETEXT SAVE_CAP, found⟩ :: rest ∧
      ∀ bytes, found = .bytes bytes → ⟨CF_UNICODETEXT, bytes⟩ ∈ copies

theorem sublist_copyable {enumerated : List NamedFormat} {formats : List Format}
    (h : formats.Sublist (keptFormats enumerated)) :
    ∃ picked : List NamedFormat, picked.Sublist enumerated ∧ formats = picked.map Prod.fst ∧
      ∀ entry ∈ picked, Copyable entry := by
  obtain ⟨picked, hpicked, hformats⟩ :=
    List.sublist_map_iff.mp (h.trans (keptFrom_sublist false enumerated))
  refine ⟨picked, hpicked.trans List.filter_sublist, hformats, fun entry hentry => ?_⟩
  have hkept := List.mem_filter.mp (hpicked.subset hentry)
  rcases classify_skip_or entry.1 entry.2 with hskip | hcopyable
  · rw [hskip] at hkept
    exact absurd hkept.2 (by decide)
  · exact hcopyable

/-- The copies of the loop over the formats to keep. -/
theorem copies_of_reads {enumerated : List NamedFormat} {started : Instant}
    {reads : List PortCall} {result : List (Nat × SavedFormat)}
    (h : Path (readKept ((keptFormats enumerated).findIdx? (· == CF_UNICODETEXT)) started
      (readOrder (keptFormats enumerated)) 0 []) reads result) :
    Copies enumerated reads (inOrder result) := by
  obtain ⟨more, rfl, hreads⟩ := readKept_path _ _ _ _ _ _ _ h
  have hordered := inOrder_sublist hreads.ordered
  refine ⟨hordered, sublist_copyable hordered, ?_, ?_, ?_, ?_⟩
  · have hbitmaps := hordered.filter isBitmap
    rw [keptFormats, keptFrom_bitmap] at hbitmaps
    exact hbitmaps
  · intro copy hcopy
    obtain ⟨entry, hentry, rfl⟩ := List.mem_map.mp ((inOrder_perm result).mem_iff.mp hcopy)
    exact hreads.read entry hentry
  · intro hlimited
    have hsum := hreads.within hlimited (Nat.zero_le _)
    have hperm := ((inOrder_perm result).map fun copy => copy.bytes.length).sum_nat
    rw [List.map_map] at hperm
    rw [Nat.zero_add] at hsum
    exact Nat.le_trans (Nat.le_of_eq hperm) hsum
  · intro hkept
    obtain ⟨index, rest, hindex, horder⟩ := readOrder_text hkept
    rw [hindex, horder] at h
    obtain ⟨found, es', rfl, hcopied⟩ := readText_path h
    refine ⟨found, es', rfl, fun bytes hfound => ?_⟩
    exact (inOrder_perm result).mem_iff.mpr (List.mem_map_of_mem (hcopied bytes hfound))

/-- The calls of a save: its opening, the names, the read that decides about privacy, and
the reads of the copies. -/
def saveCalls (started : Instant) (enumerated : List NamedFormat)
    (history reads : List PortCall) : List PortCall :=
  ⟨.now, started⟩ :: ⟨.formats, enumerated.map Prod.fst⟩ ::
    (nameCalls enumerated ++ (history ++ reads))

theorem save_path {es : List PortCall} {original : Original} (h : Path save es original) :
    ∃ started enumerated history reads, es = saveCalls started enumerated history reads ∧
      WellNamed enumerated ∧ HistoryRead enumerated history ∧
      (original = .privateContent ↔ Secret enumerated history) ∧
      (original ≠ .privateContent → Copies enumerated reads original.copies) := by
  unfold save at h
  rw [path_ask] at h
  obtain ⟨started, es₁, rfl, h⟩ := h
  rw [path_ask] at h
  obtain ⟨formats, es₂, rfl, h⟩ := h
  split at h
  · next hempty =>
    -- Nothing is on the clipboard.
    obtain ⟨rfl, rfl⟩ := path_done.mp h
    obtain rfl : formats = [] := List.isEmpty_iff.mp hempty
    refine ⟨started, [], [], [], rfl, fun _ h => absurd h List.not_mem_nil,
      .decided (.inr (.inr rfl)), ⟨fun h => absurd h (by decide), fun h => ?_⟩, fun _ => ?_⟩
    · rcases h.2 with hmarked | ⟨entry, hentry, -⟩
      · exact absurd hmarked Bool.false_ne_true
      · exact absurd hentry List.not_mem_nil
    · exact ⟨.slnil, ⟨[], .slnil, rfl, fun _ h => absurd h List.not_mem_nil⟩, .slnil,
        fun _ h => absurd h List.not_mem_nil, fun _ => Nat.zero_le _,
        fun h => absurd h List.not_mem_nil⟩
  · rw [path_bind] at h
    obtain ⟨names, found, rest, rfl, hnames, h⟩ := h
    obtain ⟨enumerated, rfl, rfl, rfl, hnamed⟩ := registeredNames_path hnames
    rw [path_bind] at h
    obtain ⟨history, secret, reads, rfl, hprivate, h⟩ := h
    obtain ⟨hhistory, hsecret⟩ := isPrivate_path hprivate
    refine ⟨started, enumerated, history, reads, rfl, hnamed, hhistory, ?_⟩
    split at h
    · next hyes =>
      obtain ⟨rfl, rfl⟩ := path_done.mp h
      exact ⟨⟨fun _ => hsecret.mp hyes, fun _ => rfl⟩, fun hnot => absurd rfl hnot⟩
    · next hno =>
      rw [List.zip_map', List.map_id'' (fun _ => rfl)] at h
      obtain ⟨result, hreads, rfl⟩ := path_map.mp h
      have hcopies := copies_of_reads hreads
      split
      · next hnone =>
        obtain rfl : result = [] := List.isEmpty_iff.mp hnone
        exact ⟨⟨fun h => absurd h (by decide), fun h => absurd (hsecret.mpr h) hno⟩,
          fun _ => hcopies⟩
      · exact ⟨⟨fun h => absurd h (by simp), fun h => absurd (hsecret.mpr h) hno⟩,
          fun _ => hcopies⟩

/-- What a save with the calls `es` may keep: content marked private is not copied, and
nothing else is called private; of other content the copies are within the cap. -/
def SaveKeeps (es : List PortCall) (original : Original) : Prop :=
  ∃ started enumerated history reads, es = saveCalls started enumerated history reads ∧
    WellNamed enumerated ∧ HistoryRead enumerated history ∧
    (original = .privateContent ↔ Secret enumerated history) ∧
    (original ≠ .privateContent → Copies enumerated reads original.copies ∧
      (original.copies.map fun copy => copy.bytes.length).sum ≤ SAVE_CAP)

/-- **What a save keeps**, whatever the formats and their names are, the reads return
within their limits, and the clock says. -/
theorem save_keeps {es : List PortCall} {original : Original} (h : Path save es original)
    (hlimited : ∀ call ∈ es, isLimited call = true) : SaveKeeps es original := by
  obtain ⟨started, enumerated, history, reads, rfl, hnamed, hhistory, hprivate, hcopies⟩ :=
    save_path h
  refine ⟨started, enumerated, history, reads, rfl, hnamed, hhistory, hprivate, fun hkept => ?_⟩
  have hkeeps := hcopies hkept
  refine ⟨hkeeps, hkeeps.capped fun call hcall => hlimited call ?_⟩
  unfold saveCalls
  exact List.mem_cons_of_mem _ (List.mem_cons_of_mem _
    (List.mem_append_right _ (List.mem_append_right _ hcall)))

/-- A clipboard with a table: its own format, two bitmaps, the text and an OLE format. -/
def tableDesk (before : List PortCall) : (q : Question) → q.Answer
  | .formats => [0xC010, CF_DIBV5, CF_UNICODETEXT, CF_DIB, 0xC011]
  | .formatName format => if format = 0xC010 then some "HTML Format" else some "link source"
  | .read _ _ => .bytes [65, 0, 0, 0]
  | q => idleDesk true before q

/-- The text is read before the table, and put back after it. -/
theorem save_keeps_table :
    SaveKeeps (talk tableDesk save []).1 (talk tableDesk save []).2 ∧
      (talk tableDesk save []).2 = .saved [⟨0xC010, [65, 0, 0, 0]⟩, ⟨CF_DIBV5, [65, 0, 0, 0]⟩,
        ⟨CF_UNICODETEXT, [65, 0, 0, 0]⟩] :=
  ⟨save_keeps (talk_path _ _ []) (by decide +kernel), by decide +kernel⟩

end KeySwitch.Executor
