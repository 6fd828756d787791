import KeySwitch.Executor.PasteSession

/-!
# What each part of the paste session asks and leaves

One lemma for each function of the session, over every path of it: the calls it can
make and the state it leaves. The results about whole pastes and restores cite these
and never look into a function.
-/

namespace KeySwitch.Executor

open Data Lib Dialogue

/-! ## Kinds of calls -/

namespace Question

/-- The calls that send keys. -/
def isKeys : Question → Bool
  | press _ | releaseAfter _ _ => true
  | _ => false

/-- The calls that look at what the open clipboard holds. -/
def isLook : Question → Bool
  | owner | formats | formatName _ | read _ _ | now => true
  | _ => false

/-- The calls that end a session: those about its windows. -/
def isEnd : Question → Bool
  | destroyWindow _ | createWindow => true
  | _ => false

/-- The calls that restore what an open clipboard held. -/
def isRestore : Question → Bool
  | emptyClipboard | write _ _ => true
  | _ => false

end Question

/-! ## The save -/

theorem registeredNames_only (formats : List Format) :
    Only (fun q => q.isLook = true) (registeredNames formats) := by
  induction formats with
  | nil => exact only_done _
  | cons format rest ih =>
    unfold registeredNames
    split
    · exact only_ask rfl fun _ => only_map ih _
    · exact only_map ih _

theorem isPrivate_only (formats : List Format) (names : List (Option String)) :
    Only (fun q => q.isLook = true) (isPrivate formats names) := by
  unfold isPrivate
  split
  · exact only_done _
  · split
    · exact only_done _
    · split
      · exact only_done _
      · exact only_ask rfl fun _ => only_done _

theorem readKept_only (text : Option Nat) (started : Instant) (order : List (Nat × Format)) :
    ∀ (total : Nat) (saved : List (Nat × SavedFormat)),
      Only (fun q => q.isLook = true) (readKept text started order total saved) := by
  induction order with
  | nil => exact fun _ _ => only_done _
  | cons entry rest ih =>
    intro total saved
    unfold readKept
    dsimp only
    split
    · refine only_ask rfl fun now => ?_
      split
      · exact ih _ _
      · refine only_ask rfl fun found => ?_
        cases found with
        | bytes bytes => exact ih _ _
        | _ => exact ih _ _
    · refine only_ask rfl fun found => ?_
      cases found with
      | bytes bytes => exact ih _ _
      | _ => exact ih _ _

/-- The save looks at the clipboard and changes nothing. -/
theorem save_only : Only (fun q => q.isLook = true) save := by
  unfold save
  refine only_ask rfl fun started => only_ask rfl fun (formats : List Format) => ?_
  split
  · exact only_done _
  · refine only_bind (registeredNames_only _) fun names =>
      only_bind (isPrivate_only _ _) fun secret => ?_
    split
    · exact only_done _
    · exact only_map (readKept_only _ _ _ _ _) _

/-! ## The restore -/

/-- What `stillOurs` asks, and what it took to hold or not. -/
theorem stillOurs_path {pending : Pending} {es : List PortCall} {ours : Bool}
    (h : Path (stillOurs pending) es ours) :
    (∃ owner, owner ≠ some pending.window ∧ ours = false ∧ es = [⟨.owner, owner⟩]) ∨
      ∃ formats, es = [⟨.owner, some pending.window⟩, ⟨.formats, formats⟩] ∧
        ours = !foreignFormatPresent formats pending.written := by
  unfold stillOurs at h
  rw [path_ask] at h
  obtain ⟨owner, rest, rfl, h⟩ := h
  split at h
  · next hother =>
    obtain ⟨rfl, rfl⟩ := path_done.mp h
    exact Or.inl ⟨owner, by simpa using hother, rfl, rfl⟩
  · next howner =>
    rw [path_ask] at h
    obtain ⟨formats, rest, rfl, h⟩ := h
    obtain ⟨rfl, rfl⟩ := path_done.mp h
    have hwindow : owner = some pending.window := by simpa using howner
    subst hwindow
    exact Or.inr ⟨formats, rfl, rfl⟩

theorem stillOurs_looks {pending : Pending} {es : List PortCall} {ours : Bool}
    (h : Path (stillOurs pending) es ours) : ∀ call ∈ es, call.question.isLook = true := by
  rcases stillOurs_path h with ⟨owner, -, -, rfl⟩ | ⟨formats, rfl, -⟩
  · simp [Question.isLook]
  · simp [Question.isLook]

theorem writeAll_path {writes : List (Format × Payload)} {es : List PortCall} {u : Unit}
    (h : Path (writeAll writes) es u) :
    es.map Exchange.question = writes.map fun write => Question.write write.1 write.2 := by
  induction writes generalizing es with
  | nil =>
    obtain ⟨rfl, -⟩ := path_done.mp h
    rfl
  | cons write writes ih =>
    unfold writeAll at h
    rw [path_ask] at h
    obtain ⟨answer, rest, rfl, h⟩ := h
    rw [List.map_cons, List.map_cons, ih h]

/-- What is written to put the original back. -/
def Pending.restoreWrites (pending : Pending) (markers : Option Markers) :
    List (Format × Payload) :=
  match pending.original with
  | .saved formats =>
    formats.map (fun saved => (saved.format, .bytes saved.bytes)) ++
      (markers.elim [] Markers.restored).map fun id => (id, .bytes MARKER_DATA)
  | .privateContent | .empty => []

/-- Putting back empties the clipboard, and writes the original if that succeeds. -/
theorem putBack_path {pending : Pending} {markers : Option Markers} {es : List PortCall} {u : Unit}
    (h : Path (putBack pending markers) es u) :
    es = [⟨.emptyClipboard, false⟩] ∨ ∃ writes, es = ⟨.emptyClipboard, true⟩ :: writes ∧
      writes.map Exchange.question =
        (pending.restoreWrites markers).map fun write => Question.write write.1 write.2 := by
  unfold putBack at h
  rw [path_ask] at h
  obtain ⟨emptied, rest, rfl, h⟩ := h
  cases emptied with
  | false =>
    obtain ⟨rfl, -⟩ := path_done.mp h
    exact Or.inl rfl
  | true =>
    refine Or.inr ⟨rest, rfl, ?_⟩
    unfold Pending.restoreWrites
    simp only [Bool.not_true, Bool.false_eq_true, if_false] at h
    cases horiginal : pending.original with
    | saved formats =>
      rw [horiginal] at h
      exact writeAll_path h
    | privateContent =>
      rw [horiginal] at h
      obtain ⟨rfl, -⟩ := path_done.mp h
      rfl
    | empty =>
      rw [horiginal] at h
      obtain ⟨rfl, -⟩ := path_done.mp h
      rfl

theorem putBack_restores {pending : Pending} {markers : Option Markers} {es : List PortCall}
    {u : Unit} (h : Path (putBack pending markers) es u) :
    ∀ call ∈ es, call.question.isRestore = true := by
  rcases putBack_path h with rfl | ⟨writes, rfl, hwrites⟩
  · simp [Question.isRestore]
  · intro call hcall
    rcases List.mem_cons.mp hcall with rfl | hcall
    · rfl
    · have hmem : call.question ∈ writes.map Exchange.question :=
          List.mem_map.mpr ⟨call, hcall, rfl⟩
      rw [hwrites] at hmem
      obtain ⟨write, -, hquestion⟩ := List.mem_map.mp hmem
      rw [← hquestion]
      rfl

namespace PasteSession

theorem makeIdle_path {s s' : PasteSession} {after : After} {es : List PortCall}
    (h : Path (s.makeIdle after) es s') :
    s'.pending = s.pending ∧ s'.markers = s.markers ∧
      ∀ call ∈ es, call.question.isEnd = true := by
  unfold makeIdle at h
  split at h
  · rw [path_ask] at h
    obtain ⟨window, rest, rfl, h⟩ := h
    obtain ⟨rfl, rfl⟩ := path_done.mp h
    exact ⟨rfl, rfl, by simp [Question.isEnd]⟩
  · obtain ⟨rfl, rfl⟩ := path_done.mp h
    exact ⟨rfl, rfl, by simp⟩

/-- The end of a session: nothing waits, and the calls are about windows. -/
theorem endSession_path {s s' : PasteSession} {after : After} {es : List PortCall}
    (h : Path (s.endSession after) es s') :
    s'.pending = none ∧ s'.markers = s.markers ∧ ∀ call ∈ es, call.question.isEnd = true := by
  unfold endSession at h
  split at h
  · rw [path_ask] at h
    obtain ⟨u, rest, rfl, h⟩ := h
    obtain ⟨hnone, hmarkers, hcalls⟩ := makeIdle_path h
    refine ⟨hnone, hmarkers, fun call hcall => ?_⟩
    rcases List.mem_cons.mp hcall with rfl | hcall
    · rfl
    · exact hcalls call hcall
  · next hpending =>
    obtain ⟨hnone, hrest⟩ := makeIdle_path h
    exact ⟨hnone.trans hpending, hrest⟩

/-- What the one try at the restore found: a busy clipboard keeps the session, else it
ends under an open of its own. -/
inductive RestoreTried (s : PasteSession) (pending : Pending) (after : After) :
    List PortCall → PasteSession → Restore → Prop
  | busy (n : Nat) : RestoreTried s pending after
      [⟨.sequenceNumber, n⟩, ⟨.openClipboard pending.window, false⟩] s .busy
  | putBack (n : Nat) {looked back ended : List PortCall} {closed : Bool} {s' : PasteSession}
      (look : Path (stillOurs pending) looked true)
      (restore : Path (putBack pending s.markers) back ())
      (ends : Path (s.endSession after) ended s') :
      RestoreTried s pending after (⟨.sequenceNumber, n⟩ :: ⟨.openClipboard pending.window, true⟩ ::
        (looked ++ (back ++ ⟨.closeClipboard, closed⟩ :: ended))) s' .putBack
  | changed (n : Nat) {looked ended : List PortCall} {closed : Bool} {s' : PasteSession}
      (look : Path (stillOurs pending) looked false)
      (ends : Path (s.endSession after) ended s') :
      RestoreTried s pending after (⟨.sequenceNumber, n⟩ :: ⟨.openClipboard pending.window, true⟩ ::
        (looked ++ ⟨.closeClipboard, closed⟩ :: ended)) s' .changed

theorem RestoreTried.of_busy {s s' : PasteSession} {pending : Pending} {after : After}
    {es : List PortCall} (h : RestoreTried s pending after es s' .busy) :
    s' = s ∧ ∃ n, es = [⟨.sequenceNumber, n⟩, ⟨.openClipboard pending.window, false⟩] := by
  cases h with
  | busy n => exact ⟨rfl, n, rfl⟩

theorem RestoreTried.ended {s s' : PasteSession} {pending : Pending} {after : After}
    {es : List PortCall} {found : Restore} (h : RestoreTried s pending after es s' found)
    (hfound : found ≠ .busy) : s'.pending = none ∧
      ∃ n rest, es = ⟨.sequenceNumber, n⟩ :: ⟨.openClipboard pending.window, true⟩ :: rest := by
  cases h with
  | busy n => exact absurd rfl hfound
  | putBack n look restore ends => exact ⟨(endSession_path ends).1, n, _, rfl⟩
  | changed n look ends => exact ⟨(endSession_path ends).1, n, _, rfl⟩

theorem tryRestore_path {s s' : PasteSession} {after : After} {es : List PortCall}
    {found : Restore} {pending : Pending} (hpending : s.pending = some pending)
    (h : Path (s.tryRestore after) es (s', found)) :
    RestoreTried s pending after es s' found := by
  unfold tryRestore at h
  rw [hpending] at h
  rw [path_ask] at h
  obtain ⟨n, rest, rfl, h⟩ := h
  rw [path_ask] at h
  obtain ⟨opened, rest, rfl, h⟩ := h
  cases opened with
  | false =>
    obtain ⟨rfl, heq⟩ := path_done.mp h
    cases heq
    exact .busy n
  | true =>
    simp only [Bool.not_true, Bool.false_eq_true, if_false] at h
    rw [path_bind] at h
    obtain ⟨looked, ours, rest, rfl, hlook, h⟩ := h
    cases ours with
    | true =>
      simp only [if_true] at h
      rw [path_bind] at h
      obtain ⟨back, u, rest, rfl, hback, h⟩ := h
      rw [path_ask] at h
      obtain ⟨closed, rest, rfl, h⟩ := h
      obtain ⟨b, hend, heq⟩ := path_map.mp h
      cases heq
      exact .putBack n hlook hback hend
    | false =>
      simp only [Bool.false_eq_true, if_false] at h
      rw [path_ask] at h
      obtain ⟨closed, rest, rfl, h⟩ := h
      obtain ⟨b, hend, heq⟩ := path_map.mp h
      cases heq
      exact .changed n hlook hend

/-! ## The keystroke -/

/-- Whether Windows inserted the key-down of a key besides the modifiers. -/
def reachesPayload (keys : List VirtualKey) (combo : ComboSent) : Bool :=
  (keys.filter isModifier).length < combo.sent

/-- Sending the keystroke: one press, the clock, and the key releases that a batch cut
short still owes. -/
structure KeystrokeTried (s : PasteSession) (pending : Pending) (state : Attempt)
    (spec : PasteSpec) (combo : ComboSent) (keystroke : Instant) (rest : List PortCall)
    (s' : PasteSession) : Prop where
  released : 0 < combo.sent → combo.sent < combo.of →
    ∃ n, rest = [⟨.releaseAfter spec.keys combo.sent, n⟩]
  quiet : ¬(0 < combo.sent ∧ combo.sent < combo.of) → rest = []
  sent : reachesPayload spec.keys combo = true → s' = { s with
    pending := some (pending.keystrokeSent keystroke spec.restoreDelay state.foreground) }

theorem sendKeystroke_path {s s' : PasteSession} {pending : Pending} {state : Attempt}
    {spec : PasteSpec} {es : List PortCall}
    (h : Path (s.sendKeystroke pending state spec) es s') :
    ∃ combo keystroke rest, es = ⟨.press spec.keys, combo⟩ :: ⟨.now, keystroke⟩ :: rest ∧
      KeystrokeTried s pending state spec combo keystroke rest s' := by
  unfold sendKeystroke at h
  rw [path_ask] at h
  obtain ⟨combo, rest, rfl, h⟩ := h
  rw [path_ask] at h
  obtain ⟨keystroke, rest, rfl, h⟩ := h
  refine ⟨combo, keystroke, rest, rfl, ?_⟩
  dsimp only at h
  split at h
  · next hnone =>
    obtain ⟨rfl, rfl⟩ := path_done.mp h
    have hzero : combo.sent = 0 := by simpa using hnone
    exact ⟨fun hpos => by omega, fun _ => rfl, fun hreach => by
      unfold reachesPayload at hreach
      rw [hzero] at hreach
      exact absurd hreach (by simp)⟩
  · next hsome =>
    have hpos : 0 < combo.sent := by
      have hne : combo.sent ≠ 0 := by simpa using hsome
      omega
    split at h
    · next hcut =>
      rw [path_ask] at h
      obtain ⟨n, rest, rfl, h⟩ := h
      split at h
      · next hmods =>
        obtain ⟨rfl, rfl⟩ := path_done.mp h
        refine ⟨fun _ _ => ⟨n, rfl⟩, fun hnot => absurd ⟨hpos, hcut⟩ hnot, fun hreach => ?_⟩
        unfold reachesPayload at hreach
        rw [decide_eq_true_eq] at hreach
        omega
      · obtain ⟨rfl, rfl⟩ := path_done.mp h
        exact ⟨fun _ _ => ⟨n, rfl⟩, fun hnot => absurd ⟨hpos, hcut⟩ hnot, fun _ => rfl⟩
    · next hall =>
      obtain ⟨rfl, rfl⟩ := path_done.mp h
      exact ⟨fun _ hcut => absurd hcut hall, fun _ => rfl, fun _ => rfl⟩

/-- The last questions before the keystroke: each must have its answer. -/
theorem checkAndSend_path {s s' : PasteSession} {pending : Pending} {state : Attempt}
    {spec : PasteSpec} {es : List PortCall}
    (h : Path (s.checkAndSend pending state spec) es s') :
    (s' = s ∧ ∀ call ∈ es, call.question.isKeys = false) ∨
      ∃ rest, es = ⟨.live, true⟩ :: ⟨.foreground, state.foreground⟩ :: ⟨.modifierDown, false⟩ ::
        rest ∧ Path (s.sendKeystroke pending state spec) rest s' := by
  unfold checkAndSend at h
  rw [path_ask] at h
  obtain ⟨live, rest, rfl, h⟩ := h
  split at h
  · obtain ⟨rfl, rfl⟩ := path_done.mp h
    exact Or.inl ⟨rfl, by simp [Question.isKeys]⟩
  · next hlive =>
    rw [path_ask] at h
    obtain ⟨foreground, rest, rfl, h⟩ := h
    split at h
    · obtain ⟨rfl, rfl⟩ := path_done.mp h
      exact Or.inl ⟨rfl, by simp [Question.isKeys]⟩
    · next hforeground =>
      rw [path_ask] at h
      obtain ⟨down, rest, rfl, h⟩ := h
      split at h
      · obtain ⟨rfl, rfl⟩ := path_done.mp h
        exact Or.inl ⟨rfl, by simp [Question.isKeys]⟩
      · next hdown =>
        have hsame : foreground = state.foreground := by simpa using hforeground
        have hlive' : live = true := by simpa using hlive
        have hdown' : down = false := by simpa using hdown
        subst hsame hlive' hdown'
        exact Or.inr ⟨rest, rfl, h⟩

/-- The phrase on the clipboard this session has open: written and closed, or put back
and closed. -/
theorem setPhrase_path {s s' : PasteSession} {pending : Pending} {markers : Markers}
    {state : Attempt} {spec : PasteSpec} {es : List PortCall}
    (h : Path (s.setPhrase pending markers state spec) es s') :
    (∃ now back closed rest,
      es = ⟨.now, now⟩ :: ⟨.write CF_UNICODETEXT (.units spec.units), false⟩ ::
        (back ++ ⟨.closeClipboard, closed⟩ :: rest) ∧
      Path (putBack (pending.renew now) (some markers)) back () ∧ s'.pending = none ∧
      s'.markers = s.markers ∧ ∀ call ∈ rest, call.question.isEnd = true) ∨
    ∃ now marks closed sequence rest,
      es = ⟨.now, now⟩ :: ⟨.write CF_UNICODETEXT (.units spec.units), true⟩ ::
        (marks ++ ⟨.closeClipboard, closed⟩ :: ⟨.sequenceNumber, sequence⟩ :: rest) ∧
      (marks.map Exchange.question =
        markers.phrase.map fun id => Question.write id (.bytes MARKER_DATA)) ∧
      Path (checkAndSend
        { s with pending := some { pending.renew now with sequence := sequence } }
        { pending.renew now with sequence := sequence } state spec) rest s' := by
  unfold setPhrase at h
  rw [path_ask] at h
  obtain ⟨now, rest, rfl, h⟩ := h
  rw [path_ask] at h
  obtain ⟨wrote, rest, rfl, h⟩ := h
  cases wrote with
  | false =>
    simp only [Bool.not_false, if_true] at h
    rw [path_bind] at h
    obtain ⟨back, u, rest, rfl, hback, h⟩ := h
    rw [path_ask] at h
    obtain ⟨closed, rest, rfl, h⟩ := h
    obtain ⟨hnone, hmarkers, hcalls⟩ := endSession_path h
    exact Or.inl ⟨now, back, closed, rest, rfl, hback, hnone, hmarkers, hcalls⟩
  | true =>
    simp only [Bool.not_true, Bool.false_eq_true, if_false] at h
    rw [path_bind] at h
    obtain ⟨marks, u, rest, rfl, hmarks, h⟩ := h
    rw [path_ask] at h
    obtain ⟨closed, rest, rfl, h⟩ := h
    rw [path_ask] at h
    obtain ⟨sequence, rest, rfl, h⟩ := h
    refine Or.inr ⟨now, marks, closed, sequence, rest, rfl, ?_, h⟩
    rw [writeAll_path hmarks, List.map_map]
    rfl

/-! ## A turn of the loop -/

/-- What a paste may ask without an open. -/
def isAside (q : Question) : Bool :=
  match q with
  | .createWindow | .owner | .responds _ _ => true
  | _ => false

/-- The paste with its owner probed or not. -/
def probedBy (state : Attempt) (prechecked : Bool) : Attempt :=
  { state with prechecked := prechecked }

/-- How a turn of the loop goes, by its paths. -/
inductive TurnPath (s : PasteSession) (markers : Markers) (state : Attempt) (spec : PasteSpec) :
    List PortCall → Turn → Attempt → Prop
  /-- The phrase of the paste before is gone: its session ends. -/
  | again {pending : Pending} {looked ended : List PortCall} {closed : Bool} {s' : PasteSession}
      (waits : s.pending = some pending)
      (look : Path (stillOurs pending) looked false)
      (ends : Path (s.endSession .nextPaste) ended s') :
      TurnPath s markers state spec
        (⟨.openClipboard pending.window, true⟩ :: (looked ++ ⟨.closeClipboard, closed⟩ :: ended))
        (.again s') state
  /-- The clipboard was busy. -/
  | failed (aside : List PortCall) (prechecked : Bool) {window : OwnerWindow} {now : Instant}
      {s' : PasteSession} (hpending : s'.pending = s.pending) (hmarkers : s'.markers = s.markers)
      (haside : ∀ call ∈ aside, isAside call.question = true) :
      TurnPath s markers state spec
        (aside ++ [⟨.openClipboard window, false⟩, ⟨.now, now⟩])
        (.ended s' ((probedBy state prechecked).openFailed now).2)
        ((probedBy state prechecked).openFailed now).1
  /-- The paste was skipped before an open. -/
  | skipped (prechecked : Bool) {es : List PortCall} {s' : PasteSession}
      (hpending : s'.pending = s.pending) (hmarkers : s'.markers = s.markers)
      (haside : ∀ call ∈ es, isAside call.question = true) :
      TurnPath s markers state spec es (.ended s' .done) (probedBy state prechecked)
  /-- The clipboard could not be emptied. -/
  | unemptied (aside : List PortCall) (prechecked : Bool) {inside : List PortCall}
      {window : OwnerWindow} {closed : Bool} {s' : PasteSession} (hpending : s'.pending = s.pending)
      (hmarkers : s'.markers = s.markers)
      (haside : ∀ call ∈ aside, isAside call.question = true)
      (hinside : ∀ call ∈ inside, call.question.isLook = true) :
      TurnPath s markers state spec
        (aside ++ ⟨.openClipboard window, true⟩ ::
          (inside ++ [⟨.emptyClipboard, false⟩, ⟨.closeClipboard, closed⟩]))
        (.ended s' .done) (probedBy state prechecked)
  /-- The phrase of the paste before is taken over. -/
  | chained {pending : Pending} {looked es : List PortCall} {s' : PasteSession}
      (waits : s.pending = some pending) (look : Path (stillOurs pending) looked true)
      (phrase : Path (s.setPhrase pending markers state spec) es s') :
      TurnPath s markers state spec
        (⟨.openClipboard pending.window, true⟩ :: (looked ++ ⟨.emptyClipboard, true⟩ :: es))
        (.ended s' .done) state
  /-- The content is saved, and the clipboard emptied for the first paste of a chain. -/
  | fresh (aside : List PortCall) (prechecked : Bool) {saved es : List PortCall}
      {window : OwnerWindow} {original : Original} {now : Instant} {s₀ s' : PasteSession}
      (free : s.pending = none)
      (haside : ∀ call ∈ aside, isAside call.question = true) (keep : Path save saved original)
      (phrase : Path (s₀.setPhrase
        (Pending.new window original (CF_UNICODETEXT :: markers.phrase) now) markers
        (probedBy state prechecked) spec) es s')
      (hmarkers : s₀.markers = s.markers) (hwindow : s₀.window = none)
      (hpending : s₀.pending =
        some (Pending.new window original (CF_UNICODETEXT :: markers.phrase) now)) :
      TurnPath s markers state spec
        (aside ++ ⟨.openClipboard window, true⟩ ::
          (saved ++ ⟨.emptyClipboard, true⟩ :: ⟨.now, now⟩ :: es))
        (.ended s' .done) (probedBy state prechecked)

theorem chainedTurn_path {s : PasteSession} {pending : Pending} {markers : Markers}
    {state state' : Attempt} {spec : PasteSpec} {es : List PortCall} {turn : Turn}
    (hpending : s.pending = some pending)
    (h : Path (s.chainedTurn pending markers state spec) es (turn, state')) :
    TurnPath s markers state spec es turn state' := by
  unfold chainedTurn at h
  rw [path_ask] at h
  obtain ⟨opened, rest, rfl, h⟩ := h
  cases opened with
  | false =>
    simp only [Bool.not_false, if_true] at h
    rw [path_ask] at h
    obtain ⟨now, rest, rfl, h⟩ := h
    obtain ⟨rfl, heq⟩ := path_done.mp h
    cases heq
    exact .failed [] state.prechecked rfl rfl (by simp)
  | true =>
    simp only [Bool.not_true, Bool.false_eq_true, if_false] at h
    rw [path_bind] at h
    obtain ⟨looked, ours, rest, rfl, hlook, h⟩ := h
    cases ours with
    | false =>
      simp only [Bool.not_false, if_true] at h
      rw [path_ask] at h
      obtain ⟨closed, rest, rfl, h⟩ := h
      obtain ⟨s', hend, heq⟩ := path_map.mp h
      cases heq
      exact .again hpending hlook hend
    | true =>
      simp only [Bool.not_true, Bool.false_eq_true, if_false] at h
      rw [path_ask] at h
      obtain ⟨emptied, rest, rfl, h⟩ := h
      cases emptied with
      | false =>
        simp only [Bool.not_false, if_true] at h
        rw [path_ask] at h
        obtain ⟨closed, rest, rfl, h⟩ := h
        obtain ⟨rfl, heq⟩ := path_done.mp h
        cases heq
        exact .unemptied [] state.prechecked rfl rfl (by simp)
          (stillOurs_looks hlook)
      | true =>
        simp only [Bool.not_true, Bool.false_eq_true, if_false] at h
        obtain ⟨s', hphrase, heq⟩ := path_map.mp h
        cases heq
        exact .chained hpending hlook hphrase

theorem openFresh_path {s : PasteSession} {window : OwnerWindow} {markers : Markers}
    {state : Attempt} {spec : PasteSpec} {es : List PortCall} {turn : Turn} {state' : Attempt}
    (free : s.pending = none) (aside : List PortCall) (prechecked : Bool)
    (haside : ∀ call ∈ aside, isAside call.question = true) {s₀ : PasteSession}
    (hpending : s.pending = s₀.pending) (hmarkers : s.markers = s₀.markers)
    (h : Path (s.openFresh window markers (probedBy state prechecked) spec) es (turn, state')) :
    TurnPath s₀ markers state spec (aside ++ es) turn state' := by
  unfold openFresh at h
  rw [path_ask] at h
  obtain ⟨opened, rest, rfl, h⟩ := h
  cases opened with
  | false =>
    simp only [Bool.not_false, if_true] at h
    rw [path_ask] at h
    obtain ⟨now, rest, rfl, h⟩ := h
    obtain ⟨rfl, heq⟩ := path_done.mp h
    cases heq
    exact .failed aside prechecked hpending hmarkers haside
  | true =>
    simp only [Bool.not_true, Bool.false_eq_true, if_false] at h
    rw [path_bind] at h
    obtain ⟨saved, original, rest, rfl, hsave, h⟩ := h
    rw [path_ask] at h
    obtain ⟨emptied, rest, rfl, h⟩ := h
    cases emptied with
    | false =>
      simp only [Bool.not_false, if_true] at h
      rw [path_ask] at h
      obtain ⟨closed, rest, rfl, h⟩ := h
      obtain ⟨rfl, heq⟩ := path_done.mp h
      cases heq
      exact .unemptied aside prechecked hpending hmarkers haside fun call hcall =>
        save_only saved original hsave call hcall
    | true =>
      simp only [Bool.not_true, Bool.false_eq_true, if_false] at h
      rw [path_ask] at h
      obtain ⟨now, rest, rfl, h⟩ := h
      obtain ⟨s', hphrase, heq⟩ := path_map.mp h
      cases heq
      exact .fresh aside prechecked (hpending.symm.trans free) haside hsave hphrase hmarkers
        rfl rfl

theorem idleWindow_path {s : PasteSession} {es : List PortCall}
    {idle : PasteSession × Option OwnerWindow} (h : Path s.idleWindow es idle) :
    idle.1.pending = s.pending ∧ idle.1.markers = s.markers ∧
      ∀ call ∈ es, isAside call.question = true := by
  unfold idleWindow at h
  split at h
  · obtain ⟨rfl, rfl⟩ := path_done.mp h
    exact ⟨rfl, rfl, by simp⟩
  · rw [path_ask] at h
    obtain ⟨window, rest, rfl, h⟩ := h
    obtain ⟨rfl, rfl⟩ := path_done.mp h
    exact ⟨rfl, rfl, by simp [isAside]⟩

theorem ownerHangs_only (s : PasteSession) : Only (fun q => isAside q = true) s.ownerHangs := by
  unfold ownerHangs
  refine only_ask rfl fun owner => ?_
  split
  · exact only_done _
  · split
    · exact only_done _
    · exact only_ask rfl fun _ => only_done _

theorem freshTurn_path {s : PasteSession} {markers : Markers} {state state' : Attempt}
    {spec : PasteSpec} {es : List PortCall} {turn : Turn} (free : s.pending = none)
    (h : Path (s.freshTurn markers state spec) es (turn, state')) :
    TurnPath s markers state spec es turn state' := by
  unfold freshTurn at h
  rw [path_bind] at h
  obtain ⟨made, idle, rest, rfl, hidle, h⟩ := h
  obtain ⟨hpending, hmarkers, haside⟩ := idleWindow_path hidle
  split at h
  · obtain ⟨rfl, heq⟩ := path_done.mp h
    cases heq
    rw [List.append_nil]
    exact .skipped state.prechecked hpending hmarkers haside
  · split at h
    · exact openFresh_path (hpending.trans free) made state.prechecked haside hpending hmarkers h
    · rw [path_bind] at h
      obtain ⟨probe, hangs, rest, rfl, hprobe, h⟩ := h
      have haside' : ∀ call ∈ made ++ probe, isAside call.question = true := by
        intro call hcall
        rcases List.mem_append.mp hcall with hcall | hcall
        · exact haside call hcall
        · exact ownerHangs_only idle.1 probe hangs hprobe call hcall
      rw [← List.append_assoc]
      split at h
      · obtain ⟨rfl, heq⟩ := path_done.mp h
        cases heq
        rw [List.append_nil]
        exact .skipped true hpending hmarkers haside'
      · exact openFresh_path (hpending.trans free) _ true haside' hpending hmarkers h

/-- **A turn of the loop goes one of these ways.** -/
theorem turn_path {s : PasteSession} {markers : Markers} {state state' : Attempt}
    {spec : PasteSpec} {es : List PortCall} {turn : Turn}
    (h : Path (s.turn markers state spec) es (turn, state')) :
    TurnPath s markers state spec es turn state' := by
  unfold PasteSession.turn at h
  split at h
  · next pending hpending => exact chainedTurn_path hpending h
  · next hpending => exact freshTurn_path hpending h

/-! ## The loop -/

/-- How the loop goes: one turn, or a second after the first ended a session. -/
inductive LoopPath (s : PasteSession) (markers : Markers) (state : Attempt) (spec : PasteSpec) :
    List PortCall → Tried → Prop
  | once {es : List PortCall} {s' : PasteSession} {step : Step} {state' : Attempt}
      (turn : TurnPath s markers state spec es (.ended s' step) state') :
      LoopPath s markers state spec es ⟨s', some state', step⟩
  | twice {es₁ es₂ : List PortCall} {s₁ s' : PasteSession} {step : Step} {state' : Attempt}
      (first : TurnPath s markers state spec es₁ (.again s₁) state)
      (free : s₁.pending = none)
      (second : TurnPath s₁ markers state spec es₂ (.ended s' step) state') :
      LoopPath s markers state spec (es₁ ++ es₂) ⟨s', some state', step⟩

/-- A turn after which the loop goes on had a session, and ended it. -/
theorem TurnPath.again_free {s s' : PasteSession} {markers : Markers} {state state' : Attempt}
    {spec : PasteSpec} {es : List PortCall}
    (h : TurnPath s markers state spec es (.again s') state') :
    s.pending.isSome = true ∧ s'.pending = none ∧ state' = state := by
  cases h with
  | again waits look ends => exact ⟨by simp [waits], (endSession_path ends).1, rfl⟩

/-- **The loop takes at most two turns.** -/
theorem loop_path {rounds : Nat} (hrounds : 2 ≤ rounds) {s : PasteSession} {markers : Markers}
    {state : Attempt} {spec : PasteSpec} {es : List PortCall} {tried : Option Tried}
    (h : Path (loop markers spec rounds s state) es tried) :
    ∃ t, tried = some t ∧ LoopPath s markers state spec es t := by
  obtain ⟨rounds, rfl⟩ : ∃ n, rounds = n + 2 := ⟨rounds - 2, by omega⟩
  unfold loop at h
  rw [path_bind] at h
  obtain ⟨es₁, ⟨turn, state₁⟩, es₂, rfl, hfirst, h⟩ := h
  have hfirst := turn_path hfirst
  cases turn with
  | ended s' step =>
    obtain ⟨rfl, rfl⟩ := path_done.mp h
    rw [List.append_nil]
    exact ⟨_, rfl, .once hfirst⟩
  | again s₁ =>
    obtain ⟨-, hfree, rfl⟩ := hfirst.again_free
    dsimp only at h
    unfold loop at h
    rw [path_bind] at h
    obtain ⟨es₂, ⟨turn, state₂⟩, es₃, rfl, hsecond, h⟩ := h
    have hsecond := turn_path hsecond
    cases turn with
    | again s₂ =>
      have hwaits := hsecond.again_free.1
      rw [hfree] at hwaits
      exact absurd hwaits (by simp)
    | ended s' step =>
      obtain ⟨rfl, rfl⟩ := path_done.mp h
      rw [List.append_nil]
      exact ⟨_, rfl, .twice hfirst hfree hsecond⟩

/-! ## A try -/

/-- The calls before the clipboard is touched. -/
def isCheck (q : Question) : Bool :=
  match q with
  | .modifierDown | .live | .foreground | .now | .register _ => true
  | _ => false

/-- The paste once it has waited long enough for the restore of the one before. -/
def goneAhead (state : Attempt) (since : Instant) : Attempt :=
  { state with chainSince := some since, wentAhead := true }

/-- The checks before the clipboard: from the modifiers on. -/
inductive ChecksPath (s : PasteSession) (state : Attempt) (spec : PasteSpec) :
    List PortCall → Tried → Prop
  | modifiers {now : Instant} (hwait : now - state.modifiersSince.getD now < MODIFIER_LIMIT) :
      ChecksPath s state spec [⟨.modifierDown, true⟩, ⟨.now, now⟩]
        ⟨s, some { state with modifiersSince := some (state.modifiersSince.getD now) },
          .waitUntil (now + MODIFIER_POLL)⟩
  | skipped {checks : List PortCall} {state' : Attempt}
      (hchecks : ∀ call ∈ checks, isCheck call.question = true) :
      ChecksPath s state spec checks ⟨s, some state', .done⟩
  | pasted (checks : List PortCall) {es : List PortCall} {markers : Markers} {tried : Tried}
      (hchecks : ∀ call ∈ checks, isCheck call.question = true)
      (hmarkers : ∀ m ∈ s.markers, m = markers)
      (turns : LoopPath { s with markers := some markers } markers state spec es tried) :
      ChecksPath s state spec (checks ++ es) tried

theorem registerMarkers_only (markers : List Marker) :
    Only (fun q => isCheck q = true) (registerMarkers markers) := by
  induction markers with
  | nil => exact only_done _
  | cons marker rest ih =>
    unfold registerMarkers
    exact only_ask rfl fun _ => only_map ih _

theorem checkModifiers_path {rounds : Nat} (hrounds : 2 ≤ rounds) {s : PasteSession}
    {state : Attempt} {spec : PasteSpec} {es : List PortCall} {tried : Option Tried}
    (h : Path (s.checkModifiers rounds state spec) es tried) :
    ∃ t, tried = some t ∧ ChecksPath s state spec es t := by
  unfold checkModifiers at h
  rw [path_ask] at h
  obtain ⟨down, rest, rfl, h⟩ := h
  split at h
  · next hdown =>
    have hdown' : down = true := hdown
    subst hdown'
    rw [path_ask] at h
    obtain ⟨now, rest, rfl, h⟩ := h
    dsimp only at h
    split at h
    · obtain ⟨rfl, rfl⟩ := path_done.mp h
      exact ⟨_, rfl, .skipped (by simp [isCheck])⟩
    · next hwait =>
      obtain ⟨rfl, rfl⟩ := path_done.mp h
      exact ⟨_, rfl, .modifiers (Nat.lt_of_not_le hwait)⟩
  · rw [path_ask] at h
    obtain ⟨live, rest, rfl, h⟩ := h
    split at h
    · obtain ⟨rfl, rfl⟩ := path_done.mp h
      exact ⟨_, rfl, .skipped (by simp [isCheck])⟩
    · rw [path_ask] at h
      obtain ⟨foreground, rest, rfl, h⟩ := h
      split at h
      · obtain ⟨rfl, rfl⟩ := path_done.mp h
        exact ⟨_, rfl, .skipped (by simp [isCheck])⟩
      · unfold PasteSession.paste at h
        split at h
        · next markers hmarkers =>
          obtain ⟨t, rfl, hturns⟩ := loop_path hrounds h
          have hsame : { s with markers := some markers } = s := by
            rw [← hmarkers]
          refine ⟨t, rfl, .pasted [_, _, _] (by simp [isCheck]) ?_ (hsame.symm ▸ hturns)⟩
          intro m hm
          rw [hmarkers] at hm
          exact (Option.some.inj hm).symm
        · -- The first Paste of the session registers the markers.
          next hmarkers =>
          rw [path_bind] at h
          obtain ⟨registered, ids, rest, rfl, hregister, h⟩ := h
          obtain ⟨t, rfl, hturns⟩ := loop_path hrounds h
          refine ⟨t, rfl, .pasted (_ :: _ :: _ :: registered) ?_ ?_ hturns⟩
          · intro call hcall
            simp only [List.mem_cons] at hcall
            rcases hcall with rfl | rfl | rfl | hcall
            · rfl
            · rfl
            · rfl
            · exact registerMarkers_only _ registered ids hregister call hcall
          · intro m hm
            rw [hmarkers] at hm
            exact absurd hm (by simp)

/-- How a try goes, its foreground window known. -/
inductive TryPath (s : PasteSession) (state : Attempt) (spec : PasteSpec) :
    List PortCall → Tried → Prop
  /-- It waits for the restore of the paste before. -/
  | chain {pending : Pending} {now : Instant} (waits : s.pending = some pending)
      (hdue : pending.due = false) (hahead : state.wentAhead = false)
      (hwait : now < state.chainSince.getD now + CHAIN_WAIT_LIMIT) :
      TryPath s state spec [⟨.now, now⟩]
        ⟨s, some { state with chainSince := some (state.chainSince.getD now) },
          .waitUntil (min pending.restoreAt (state.chainSince.getD now + CHAIN_WAIT_LIMIT))⟩
  /-- It has waited for it long enough. -/
  | ahead {now : Instant} {es : List PortCall} {tried : Tried} (hahead : state.wentAhead = false)
      (hlimit : state.chainSince.getD now + CHAIN_WAIT_LIMIT ≤ now)
      (checks : ChecksPath s (goneAhead state (state.chainSince.getD now)) spec es tried) :
      TryPath s state spec (⟨.now, now⟩ :: es) tried
  /-- There is none to wait for. -/
  | free {es : List PortCall} {tried : Tried}
      (hfree : ∀ pending, s.pending = some pending → pending.due = true ∨ state.wentAhead = true)
      (checks : ChecksPath s state spec es tried) : TryPath s state spec es tried

theorem checkChain_path {rounds : Nat} (hrounds : 2 ≤ rounds) {s : PasteSession} {state : Attempt}
    {spec : PasteSpec} {es : List PortCall} {tried : Option Tried}
    (h : Path (s.checkChain rounds state spec) es tried) :
    ∃ t, tried = some t ∧ TryPath s state spec es t := by
  unfold checkChain at h
  split at h
  · next hnone =>
    obtain ⟨t, rfl, hchecks⟩ := checkModifiers_path hrounds h
    refine ⟨t, rfl, .free (fun pending hpending => ?_) hchecks⟩
    rw [hnone] at hpending
    exact absurd hpending (by simp)
  · next pending hpending =>
    split at h
    · next hfree =>
      obtain ⟨t, rfl, hchecks⟩ := checkModifiers_path hrounds h
      refine ⟨t, rfl, .free (fun pending' hpending' => ?_) hchecks⟩
      obtain rfl := Option.some.inj (hpending.symm.trans hpending')
      simpa using hfree
    · next hwaits =>
      have hwaits' : pending.due = false ∧ state.wentAhead = false := by simpa using hwaits
      rw [path_ask] at h
      obtain ⟨now, rest, rfl, h⟩ := h
      dsimp only at h
      split at h
      · next hbefore =>
        obtain ⟨rfl, rfl⟩ := path_done.mp h
        exact ⟨_, rfl, .chain hpending hwaits'.1 hwaits'.2 hbefore⟩
      · next hlimit =>
        obtain ⟨t, rfl, hchecks⟩ := checkModifiers_path hrounds h
        exact ⟨t, rfl, .ahead hwaits'.2 (Nat.le_of_not_lt hlimit) hchecks⟩

/-- What is kept of a try: a paste that is over keeps nothing. -/
def Tried.kept (tried : Tried) : Tried :=
  if tried.step = .done then { tried with state := none } else tried

/-- How a try starts: at the window of the first try, or with no window to paste to. -/
inductive AttemptPath (s : PasteSession) (spec : PasteSpec) :
    Option Attempt → List PortCall → Tried → Prop
  | nowhere : AttemptPath s spec none [⟨.foreground, 0⟩] ⟨s, none, .done⟩
  | first {foreground : TargetWindow} {es : List PortCall} {tried : Tried} (hsome : foreground ≠ 0)
      (path : TryPath s (.new foreground) spec es tried) :
      AttemptPath s spec none (⟨.foreground, foreground⟩ :: es) tried.kept
  | later {state : Attempt} {es : List PortCall} {tried : Tried}
      (path : TryPath s state spec es tried) :
      AttemptPath s spec (some state) es tried.kept

theorem advance_path {rounds : Nat} (hrounds : 2 ≤ rounds) {s : PasteSession}
    {state : Option Attempt} {spec : PasteSpec} {es : List PortCall} {tried : Option Tried}
    (h : Path (s.advance rounds state spec) es tried) :
    ∃ t, tried = some t ∧ AttemptPath s spec state es t.kept := by
  unfold advance at h
  split at h
  · obtain ⟨t, rfl, hpath⟩ := checkChain_path hrounds h
    exact ⟨t, rfl, .later hpath⟩
  · rw [path_ask] at h
    obtain ⟨foreground, rest, rfl, h⟩ := h
    split at h
    · next hnone =>
      have hzero : foreground = (0 : Int) := by simpa using hnone
      subst hzero
      obtain ⟨rfl, rfl⟩ := path_done.mp h
      exact ⟨_, rfl, .nowhere⟩
    · next hsome =>
      obtain ⟨t, rfl, hpath⟩ := checkChain_path hrounds h
      exact ⟨t, rfl, .first (by simpa using hsome) hpath⟩

/-- **A try ends**, in one of these ways. -/
theorem attempt_path {s : PasteSession} {state : Option Attempt} {spec : PasteSpec}
    {es : List PortCall} {tried : Option Tried} (h : Path (s.attempt state spec) es tried) :
    ∃ t, tried = some t ∧ AttemptPath s spec state es t := by
  unfold attempt at h
  obtain ⟨b, hadvance, rfl⟩ := path_map.mp h
  obtain ⟨t, rfl, hpath⟩ := advance_path (Nat.le_refl 2) hadvance
  exact ⟨_, rfl, hpath⟩

end PasteSession

end KeySwitch.Executor
