import KeySwitch.Executor.PastePaths

/-!
# Where the paste keystroke goes

A paste may wait between its tries while ticks, restores and other pastes change the
session, start its loop over, and leave on a dozen ways out. The results here are about
everything it calls from its first try on, whatever the session is at each of them:
`Sends` is what the calls of a paste look like if it presses its keys at all, and
`keystroke_rule` reads off it that it presses once, after the phrase is on the clipboard
and the clipboard's close was called, and after the last checks in their order.
-/

namespace KeySwitch.Executor

open Data Lib Dialogue

namespace Question

/-- The call that presses the keys of a paste. -/
def isPress : Question → Bool
  | press _ => true
  | _ => false

end Question

/-! ## Calls that send no key -/

/-- No key is pressed or released. -/
def NoKeys (calls : List PortCall) : Prop := ∀ call ∈ calls, call.question.isKeys = false

theorem noKeys_nil : NoKeys [] := fun _ h => absurd h List.not_mem_nil

theorem noKeys_cons {call : PortCall} {calls : List PortCall} :
    NoKeys (call :: calls) ↔ call.question.isKeys = false ∧ NoKeys calls :=
  List.forall_mem_cons

theorem noKeys_single {call : PortCall} (h : call.question.isKeys = false) : NoKeys [call] :=
  noKeys_cons.mpr ⟨h, noKeys_nil⟩

theorem noKeys_append {before after : List PortCall} :
    NoKeys (before ++ after) ↔ NoKeys before ∧ NoKeys after :=
  List.forall_mem_append

/-- Calls of a kind that has no key call are quiet. -/
theorem noKeys_of_kind {kind : Question → Bool} (hkind : ∀ q, kind q = true → q.isKeys = false)
    {calls : List PortCall} (h : ∀ call ∈ calls, kind call.question = true) : NoKeys calls :=
  fun call hcall => hkind _ (h call hcall)

theorem noKeys_of_look {calls : List PortCall} (h : ∀ call ∈ calls, call.question.isLook = true) :
    NoKeys calls :=
  noKeys_of_kind (fun q hq => by cases q <;> simp_all [Question.isLook, Question.isKeys]) h

theorem noKeys_of_end {calls : List PortCall} (h : ∀ call ∈ calls, call.question.isEnd = true) :
    NoKeys calls :=
  noKeys_of_kind (fun q hq => by cases q <;> simp_all [Question.isEnd, Question.isKeys]) h

theorem noKeys_of_restore {calls : List PortCall}
    (h : ∀ call ∈ calls, call.question.isRestore = true) : NoKeys calls :=
  noKeys_of_kind (fun q hq => by
    cases q <;> simp_all [Question.isRestore, Question.isKeys]) h

theorem noKeys_of_aside {calls : List PortCall}
    (h : ∀ call ∈ calls, PasteSession.isAside call.question = true) : NoKeys calls :=
  noKeys_of_kind (fun q hq => by cases q <;> simp_all [PasteSession.isAside, Question.isKeys]) h

theorem noKeys_of_check {calls : List PortCall}
    (h : ∀ call ∈ calls, PasteSession.isCheck call.question = true) : NoKeys calls :=
  noKeys_of_kind (fun q hq => by cases q <;> simp_all [PasteSession.isCheck, Question.isKeys]) h

/-! ## What a keystroke needs -/

/-- The calls that put the phrase of `spec` on the clipboard: under an open of the
session it is emptied and the text written, and the markers after that; `closing` says
what the calls from the close on are. -/
def PhraseSet (spec : PasteSpec) (closing : List PortCall → Prop) (calls : List PortCall) : Prop :=
  ∃ before window inside clock marks close,
    calls = before ++ ⟨.openClipboard window, true⟩ :: (inside ++ ⟨.emptyClipboard, true⟩ ::
      (clock ++ ⟨.write CF_UNICODETEXT (.units spec.units), true⟩ :: (marks ++ close))) ∧
    (∀ call ∈ inside, call.question.isLook = true) ∧
    (∀ call ∈ clock, call.question = .now) ∧
    (∀ call ∈ marks, ∃ id, call.question = .write id (.bytes MARKER_DATA)) ∧ closing close

/-- The close, and the read of the clipboard's sequence number. -/
def CloseCalled (calls : List PortCall) : Prop :=
  ∃ closed sequence, calls = [⟨.closeClipboard, closed⟩, ⟨.sequenceNumber, sequence⟩]

/-- The calls after a press: the clock, and for a batch cut short the key-ups that leave
no key of it down. -/
def AfterPress (spec : PasteSpec) (combo : ComboSent) (after : List PortCall) : Prop :=
  ∃ keystroke,
    if 0 < combo.sent ∧ combo.sent < combo.of then
      (∃ n, after = [⟨.now, keystroke⟩, ⟨.releaseAfter spec.keys combo.sent, n⟩]) ∧
        ∀ vk, isHeld ((comboEvents spec.keys).take combo.sent ++
          releaseUnreleased spec.keys combo.sent) vk = false
    else after = [⟨.now, keystroke⟩]

/-- The rule for the keystroke of `spec` in `calls`, a paste's from its first try on. -/
structure KeystrokeRule (spec : PasteSpec) (closing : List PortCall → Prop)
    (calls : List PortCall) : Prop where
  once : calls.countP (fun call => call.question.isPress) ≤ 1
  right : ∀ before keys combo after, calls = before ++ ⟨.press keys, combo⟩ :: after →
    keys = spec.keys ∧ NoKeys before ∧
      (∃ foreground earlier, calls.head? = some ⟨.foreground, foreground⟩ ∧
        before = earlier ++
          [⟨.live, true⟩, ⟨.foreground, foreground⟩, ⟨.modifierDown, false⟩] ∧
        PhraseSet spec closing earlier) ∧
      AfterPress spec combo after

/-- The restore that waits after a keystroke at `keystroke`, whose delay is `delay`. -/
def RestoreStarts (s : PasteSession) (keystroke : Instant) (delay : Duration)
    (target : TargetWindow) : Prop :=
  ∃ (pending : Pending) (now : Instant) (sequence : Nat), s.pending = some
    (Pending.keystrokeSent { pending.renew now with sequence := sequence } keystroke delay target)

/-- The calls of a try that presses the keys of `spec` into `foreground`, and leaves `s`. -/
def Sends (spec : PasteSpec) (foreground : TargetWindow) (calls : List PortCall)
    (s : PasteSession) : Prop :=
  ∃ earlier combo keystroke after, calls = earlier ++
      [⟨.live, true⟩, ⟨.foreground, foreground⟩, ⟨.modifierDown, false⟩] ++
      ⟨.press spec.keys, combo⟩ :: ⟨.now, keystroke⟩ :: after ∧
    NoKeys earlier ∧ PhraseSet spec CloseCalled earlier ∧
    AfterPress spec combo (⟨.now, keystroke⟩ :: after) ∧
    (PasteSession.reachesPayload spec.keys combo = true →
      RestoreStarts s keystroke spec.restoreDelay foreground)

theorem Sends.prepend {spec : PasteSpec} {foreground : TargetWindow} {start calls : List PortCall}
    {s : PasteSession} (hstart : NoKeys start) (h : Sends spec foreground calls s) :
    Sends spec foreground (start ++ calls) s := by
  obtain ⟨earlier, combo, keystroke, after, rfl, hearlier, hphrase, hafter⟩ := h
  obtain ⟨before, window, inside, clock, marks, close, rfl, hshape⟩ := hphrase
  refine ⟨start ++ _, combo, keystroke, after, ?_, noKeys_append.mpr ⟨hstart, hearlier⟩, ?_, hafter⟩
  · simp only [List.append_assoc]
  · exact ⟨start ++ before, window, inside, clock, marks, close, by rw [List.append_assoc], hshape⟩

namespace PasteSession

/-! ## One try -/

theorem sendKeystroke_released {s s' : PasteSession} {pending : Pending} {state : Attempt}
    {spec : PasteSpec} {es : List PortCall}
    (h : Path (s.sendKeystroke pending state spec) es s') :
    ∃ combo keystroke after, es = ⟨.press spec.keys, combo⟩ :: ⟨.now, keystroke⟩ :: after ∧
      AfterPress spec combo (⟨.now, keystroke⟩ :: after) ∧
      (reachesPayload spec.keys combo = true → s'.pending =
        some (pending.keystrokeSent keystroke spec.restoreDelay state.foreground)) := by
  obtain ⟨combo, keystroke, rest, rfl, hsent⟩ := sendKeystroke_path h
  refine ⟨combo, keystroke, rest, rfl, ⟨keystroke, ?_⟩, fun hreach => by rw [hsent.sent hreach]⟩
  split
  · next hcut =>
    obtain ⟨n, rfl⟩ := hsent.released hcut.1 hcut.2
    exact ⟨⟨n, rfl⟩, isHeld_releaseUnreleased _ _⟩
  · next hwhole => rw [hsent.quiet hwhole]

/-- Under an open that just emptied the clipboard, the phrase is sent or no key is. -/
theorem setPhrase_sends {s s' : PasteSession} {pending : Pending} {markers : Markers}
    {state : Attempt} {spec : PasteSpec} {es inside : List PortCall} {window : OwnerWindow}
    (hinside : ∀ call ∈ inside, call.question.isLook = true) (clock : List PortCall)
    (hclock : ∀ call ∈ clock, call.question = .now)
    (h : Path (s.setPhrase pending markers state spec) es s') :
    NoKeys es ∨ Sends spec state.foreground (⟨.openClipboard window, true⟩ ::
      (inside ++ ⟨.emptyClipboard, true⟩ :: (clock ++ es))) s' := by
  rcases setPhrase_path h with ⟨now, back, closed, rest, rfl, hback, -, -, hrest⟩ |
    ⟨now, marks, closed, sequence, rest, rfl, hmarks, hcheck⟩
  · refine Or.inl (noKeys_cons.mpr ⟨rfl, noKeys_cons.mpr ⟨rfl, noKeys_append.mpr ⟨?_, ?_⟩⟩⟩)
    · exact noKeys_of_restore (putBack_restores hback)
    · exact noKeys_cons.mpr ⟨rfl, noKeys_of_end hrest⟩
  · have hmark : ∀ call ∈ marks, ∃ id, call.question = .write id (.bytes MARKER_DATA) := by
      intro call hcall
      have hmem : call.question ∈ marks.map Exchange.question := List.mem_map.mpr ⟨call, hcall, rfl⟩
      rw [hmarks] at hmem
      obtain ⟨id, -, hid⟩ := List.mem_map.mp hmem
      exact ⟨id, hid.symm⟩
    have hquiet : NoKeys marks := by
      intro call hcall
      obtain ⟨id, hid⟩ := hmark call hcall
      rw [hid]
      rfl
    rcases checkAndSend_path hcheck with ⟨-, hnone⟩ | ⟨rest, rfl, hsend⟩
    · refine Or.inl (noKeys_cons.mpr ⟨rfl, noKeys_cons.mpr ⟨rfl, noKeys_append.mpr ⟨hquiet, ?_⟩⟩⟩)
      exact noKeys_cons.mpr ⟨rfl, noKeys_cons.mpr ⟨rfl, hnone⟩⟩
    · obtain ⟨combo, keystroke, after, rfl, hreleased, hstarts⟩ := sendKeystroke_released hsend
      refine Or.inr ⟨⟨.openClipboard window, true⟩ :: (inside ++ ⟨.emptyClipboard, true⟩ ::
        ((clock ++ [⟨.now, now⟩]) ++ ⟨.write CF_UNICODETEXT (.units spec.units), true⟩ ::
          (marks ++ [⟨.closeClipboard, closed⟩, ⟨.sequenceNumber, sequence⟩]))), combo, keystroke,
        after, by simp, ?_, ?_, hreleased, fun hreach => ⟨pending, now, sequence, hstarts hreach⟩⟩
      · refine noKeys_cons.mpr ⟨rfl, noKeys_append.mpr ⟨noKeys_of_look hinside,
          noKeys_cons.mpr ⟨rfl, noKeys_append.mpr ⟨?_, noKeys_cons.mpr ⟨rfl,
            noKeys_append.mpr ⟨hquiet, ?_⟩⟩⟩⟩⟩⟩
        · refine noKeys_append.mpr ⟨fun call hcall => ?_, noKeys_single rfl⟩
          rw [hclock call hcall]
          rfl
        · exact noKeys_cons.mpr ⟨rfl, noKeys_single rfl⟩
      · refine ⟨[], window, inside, clock ++ [⟨.now, now⟩], marks, _, rfl, hinside, ?_, hmark,
          closed, sequence, rfl⟩
        intro call hcall
        rcases List.mem_append.mp hcall with hcall | hcall
        · exact hclock call hcall
        · rw [List.mem_singleton.mp hcall]

/-- What a try comes to: it sends nothing and keeps the window of the paste, or it sends
the keystroke there and is over. -/
def Comes (spec : PasteSpec) (foreground : TargetWindow) (es : List PortCall) (tried : Tried) :
    Prop :=
  (NoKeys es ∧ (tried.step ≠ .done →
      ∃ state, tried.state = some state ∧ state.foreground = foreground)) ∨
    (tried.step = .done ∧ Sends spec foreground es tried.session)

theorem Comes.prepend {spec : PasteSpec} {foreground : TargetWindow} {start es : List PortCall}
    {tried : Tried} (hstart : NoKeys start) (h : Comes spec foreground es tried) :
    Comes spec foreground (start ++ es) tried := by
  rcases h with ⟨hquiet, hkept⟩ | ⟨hdone, hsends⟩
  · exact Or.inl ⟨noKeys_append.mpr ⟨hstart, hquiet⟩, hkept⟩
  · exact Or.inr ⟨hdone, hsends.prepend hstart⟩

/-- A turn after which the loop goes on is quiet. -/
theorem turn_again_noKeys {s s' : PasteSession} {markers : Markers} {state state' : Attempt}
    {spec : PasteSpec} {es : List PortCall}
    (h : TurnPath s markers state spec es (.again s') state') : NoKeys es := by
  cases h with
  | again waits look ends =>
    refine noKeys_cons.mpr ⟨rfl, noKeys_append.mpr ⟨?_, noKeys_cons.mpr ⟨rfl, ?_⟩⟩⟩
    · exact noKeys_of_look (stillOurs_looks look)
    · exact noKeys_of_end (endSession_path ends).2.2

theorem openFailed_foreground (state : Attempt) (now : Instant) :
    (state.openFailed now).1.foreground = state.foreground := by
  unfold Attempt.openFailed
  dsimp only
  split <;> rfl

theorem turn_comes {s s' : PasteSession} {markers : Markers} {state state' : Attempt}
    {spec : PasteSpec} {es : List PortCall} {step : Step}
    (h : TurnPath s markers state spec es (.ended s' step) state') :
    Comes spec state.foreground es ⟨s', some state', step⟩ := by
  cases h with
  | failed aside prechecked hpending hmarkers haside =>
    refine Or.inl ⟨?_, fun _ => ⟨_, rfl, openFailed_foreground _ _⟩⟩
    exact noKeys_append.mpr ⟨noKeys_of_aside haside,
      noKeys_cons.mpr ⟨rfl, noKeys_single rfl⟩⟩
  | skipped prechecked hpending hmarkers haside =>
    exact Or.inl ⟨noKeys_of_aside haside, fun hne => absurd rfl hne⟩
  | unemptied aside prechecked hpending hmarkers haside hinside =>
    refine Or.inl ⟨noKeys_append.mpr ⟨noKeys_of_aside haside, noKeys_cons.mpr ⟨rfl, ?_⟩⟩,
      fun hne => absurd rfl hne⟩
    exact noKeys_append.mpr ⟨noKeys_of_look hinside,
      noKeys_cons.mpr ⟨rfl, noKeys_single rfl⟩⟩
  | chained waits look phrase =>
    have hlook := stillOurs_looks look
    rcases setPhrase_sends hlook [] (by simp) phrase with hquiet | hsends
    · exact Or.inl ⟨noKeys_cons.mpr ⟨rfl, noKeys_append.mpr ⟨noKeys_of_look hlook,
        noKeys_cons.mpr ⟨rfl, hquiet⟩⟩⟩, fun hne => absurd rfl hne⟩
    · exact Or.inr ⟨rfl, hsends⟩
  | fresh aside prechecked free haside keep phrase hmarkers hwindow hpending =>
    have hkeep := save_only _ _ keep
    rcases setPhrase_sends hkeep [⟨.now, _⟩] (by simp) phrase with hquiet | hsends
    · exact Or.inl ⟨noKeys_append.mpr ⟨noKeys_of_aside haside, noKeys_cons.mpr ⟨rfl,
        noKeys_append.mpr ⟨noKeys_of_look hkeep, noKeys_cons.mpr ⟨rfl,
          noKeys_cons.mpr ⟨rfl, hquiet⟩⟩⟩⟩⟩, fun hne => absurd rfl hne⟩
    · exact Or.inr ⟨rfl, hsends.prepend (noKeys_of_aside haside)⟩

theorem loop_comes {s : PasteSession} {markers : Markers} {state : Attempt} {spec : PasteSpec}
    {es : List PortCall} {tried : Tried} (h : LoopPath s markers state spec es tried) :
    Comes spec state.foreground es tried := by
  cases h with
  | once turn => exact turn_comes turn
  | twice first free second => exact (turn_comes second).prepend (turn_again_noKeys first)

theorem checks_comes {s : PasteSession} {state : Attempt} {spec : PasteSpec} {es : List PortCall}
    {tried : Tried} (h : ChecksPath s state spec es tried) :
    Comes spec state.foreground es tried := by
  cases h with
  | modifiers hwait =>
    exact Or.inl ⟨noKeys_cons.mpr ⟨rfl, noKeys_single rfl⟩, fun _ => ⟨_, rfl, rfl⟩⟩
  | skipped hchecks => exact Or.inl ⟨noKeys_of_check hchecks, fun hne => absurd rfl hne⟩
  | pasted checks hchecks hmarkers turns =>
    exact (loop_comes turns).prepend (noKeys_of_check hchecks)

theorem try_comes {s : PasteSession} {state : Attempt} {spec : PasteSpec} {es : List PortCall}
    {tried : Tried} (h : TryPath s state spec es tried) :
    Comes spec state.foreground es tried := by
  cases h with
  | chain waits hdue hahead hwait =>
    exact Or.inl ⟨noKeys_single rfl, fun _ => ⟨_, rfl, rfl⟩⟩
  | ahead hahead hlimit checks =>
    exact (checks_comes checks).prepend (noKeys_single rfl)
  | free hfree checks => exact checks_comes checks

/-- What a paste that is over keeps does not matter. -/
theorem Comes.kept {spec : PasteSpec} {foreground : TargetWindow} {es : List PortCall}
    {tried : Tried} (h : Comes spec foreground es tried) : Comes spec foreground es tried.kept := by
  unfold Tried.kept
  split
  · next hdone =>
    rcases h with ⟨hquiet, -⟩ | hsends
    · exact Or.inl ⟨hquiet, fun hne => absurd hdone hne⟩
    · exact Or.inr hsends
  · exact h

end PasteSession

/-! ## A paste, try by try -/

/-- How far a paste is: what it keeps between its tries, and whether it is over. -/
structure PasteProgress where
  state : Option Attempt
  ended : Bool

namespace PasteProgress

def new : PasteProgress := ⟨none, false⟩

/-- The next try of the paste of `spec`, on the session `s` as the ticks, the restores
and the other pastes since the last try have left it. -/
def again (spec : PasteSpec) (p : PasteProgress) (s : PasteSession) : Talk PasteProgress :=
  if p.ended then .done p
  else (s.attempt p.state spec).map fun tried =>
    match tried with
    | some tried => ⟨tried.state, tried.step = .done⟩
    | none => p

theorem again_path {spec : PasteSpec} {p p' : PasteProgress} {s : PasteSession}
    {es : List PortCall} (hover : p.ended = false) (h : Path (again spec p s) es p') :
    ∃ tried, PasteSession.AttemptPath s spec p.state es tried ∧
      p' = ⟨tried.state, tried.step = .done⟩ := by
  unfold again at h
  rw [hover] at h
  simp only [Bool.false_eq_true, if_false] at h
  obtain ⟨b, hattempt, rfl⟩ := path_map.mp h
  obtain ⟨tried, rfl, hpath⟩ := PasteSession.attempt_path hattempt
  exact ⟨tried, hpath, rfl⟩

end PasteProgress

/-- The tries of a paste: the session at each, and what the try called. -/
abbrev PasteTries := List (PasteSession × List PortCall)

/-- All calls of a paste, first to last. -/
def PasteTries.calls (tries : PasteTries) : List PortCall := tries.flatMap Prod.snd

theorem PasteTries.calls_snoc (tries : PasteTries) (s : PasteSession) (es : List PortCall) :
    PasteTries.calls (tries ++ [(s, es)]) = tries.calls ++ es := by
  unfold PasteTries.calls
  rw [List.flatMap_append, List.flatMap_singleton]

/-- Where a paste is after its `tries`. -/
inductive PasteSoFar (spec : PasteSpec) (calls : List PortCall) (p : PasteProgress) : Prop
  | start (hcalls : calls = []) (hp : p = .new)
  /-- It waits, or was skipped. -/
  | quiet {foreground : TargetWindow} {rest : List PortCall}
      (hcalls : calls = ⟨.foreground, foreground⟩ :: rest) (hrest : NoKeys rest)
      (hkept : p.ended = false → ∃ state, p.state = some state ∧ state.foreground = foreground)
  | sent {foreground : TargetWindow} {rest : List PortCall} {s : PasteSession}
      (hcalls : calls = ⟨.foreground, foreground⟩ :: rest)
      (hsends : Sends spec foreground rest s) (hover : p.ended = true)

/-- A try leaves its paste in one of these ways. -/
theorem PasteSoFar.step {spec : PasteSpec} {calls es : List PortCall} {p p' : PasteProgress}
    {s : PasteSession} (h : PasteSoFar spec calls p) (hstep : Path (p.again spec s) es p') :
    PasteSoFar spec (calls ++ es) p' := by
  cases hover : p.ended with
  | true =>
    unfold PasteProgress.again at hstep
    rw [hover] at hstep
    simp only [if_true] at hstep
    obtain ⟨rfl, rfl⟩ := path_done.mp hstep
    rw [List.append_nil]
    exact h
  | false =>
    obtain ⟨tried, hpath, rfl⟩ := PasteProgress.again_path hover hstep
    -- What the try comes to, once the window of the paste is known.
    have hcomes : ∀ {foreground : TargetWindow} (earlier : List PortCall) {rest : List PortCall},
        calls ++ es = ⟨.foreground, foreground⟩ :: (earlier ++ rest) → NoKeys earlier →
        PasteSession.Comes spec foreground rest tried →
        PasteSoFar spec (calls ++ es) ⟨tried.state, tried.step = .done⟩ := by
      intro foreground earlier rest hcalls hearlier hcomes
      rcases hcomes with ⟨hquiet, hkept⟩ | ⟨hdone, hsends⟩
      · exact .quiet hcalls (noKeys_append.mpr ⟨hearlier, hquiet⟩) fun hgoes =>
          hkept (by simpa using hgoes)
      · exact .sent hcalls (hsends.prepend hearlier) (by simpa using hdone)
    cases h with
    | start hcalls hp =>
      subst hcalls hp
      cases hpath with
      | nowhere =>
        exact .quiet rfl noKeys_nil fun hgoes => absurd hgoes (by simp)
      | first hsome path =>
        exact hcomes [] rfl noKeys_nil (PasteSession.try_comes path).kept
    | quiet hcalls hrest hkept =>
      obtain ⟨state, hstate, rfl⟩ := hkept hover
      rw [hstate] at hpath
      cases hpath with
      | later path =>
        exact hcomes _ (by rw [hcalls, List.cons_append]) hrest (PasteSession.try_comes path).kept
    | sent hcalls hsends hdone =>
      rw [hover] at hdone
      exact absurd hdone (by simp)

theorem pasteSoFar_run {spec : PasteSpec} {tries : PasteTries} {p : PasteProgress}
    (h : Dialogue.Runs (PasteProgress.again spec) .new tries p) : PasteSoFar spec tries.calls p :=
  runs_induct (P := fun tries p => PasteSoFar spec (PasteTries.calls tries) p) (.start rfl rfl)
    (fun tries p s es p' hsofar hstep => by
      rw [PasteTries.calls_snoc]
      exact hsofar.step hstep) h

/-! ## The rule -/

theorem countP_press_noKeys {calls : List PortCall} (h : NoKeys calls) :
    calls.countP (fun call => call.question.isPress) = 0 := by
  rw [List.countP_eq_zero]
  intro call hcall hpress
  have hquiet := h call hcall
  obtain ⟨question, answer⟩ := call
  cases question <;> simp_all [Question.isPress, Question.isKeys]

theorem rule_of_noKeys {spec : PasteSpec} {closing : List PortCall → Prop} {calls : List PortCall}
    (h : NoKeys calls) : KeystrokeRule spec closing calls := by
  refine ⟨by rw [countP_press_noKeys h]; exact Nat.zero_le 1, ?_⟩
  rintro before keys combo after rfl
  have hpress := (noKeys_cons.mp (noKeys_append.mp h).2).1
  exact absurd hpress (by simp [Question.isKeys])

/-- What follows a press presses nothing more. -/
theorem AfterPress.no_press {spec : PasteSpec} {combo : ComboSent} {after : List PortCall}
    (h : AfterPress spec combo after) : ∀ call ∈ after, call.question.isPress = false := by
  obtain ⟨keystroke, h⟩ := h
  split at h
  · obtain ⟨⟨n, rfl⟩, -⟩ := h
    simp [Question.isPress]
  · subst h
    simp [Question.isPress]

/-- The checks before a press are quiet too. -/
theorem noKeys_checked {earlier : List PortCall} {foreground : TargetWindow} (h : NoKeys earlier) :
    NoKeys (earlier ++ [⟨.live, true⟩, ⟨.foreground, foreground⟩, ⟨.modifierDown, false⟩]) :=
  noKeys_append.mpr ⟨h, noKeys_cons.mpr ⟨rfl, noKeys_cons.mpr ⟨rfl, noKeys_single rfl⟩⟩⟩

/-- A press is in the calls of a try that sends once: there is one way to split them. -/
theorem Sends.split {spec : PasteSpec} {foreground : TargetWindow} {s : PasteSession}
    {before after : List PortCall} {keys : List VirtualKey} {combo : ComboSent}
    (h : Sends spec foreground (before ++ ⟨.press keys, combo⟩ :: after) s) :
    keys = spec.keys ∧ NoKeys before ∧
      (∃ earlier, before = earlier ++
          [⟨.live, true⟩, ⟨.foreground, foreground⟩, ⟨.modifierDown, false⟩] ∧
        PhraseSet spec CloseCalled earlier) ∧
      AfterPress spec combo after ∧
      ∃ keystroke rest, after = ⟨.now, keystroke⟩ :: rest ∧
        (PasteSession.reachesPayload spec.keys combo = true →
          RestoreStarts s keystroke spec.restoreDelay foreground) := by
  obtain ⟨earlier, combo', keystroke, rest, hsplit, hearlier, hphrase, hreleased, hstarts⟩ := h
  have hquiet : NoKeys (earlier ++
      [⟨.live, true⟩, ⟨.foreground, foreground⟩, ⟨.modifierDown, false⟩]) :=
    noKeys_checked hearlier
  obtain ⟨rfl, hpress, rfl⟩ := (List.append_cons_inj_of_notMem
    (fun hmem => absurd (hquiet _ hmem) (by simp [Question.isKeys]))
    (fun hmem => absurd (hreleased.no_press _ hmem) (by simp [Question.isPress]))).mp hsplit.symm
  cases hpress
  exact ⟨rfl, hquiet, ⟨earlier, rfl, hphrase⟩, hreleased, keystroke, rest, rfl, hstarts⟩

theorem rule_of_sends {spec : PasteSpec} {foreground : TargetWindow} {calls : List PortCall}
    {s : PasteSession} (hhead : calls.head? = some ⟨.foreground, foreground⟩)
    (h : Sends spec foreground calls s) : KeystrokeRule spec CloseCalled calls := by
  constructor
  · obtain ⟨earlier, combo, keystroke, after, rfl, hearlier, -, hreleased, -⟩ := h
    have hafter : (⟨.now, keystroke⟩ :: after).countP (fun call => call.question.isPress) = 0 := by
      rw [List.countP_eq_zero]
      intro call hcall
      simp [hreleased.no_press call hcall]
    rw [List.countP_append, countP_press_noKeys (noKeys_checked hearlier), List.countP_cons, hafter]
    split <;> omega
  · rintro before keys combo after rfl
    obtain ⟨hkeys, hquiet, ⟨earlier, hbefore, hphrase⟩, hreleased, -⟩ := h.split
    exact ⟨hkeys, hquiet, ⟨foreground, earlier, hhead, hbefore, hphrase⟩, hreleased⟩

/-- **The keystroke goes to the right window or nowhere**: in everything a paste calls,
it is pressed at most once, into the foreground window of the first try, with the phrase
on the clipboard and the checks asked last. -/
theorem keystroke_rule {spec : PasteSpec} {tries : PasteTries} {p : PasteProgress}
    (h : Dialogue.Runs (PasteProgress.again spec) .new tries p) :
    KeystrokeRule spec CloseCalled tries.calls := by
  cases pasteSoFar_run h with
  | start hcalls hp =>
    rw [hcalls]
    exact rule_of_noKeys noKeys_nil
  | quiet hcalls hrest hkept =>
    rw [hcalls]
    exact rule_of_noKeys (noKeys_cons.mpr ⟨rfl, hrest⟩)
  | sent hcalls hsends hover =>
    rename_i foreground rest s'
    rw [hcalls]
    have hfirst : NoKeys [⟨.foreground, foreground⟩] := noKeys_single rfl
    exact rule_of_sends rfl (hsends.prepend hfirst)

/-- Answers of a desk where nothing stands in a paste's way, the clipboard is empty, and
its close answers `closed`. -/
def idleDesk (closed : Bool) (_ : List PortCall) : (q : Question) → q.Answer
  | .foreground => (7 : Int)
  | .responds _ _ => Probe.answered
  | .modifierDown => false
  | .press keys => (⟨2 * keys.length, 2 * keys.length⟩ : ComboSent)
  | .releaseAfter _ _ => (0 : Nat)
  | .createWindow => some (1 : Int)
  | .destroyWindow _ => ()
  | .owner => (none : Option Int)
  | .openClipboard _ => true
  | .closeClipboard => closed
  | .emptyClipboard => true
  | .formats => ([] : List Format)
  | .formatName _ => (none : Option String)
  | .read _ _ => Read.failed
  | .write _ _ => true
  | .register marker => some (0xC000 + Marker.ALL.idxOf marker)
  | .sequenceNumber => (0 : Nat)
  | .now => (0 : Nat)
  | .live => true

/-- A `Paste` of the text "a" with Ctrl and V. -/
def pasteA : PasteSpec := ⟨[0x61, 0], [VK_CONTROL, 0x56], fromMillis 300⟩

/-- Its one try on that desk. -/
def pasteATries (closed : Bool) : PasteTries :=
  [(.new, (talk (idleDesk closed) (PasteProgress.again pasteA .new .new) []).1)]

theorem keystroke_rule_pasteA : KeystrokeRule pasteA CloseCalled (pasteATries true).calls :=
  keystroke_rule (.cons (talk_path _ _ []) (.nil _))

/-- Whether a call is a close that succeeded. -/
def isClosed : PortCall → Bool
  | ⟨.closeClipboard, closed⟩ => closed
  | _ => false

/-- A close that fails is only logged: the keystroke is pressed with the clipboard open. -/
theorem keystroke_unclosed : ∃ tries p,
    Dialogue.Runs (PasteProgress.again pasteA) .new tries p ∧
      ¬KeystrokeRule pasteA (fun close => close = [⟨.closeClipboard, true⟩])
        (PasteTries.calls tries) := by
  refine ⟨pasteATries false, _, .cons (talk_path _ _ []) (.nil _), fun hrule => ?_⟩
  have hsplit : (pasteATries false).calls = (pasteATries false).calls.take 27 ++
      ⟨.press pasteA.keys, ⟨4, 4⟩⟩ :: (pasteATries false).calls.drop 28 := rfl
  obtain ⟨-, -, ⟨foreground, earlier, -, hbefore, hphrase⟩, -⟩ := hrule.right _ _ _ _ hsplit
  obtain ⟨before, window, inside, clock, marks, close, rfl, -, -, -, rfl⟩ := hphrase
  have hmem : ⟨.closeClipboard, true⟩ ∈ (pasteATries false).calls := by
    rw [hsplit, hbefore]
    simp
  -- No close of this run succeeded.
  have hnone : ∀ call ∈ (pasteATries false).calls, isClosed call = false := by decide +kernel
  exact absurd (hnone _ hmem) (by simp [isClosed])

end KeySwitch.Executor
