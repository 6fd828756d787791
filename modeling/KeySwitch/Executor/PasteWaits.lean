import KeySwitch.Executor.RestoreTiming

/-!
# How a paste waits

A paste waits for three things: the restore of the paste before it, the release of the
modifiers, and a clipboard that is not open elsewhere. A run of its tries has the polls
of the session between them; a further try comes only after a tick at or after the time
the last one asked for.

`attempt_waits` says how a try that waits can go, one case for each of the three.
`polls_delay` says what the polls before the next try make of a restore that still
waits: no tick reached its deadline, or the deadline has moved by `SETTLE` at least.
-/

namespace KeySwitch.Executor

open Data Lib Dialogue

/-! ## The tries of a paste -/

/-- What a try waits for. -/
inductive WaitKind
  | chain
  | modifiers
  | opened
  deriving DecidableEq, Repr

/-- What a call of the clock answered. -/
def nowOf : PortCall → Option Instant
  | ⟨.now, now⟩ => some now
  | _ => none

/-- Whether a call found a modifier held. -/
def isHeldModifier : PortCall → Bool
  | ⟨.modifierDown, down⟩ => down
  | _ => false

/-- A try with the polls before it. -/
structure PasteTry where
  polls : Polls
  calls : List PortCall
  tried : PasteSession.Tried

namespace PasteTry

/-- When it may be tried again, if it waits. -/
def deadline? (t : PasteTry) : Option Instant :=
  match t.tried.step with
  | .done => none
  | .waitUntil deadline => some deadline

/-- What it waits for, by its calls: an open that failed, a modifier held, or else the
restore of the paste before. -/
def kind (t : PasteTry) : Option WaitKind :=
  t.deadline?.map fun _ =>
    if t.calls.any PasteSession.isBusyOpen then .opened
    else if t.calls.any isHeldModifier then .modifiers
    else .chain

/-- Its times, first to last. -/
def times (t : PasteTry) : List Instant :=
  t.polls.map (fun poll => poll.1.time) ++ t.calls.filterMap nowOf

/-- When it decided to wait: the clock it read last. -/
def time (t : PasteTry) : Instant := (t.calls.filterMap nowOf).getLastD 0

end PasteTry

/-- What the next try needs: the last one waits, and a tick at or after the time it waits
for. -/
def Ticked (tries : List PasteTry) (t : PasteTry) : Prop :=
  ∀ last, tries.getLast? = some last → ∃ deadline, last.deadline? = some deadline ∧
    ∃ poll ∈ t.polls, ∃ now, poll.1 = .tick now ∧ deadline ≤ now

/-- The tries of `spec` from its first on, ending in the session `s` with `state` kept:
while one waits, the session is polled, with a tick at or after the time it waits for,
and then the paste is tried again. -/
inductive TriedFrom (spec : PasteSpec) (start : PasteSession) :
    List PasteTry → PasteSession → Option Attempt → Prop
  | start : TriedFrom spec start [] start none
  | again {tries : List PasteTry} {s s' : PasteSession} {state : Option Attempt} {t : PasteTry}
      (h : TriedFrom spec start tries s state)
      (hticked : Ticked tries t)
      (hpolls : Dialogue.Runs PasteSession.poll s t.polls s')
      (htry : Path (s'.attempt state spec) t.calls (some t.tried)) :
      TriedFrom spec start (tries ++ [t]) t.tried.session t.tried.state

/-- The clock over all tries. -/
def clock (tries : List PasteTry) : List Instant := tries.flatMap PasteTry.times

theorem clock_snoc (tries : List PasteTry) (t : PasteTry) :
    clock (tries ++ [t]) = clock tries ++ t.times := by
  unfold clock
  rw [List.flatMap_append, List.flatMap_singleton]

/-- The tries that wait for `kind`. -/
def waits (kind : WaitKind) (tries : List PasteTry) : List PasteTry :=
  tries.filter fun t => t.kind == some kind

theorem waits_snoc (kind : WaitKind) (tries : List PasteTry) (t : PasteTry) :
    waits kind (tries ++ [t]) = waits kind tries ++ if t.kind = some kind then [t] else [] := by
  unfold waits
  rw [List.filter_append]
  by_cases h : t.kind = some kind <;> simp [h]

/-! ## How a try waits -/

namespace PasteSession

/-- No wait for the restore of the paste before is left. -/
def NoChain (s : PasteSession) (state : Attempt) : Prop := state.wentAhead = true ∨ ¬Waiting s

/-- The budgets of a paste, as a wait for the restore at its limit leaves them. -/
structure SameBudgets (state state' : Attempt) : Prop where
  chain : state'.chainSince = state.chainSince
  modifiers : state'.modifiersSince = state.modifiersSince
  opens : state'.openTries = state.openTries

/-- How a try from `state` waits, decided at `now`. -/
inductive WaitPath (s : PasteSession) (state : Attempt) :
    WaitKind → Instant → List PortCall → Tried → Prop
  | chain (before : List PortCall) {pending : Pending} {now : Instant}
      (hbefore : ∀ call ∈ before, call.question = .foreground)
      (waits : s.pending = some pending) (hdue : pending.due = false)
      (hahead : state.wentAhead = false)
      (hwait : now < state.chainSince.getD now + CHAIN_WAIT_LIMIT) :
      WaitPath s state .chain now (before ++ [⟨.now, now⟩])
        ⟨s, some { state with chainSince := some (state.chainSince.getD now) },
          .waitUntil (min pending.restoreAt (state.chainSince.getD now + CHAIN_WAIT_LIMIT))⟩
  | modifiers (before : List PortCall) {state' : Attempt} {now : Instant}
      (hbefore : ∀ call ∈ before, isCheck call.question = true) (hsame : SameBudgets state state')
      (hchain : NoChain s state')
      (hwait : now - state.modifiersSince.getD now < MODIFIER_LIMIT) :
      WaitPath s state .modifiers now (before ++ [⟨.modifierDown, true⟩, ⟨.now, now⟩])
        ⟨s, some { state' with modifiersSince := some (state.modifiersSince.getD now) },
          .waitUntil (now + MODIFIER_POLL)⟩
  | opened (before : List PortCall) {s' : PasteSession} {state' : Attempt} {window : OwnerWindow}
      {now deadline : Instant} (hchain : NoChain s' state')
      (hsince : state'.chainSince = state.chainSince)
      (hmodifiers : state'.modifiersSince = state.modifiersSince)
      (hopens : state'.openTries = state.openTries + 1)
      (hleft : state.openTries < OPEN_BACKOFF.length) (hdeadline : now ≤ deadline) :
      WaitPath s state .opened now (before ++ [⟨.openClipboard window, false⟩, ⟨.now, now⟩])
        ⟨s', some state', .waitUntil deadline⟩

/-- An open that failed while retries were left. -/
theorem openFailed_waits {state : Attempt} {now deadline : Instant}
    (h : (state.openFailed now).2 = .waitUntil deadline) :
    state.openTries < OPEN_BACKOFF.length ∧ now ≤ deadline ∧
      (state.openFailed now).1.chainSince = state.chainSince ∧
      (state.openFailed now).1.modifiersSince = state.modifiersSince ∧
      (state.openFailed now).1.wentAhead = state.wentAhead ∧
      (state.openFailed now).1.openTries = state.openTries + 1 := by
  unfold Attempt.openFailed at h ⊢
  dsimp only at h ⊢
  split at h
  · next wait hwait =>
    cases h
    obtain ⟨hlt, -⟩ := List.getElem?_eq_some_iff.mp hwait
    exact ⟨hlt, Nat.le_add_right now wait, rfl, rfl, rfl, rfl⟩
  · exact absurd h (by simp)

theorem noChain_of_pending {s s' : PasteSession} {state state' : Attempt}
    (hpending : s'.pending = s.pending) (hahead : state'.wentAhead = state.wentAhead)
    (h : NoChain s state) : NoChain s' state' := by
  rcases h with hwent | hnone
  · exact Or.inl (hahead.trans hwent)
  · refine Or.inr ?_
    rintro ⟨pending, hsome, hdue⟩
    exact hnone ⟨pending, hpending ▸ hsome, hdue⟩

/-- A turn that waits found the clipboard busy. -/
theorem turn_waits {s s' : PasteSession} {markers : Markers} {state state' : Attempt}
    {spec : PasteSpec} {es : List PortCall} {step : Step} {deadline : Instant}
    (h : TurnPath s markers state spec es (.ended s' step) state')
    (hstep : step = .waitUntil deadline) (hchain : NoChain s state) :
    ∃ now, WaitPath s state .opened now es ⟨s', some state', step⟩ := by
  cases h with
  | @failed aside prechecked window now s' hpending hmarkers haside =>
    obtain ⟨hleft, hdeadline, hsince, hmodifiers, hahead, hopens⟩ := openFailed_waits hstep
    rw [hstep]
    exact ⟨now, .opened aside (noChain_of_pending hpending hahead hchain) hsince hmodifiers hopens
      hleft hdeadline⟩
  | skipped | unemptied | chained | fresh => exact absurd hstep (by simp)

theorem WaitPath.prepend {s s₀ : PasteSession} {state : Attempt} {now : Instant}
    {es start : List PortCall} {tried : Tried} (h : WaitPath s state .opened now es tried) :
    WaitPath s₀ state .opened now (start ++ es) tried := by
  cases h with
  | opened before hchain hsince hmodifiers hopens hleft hdeadline =>
    rw [← List.append_assoc]
    exact .opened _ hchain hsince hmodifiers hopens hleft hdeadline

theorem loop_waits {s : PasteSession} {markers : Markers} {state : Attempt} {spec : PasteSpec}
    {es : List PortCall} {tried : Tried} {deadline : Instant}
    (h : LoopPath s markers state spec es tried) (hstep : tried.step = .waitUntil deadline)
    (hchain : NoChain s state) : ∃ now, WaitPath s state .opened now es tried := by
  cases h with
  | once turn => exact turn_waits turn hstep hchain
  | twice first free second =>
    -- The session that ended left no restore.
    obtain ⟨now, hwait⟩ := turn_waits second hstep (Or.inr fun ⟨pending, hsome, _⟩ => by
      rw [free] at hsome
      exact absurd hsome (by simp))
    exact ⟨now, hwait.prepend⟩

theorem checks_waits {s : PasteSession} {state : Attempt} {spec : PasteSpec} {es : List PortCall}
    {tried : Tried} {deadline : Instant} (h : ChecksPath s state spec es tried)
    (hstep : tried.step = .waitUntil deadline) (hchain : NoChain s state) :
    ∃ kind now, WaitPath s state kind now es tried ∧ kind ≠ .chain := by
  cases h with
  | modifiers hwait =>
    exact ⟨_, _, .modifiers [] (by simp) ⟨rfl, rfl, rfl⟩ hchain hwait, by simp⟩
  | skipped hchecks => exact absurd hstep (by simp)
  | pasted checks hchecks hmarkers turns =>
    obtain ⟨now, hwait⟩ := loop_waits turns hstep hchain
    exact ⟨_, now, hwait.prepend, by simp⟩

/-- A wait after checks that leave the budgets alone. -/
theorem WaitPath.after {s : PasteSession} {state state' : Attempt} {kind : WaitKind}
    {now : Instant} {es : List PortCall} {tried : Tried} (start : List PortCall)
    (h : WaitPath s state' kind now es tried) (hne : kind ≠ .chain)
    (hsame : SameBudgets state state') (hstart : ∀ call ∈ start, isCheck call.question = true) :
    WaitPath s state kind now (start ++ es) tried := by
  cases h with
  | chain => exact absurd rfl hne
  | modifiers before hbefore hsame' hchain hwait =>
    rw [hsame.modifiers] at hwait ⊢
    rw [← List.append_assoc]
    refine .modifiers _ (List.forall_mem_append.mpr ⟨hstart, hbefore⟩) ?_ hchain hwait
    exact ⟨hsame'.chain.trans hsame.chain, hsame'.modifiers.trans hsame.modifiers,
      hsame'.opens.trans hsame.opens⟩
  | opened before hchain hsince hmodifiers hopens hleft hdeadline =>
    rw [← List.append_assoc]
    rw [hsame.opens] at hopens hleft
    exact .opened _ hchain (hsince.trans hsame.chain) (hmodifiers.trans hsame.modifiers) hopens
      hleft hdeadline

theorem try_waits {s : PasteSession} {state : Attempt} {spec : PasteSpec} {es : List PortCall}
    {tried : Tried} {deadline : Instant} (h : TryPath s state spec es tried)
    (hstep : tried.step = .waitUntil deadline) :
    ∃ kind now, WaitPath s state kind now es tried := by
  cases h with
  | chain waits hdue hahead hwait =>
    exact ⟨_, _, .chain [] (by simp) waits hdue hahead hwait⟩
  | @ahead now es tried hahead hlimit checks =>
    obtain ⟨kind, t, hwait, hne⟩ := checks_waits checks hstep (Or.inl rfl)
    -- It waited before, so the limit is that wait's.
    have hsince : some (state.chainSince.getD now) = state.chainSince := by
      cases hchain : state.chainSince with
      | some since => rfl
      | none =>
        rw [hchain, Option.getD_none] at hlimit
        exact absurd hlimit (Nat.not_le.mpr (Nat.lt_add_of_pos_right (by decide)))
    exact ⟨kind, t, hwait.after [⟨.now, now⟩] hne ⟨hsince, rfl, rfl⟩ (by simp [isCheck])⟩
  | free hfree checks =>
    have hchain : NoChain s state := by
      by_cases hwent : state.wentAhead = true
      · exact Or.inl hwent
      · refine Or.inr ?_
        rintro ⟨pending, hsome, hdue⟩
        rcases hfree pending hsome with h | h
        · exact absurd (hdue.symm.trans h) (by simp)
        · exact hwent h
    obtain ⟨kind, t, hwait, -⟩ := checks_waits checks hstep hchain
    exact ⟨kind, t, hwait⟩

/-- The first try asks for its window before anything else. -/
theorem WaitPath.first {s : PasteSession} {state : Attempt} {kind : WaitKind} {now : Instant}
    {es : List PortCall} {tried : Tried} {foreground : TargetWindow}
    (h : WaitPath s state kind now es tried) :
    WaitPath s state kind now (⟨.foreground, foreground⟩ :: es) tried := by
  cases h with
  | chain before hbefore waits hdue hahead hwait =>
    exact .chain (_ :: before) (List.forall_mem_cons.mpr ⟨rfl, hbefore⟩) waits hdue hahead hwait
  | modifiers before hbefore hsame hchain hwait =>
    exact .modifiers (_ :: before) (List.forall_mem_cons.mpr ⟨rfl, hbefore⟩) hsame hchain hwait
  | opened before hchain hsince hmodifiers hopens hleft hdeadline =>
    exact .opened (_ :: before) hchain hsince hmodifiers hopens hleft hdeadline

/-- **How a try waits**: from what the paste kept, or fresh. -/
theorem attempt_waits {s : PasteSession} {state : Option Attempt} {spec : PasteSpec}
    {es : List PortCall} {tried : Tried} {deadline : Instant}
    (h : AttemptPath s spec state es tried) (hstep : tried.step = .waitUntil deadline) :
    ∃ foreground kind now, WaitPath s (state.getD (.new foreground)) kind now es tried := by
  have hkept : ∀ {tried : Tried}, tried.kept.step = .waitUntil deadline →
      tried.step = .waitUntil deadline ∧ tried.kept = tried := by
    intro tried h
    unfold Tried.kept at h ⊢
    split at h
    · next hdone => exact absurd (hdone.symm.trans h) (by simp)
    · next hgoes => exact ⟨h, if_neg hgoes⟩
  cases h with
  | nowhere => exact absurd hstep (by simp)
  | @first foreground es tried hsome path =>
    obtain ⟨hstep, hsame⟩ := hkept hstep
    obtain ⟨kind, now, hwait⟩ := try_waits path hstep
    rw [hsame]
    exact ⟨foreground, kind, now, hwait.first⟩
  | @later state es tried path =>
    obtain ⟨hstep, hsame⟩ := hkept hstep
    obtain ⟨kind, now, hwait⟩ := try_waits path hstep
    rw [hsame]
    exact ⟨0, kind, now, hwait⟩

theorem not_busyOpen_of_check {call : PortCall} (h : isCheck call.question = true) :
    isBusyOpen call = false := by
  obtain ⟨question, answer⟩ := call
  cases question <;> simp_all [isBusyOpen, isCheck]

theorem not_heldModifier_of_foreground {call : PortCall} (h : call.question = .foreground) :
    isHeldModifier call = false := by
  obtain ⟨question, answer⟩ := call
  cases question <;> simp_all [isHeldModifier]

/-- A try that waits reads the clock last. -/
theorem WaitPath.last {s : PasteSession} {state : Attempt} {kind : WaitKind} {now : Instant}
    {es : List PortCall} {tried : Tried} (h : WaitPath s state kind now es tried) :
    ∃ before, es = before ++ [⟨.now, now⟩] := by
  cases h with
  | chain before => exact ⟨before, rfl⟩
  | modifiers before => exact ⟨before ++ [⟨.modifierDown, true⟩], by simp⟩
  | @opened before _ _ window => exact ⟨before ++ [⟨.openClipboard window, false⟩], by simp⟩

/-- Its calls say what it waits for. -/
theorem WaitPath.reads {s : PasteSession} {state : Attempt} {kind : WaitKind} {now : Instant}
    {es : List PortCall} {tried : Tried} (h : WaitPath s state kind now es tried) :
    kind = if es.any isBusyOpen then .opened
      else if es.any isHeldModifier then .modifiers
      else .chain := by
  cases h with
  | chain before hbefore waits hdue hahead hwait =>
    have hcheck : ∀ call ∈ before, isCheck call.question = true := fun call hcall => by
      rw [hbefore call hcall]
      rfl
    have hopen : before.any isBusyOpen = false := List.any_eq_false.mpr fun call hcall => by
      simp [not_busyOpen_of_check (hcheck call hcall)]
    have hheld : before.any isHeldModifier = false := List.any_eq_false.mpr fun call hcall => by
      simp [not_heldModifier_of_foreground (hbefore call hcall)]
    simp [List.any_append, hopen, hheld, isBusyOpen, isHeldModifier]
  | modifiers before hbefore hsame hchain hwait =>
    have hopen : before.any isBusyOpen = false := List.any_eq_false.mpr fun call hcall => by
      simp [not_busyOpen_of_check (hbefore call hcall)]
    simp [List.any_append, hopen, isBusyOpen, isHeldModifier]
  | opened before hchain hsince hmodifiers hopens hleft hdeadline =>
    simp [List.any_append, isBusyOpen]

theorem WaitPath.deadline {s : PasteSession} {state : Attempt} {kind : WaitKind} {now : Instant}
    {es : List PortCall} {tried : Tried} (h : WaitPath s state kind now es tried) :
    ∃ deadline, tried.step = .waitUntil deadline := by
  cases h <;> exact ⟨_, rfl⟩

end PasteSession

/-- What a try that waits is. -/
theorem PasteTry.of_wait {s : PasteSession} {state : Attempt} {kind : WaitKind} {now : Instant}
    {t : PasteTry} (h : PasteSession.WaitPath s state kind now t.calls t.tried) :
    t.kind = some kind ∧ t.time = now ∧ now ∈ t.calls.filterMap nowOf := by
  obtain ⟨before, hlast⟩ := h.last
  obtain ⟨deadline, hstep⟩ := h.deadline
  refine ⟨?_, ?_, ?_⟩
  · unfold PasteTry.kind PasteTry.deadline?
    rw [hstep, h.reads]
    rfl
  · unfold PasteTry.time
    rw [hlast, List.filterMap_append]
    simp [nowOf]
  · rw [hlast]
    refine List.mem_filterMap.mpr ⟨⟨.now, now⟩, ?_, rfl⟩
    exact List.mem_append_right _ (List.mem_singleton.mpr rfl)

/-! ## The restore of the paste before -/

/-- A poll after which a restore still waits left it alone, or moved its deadline past
`SETTLE`. -/
theorem poll_waiting {s s' : PasteSession} {poll : Poll} {es : List PortCall} {pending' : Pending}
    (h : Path (s.poll poll) es s') (hpending : s'.pending = some pending')
    (hdue : pending'.due = false) :
    ∃ pending, s.pending = some pending ∧ pending.due = false ∧
      ((pending' = pending ∧ ∀ now, poll = .tick now → now < pending.restoreAt) ∨
        (pending.restoreAt ≤ poll.time ∧ poll.time < pending.hardLimit ∧
          pending'.hardLimit = pending.hardLimit ∧
          ∃ wait, SETTLE ≤ wait ∧
            pending'.restoreAt = min (poll.time + wait) pending.hardLimit)) := by
  -- What is made due waits no more.
  have hnot : ∀ {pending : Pending}, s' = s.withPending pending → pending.due = false := by
    rintro pending rfl
    cases hpending
    exact hdue
  cases poll with
  | tick now =>
    cases PasteSession.poll_tick h with
    | idle hnone =>
      rw [hnone] at hpending
      exact absurd hpending (by simp)
    | early waits hearly =>
      obtain rfl := Option.some.inj (hpending.symm.trans waits)
      refine ⟨_, hpending, hdue, Or.inl ⟨rfl, fun t ht => ?_⟩⟩
      cases ht
      exact hearly.resolve_left (by simp [hdue])
    | due waits _ _ _ => exact absurd (hnot rfl) (by simp [Pending.madeDue])
    | @probed pending target probe waits hbefore hat _ hlimit =>
      cases hpending
      obtain ⟨-, -, -, -, hhard, -, -⟩ := pending.probed_kept now probe
      refine ⟨pending, waits, hbefore, Or.inr ⟨hat, hlimit, hhard, ?_⟩⟩
      rcases pending.probed_decides now probe with ⟨hmade, -⟩ | ⟨-, -, hwait⟩ | ⟨-, -, -, hwait⟩
      · exact absurd (hdue.symm.trans hmade) (by simp)
      · exact ⟨TARGET_RETRY, by decide, hwait⟩
      · exact ⟨SETTLE, Nat.le_refl _, hwait⟩
  | restoreIfDue now =>
    cases PasteSession.poll_restore h with
    | idle hnone =>
      rw [hnone] at hpending
      exact absurd hpending (by simp)
    | early waits hbefore _ =>
      obtain rfl := Option.some.inj (hpending.symm.trans waits)
      exact ⟨_, hpending, hdue, Or.inl ⟨rfl, fun t ht => absurd ht (by simp)⟩⟩
    | later waits _ _ _ => exact absurd (hnot rfl) (by simp [Pending.madeDue])
    | ended waits _ _ hfound path =>
      rw [((PasteSession.tryRestore_path rfl path).ended hfound).1] at hpending
      exact absurd hpending (by simp)
    | busy _ waits _ _ _ => exact absurd (hnot rfl) (by simp [Pending.busyAt])
    | gaveUp _ waits _ _ _ ends _ =>
      rw [(PasteSession.endSession_path ends).1] at hpending
      exact absurd hpending (by simp)

/-- How polls leave the deadline of a restore that still waits. -/
inductive Delayed (polls : Polls) (pending pending' : Pending) : Prop
  | untouched (hsame : pending'.restoreAt = pending.restoreAt)
      (hearly : ∀ poll ∈ polls, ∀ now, poll.1 = .tick now → now < pending.restoreAt)
  | moved (hbefore : pending.restoreAt < pending.hardLimit)
      (hmoved : ∀ early, (∀ poll ∈ polls, early ≤ poll.1.time) →
        min (max early pending.restoreAt + SETTLE) pending.hardLimit ≤ pending'.restoreAt)

theorem polls_delay {s s' : PasteSession} {polls : Polls} {pending' : Pending}
    (hrun : Dialogue.Runs PasteSession.poll s polls s') (hpending : s'.pending = some pending')
    (hdue : pending'.due = false) :
    ∃ pending, s.pending = some pending ∧ pending.due = false ∧
      pending'.hardLimit = pending.hardLimit ∧ Delayed polls pending pending' := by
  have hall := runs_induct (P := fun polls s' => ∀ pending', s'.pending = some pending' →
    pending'.due = false → ∃ pending, s.pending = some pending ∧ pending.due = false ∧
      pending'.hardLimit = pending.hardLimit ∧ Delayed polls pending pending') ?_ ?_ hrun
  · exact hall pending' hpending hdue
  · exact fun pending hpending hdue => ⟨pending, hpending, hdue, rfl, .untouched rfl (by simp)⟩
  · intro polls s₁ poll es s₂ ih hpoll pending₂ hpending₂ hdue₂
    obtain ⟨pending₁, hpending₁, hdue₁, hstep⟩ := poll_waiting hpoll hpending₂ hdue₂
    obtain ⟨pending, hpending, hdue, hhard, hdelayed⟩ := ih pending₁ hpending₁ hdue₁
    rcases hstep with ⟨rfl, hearly⟩ | ⟨hat, hlimit, hhard₂, wait, hwait, hmove⟩
    · refine ⟨pending, hpending, hdue, hhard, ?_⟩
      cases hdelayed with
      | untouched hsame hbefore =>
        refine .untouched hsame fun p hp now hnow => ?_
        rcases List.mem_append.mp hp with hp | hp
        · exact hbefore p hp now hnow
        · rw [List.mem_singleton.mp hp] at hnow
          rw [← hsame]
          exact hearly now hnow
      | moved hbefore hmoved =>
        exact .moved hbefore fun early hall =>
          hmoved early fun p hp => hall p (List.mem_append_left _ hp)
    · refine ⟨pending, hpending, hdue, hhard₂.trans hhard, ?_⟩
      rw [hhard] at hlimit hmove
      -- The poll is after the deadline it found, and so after the first one.
      cases hdelayed with
      | untouched hsame hbefore =>
        rw [hsame] at hat
        refine .moved (Nat.lt_of_le_of_lt hat hlimit) fun early hall => ?_
        have hearly := hall (poll, es) (by simp)
        rw [hmove]
        have hmax : max early pending.restoreAt ≤ poll.time := Nat.max_le.mpr ⟨hearly, hat⟩
        exact Nat.le_min.mpr ⟨Nat.le_trans (Nat.min_le_left _ _) (Nat.add_le_add hmax hwait),
          Nat.min_le_right _ _⟩
      | moved hbefore hmoved =>
        refine .moved hbefore fun early hall => ?_
        have hold := hmoved early fun p hp => hall p (List.mem_append_left _ hp)
        rw [hmove]
        exact Nat.le_min.mpr ⟨Nat.le_trans hold (Nat.le_trans hat (Nat.le_add_right _ _)),
          Nat.min_le_right _ _⟩

theorem polls_not_waiting {s s' : PasteSession} {polls : Polls} (h : ¬Waiting s)
    (hrun : Dialogue.Runs PasteSession.poll s polls s') : ¬Waiting s' := by
  rintro ⟨pending', hpending', hdue'⟩
  obtain ⟨pending, hpending, hdue, -⟩ := polls_delay hrun hpending' hdue'
  exact h ⟨pending, hpending, hdue⟩

end KeySwitch.Executor
