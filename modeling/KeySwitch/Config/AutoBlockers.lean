import KeySwitch.Data.Binding
import KeySwitch.Lib.Representatives

/-!
# The auto-blockers the loader adds

A binding with `block_original_combo` asks that the Windows hotkey of its action be
blocked. The loader appends one auto-blocker for each hotkey and mode asked for, in
the order of the file, unless a `keys` binding of the file uses the hotkey's own keys
and so takes it over. `MaskOnly` needs a hotkey made only of modifiers and swallows
on another, with a warning. A blocker acts where one of the bindings that asked for
it does.

The three loops of the expansion keep one of each class, by `Lib.Representatives`:
of the hotkeys by their key sets, of the modes and of the conditions. `Blockers` says
what comes out in terms of who asked for what (`expansion_exact`).
-/

namespace KeySwitch.Config

open Data Lib

variable {α : Type}

/-! ## The loader -/

/-- A binding as the loader has it: with the auto-blocker it asks for. -/
structure LoadedBinding (α : Type) extends Binding α where
  blockOriginalCombo : Option BlockerMode

/-- The Windows hotkey of an action's system function, if it has one. -/
abbrev SystemCombination (α : Type) := α → Option KeyCombination

/-- `Binding::new_auto_blocker`; `doNothing` is the action `DoNothing`. -/
def newAutoBlocker (doNothing : α) (combination : KeyCombination) (mode : BlockerMode) :
    LoadedBinding α where
  kind := .combo combination
  action := doNothing
  blockDefault := true
  blockOriginalCombo := none
  condition := .always
  trigger := .immediate
  allowExtraModifiers := false
  repeats := false
  autoBlocker := some mode

def LoadedBinding.withCondition (b : LoadedBinding α) (condition : Condition) : LoadedBinding α :=
  { b with condition := condition }

/-- What a binding asks for: a hotkey, how it is blocked, and where. -/
structure Ask where
  hotkey : KeyCombination
  mode : BlockerMode
  condition : Condition

/-- An ask, with the number of its binding if its `MaskOnly` fell back to swallowing. -/
structure Request extends Ask where
  fallbackOf : Option Nat

/-- The request of the binding at one index. -/
def requestOf (sys : SystemCombination α) (entry : LoadedBinding α × Nat) : Option Request :=
  match entry.1.blockOriginalCombo with
  | none => none
  | some requested =>
    match sys entry.1.action with
    | none => none
    | some hotkey =>
      if requested == .maskOnly && !hotkey.isModifierOnly then
        some ⟨⟨hotkey, .swallow, entry.1.condition⟩, some entry.2⟩
      else some ⟨⟨hotkey, requested, entry.1.condition⟩, none⟩

/-- The loop over the conditions of `any_of_conditions`; `none` at an `Always`. -/
def distinctOf (distinct : List Condition) : List Condition → Option (List Condition)
  | [] => some distinct
  | condition :: conditions =>
    if condition.isAlways then none
    else if distinct.contains condition then distinctOf distinct conditions
    else distinctOf (distinct ++ [condition]) conditions

/-- The condition that holds where any of `conditions` holds. -/
def anyOfConditions (conditions : List Condition) : Condition :=
  match distinctOf [] conditions with
  | none => .always
  | some [] => .always
  | some [one] => one
  | some several => .or several

/-- The modes asked for on `hotkey`, each once. -/
def modesOf (asks : List Ask) (hotkey : KeyCombination) : List BlockerMode :=
  asks.foldl (fun modes other =>
    if other.hotkey.eq hotkey && !modes.contains other.mode then modes ++ [other.mode]
    else modes) []

/-- The conditions of the bindings that asked for `hotkey` in `mode`. -/
def ownersOf (asks : List Ask) (hotkey : KeyCombination) (mode : BlockerMode) : List Condition :=
  (asks.filter fun other => other.hotkey.eq hotkey && other.mode == mode).map Ask.condition

/-- The blockers of one hotkey. -/
def blockersOf (doNothing : α) (asks : List Ask) (hotkey : KeyCombination) :
    List (LoadedBinding α) :=
  (modesOf asks hotkey).map fun mode =>
    (newAutoBlocker doNothing hotkey mode).withCondition
      (anyOfConditions (ownersOf asks hotkey mode))

/-- What the loop over the requests has done. -/
structure Expansion (α : Type) where
  blockers : List (LoadedBinding α)
  hotkeysSeen : List KeyCombination
  hotkeysBlocked : List KeyCombination

/-- Whether a `keys` binding uses the keys of `hotkey`. -/
def takenOver (bindings : List (LoadedBinding α)) (hotkey : KeyCombination) : Bool :=
  bindings.any fun b => b.combination.any fun combo => combo.eq hotkey

/-- The loop's turn for one request. -/
def expandStep (doNothing : α) (bindings : List (LoadedBinding α)) (asks : List Ask)
    (acc : Expansion α) (request : Ask) : Expansion α :=
  if acc.hotkeysSeen.any fun seen => seen.eq request.hotkey then acc
  else
    let acc := { acc with hotkeysSeen := acc.hotkeysSeen ++ [request.hotkey] }
    if takenOver bindings request.hotkey then acc
    else
      { acc with
        hotkeysBlocked := acc.hotkeysBlocked ++ [request.hotkey]
        blockers := acc.blockers ++ blockersOf doNothing asks request.hotkey }

/-- A combination as a message shows it; `keyName` is the name of a key. -/
def displayKeys (keyName : KeySpec → String) (combo : KeyCombination) : String :=
  "+".intercalate (combo.keys.map keyName)

/-- The warning for binding `index`, whose `MaskOnly` swallows. -/
def fallbackWarning (index : Nat) (hotkey : String) : String :=
  s!"binding #{index}: block_original_combo: MaskOnly needs a Windows hotkey made only of modifiers; the {hotkey} hotkey is blocked as with true"

/-- The bindings with the auto-blockers they ask for, and the warnings. -/
def expandWithAutoBlockers (doNothing : α) (keyName : KeySpec → String)
    (bindings : List (LoadedBinding α)) (sys : SystemCombination α) (warnings : List String) :
    List (LoadedBinding α) × List String :=
  let requests := bindings.zipIdx.filterMap (requestOf sys)
  let asks := requests.map Request.toAsk
  let expansion := asks.foldl (expandStep doNothing bindings asks) ⟨[], [], []⟩
  (bindings ++ expansion.blockers,
    warnings ++ requests.filterMap fun request =>
      request.fallbackOf.bind fun index =>
        if expansion.hotkeysBlocked.any fun blocked => blocked.eq request.hotkey then
          some (fallbackWarning index (displayKeys keyName request.hotkey))
        else none)

/-! ## What it is for -/

/-- The mode a hotkey is blocked in: `MaskOnly` needs one made only of modifiers. -/
def effectiveMode (requested : BlockerMode) (hotkey : KeyCombination) : BlockerMode :=
  if requested == .maskOnly && !hotkey.isModifierOnly then .swallow else requested

/-- The binding asks for the key set of `hotkey` to be blocked in `mode`. -/
def Asks (sys : SystemCombination α) (b : LoadedBinding α) (hotkey : KeyCombination)
    (mode : BlockerMode) : Prop :=
  ∃ requested own, b.blockOriginalCombo = some requested ∧ sys b.action = some own ∧
    own.sameKeySet hotkey = true ∧ effectiveMode requested own = mode

/-- The binding is a `keys` binding of exactly the key set of `hotkey`. -/
def TakesOver (b : LoadedBinding α) (hotkey : KeyCombination) : Prop :=
  ∃ combo, b.combination = some combo ∧ combo.sameKeySet hotkey = true

/-- Whether `b` blocks the key set of `hotkey` in `mode`. -/
def blocks (hotkey : KeyCombination) (mode : BlockerMode) (b : LoadedBinding α) : Bool :=
  decide (b.autoBlocker = some mode) && b.combination.any fun combo => combo.sameKeySet hotkey

/-- Two conditions that are the same but for the order of the parts. -/
def SameParts (a b : Condition) : Prop :=
  a = b ∨ ∃ as bs : List Condition, as.Perm bs ∧ a = .or as ∧ b = .or bs

/-- Two blockers that are the same but for the order of the hotkey's keys and of the
parts of the condition. -/
structure SameBlocker (a b : LoadedBinding α) : Prop where
  keys : ∃ combo combo', a.kind = .combo combo ∧ b.kind = .combo combo' ∧
    combo.sameKeySet combo' = true
  condition : SameParts a.condition b.condition
  rest : { a with kind := b.kind, condition := b.condition } = b

/-- The warning that the binding at one index gets, with `blockers` added. -/
def warningOf (keyName : KeySpec → String) (sys : SystemCombination α)
    (blockers : List (LoadedBinding α)) (entry : LoadedBinding α × Nat) : Option String :=
  (sys entry.1.action).bind fun hotkey =>
    if entry.1.blockOriginalCombo == some .maskOnly && !hotkey.isModifierOnly
        && blockers.any (fun b => b.combination.any fun combo => combo.sameKeySet hotkey) then
      some (fallbackWarning entry.2 (displayKeys keyName hotkey))
    else none

/-- What the blockers added to `bindings` have to be. -/
structure Blockers (doNothing : α) (sys : SystemCombination α) (bindings : List (LoadedBinding α))
    (blockers : List (LoadedBinding α)) : Prop where
  /-- Each is an auto-blocker, of a hotkey and mode asked for. -/
  form : ∀ b ∈ blockers, ∃ hotkey mode condition,
    b = (newAutoBlocker doNothing hotkey mode).withCondition condition ∧
      ∃ asker ∈ bindings, Asks sys asker hotkey mode
  /-- One for each hotkey and mode asked for, unless a `keys` binding takes it over. -/
  one : ∀ hotkey mode, (∃ b ∈ bindings, Asks sys b hotkey mode) →
    (∀ b ∈ bindings, ¬TakesOver b hotkey) → blockers.countP (blocks hotkey mode) = 1
  /-- None that was not asked for. -/
  asked : ∀ hotkey mode, (∀ b ∈ bindings, ¬Asks sys b hotkey mode) →
    blockers.countP (blocks hotkey mode) = 0
  /-- None that a `keys` binding takes over. -/
  free : ∀ hotkey mode, (∃ b ∈ bindings, TakesOver b hotkey) →
    blockers.countP (blocks hotkey mode) = 0
  /-- Each acts where one of the bindings that asked for it does. -/
  acts : ∀ b ∈ blockers, ∀ hotkey mode, blocks hotkey mode b = true → ∀ foreground,
    b.condition.evaluate foreground = true ↔
      ∃ asker ∈ bindings, Asks sys asker hotkey mode ∧
        asker.condition.evaluate foreground = true

/-! ## The conditions -/

theorem distinctOf_eq (distinct conditions : List Condition) :
    distinctOf distinct conditions =
      if conditions.any Condition.isAlways then none
      else some (conditions.foldl (keepStep fun a b => a == b) distinct) := by
  induction conditions generalizing distinct with
  | nil => rfl
  | cons condition conditions ih =>
    unfold distinctOf
    rw [List.any_cons, List.foldl_cons]
    cases halways : condition.isAlways with
    | true => rfl
    | false =>
      rw [if_neg (by decide), Bool.false_or, ih, ih, keepStep_beq]
      cases distinct.contains condition <;> rfl

/-- The distinct conditions of a list without an `Always`. -/
def distinctConditions (conditions : List Condition) : List Condition :=
  representatives (fun a b => a == b) conditions

theorem anyOfConditions_eq (conditions : List Condition) :
    anyOfConditions conditions =
      if conditions.any Condition.isAlways then .always
      else
        match distinctConditions conditions with
        | [] => .always
        | [one] => one
        | several => .or several := by
  unfold anyOfConditions
  rw [distinctOf_eq]
  split <;> rename_i h <;> split at h <;> simp_all [distinctConditions, representatives]

theorem beq_iff_of_mem (conditions : List Condition) :
    ∀ a ∈ conditions, ∀ b ∈ conditions, (a == b) = true ↔ a = b :=
  fun _ _ _ _ => beq_iff_eq

theorem mem_distinctConditions (conditions : List Condition) (condition : Condition) :
    condition ∈ distinctConditions conditions ↔ condition ∈ conditions := by
  constructor
  · exact representatives_subset _
  · intro h
    obtain ⟨b, hb, rfl⟩ := representatives_cover eq_equivalence (beq_iff_of_mem conditions)
      condition h
    exact hb

theorem evaluateAny_iff (foreground : ForegroundInfo) (conditions : List Condition) :
    Condition.evaluateAny foreground conditions = true ↔
      ∃ condition ∈ conditions, condition.evaluate foreground = true := by
  induction conditions with
  | nil => simp [Condition.evaluateAny]
  | cons condition conditions ih =>
    unfold Condition.evaluateAny
    rw [Bool.or_eq_true, ih]
    simp

/-- The joined condition holds where one of the conditions does. -/
theorem anyOfConditions_evaluate {conditions : List Condition} (hne : conditions ≠ [])
    (foreground : ForegroundInfo) :
    (anyOfConditions conditions).evaluate foreground = true ↔
      ∃ condition ∈ conditions, condition.evaluate foreground = true := by
  have hdistinct := mem_distinctConditions conditions
  rw [anyOfConditions_eq]
  split
  · next halways =>
    obtain ⟨condition, hmem, hcondition⟩ := List.any_eq_true.mp halways
    have hholds : condition.evaluate foreground = true := by
      cases condition <;> simp [Condition.isAlways] at hcondition
      rfl
    exact ⟨fun _ => ⟨condition, hmem, hholds⟩, fun _ => rfl⟩
  · split
    · next hnone =>
      obtain ⟨condition, hmem⟩ := List.exists_mem_of_ne_nil conditions hne
      rw [← hdistinct, hnone] at hmem
      exact absurd hmem List.not_mem_nil
    · next one hone =>
      simp only [← hdistinct, hone, List.mem_singleton, exists_eq_left]
    · show Condition.evaluateAny foreground (distinctConditions conditions) = true ↔ _
      rw [evaluateAny_iff]
      simp only [hdistinct]

/-- The order of the conditions is that of the parts. -/
theorem anyOfConditions_perm {as bs : List Condition} (h : as.Perm bs) :
    SameParts (anyOfConditions as) (anyOfConditions bs) := by
  have hdistinct : (distinctConditions as).Perm (distinctConditions bs) := by
    have hrel := representatives_rel eq_equivalence h (beq_iff_of_mem as)
    rw [Multiset.rel_eq] at hrel
    exact Multiset.coe_eq_coe.mp hrel
  rw [anyOfConditions_eq, anyOfConditions_eq, h.any_eq]
  split
  · exact Or.inl rfl
  · cases has : distinctConditions as with
    | nil =>
      rw [has] at hdistinct
      rw [hdistinct.symm.eq_nil]
      exact Or.inl rfl
    | cons a rest =>
      cases rest with
      | nil =>
        rw [has] at hdistinct
        rw [List.perm_singleton.mp hdistinct.symm]
        exact Or.inl rfl
      | cons a' rest =>
        rw [has] at hdistinct
        have hlength := hdistinct.length_eq
        cases hbs : distinctConditions bs with
        | nil => simp [hbs] at hlength
        | cons b rest' =>
          cases rest' with
          | nil => simp [hbs] at hlength
          | cons b' rest' =>
            rw [hbs] at hdistinct
            exact Or.inr ⟨_, _, hdistinct, rfl, rfl⟩

/-! ## The asks -/

/-- What the binding asks for, without its number. -/
def askOf (sys : SystemCombination α) (b : LoadedBinding α) : Option Ask :=
  b.blockOriginalCombo.bind fun requested =>
    (sys b.action).map fun hotkey => ⟨hotkey, effectiveMode requested hotkey, b.condition⟩

/-- The asks of a list. -/
def asksOf (sys : SystemCombination α) (bindings : List (LoadedBinding α)) : List Ask :=
  bindings.filterMap (askOf sys)

theorem requestOf_ask (sys : SystemCombination α) (entry : LoadedBinding α × Nat) :
    (requestOf sys entry).map Request.toAsk = askOf sys entry.1 := by
  unfold requestOf askOf effectiveMode
  cases entry.1.blockOriginalCombo with
  | none => rfl
  | some requested =>
    dsimp only [Option.bind_some]
    cases sys entry.1.action with
    | none => rfl
    | some hotkey =>
      dsimp only [Option.map_some]
      split <;> rfl

theorem requests_asks (sys : SystemCombination α) (bindings : List (LoadedBinding α)) :
    (bindings.zipIdx.filterMap (requestOf sys)).map Request.toAsk = asksOf sys bindings := by
  have hentries : ∀ entries : List (LoadedBinding α × Nat),
      (entries.filterMap (requestOf sys)).map Request.toAsk =
        (entries.map Prod.fst).filterMap (askOf sys) := by
    intro entries
    rw [List.map_filterMap, List.filterMap_map]
    exact List.filterMap_congr fun entry _ => requestOf_ask sys entry
  rw [hentries, List.zipIdx_map_fst]
  rfl

/-- The hotkeys and the combinations are as their constructors build them
(`KeyCombination.fromKeys_distinct` and its neighbours). -/
structure WellBuilt (sys : SystemCombination α) (bindings : List (LoadedBinding α)) : Prop where
  hotkeys : ∀ action hotkey, sys action = some hotkey → hotkey.Distinct
  keys : ∀ b ∈ bindings, ∀ combo, b.combination = some combo → combo.Distinct

theorem mem_asksOf {sys : SystemCombination α} {bindings : List (LoadedBinding α)} {ask : Ask} :
    ask ∈ asksOf sys bindings ↔ ∃ b ∈ bindings, ∃ requested,
      b.blockOriginalCombo = some requested ∧ sys b.action = some ask.hotkey ∧
        effectiveMode requested ask.hotkey = ask.mode ∧ b.condition = ask.condition := by
  unfold asksOf askOf
  rw [List.mem_filterMap]
  constructor
  · rintro ⟨b, hb, hask⟩
    obtain ⟨requested, hrequested, hask⟩ := Option.bind_eq_some_iff.mp hask
    obtain ⟨hotkey, hhotkey, rfl⟩ := Option.map_eq_some_iff.mp hask
    exact ⟨b, hb, requested, hrequested, hhotkey, rfl, rfl⟩
  · rintro ⟨b, hb, requested, hrequested, hhotkey, hmode, hcondition⟩
    refine ⟨b, hb, ?_⟩
    rw [hrequested, Option.bind_some, hhotkey, Option.map_some, hmode, hcondition]

variable {sys : SystemCombination α} {bindings : List (LoadedBinding α)}

theorem distinct_of_ask (hbuilt : WellBuilt sys bindings) {ask : Ask}
    (h : ask ∈ asksOf sys bindings) : ask.hotkey.Distinct := by
  obtain ⟨b, -, requested, -, hhotkey, -⟩ := mem_asksOf.mp h
  exact hbuilt.hotkeys _ _ hhotkey

/-- Who asks, read off the list of asks. -/
theorem asks_iff {hotkey : KeyCombination} {mode : BlockerMode}
    {P : Condition → Prop} :
    (∃ b ∈ bindings, Asks sys b hotkey mode ∧ P b.condition) ↔
      ∃ ask ∈ asksOf sys bindings, ask.hotkey.sameKeySet hotkey = true ∧ ask.mode = mode ∧
        P ask.condition := by
  constructor
  · rintro ⟨b, hb, ⟨requested, own, hrequested, hown, hset, hmode⟩, hP⟩
    exact ⟨⟨own, effectiveMode requested own, b.condition⟩,
      mem_asksOf.mpr ⟨b, hb, requested, hrequested, hown, rfl, rfl⟩, hset, hmode, hP⟩
  · rintro ⟨ask, hask, hset, hmode, hP⟩
    obtain ⟨b, hb, requested, hrequested, hown, hown', hcondition⟩ := mem_asksOf.mp hask
    rw [← hcondition] at hP
    exact ⟨b, hb, ⟨requested, ask.hotkey, hrequested, hown, hset, hown'.trans hmode⟩, hP⟩

/-! ## The modes and owners of a hotkey -/

/-- The asks for the keys of `hotkey`. -/
def asksFor (asks : List Ask) (hotkey : KeyCombination) : List Ask :=
  asks.filter fun other => other.hotkey.eq hotkey

theorem modesOf_eq (asks : List Ask) (hotkey : KeyCombination) :
    modesOf asks hotkey =
      representatives (fun a b => a == b) ((asksFor asks hotkey).map Ask.mode) := by
  have hfold : ∀ (asks : List Ask) (modes : List BlockerMode),
      asks.foldl (fun modes other => if other.hotkey.eq hotkey && !modes.contains other.mode then
          modes ++ [other.mode] else modes) modes =
        ((asksFor asks hotkey).map Ask.mode).foldl (keepStep fun a b => a == b) modes := by
    intro asks
    induction asks with
    | nil => exact fun _ => rfl
    | cons ask asks ih =>
      intro modes
      rw [List.foldl_cons, ih]
      unfold asksFor
      rw [List.filter_cons]
      cases ask.hotkey.eq hotkey with
      | false => rfl
      | true =>
        rw [if_pos rfl, List.map_cons, List.foldl_cons]
        congr 1
        rw [keepStep_beq]
        cases modes.contains ask.mode <;> rfl
  exact hfold asks []

theorem mem_modesOf {asks : List Ask} {hotkey : KeyCombination} {mode : BlockerMode} :
    mode ∈ modesOf asks hotkey ↔ ∃ ask ∈ asks, ask.hotkey.eq hotkey = true ∧ ask.mode = mode := by
  have hmem : mode ∈ modesOf asks hotkey ↔ mode ∈ (asksFor asks hotkey).map Ask.mode := by
    rw [modesOf_eq]
    constructor
    · exact representatives_subset _
    · intro h
      obtain ⟨b, hb, rfl⟩ := representatives_cover eq_equivalence
        (fun _ _ _ _ => beq_iff_eq) mode h
      exact hb
  rw [hmem, List.mem_map]
  unfold asksFor
  simp only [List.mem_filter, and_assoc]

theorem modesOf_nodup (asks : List Ask) (hotkey : KeyCombination) :
    (modesOf asks hotkey).Nodup := by
  rw [modesOf_eq]
  exact representatives_pairwise fun _ _ _ _ => beq_iff_eq

theorem mem_ownersOf {asks : List Ask} {hotkey : KeyCombination} {mode : BlockerMode}
    {condition : Condition} :
    condition ∈ ownersOf asks hotkey mode ↔
      ∃ ask ∈ asks, ask.hotkey.eq hotkey = true ∧ ask.mode = mode ∧ ask.condition = condition := by
  unfold ownersOf
  simp only [List.mem_map, List.mem_filter, Bool.and_eq_true, beq_iff_eq, and_assoc]

/-! ## The loop over the requests -/

/-- The hotkeys asked for, each key set once. -/
def hotkeysOf (asks : List Ask) : List KeyCombination :=
  representatives KeyCombination.eq (asks.map Ask.hotkey)

/-- Those that no `keys` binding takes over. -/
def hotkeysBlockedOf (bindings : List (LoadedBinding α)) (asks : List Ask) : List KeyCombination :=
  (hotkeysOf asks).filter fun hotkey => !takenOver bindings hotkey

/-- What the loop has done once it has seen the hotkeys `seen`. -/
def expansionOf (doNothing : α) (bindings : List (LoadedBinding α)) (asks : List Ask)
    (seen : List KeyCombination) : Expansion α :=
  let blocked := seen.filter fun hotkey => !takenOver bindings hotkey
  ⟨blocked.flatMap (blockersOf doNothing asks), seen, blocked⟩

theorem expandStep_eq (doNothing : α) (bindings : List (LoadedBinding α)) (asks : List Ask)
    (seen : List KeyCombination) (ask : Ask) :
    expandStep doNothing bindings asks (expansionOf doNothing bindings asks seen) ask =
      expansionOf doNothing bindings asks (keepStep KeyCombination.eq seen ask.hotkey) := by
  unfold expandStep keepStep expansionOf
  dsimp only
  cases seen.any fun other => other.eq ask.hotkey with
  | true => rfl
  | false =>
    cases htaken : takenOver bindings ask.hotkey with
    | true => simp [htaken]
    | false => simp [htaken]

theorem expansion_eq (doNothing : α) (bindings : List (LoadedBinding α)) (asks : List Ask) :
    asks.foldl (expandStep doNothing bindings asks) ⟨[], [], []⟩ =
      expansionOf doNothing bindings asks (hotkeysOf asks) := by
  have hfold : ∀ (some : List Ask) (seen : List KeyCombination),
      some.foldl (expandStep doNothing bindings asks) (expansionOf doNothing bindings asks seen) =
        expansionOf doNothing bindings asks
          ((some.map Ask.hotkey).foldl (keepStep KeyCombination.eq) seen) := by
    intro some
    induction some with
    | nil => exact fun _ => rfl
    | cons ask some ih =>
      intro seen
      rw [List.foldl_cons, List.map_cons, List.foldl_cons, expandStep_eq, ih]
  exact hfold asks []

/-! ## The blockers are exact -/

/-- The blockers added to `bindings`. -/
def blockersFor (doNothing : α) (sys : SystemCombination α) (bindings : List (LoadedBinding α)) :
    List (LoadedBinding α) :=
  (hotkeysBlockedOf bindings (asksOf sys bindings)).flatMap
    (blockersOf doNothing (asksOf sys bindings))

variable {doNothing : α}

theorem eq_hotkeys (hbuilt : WellBuilt sys bindings) :
    ∀ a ∈ (asksOf sys bindings).map Ask.hotkey, ∀ b ∈ (asksOf sys bindings).map Ask.hotkey,
      a.eq b = true ↔ a.sameKeySet b = true := by
  intro a ha b hb
  obtain ⟨ask, hask, rfl⟩ := List.mem_map.mp ha
  obtain ⟨ask', hask', rfl⟩ := List.mem_map.mp hb
  rw [KeyCombination.eq_iff_sameKeySet (distinct_of_ask hbuilt hask)
    (distinct_of_ask hbuilt hask')]

/-- Every hotkey of the loop is one that a binding asks for. -/
theorem mem_hotkeysOf {asks : List Ask} {hotkey : KeyCombination} (h : hotkey ∈ hotkeysOf asks) :
    ∃ ask ∈ asks, ask.hotkey = hotkey :=
  List.mem_map.mp (representatives_subset _ h)

theorem hotkey_distinct (hbuilt : WellBuilt sys bindings) {hotkey : KeyCombination}
    (h : hotkey ∈ hotkeysOf (asksOf sys bindings)) : hotkey.Distinct := by
  obtain ⟨ask, hask, rfl⟩ := mem_hotkeysOf h
  exact distinct_of_ask hbuilt hask

/-- Which bindings take a hotkey over, by key sets. -/
theorem takenOver_iff (hbuilt : WellBuilt sys bindings) {hotkey : KeyCombination}
    (hdistinct : hotkey.Distinct) :
    takenOver bindings hotkey = true ↔ ∃ b ∈ bindings, TakesOver b hotkey := by
  unfold takenOver TakesOver
  rw [List.any_eq_true]
  constructor
  · rintro ⟨b, hb, hcombo⟩
    obtain ⟨combo, hcombo, heq⟩ := (Option.any_eq_true _ _).mp hcombo
    rw [KeyCombination.eq_iff_sameKeySet (hbuilt.keys b hb combo hcombo) hdistinct] at heq
    exact ⟨b, hb, combo, hcombo, heq⟩
  · rintro ⟨b, hb, combo, hcombo, hset⟩
    refine ⟨b, hb, (Option.any_eq_true _ _).mpr ⟨combo, hcombo, ?_⟩⟩
    rw [KeyCombination.eq_iff_sameKeySet (hbuilt.keys b hb combo hcombo) hdistinct]
    exact hset

theorem takesOver_sameKeySet {b : LoadedBinding α} {hotkey hotkey' : KeyCombination}
    (h : hotkey.sameKeySet hotkey' = true) (hb : TakesOver b hotkey) : TakesOver b hotkey' := by
  obtain ⟨combo, hcombo, hset⟩ := hb
  exact ⟨combo, hcombo, KeyCombination.sameKeySet_equivalence.trans hset h⟩

/-- A blocker of the list, by the hotkey and the mode it was added for. -/
structure AddedFor (doNothing : α) (sys : SystemCombination α) (bindings : List (LoadedBinding α))
    (b : LoadedBinding α) (hotkey : KeyCombination) (mode : BlockerMode) : Prop where
  listed : hotkey ∈ hotkeysOf (asksOf sys bindings)
  free : ∀ b ∈ bindings, ¬TakesOver b hotkey
  asked : mode ∈ modesOf (asksOf sys bindings) hotkey
  made : b = (newAutoBlocker doNothing hotkey mode).withCondition
    (anyOfConditions (ownersOf (asksOf sys bindings) hotkey mode))

theorem mem_blockersFor (hbuilt : WellBuilt sys bindings) {b : LoadedBinding α} :
    b ∈ blockersFor doNothing sys bindings ↔
      ∃ hotkey mode, AddedFor doNothing sys bindings b hotkey mode := by
  unfold blockersFor hotkeysBlockedOf blockersOf
  rw [List.mem_flatMap]
  constructor
  · rintro ⟨hotkey, hhotkey, hb⟩
    obtain ⟨hmem, htaken⟩ := List.mem_filter.mp hhotkey
    obtain ⟨mode, hmode, rfl⟩ := List.mem_map.mp hb
    rw [Bool.not_eq_true', Bool.eq_false_iff, ne_eq,
      takenOver_iff hbuilt (hotkey_distinct hbuilt hmem)] at htaken
    exact ⟨hotkey, mode, hmem, fun c hc hover => htaken ⟨c, hc, hover⟩, hmode, rfl⟩
  · rintro ⟨hotkey, mode, hmem, hfree, hmode, rfl⟩
    refine ⟨hotkey, List.mem_filter.mpr ⟨hmem, ?_⟩, List.mem_map.mpr ⟨mode, hmode, rfl⟩⟩
    rw [Bool.not_eq_true', Bool.eq_false_iff, ne_eq,
      takenOver_iff hbuilt (hotkey_distinct hbuilt hmem)]
    rintro ⟨c, hc, hover⟩
    exact hfree c hc hover

theorem blocks_iff {b : LoadedBinding α} {hotkey hotkey' : KeyCombination}
    {mode mode' : BlockerMode} {condition : Condition}
    (hb : b = (newAutoBlocker doNothing hotkey' mode').withCondition condition) :
    blocks hotkey mode b = true ↔ mode' = mode ∧ hotkey'.sameKeySet hotkey = true := by
  subst hb
  unfold blocks newAutoBlocker LoadedBinding.withCondition Binding.combination
  simp

/-- Two blockers at different places block different hotkeys or modes. -/
theorem blockersFor_pairwise (hbuilt : WellBuilt sys bindings) (hotkey : KeyCombination)
    (mode : BlockerMode) :
    (blockersFor doNothing sys bindings).Pairwise fun a b =>
      ¬(blocks hotkey mode a = true ∧ blocks hotkey mode b = true) := by
  unfold blockersFor
  rw [List.pairwise_flatMap]
  constructor
  · intro own _
    unfold blockersOf
    rw [List.pairwise_map]
    refine (modesOf_nodup _ own).imp fun hne hboth => hne ?_
    rw [((blocks_iff rfl).mp hboth.1).1, ((blocks_iff rfl).mp hboth.2).1]
  · have hclasses := representatives_pairwise (eq_hotkeys hbuilt)
    refine (hclasses.filter _).imp fun {own other} hne a ha b hb hboth => hne ?_
    unfold blockersOf at ha hb
    obtain ⟨m, -, rfl⟩ := List.mem_map.mp ha
    obtain ⟨m', -, rfl⟩ := List.mem_map.mp hb
    have hown := ((blocks_iff rfl).mp hboth.1).2
    have hother := ((blocks_iff rfl).mp hboth.2).2
    exact KeyCombination.sameKeySet_equivalence.trans hown
      (KeyCombination.sameKeySet_equivalence.symm hother)

/-- The mode and key set of a blocker that was added. -/
theorem addedFor_blocks {b : LoadedBinding α} {own hotkey : KeyCombination}
    {mode mode' : BlockerMode} (h : AddedFor doNothing sys bindings b own mode') :
    blocks hotkey mode b = true ↔ mode' = mode ∧ own.sameKeySet hotkey = true :=
  blocks_iff h.made

/-- Who asked for a hotkey of the loop. -/
theorem ask_eq_iff (hbuilt : WellBuilt sys bindings) {own : KeyCombination}
    (hown : own ∈ hotkeysOf (asksOf sys bindings)) {ask : Ask} (hask : ask ∈ asksOf sys bindings) :
    ask.hotkey.eq own = true ↔ ask.hotkey.sameKeySet own = true := by
  rw [KeyCombination.eq_iff_sameKeySet (distinct_of_ask hbuilt hask) (hotkey_distinct hbuilt hown)]

/-- The mode and condition of any asker hold of a blocker that was added. -/
theorem addedFor_asked (hbuilt : WellBuilt sys bindings) {b : LoadedBinding α}
    {own : KeyCombination} {mode : BlockerMode} (h : AddedFor doNothing sys bindings b own mode) :
    ∃ asker ∈ bindings, Asks sys asker own mode := by
  obtain ⟨ask, hask, heq, hmode⟩ := mem_modesOf.mp h.asked
  rw [ask_eq_iff hbuilt h.listed hask] at heq
  obtain ⟨asker, hmem, hasks, -⟩ := (asks_iff (P := fun _ => True)).mpr ⟨ask, hask, heq, hmode,
    trivial⟩
  exact ⟨asker, hmem, hasks⟩

/-- A blocker acts where one of the bindings that asked for it does. -/
theorem addedFor_acts (hbuilt : WellBuilt sys bindings) {b : LoadedBinding α}
    {own : KeyCombination} {mode : BlockerMode} (h : AddedFor doNothing sys bindings b own mode)
    (foreground : ForegroundInfo) :
    b.condition.evaluate foreground = true ↔
      ∃ asker ∈ bindings, Asks sys asker own mode ∧
        asker.condition.evaluate foreground = true := by
  obtain ⟨ask, hask, heq, hmode⟩ := mem_modesOf.mp h.asked
  have hne : ownersOf (asksOf sys bindings) own mode ≠ [] := by
    intro hnil
    have hmem := mem_ownersOf.mpr ⟨ask, hask, heq, hmode, rfl⟩
    rw [hnil] at hmem
    exact absurd hmem List.not_mem_nil
  have hcondition : b.condition = anyOfConditions (ownersOf (asksOf sys bindings) own mode) := by
    rw [h.made]
    rfl
  rw [hcondition, anyOfConditions_evaluate hne,
    asks_iff (P := fun condition => condition.evaluate foreground = true)]
  constructor
  · rintro ⟨condition, hmem, hholds⟩
    obtain ⟨ask, hask, heq, hmode, rfl⟩ := mem_ownersOf.mp hmem
    exact ⟨ask, hask, (ask_eq_iff hbuilt h.listed hask).mp heq, hmode, hholds⟩
  · rintro ⟨ask, hask, hset, hmode, hholds⟩
    exact ⟨ask.condition, mem_ownersOf.mpr
      ⟨ask, hask, (ask_eq_iff hbuilt h.listed hask).mpr hset, hmode, rfl⟩, hholds⟩

/-- Every hotkey and mode asked for has a blocker, unless it is taken over. -/
theorem addedFor_of_asks (hbuilt : WellBuilt sys bindings) {hotkey : KeyCombination}
    {mode : BlockerMode} (hasks : ∃ b ∈ bindings, Asks sys b hotkey mode)
    (hfree : ∀ b ∈ bindings, ¬TakesOver b hotkey) :
    ∃ b own, AddedFor doNothing sys bindings b own mode ∧ own.sameKeySet hotkey = true := by
  obtain ⟨b, hb, hasks⟩ := hasks
  obtain ⟨ask, hask, hset, hmode, -⟩ :=
    (asks_iff (P := fun _ => True)).mp ⟨b, hb, hasks, trivial⟩
  obtain ⟨own, hown, hsame⟩ := representatives_cover KeyCombination.sameKeySet_equivalence
    (eq_hotkeys hbuilt) ask.hotkey (List.mem_map.mpr ⟨ask, hask, rfl⟩)
  have hownSet := KeyCombination.sameKeySet_equivalence.trans hsame hset
  refine ⟨_, own, ⟨hown, fun c hc hover => hfree c hc (takesOver_sameKeySet hownSet hover), ?_,
    rfl⟩, hownSet⟩
  refine mem_modesOf.mpr ⟨ask, hask, (ask_eq_iff hbuilt hown hask).mpr ?_, hmode⟩
  exact KeyCombination.sameKeySet_equivalence.symm hsame

/-- At most one element of a list satisfies a predicate that no two do. -/
theorem countP_le_one {β : Type} {p : β → Bool} {l : List β}
    (h : l.Pairwise fun a b => ¬(p a = true ∧ p b = true)) : l.countP p ≤ 1 := by
  induction l with
  | nil => exact Nat.zero_le _
  | cons a l ih =>
    obtain ⟨ha, hl⟩ := List.pairwise_cons.mp h
    rw [List.countP_cons]
    by_cases hp : p a = true
    · have hnone : l.countP p = 0 := List.countP_eq_zero.mpr fun b hb hpb => ha b hb ⟨hp, hpb⟩
      rw [hnone, if_pos hp]
    · rw [if_neg hp]
      exact ih hl

theorem blockersFor_exact (hbuilt : WellBuilt sys bindings) :
    Blockers doNothing sys bindings (blockersFor doNothing sys bindings) := by
  have hset := KeyCombination.sameKeySet_equivalence
  -- Asking is about the key set.
  have hasks : ∀ {b : LoadedBinding α} {own hotkey : KeyCombination} {mode : BlockerMode},
      own.sameKeySet hotkey = true → (Asks sys b own mode ↔ Asks sys b hotkey mode) := by
    intro b own hotkey mode hsame
    constructor
    · rintro ⟨requested, key, hrequested, hkey, hkeys, hmode⟩
      exact ⟨requested, key, hrequested, hkey, hset.trans hkeys hsame, hmode⟩
    · rintro ⟨requested, key, hrequested, hkey, hkeys, hmode⟩
      exact ⟨requested, key, hrequested, hkey, hset.trans hkeys (hset.symm hsame), hmode⟩
  refine ⟨fun b hb => ?_, fun hotkey mode hasked hfree => ?_, fun hotkey mode hno => ?_,
    fun hotkey mode htaken => ?_, fun b hb hotkey mode hblocks foreground => ?_⟩
  · obtain ⟨own, mode, hadded⟩ := (mem_blockersFor hbuilt).mp hb
    exact ⟨own, mode, _, hadded.made, addedFor_asked hbuilt hadded⟩
  · refine Nat.le_antisymm (countP_le_one (blockersFor_pairwise hbuilt hotkey mode)) ?_
    obtain ⟨b, own, hadded, hsame⟩ := addedFor_of_asks hbuilt hasked hfree
    refine List.one_le_countP_iff.mpr ⟨b, (mem_blockersFor hbuilt).mpr ⟨own, mode, hadded⟩, ?_⟩
    exact (addedFor_blocks hadded).mpr ⟨rfl, hsame⟩
  · refine List.countP_eq_zero.mpr fun b hb hblocks => ?_
    obtain ⟨own, mode', hadded⟩ := (mem_blockersFor hbuilt).mp hb
    obtain ⟨rfl, hsame⟩ := (addedFor_blocks hadded).mp hblocks
    obtain ⟨asker, hmem, hasked⟩ := addedFor_asked hbuilt hadded
    exact hno asker hmem ((hasks hsame).mp hasked)
  · refine List.countP_eq_zero.mpr fun b hb hblocks => ?_
    obtain ⟨own, mode', hadded⟩ := (mem_blockersFor hbuilt).mp hb
    obtain ⟨-, hsame⟩ := (addedFor_blocks hadded).mp hblocks
    obtain ⟨c, hc, hover⟩ := htaken
    exact hadded.free c hc (takesOver_sameKeySet (hset.symm hsame) hover)
  · obtain ⟨own, mode', hadded⟩ := (mem_blockersFor hbuilt).mp hb
    obtain ⟨rfl, hsame⟩ := (addedFor_blocks hadded).mp hblocks
    rw [addedFor_acts hbuilt hadded]
    simp only [hasks hsame]

/-! ## Another order of the bindings -/

variable {bindings' : List (LoadedBinding α)}

theorem wellBuilt_perm (hbuilt : WellBuilt sys bindings) (h : bindings.Perm bindings') :
    WellBuilt sys bindings' :=
  ⟨hbuilt.hotkeys, fun b hb => hbuilt.keys b (h.symm.subset hb)⟩

/-- The asks for one key set, in another order of the asks and of its keys. -/
theorem filter_perm {asks asks' : List Ask} {own own' : KeyCombination} (h : asks.Perm asks')
    (hasks : ∀ ask ∈ asks, ask.hotkey.Distinct) (hown : own.Distinct) (hown' : own'.Distinct)
    (hsame : own.sameKeySet own' = true) (keep : Ask → Bool) :
    (asks.filter fun ask => ask.hotkey.eq own && keep ask).Perm
      (asks'.filter fun ask => ask.hotkey.eq own' && keep ask) := by
  have heq : ∀ ask ∈ asks', (ask.hotkey.eq own && keep ask) = (ask.hotkey.eq own' && keep ask) := by
    intro ask hask
    have hdistinct := hasks ask (h.symm.subset hask)
    have hset := KeyCombination.sameKeySet_equivalence
    congr 1
    rw [KeyCombination.eq_iff_sameKeySet hdistinct hown,
      KeyCombination.eq_iff_sameKeySet hdistinct hown', Bool.eq_iff_iff]
    exact ⟨fun hk => hset.trans hk hsame, fun hk => hset.trans hk (hset.symm hsame)⟩
  rw [← List.filter_congr heq]
  exact h.filter _

/-- The blockers of one hotkey, in another order of the asks and of its keys. -/
theorem blockersOf_rel {asks asks' : List Ask} {own own' : KeyCombination} (h : asks.Perm asks')
    (hasks : ∀ ask ∈ asks, ask.hotkey.Distinct) (hown : own.Distinct) (hown' : own'.Distinct)
    (hsame : own.sameKeySet own' = true) :
    Multiset.Rel SameBlocker (blockersOf doNothing asks own : Multiset (LoadedBinding α))
      (blockersOf doNothing asks' own' : Multiset (LoadedBinding α)) := by
  have hfor : (asksFor asks own).Perm (asksFor asks' own') := by
    have hall := filter_perm h hasks hown hown' hsame fun _ => true
    unfold asksFor
    simpa only [Bool.and_true] using hall
  have hmodes : (modesOf asks own : Multiset BlockerMode) = modesOf asks' own' := by
    rw [modesOf_eq, modesOf_eq, ← Multiset.rel_eq]
    exact representatives_rel eq_equivalence (hfor.map _) fun _ _ _ _ => beq_iff_eq
  unfold blockersOf
  rw [← Multiset.map_coe, ← Multiset.map_coe, ← hmodes, Multiset.rel_map]
  refine Multiset.rel_refl_of_refl_on fun mode _ => ⟨⟨own, own', rfl, rfl, hsame⟩, ?_, rfl⟩
  exact anyOfConditions_perm
    ((filter_perm h hasks hown hown' hsame fun ask => ask.mode == mode).map _)

/-- The hotkeys blocked, in another order of the bindings. -/
theorem hotkeysBlocked_rel (hbuilt : WellBuilt sys bindings) (h : bindings.Perm bindings') :
    Multiset.Rel (fun own own' => own.sameKeySet own' = true)
      (hotkeysBlockedOf bindings (asksOf sys bindings) : Multiset KeyCombination)
      (hotkeysBlockedOf bindings' (asksOf sys bindings') : Multiset KeyCombination) := by
  have hset := KeyCombination.sameKeySet_equivalence
  have hcover : ∀ {as bs : List (LoadedBinding α)}, WellBuilt sys as → as.Perm bs →
      ∀ own ∈ hotkeysBlockedOf as (asksOf sys as),
        ∃ own' ∈ hotkeysBlockedOf bs (asksOf sys bs), own'.sameKeySet own = true := by
    intro as bs has hperm own hown
    have hbs := wellBuilt_perm has hperm
    obtain ⟨hmem, hfree⟩ := List.mem_filter.mp hown
    obtain ⟨ask, hask, rfl⟩ := mem_hotkeysOf hmem
    have hask' : ask ∈ asksOf sys bs := (hperm.filterMap _).subset hask
    obtain ⟨own', hown', hsame⟩ := representatives_cover hset (eq_hotkeys hbs) ask.hotkey
      (List.mem_map.mpr ⟨ask, hask', rfl⟩)
    refine ⟨own', List.mem_filter.mpr ⟨hown', ?_⟩, hsame⟩
    rw [Bool.not_eq_true', Bool.eq_false_iff, ne_eq] at hfree ⊢
    rw [takenOver_iff has (hotkey_distinct has hmem)] at hfree
    rw [takenOver_iff hbs (hotkey_distinct hbs hown')]
    rintro ⟨b, hb, hover⟩
    exact hfree ⟨b, hperm.symm.subset hb, takesOver_sameKeySet hsame hover⟩
  have hpairwise : ∀ {as : List (LoadedBinding α)}, WellBuilt sys as →
      (hotkeysBlockedOf as (asksOf sys as)).Pairwise fun x y => ¬x.sameKeySet y = true :=
    fun has => (representatives_pairwise (eq_hotkeys has)).filter _
  refine rel_of_classes hset (hpairwise hbuilt) (hpairwise (wellBuilt_perm hbuilt h)) ?_ ?_
  · intro own hown
    obtain ⟨own', hown', hsame⟩ := hcover hbuilt h own hown
    exact ⟨own', hown', hset.symm hsame⟩
  · exact hcover (wellBuilt_perm hbuilt h) h.symm

theorem blockersFor_rel (hbuilt : WellBuilt sys bindings) (h : bindings.Perm bindings') :
    Multiset.Rel SameBlocker (blockersFor doNothing sys bindings : Multiset (LoadedBinding α))
      (blockersFor doNothing sys bindings' : Multiset (LoadedBinding α)) := by
  have hbuilt' := wellBuilt_perm hbuilt h
  have hdistinct : ∀ {as : List (LoadedBinding α)}, WellBuilt sys as →
      ∀ own ∈ hotkeysBlockedOf as (asksOf sys as), own.Distinct :=
    fun has own hown => hotkey_distinct has (List.mem_filter.mp hown).1
  unfold blockersFor
  rw [← Multiset.coe_bind, ← Multiset.coe_bind]
  refine Multiset.rel_bind ?_ ((hotkeysBlocked_rel hbuilt h).mono
    (p := fun own own' => own.sameKeySet own' = true ∧ own.Distinct ∧ own'.Distinct)
    fun own hown own' hown' hsame => ⟨hsame, hdistinct hbuilt own hown,
      hdistinct hbuilt' own' hown'⟩)
  rintro own own' ⟨hsame, hown, hown'⟩
  exact blockersOf_rel (h.filterMap _) (fun ask hask => distinct_of_ask hbuilt hask) hown hown'
    hsame

/-! ## The warnings -/

/-- A hotkey got a blocker iff the loop has it among the blocked ones. -/
theorem blocked_any (hbuilt : WellBuilt sys bindings) {hotkey : KeyCombination}
    (hdistinct : hotkey.Distinct) :
    ((hotkeysBlockedOf bindings (asksOf sys bindings)).any fun own => own.eq hotkey) =
      (blockersFor doNothing sys bindings).any fun b =>
        b.combination.any fun combo => combo.sameKeySet hotkey := by
  rw [Bool.eq_iff_iff, List.any_eq_true, List.any_eq_true]
  constructor
  · rintro ⟨own, hown, heq⟩
    have hmem := (List.mem_filter.mp hown).1
    rw [KeyCombination.eq_iff_sameKeySet (hotkey_distinct hbuilt hmem) hdistinct] at heq
    obtain ⟨ask, hask, rfl⟩ := mem_hotkeysOf hmem
    refine ⟨_, List.mem_flatMap.mpr ⟨ask.hotkey, hown, List.mem_map.mpr
      ⟨ask.mode, mem_modesOf.mpr ⟨ask, hask, KeyCombination.eq_refl _, rfl⟩, rfl⟩⟩, heq⟩
  · rintro ⟨b, hb, hset⟩
    unfold blockersFor blockersOf at hb
    obtain ⟨own, hown, hb⟩ := List.mem_flatMap.mp hb
    obtain ⟨mode, -, rfl⟩ := List.mem_map.mp hb
    refine ⟨own, hown, ?_⟩
    rw [KeyCombination.eq_iff_sameKeySet
      (hotkey_distinct hbuilt (List.mem_filter.mp hown).1) hdistinct]
    exact hset

/-- The expansion, its loop and its warnings each said over the whole list. -/
theorem expandWithAutoBlockers_eq (doNothing : α) (keyName : KeySpec → String)
    (hbuilt : WellBuilt sys bindings) (warnings : List String) :
    expandWithAutoBlockers doNothing keyName bindings sys warnings =
      (bindings ++ blockersFor doNothing sys bindings, warnings ++ bindings.zipIdx.filterMap
        (warningOf keyName sys (blockersFor doNothing sys bindings))) := by
  unfold expandWithAutoBlockers
  dsimp only
  rw [requests_asks, expansion_eq, List.filterMap_filterMap]
  refine Prod.ext rfl (congrArg (warnings ++ ·) (List.filterMap_congr fun entry _ => ?_))
  unfold requestOf warningOf
  cases hcombo : entry.1.blockOriginalCombo with
  | none => cases sys entry.1.action <;> rfl
  | some requested =>
    cases hsys : sys entry.1.action with
    | none => rfl
    | some hotkey =>
      dsimp only [Option.bind_some]
      rw [← blocked_any hbuilt (hbuilt.hotkeys entry.1.action hotkey hsys)]
      cases requested with
      | swallow => rfl
      | maskOnly => cases hotkey.isModifierOnly <;> rfl

/-- **The expansion is exact.** It leaves the bindings as they are and adds the blockers
asked for, with one warning for each `MaskOnly` that swallows instead and got a
blocker; another order of the bindings gives the same blockers in another order. -/
theorem expansion_exact (doNothing : α) (keyName : KeySpec → String)
    (hbuilt : WellBuilt sys bindings) (warnings : List String) :
    ∃ blockers,
      expandWithAutoBlockers doNothing keyName bindings sys warnings =
        (bindings ++ blockers,
          warnings ++ bindings.zipIdx.filterMap (warningOf keyName sys blockers)) ∧
      Blockers doNothing sys bindings blockers ∧
      ∀ bindings' : List (LoadedBinding α), bindings.Perm bindings' → ∃ blockers',
        (expandWithAutoBlockers doNothing keyName bindings' sys warnings).1 =
          bindings' ++ blockers' ∧
        Multiset.Rel SameBlocker (blockers : Multiset (LoadedBinding α)) blockers' := by
  refine ⟨blockersFor doNothing sys bindings,
    expandWithAutoBlockers_eq doNothing keyName hbuilt warnings, blockersFor_exact hbuilt, ?_⟩
  intro bindings' hperm
  refine ⟨blockersFor doNothing sys bindings', ?_, blockersFor_rel hbuilt hperm⟩
  rw [expandWithAutoBlockers_eq doNothing keyName (wellBuilt_perm hbuilt hperm)]

/-- `"F1"` and `"F2"` run an action whose hotkey is `Alt+LShift`, `"F2"` in one application
only. -/
theorem expansion_exact_altShift :
    let altShift := KeyCombination.fromKeys [.anySide .alt, .key 0xA0]
    let f1 : LoadedBinding Bool :=
      { newAutoBlocker true (KeyCombination.new (.key 0x70)) .swallow with
        autoBlocker := none, blockOriginalCombo := some .maskOnly }
    let f2 : LoadedBinding Bool :=
      { newAutoBlocker true (KeyCombination.new (.key 0x71)) .swallow with
        autoBlocker := none, blockOriginalCombo := some .maskOnly,
        condition := .appEquals "a.exe" }
    ∃ blockers,
      expandWithAutoBlockers false (fun _ => "key") [f1, f2]
        (fun action => if action then some altShift else none) [] =
        ([f1, f2] ++ blockers,
          [] ++ [f1, f2].zipIdx.filterMap (warningOf (fun _ => "key")
            (fun action => if action then some altShift else none) blockers)) ∧
      Blockers false (fun action => if action then some altShift else none) [f1, f2] blockers ∧
      ∀ bindings' : List (LoadedBinding Bool), [f1, f2].Perm bindings' → ∃ blockers',
        (expandWithAutoBlockers false (fun _ => "key") bindings'
          (fun action => if action then some altShift else none) []).1 =
          bindings' ++ blockers' ∧
        Multiset.Rel SameBlocker (blockers : Multiset (LoadedBinding Bool)) blockers' := by
  intro altShift f1 f2
  refine expansion_exact false (fun _ => "key") ⟨fun action hotkey hhotkey => ?_,
    fun b hb combo hcombo => ?_⟩ []
  · cases action with
    | false => exact absurd hhotkey (by simp)
    | true => exact Option.some.inj hhotkey ▸ KeyCombination.fromKeys_distinct _
  · rcases List.mem_pair.mp hb with rfl | rfl <;>
      exact Option.some.inj hcombo ▸ KeyCombination.new_distinct _

end KeySwitch.Config
