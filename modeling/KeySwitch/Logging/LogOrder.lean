import KeySwitch.Logging.LogWriter

/-!
# The log in order

In any interleaving of the threads the lines accepted are written once each, in the order of
the queue, the files attached get the same lines, and every count is in one report or still to
be taken. Once a flush is acknowledged, what was queued and counted before it has been written
(`log_written_in_order`).
-/

namespace KeySwitch.Logging

open Data Lib

namespace LogThread

variable {w w' : LogThread}

/-! ## Each line once, in order -/

/-- The messages that the writer has received and those that wait. -/
structure InOrder (received waiting : List Accepted) (w : LogThread) : Prop where
  sent : w.sent = received ++ waiting
  queue : w.queue = waiting.map Accepted.msg
  written : w.written = linesOf received

variable {received waiting received' : List Accepted}

theorem linesOf_snoc (received : List Accepted) (message : Accepted) :
    linesOf (received ++ [message]) = linesOf received ++ message.msg.line?.toList := by
  unfold linesOf
  rw [List.filterMap_append, List.filterMap_cons]
  cases message.msg.line? <;> rfl

/-- The message that the writer receives next. -/
theorem InOrder.next (h : InOrder received waiting w) {msg : WriterMsg} {queue : List WriterMsg}
    (hqueue : w.queue = msg :: queue) :
    ∃ message rest, waiting = message :: rest ∧ message.msg = msg ∧
      rest.map Accepted.msg = queue :=
  List.map_eq_cons_iff.mp (h.queue.symm.trans hqueue)

theorem InOrder.receive (h : InOrder received waiting w) (w' : LogThread) {msg : WriterMsg}
    {queue : List WriterMsg} (hqueue : w.queue = msg :: queue) (hsent : w'.sent = w.sent)
    (hrest : w'.queue = queue) (hwritten : w'.written = w.written ++ msg.line?.toList) :
    ∃ message waiting', InOrder (received ++ [message]) waiting' w' ∧ message.msg = msg := by
  obtain ⟨message, waiting', rfl, rfl, rfl⟩ := h.next hqueue
  refine ⟨message, waiting', ⟨?_, hrest, ?_⟩, rfl⟩
  · rw [hsent, h.sent, List.append_assoc]
    rfl
  · rw [hwritten, h.written, linesOf_snoc]

theorem inOrder_stepped (h : InOrder received waiting w) (hstep : Stepped w w') :
    ∃ received' waiting', received <+: received' ∧ InOrder received' waiting' w' := by
  cases hstep with
  | idle hidle =>
    refine ⟨received, waiting, List.prefix_rfl, hidle.sent.trans h.sent,
      hidle.queue.trans h.queue, ?_⟩
    unfold written
    rw [hidle.console]
    exact h.written
  | sent msg =>
    refine ⟨received, waiting ++ [⟨msg, w.bumped, w.recorded⟩], List.prefix_rfl, ?_, ?_,
      h.written⟩
    · rw [h.sent, List.append_assoc]
    · rw [h.queue, List.map_append]
      rfl
  | dropped => exact ⟨received, waiting, List.prefix_rfl, h.sent, h.queue, h.written⟩
  | counted => exact ⟨received, waiting, List.prefix_rfl, h.sent, h.queue, h.written⟩
  | bumped => exact ⟨received, waiting, List.prefix_rfl, h.sent, h.queue, h.written⟩
  | recorded => exact ⟨received, waiting, List.prefix_rfl, h.sent, h.queue, h.written⟩
  | line text queue hqueue hcalm hwrote =>
    obtain ⟨message, waiting', hnext, -⟩ := h.receive w' hqueue
      hwrote.rest.sent hwrote.rest.queue hwrote.written
    exact ⟨_, waiting', List.prefix_append _ _, hnext⟩
  | attached path folder queue hqueue =>
    obtain ⟨message, waiting', hnext, -⟩ := h.receive { w with
      queue := queue, stage := .looking, files := some (path, ⟨false, folder⟩),
      attached := (folder, w.console.length) } hqueue rfl rfl (List.append_nil _).symm
    exact ⟨_, waiting', List.prefix_append _ _, hnext⟩
  | flushed queue hqueue =>
    obtain ⟨message, waiting', hnext, -⟩ := h.receive
      ({ w with queue := queue }.startReport (.flush (w.sent.length - w.queue.length))) hqueue rfl
      rfl (List.append_nil _).symm
    exact ⟨_, waiting', List.prefix_append _ _, hnext⟩
  | began => exact ⟨received, waiting, List.prefix_rfl, h.sent, h.queue, h.written⟩
  | took => exact ⟨received, waiting, List.prefix_rfl, h.sent, h.queue, h.written⟩
  | told taken next hstage htold =>
    exact ⟨received, waiting, List.prefix_rfl, htold.rest.sent.trans h.sent,
      htold.rest.queue.trans h.queue, htold.written.trans h.written⟩
  | acked => exact ⟨received, waiting, List.prefix_rfl, h.sent, h.queue, h.written⟩

/-! ## Every count is reported once -/

theorem Idle.inHand (h : Idle w w') (counter : Counter) :
    w'.stage.inHand counter = w.stage.inHand counter := by
  rcases h.stage with hsame | ⟨hbefore, hafter⟩
  · rw [hsame]
  · rw [WriterStage.inHand_of_calm hbefore, WriterStage.inHand_of_calm hafter]

theorem Idle.left (h : Idle w w') : w'.stage.left = w.stage.left := by
  rcases h.stage with hsame | ⟨hbefore, hafter⟩
  · rw [hsame]
  · rw [WriterStage.left_of_calm hbefore, WriterStage.left_of_calm hafter]

/-- Each counter bumped fewer than `2 ^ 64` times has been reported, is in the writer's hand or
waits. -/
def Balanced (w : LogThread) (counter : Counter) : Prop :=
  w.bumped counter < 2 ^ 64 →
    w.reported counter + w.stage.inHand counter + (w.counters.counts counter).toNat =
      w.bumped counter

structure Counted (w : LogThread) : Prop where
  balanced : ∀ counter, w.Balanced counter
  left : w.stage.left.Nodup
  untaken : ∀ counter ∈ w.stage.left, w.stage.inHand counter = 0
  dropped : w.bumped .logLinesDropped + w.owed = w.dropped
  earlier : ∀ message ∈ w.sent, ∀ counter, message.bumped counter ≤ w.bumped counter

theorem bump_bumped (counter other : Counter) (w : LogThread) :
    (w.bump counter).bumped other = w.bumped other + if other = counter then 1 else 0 := by
  show Function.update w.bumped counter (w.bumped counter + 1) other = _
  split
  · next h =>
    subst h
    exact Function.update_self ..
  · next h => exact Function.update_of_ne h ..

theorem bump_balanced {counter other : Counter} (h : w.Balanced other) :
    (w.bump counter).Balanced other := by
  intro hfew
  rw [bump_bumped] at hfew ⊢
  have hold := h (by omega)
  show w.reported other + w.stage.inHand other +
    (Function.update w.counters.counts counter (w.counters.counts counter + 1) other).toNat = _
  split at hfew
  · next hsame =>
    subst hsame
    rw [Function.update_self, UInt64.toNat_add, if_pos rfl, UInt64.toNat_one]
    omega
  · next hother => rw [Function.update_of_ne hother, if_neg hother, hold, Nat.add_zero]

theorem bump_counted {counter : Counter} (h : Counted w) (owed : Nat)
    (hdropped : (w.bump counter).bumped .logLinesDropped + owed = w.dropped) :
    Counted { w.bump counter with owed := owed } where
  balanced other := bump_balanced (h.balanced other)
  left := h.left
  untaken := h.untaken
  dropped := hdropped
  earlier message hmessage other := by
    show message.bumped other ≤ (w.bump counter).bumped other
    rw [bump_bumped]
    exact Nat.le_add_right_of_le (h.earlier message hmessage other)

/-- Where the writer is at no report before and after, nothing in its hand changes. -/
theorem counted_of_calm (h : Counted w) (hbefore : w.stage.calm = true)
    (hafter : w'.stage.calm = true) (hreported : w'.reported = w.reported)
    (hcounts : w'.counters = w.counters) (hbumped : w'.bumped = w.bumped)
    (hdropped : w'.dropped = w.dropped) (howed : w'.owed = w.owed) (hsent : w'.sent = w.sent) :
    Counted w' where
  balanced counter := by
    have hbalanced := h.balanced counter
    unfold Balanced at hbalanced ⊢
    rw [WriterStage.inHand_of_calm hbefore] at hbalanced
    rw [WriterStage.inHand_of_calm hafter, hreported, hcounts, hbumped]
    exact hbalanced
  left := by
    rw [WriterStage.left_of_calm hafter]
    exact List.nodup_nil
  untaken counter hcounter := by
    rw [WriterStage.left_of_calm hafter] at hcounter
    exact absurd hcounter List.not_mem_nil
  dropped := by
    rw [hbumped, howed, hdropped]
    exact h.dropped
  earlier := by
    rw [hsent, hbumped]
    exact h.earlier

theorem startReport_counted (h : Counted w) (hcalm : w.stage.calm = true) (next : Then)
    (queue : List WriterMsg) : Counted ({ w with queue := queue }.startReport next) where
  balanced counter := by
    have hbalanced := h.balanced counter
    unfold Balanced at hbalanced ⊢
    rw [WriterStage.inHand_of_calm hcalm] at hbalanced
    exact hbalanced
  left := Counter.nodup_ALL
  untaken _ _ := rfl
  dropped := h.dropped
  earlier := h.earlier

theorem counted_stepped (h : Counted w) (hstep : Stepped w w') : Counted w' := by
  cases hstep with
  | idle hidle =>
    have hreported : w'.reported = w.reported := by
      unfold reported
      rw [hidle.console]
    refine ⟨fun counter => ?_, ?_, ?_, ?_, ?_⟩
    · unfold Balanced
      rw [hreported, hidle.inHand, hidle.counters, hidle.bumped]
      exact h.balanced counter
    · rw [hidle.left]
      exact h.left
    · intro counter hcounter
      rw [hidle.left] at hcounter
      rw [hidle.inHand]
      exact h.untaken counter hcounter
    · rw [hidle.bumped, hidle.owed, hidle.dropped]
      exact h.dropped
    · rw [hidle.sent, hidle.bumped]
      exact h.earlier
  | sent msg =>
    refine ⟨h.balanced, h.left, h.untaken, h.dropped, fun message hmessage counter => ?_⟩
    rcases List.mem_append.mp hmessage with hold | hnew
    · exact h.earlier message hold counter
    · obtain rfl := List.mem_singleton.mp hnew
      exact Nat.le_refl _
  | dropped => exact ⟨h.balanced, h.left, h.untaken, congrArg (· + 1) h.dropped, h.earlier⟩
  | counted howed =>
    refine bump_counted h (w.owed - 1) ?_
    rw [bump_bumped, if_pos rfl, ← h.dropped]
    omega
  | bumped counter hcounter =>
    refine bump_counted h w.owed ?_
    rw [bump_bumped, if_neg (Ne.symm hcounter), Nat.add_zero]
    exact h.dropped
  | recorded => exact ⟨h.balanced, h.left, h.untaken, h.dropped, h.earlier⟩
  | line text queue hqueue hcalm hwrote =>
    refine counted_of_calm h hcalm ?_ (funext hwrote.reported) hwrote.rest.counters
      hwrote.rest.bumped hwrote.rest.dropped hwrote.rest.owed hwrote.rest.sent
    rw [hwrote.rest.stage]
    rfl
  | attached path folder queue hqueue hcalm =>
    exact counted_of_calm h hcalm rfl rfl rfl rfl rfl rfl rfl
  | flushed queue hqueue hcalm => exact startReport_counted h hcalm _ queue
  | began next hnext hcalm => exact startReport_counted h hcalm next w.queue
  | took counter rest taken next hstage =>
    have hleft : (counter :: rest).Nodup := by
      have hnodup := h.left
      rw [hstage] at hnodup
      exact hnodup
    have huntaken : ∀ other ∈ counter :: rest, (taken other).toNat = 0 := by
      have hnone := h.untaken
      rw [hstage] at hnone
      exact hnone
    obtain ⟨hout, hrest⟩ := List.nodup_cons.mp hleft
    refine ⟨fun other hfew => ?_, hrest, fun other hother => ?_, h.dropped, h.earlier⟩
    · have hbalanced : w.reported other + (taken other).toNat +
          (w.counters.counts other).toNat = w.bumped other := by
        have hold := h.balanced other hfew
        rw [hstage] at hold
        exact hold
      show w.reported other +
        (Function.update taken counter (w.counters.counts counter) other).toNat +
        (Function.update w.counters.counts counter 0 other).toNat = w.bumped other
      by_cases hsame : other = counter
      · -- The swap moves what waited into the hand, which had nothing of this counter.
        subst hsame
        have hzero := huntaken other (List.mem_cons_self ..)
        rw [Function.update_self, Function.update_self, UInt64.toNat_zero, Nat.add_zero]
        omega
      · rw [Function.update_of_ne hsame, Function.update_of_ne hsame]
        exact hbalanced
    · have hne : other ≠ counter := fun hsame => hout (hsame ▸ hother)
      show (Function.update taken counter (w.counters.counts counter) other).toNat = 0
      rw [Function.update_of_ne hne]
      exact huntaken other (List.mem_cons_of_mem _ hother)
  | told taken next hstage htold =>
    have hstage' : w'.stage = .reported next := htold.rest.stage
    have hcounters : w'.counters = w.counters.takeLongest := htold.rest.counters
    have hbumped : w'.bumped = w.bumped := htold.rest.bumped
    refine ⟨fun counter hfew => ?_, ?_, ?_, ?_, ?_⟩
    · rw [hbumped] at hfew ⊢
      have hbalanced := h.balanced counter hfew
      rw [hstage] at hbalanced
      rw [htold.reported, hstage', hcounters]
      exact hbalanced
    · rw [hstage']
      exact List.nodup_nil
    · rw [hstage']
      exact fun counter hcounter => absurd hcounter List.not_mem_nil
    · rw [hbumped, htold.rest.owed, htold.rest.dropped]
      exact h.dropped
    · rw [hbumped, htold.rest.sent]
      exact h.earlier
  | acked i hstage =>
    have hbalanced := h.balanced
    unfold Balanced at hbalanced
    rw [hstage] at hbalanced
    exact ⟨hbalanced, List.nodup_nil, fun _ hcounter => absurd hcounter List.not_mem_nil,
      h.dropped, h.earlier⟩

/-! ## Every slow callback is reported -/

/-- Whether a report shows a callback at least as long. -/
def Shown (w : LogThread) (took : UInt64) : Prop :=
  ∃ entry ∈ w.console, ∃ snapshot, entry.origin = .report snapshot ∧
    took ≤ snapshot.longestCallback

def isSlow (took : UInt64) : Prop := SLOW_CALLBACK ≤ took.toNat

theorem Shown.later {took : UInt64} (h : w.Shown took) (hconsole : w.console <+: w'.console) :
    w'.Shown took := by
  obtain ⟨entry, hentry, hsnapshot⟩ := h
  exact ⟨entry, hconsole.subset hentry, hsnapshot⟩

/-- A slow callback is shown, or the longest time waits to be taken. -/
structure Timed (w : LogThread) : Prop where
  shown : ∀ took ∈ w.recorded, isSlow took →
    took ≤ w.counters.longestCallbackNs ∨ w.Shown took
  earlier : ∀ message ∈ w.sent, message.recorded ⊆ w.recorded

theorem timed_frame (h : Timed w) (hrecorded : w'.recorded = w.recorded)
    (hlongest : w'.counters.longestCallbackNs = w.counters.longestCallbackNs)
    (hconsole : w.console <+: w'.console) (hsent : w'.sent = w.sent) : Timed w' where
  shown took htook hslow := by
    rw [hrecorded] at htook
    rw [hlongest]
    exact (h.shown took htook hslow).imp_right fun hshown => hshown.later hconsole
  earlier := by
    rw [hsent, hrecorded]
    exact h.earlier

theorem le_recordCallback (counters : Counters) (took : Duration) :
    counters.longestCallbackNs ≤ (counters.recordCallback took).longestCallbackNs ∧
      Counters.nanos took ≤ (counters.recordCallback took).longestCallbackNs := by
  have hmax : (counters.recordCallback took).longestCallbackNs =
      if counters.longestCallbackNs ≤ Counters.nanos took then Counters.nanos took
        else counters.longestCallbackNs := rfl
  rw [hmax]
  split
  · next hle => exact ⟨hle, UInt64.le_refl _⟩
  · next hnot => exact ⟨UInt64.le_refl _, UInt64.le_of_lt (UInt64.not_le.mp hnot)⟩

/-- Once a report is made, every slow callback is shown. -/
theorem told_shown (h : Timed w) {taken : Counter → UInt64} {next : Then}
    (htold : Told ⟨taken, w.counters.longestCallbackNs⟩
      { w with counters := w.counters.takeLongest, stage := .reported next } w') :
    ∀ took ∈ w.recorded, isSlow took → w'.Shown took := by
  intro took htook hslow
  rcases h.shown took htook hslow with hwaits | hshown
  · -- The longest callback taken is as slow, so the report is written.
    have hsnapshot : SLOW_CALLBACK ≤ w.counters.longestCallbackNs.toNat :=
      Nat.le_trans hslow (UInt64.le_iff_toNat_le.mp hwaits)
    obtain ⟨entry, hentry, horigin⟩ := htold.slow (decide_eq_true hsnapshot)
    exact ⟨entry, hentry, _, horigin, hwaits⟩
  · exact hshown.later htold.console

theorem timed_stepped (h : Timed w) (hstep : Stepped w w') : Timed w' := by
  cases hstep with
  | idle hidle =>
    refine timed_frame h hidle.recorded (by rw [hidle.counters]) ?_ hidle.sent
    rw [hidle.console]
  | sent msg =>
    refine ⟨h.shown, fun message hmessage => ?_⟩
    rcases List.mem_append.mp hmessage with hold | hnew
    · exact h.earlier message hold
    · obtain rfl := List.mem_singleton.mp hnew
      exact List.Subset.refl _
  | dropped => exact timed_frame h rfl rfl List.prefix_rfl rfl
  | counted => exact timed_frame h rfl rfl List.prefix_rfl rfl
  | bumped => exact timed_frame h rfl rfl List.prefix_rfl rfl
  | recorded took =>
    obtain ⟨hold, hnew⟩ := le_recordCallback w.counters took
    refine ⟨fun other hother hslow => ?_, fun message hmessage => ?_⟩
    · rcases List.mem_append.mp hother with hbefore | hnow
      · exact (h.shown other hbefore hslow).imp_left fun hle => UInt64.le_trans hle hold
      · obtain rfl := List.mem_singleton.mp hnow
        exact .inl hnew
    · exact List.subset_append_of_subset_left _ (h.earlier message hmessage)
  | line text queue hqueue hcalm hwrote =>
    exact timed_frame h hwrote.rest.recorded (by rw [hwrote.rest.counters]) hwrote.console
      hwrote.rest.sent
  | attached => exact timed_frame h rfl rfl List.prefix_rfl rfl
  | flushed => exact timed_frame h rfl rfl List.prefix_rfl rfl
  | began => exact timed_frame h rfl rfl List.prefix_rfl rfl
  | took => exact timed_frame h rfl rfl List.prefix_rfl rfl
  | told taken next hstage htold =>
    refine ⟨fun took htook hslow => .inr ?_, ?_⟩
    · rw [htold.rest.recorded] at htook
      exact told_shown h htold took htook hslow
    · rw [htold.rest.sent, htold.rest.recorded]
      exact h.earlier
  | acked => exact timed_frame h rfl rfl List.prefix_rfl rfl

/-! ## A flush acknowledged -/

def IsFlush (messages : List Accepted) (i : Nat) (message : Accepted) : Prop :=
  messages[i]? = some message ∧ message.msg = .flush

theorem IsFlush.mono {messages messages' : List Accepted} {i : Nat} {message : Accepted}
    (h : IsFlush messages i message) (hmessages : messages <+: messages') :
    IsFlush messages' i message := by
  obtain ⟨rest, rfl⟩ := hmessages
  obtain ⟨hi, -⟩ := List.getElem?_eq_some_iff.mp h.1
  exact ⟨(List.getElem?_append_left hi).trans h.1, h.2⟩

theorem IsFlush.mem_sent {i : Nat} {message : Accepted} (h : IsFlush received i message)
    (horder : InOrder received waiting w) : message ∈ w.sent := by
  rw [horder.sent]
  exact List.mem_append_left _ (List.mem_of_getElem? h.1)

/-- What was counted before the flush `i` was accepted has been reported, and each slow callback
is shown. -/
def Reported (received : List Accepted) (w : LogThread) (i : Nat) : Prop :=
  ∃ message, IsFlush received i message ∧
    (∀ counter, w.bumped counter < 2 ^ 64 → message.bumped counter ≤ w.reported counter) ∧
    ∀ took ∈ message.recorded, isSlow took → w.Shown took

theorem Reported.later {i : Nat} (h : Reported received w i) (hreceived : received <+: received')
    (hbumped : ∀ counter, w.bumped counter ≤ w'.bumped counter)
    (hreported : ∀ counter, w.reported counter ≤ w'.reported counter)
    (hconsole : w.console <+: w'.console) : Reported received' w' i := by
  obtain ⟨message, hflush, hcounts, hshown⟩ := h
  refine ⟨message, hflush.mono hreceived, fun counter hfew => ?_, fun took htook hslow =>
    (hshown took htook hslow).later hconsole⟩
  have hbefore := hcounts counter (Nat.lt_of_le_of_lt (hbumped counter) hfew)
  exact Nat.le_trans hbefore (hreported counter)

/-- Of the counters it does not take next, the writer has reported or has in hand what was
counted before the flush `i` was accepted. -/
def Reporting (received : List Accepted) (w : LogThread) (i : Nat) : Prop :=
  ∃ message, IsFlush received i message ∧
    (∀ counter ∉ w.stage.left, w.bumped counter < 2 ^ 64 →
      message.bumped counter ≤ w.reported counter + w.stage.inHand counter) ∧
    (w.stage.told = true → ∀ took ∈ message.recorded, isSlow took → w.Shown took)

structure Flushed (received : List Accepted) (w : LogThread) : Prop where
  reporting : ∀ i, w.stage.flush? = some i → w.Reporting received i
  acked : ∀ i ∈ w.acked, w.Reported received i

theorem Flushed.taking (h : Flushed received w) {rest : List Counter} {taken : Counter → UInt64}
    {next : Then} (hstage : w.stage = .taking rest taken next) {i : Nat}
    (hi : next.flush? = some i) :
    ∃ message, IsFlush received i message ∧ ∀ counter ∉ rest, w.bumped counter < 2 ^ 64 →
      message.bumped counter ≤ w.reported counter + (taken counter).toNat := by
  have hreporting := h.reporting i
  unfold Reporting at hreporting
  rw [hstage] at hreporting
  obtain ⟨message, hflush, hcounts, -⟩ := hreporting hi
  exact ⟨message, hflush, hcounts⟩

theorem flushed_frame (h : Flushed received w) (hreceived : received <+: received')
    (hstage : w'.stage = w.stage ∨ w'.stage.flush? = none)
    (hbumped : ∀ counter, w.bumped counter ≤ w'.bumped counter)
    (hreported : ∀ counter, w.reported counter ≤ w'.reported counter)
    (hconsole : w.console <+: w'.console) (hacked : w'.acked = w.acked) : Flushed received' w' where
  reporting i hi := by
    rcases hstage with hsame | hnone
    · rw [hsame] at hi
      obtain ⟨message, hflush, hcounts, hshown⟩ := h.reporting i hi
      refine ⟨message, hflush.mono hreceived, fun counter hcounter hfew => ?_,
        fun htold took htook hslow => ?_⟩
      case refine_2 =>
        rw [hsame] at htold
        exact (hshown htold took htook hslow).later hconsole
      rw [hsame] at hcounter ⊢
      have hbefore := hcounts counter hcounter (Nat.lt_of_le_of_lt (hbumped counter) hfew)
      exact Nat.le_trans hbefore (Nat.add_le_add_right (hreported counter) _)
    · exact absurd (hi.symm.trans hnone) (by simp)
  acked i hi := by
    rw [hacked] at hi
    exact (h.acked i hi).later hreceived hbumped hreported hconsole

/-- The flush that the writer receives is the one it acknowledges. -/
theorem flush_received (horder : InOrder received waiting w) {waiting' : List Accepted}
    (horder' : InOrder received' waiting' w') (hsent : w'.sent = w.sent)
    {queue : List WriterMsg} (hqueue : w.queue = .flush :: queue) (hrest : w'.queue = queue) :
    ∃ message, IsFlush received' (w.sent.length - w.queue.length) message := by
  obtain ⟨message, rest, rfl, hmsg, rfl⟩ := horder.next hqueue
  have hindex : w.sent.length - w.queue.length = received.length := by
    rw [horder.sent, horder.queue, List.length_append, List.length_map]
    omega
  have hlength : received.length < received'.length := by
    have hall : (received ++ message :: rest).length = (received' ++ waiting').length := by
      rw [← horder.sent, ← horder'.sent, hsent]
    have hwaiting : rest.length = waiting'.length := by
      have hmap := congrArg List.length (hrest.symm.trans horder'.queue)
      rwa [List.length_map, List.length_map] at hmap
    simp only [List.length_append, List.length_cons] at hall
    omega
  have hreceived : (received' ++ waiting')[received.length]? = received'[received.length]? :=
    List.getElem?_append_left hlength
  refine ⟨message, ?_, hmsg⟩
  rw [hindex, ← hreceived, ← horder'.sent, hsent, horder.sent,
    List.getElem?_append_right (Nat.le_refl _), Nat.sub_self]
  rfl

theorem flushed_stepped {waiting' : List Accepted} (horder : InOrder received waiting w)
    (horder' : InOrder received' waiting' w') (hreceived : received <+: received')
    (hcounted : Counted w) (htimed : Timed w) (h : Flushed received w) (hstep : Stepped w w') :
    Flushed received' w' := by
  have hsame : ∀ counter, w.bumped counter ≤ w.bumped counter := fun _ => Nat.le_refl _
  have hsaid : ∀ counter, w.reported counter ≤ w.reported counter := fun _ => Nat.le_refl _
  cases hstep with
  | idle hidle =>
    refine flushed_frame h hreceived ?_ (fun counter => by rw [hidle.bumped])
      (fun counter => ?_) ?_ hidle.acked
    · rcases hidle.stage with hstage | ⟨-, hcalm⟩
      · exact .inl hstage
      · exact .inr (WriterStage.flush_of_calm hcalm)
    · unfold reported
      rw [hidle.console]
    · rw [hidle.console]
  | sent => exact flushed_frame h hreceived (.inl rfl) hsame hsaid List.prefix_rfl rfl
  | recorded => exact flushed_frame h hreceived (.inl rfl) hsame hsaid List.prefix_rfl rfl
  | dropped => exact flushed_frame h hreceived (.inl rfl) hsame hsaid List.prefix_rfl rfl
  | counted howed =>
    refine flushed_frame h hreceived (.inl rfl) (fun counter => ?_) hsaid List.prefix_rfl rfl
    rw [bump_bumped]
    exact Nat.le_add_right _ _
  | bumped counter hcounter =>
    refine flushed_frame h hreceived (.inl rfl) (fun other => ?_) hsaid List.prefix_rfl rfl
    rw [bump_bumped]
    exact Nat.le_add_right _ _
  | line text queue hqueue hcalm hwrote =>
    refine flushed_frame h hreceived (.inr ?_) (fun counter => ?_) (fun counter => ?_)
      hwrote.console hwrote.rest.acked
    · rw [hwrote.rest.stage]
      rfl
    · rw [hwrote.rest.bumped]
    · rw [hwrote.reported]
      exact Nat.le_add_right _ _
  | attached => exact flushed_frame h hreceived (.inr rfl) hsame hsaid List.prefix_rfl rfl
  | flushed queue hqueue hcalm =>
    refine ⟨fun i hi => ?_,
      fun i hi => (h.acked i hi).later hreceived hsame hsaid List.prefix_rfl⟩
    -- No counter is taken yet, so there is nothing to show of the counts.
    obtain rfl := Option.some.inj hi
    obtain ⟨message, hflush⟩ := flush_received horder horder' rfl hqueue rfl
    exact ⟨message, hflush, fun counter hcounter => absurd counter.mem_ALL hcounter,
      fun htold => nomatch htold⟩
  | began next hnext hcalm =>
    exact flushed_frame h hreceived (.inr hnext) hsame hsaid List.prefix_rfl rfl
  | took counter rest taken next hstage =>
    refine ⟨fun i hi => ?_,
      fun i hi => (h.acked i hi).later hreceived hsame hsaid List.prefix_rfl⟩
    obtain ⟨message, hflush, hcounts⟩ := h.taking hstage hi
    refine ⟨message, hflush.mono hreceived, fun other hother hfew => ?_,
      fun htold => nomatch htold⟩
    show message.bumped other ≤ w.reported other +
      (Function.update taken counter (w.counters.counts counter) other).toNat
    by_cases hnow : other = counter
    · -- Nothing of the counter waits now, so all its bumps are reported or in hand.
      subst hnow
      have hearlier := hcounted.earlier message (hflush.mem_sent horder) other
      have hbalanced := hcounted.balanced other hfew
      have hnone := hcounted.untaken other
      rw [hstage] at hbalanced hnone
      rw [hnone (List.mem_cons_self ..)] at hbalanced
      rw [Function.update_self]
      omega
    · rw [Function.update_of_ne hnow]
      exact hcounts other (fun hmem => (List.mem_cons.mp hmem).elim hnow hother) hfew
  | told taken next hstage htold =>
    have hstage' : w'.stage = .reported next := htold.rest.stage
    have hbumped : w'.bumped = w.bumped := htold.rest.bumped
    refine ⟨fun i hi => ?_, fun i hi => ?_⟩
    · rw [hstage'] at hi
      obtain ⟨message, hflush, hcounts⟩ := h.taking hstage hi
      have hearlier := htimed.earlier message (hflush.mem_sent horder)
      refine ⟨message, hflush.mono hreceived, fun counter _ hfew => ?_, fun _ took htook hslow =>
        told_shown htimed htold took (hearlier htook) hslow⟩
      rw [hbumped] at hfew
      rw [htold.reported, hstage']
      exact hcounts counter List.not_mem_nil hfew
    · rw [htold.rest.acked] at hi
      refine (h.acked i hi).later hreceived (fun counter => ?_) (fun counter => ?_)
        htold.console
      · rw [hbumped]
      · rw [htold.reported]
        exact Nat.le_add_right _ _
  | acked i hstage =>
    refine ⟨fun _ hi => absurd hi (by simp [WriterStage.flush?]), fun j hj => ?_⟩
    rcases List.mem_append.mp hj with hold | hnew
    · exact (h.acked j hold).later hreceived hsame hsaid List.prefix_rfl
    · obtain rfl := List.mem_singleton.mp hnew
      have hreporting := h.reporting j
      unfold Reporting at hreporting
      rw [hstage] at hreporting
      obtain ⟨message, hflush, hcounts, hshown⟩ := hreporting rfl
      exact ⟨message, hflush.mono hreceived, fun counter hfew =>
        hcounts counter List.not_mem_nil hfew, hshown rfl⟩

/-! ## The files -/

/-- The files after `lines` went into them. -/
inductive After (start : Writer) : List LogLine → Writer → Prop
  | nothing : After start [] start
  | line {lines : List LogLine} {files : Writer} (h : After start lines files) (line : LogLine)
    (again : Text) (fs noticeFs : FileCalls) :
    After start (lines ++ [line])
      (files.writeFiles MAX_FILE_BYTES again fs noticeFs (utf8 line.fileText)).1

/-- The files are what the lines since they were attached make of them, in the console's order. -/
structure Filed (w : LogThread) : Prop where
  attached : w.attached.2 ≤ w.console.length
  files : ∀ path files, w.files = some (path, files) → After ⟨false, w.attached.1⟩ w.filed files

theorem filed_of_fed (h : Filed w) (hattached : w'.attached = w.attached)
    (hconsole : w.console <+: w'.console) (hfed : Fed w w') : Filed w' where
  attached := by
    rw [hattached]
    exact h.attached.trans hconsole.length_le
  files := by
    intro path files hw'
    rw [hattached]
    rcases hfed with ⟨hlines, hfiles⟩ | ⟨line, hlines, hput⟩
    · rw [hlines]
      exact h.files path files (hfiles ▸ hw')
    · rw [hlines h.attached]
      generalize hbefore : w.files = before at hput
      generalize w'.files = after at hput hw'
      cases hput with
      | unattached => exact absurd hw' (by simp)
      | attached path' files' again fs noticeFs =>
        obtain ⟨-, rfl⟩ := Prod.mk.inj (Option.some.inj hw')
        exact (h.files path' files' hbefore).line line again fs noticeFs

theorem filed_stepped (h : Filed w) (hstep : Stepped w w') : Filed w' := by
  cases hstep with
  | idle hidle =>
    refine filed_of_fed h hidle.attached ?_ (.inl ⟨?_, hidle.files⟩)
    · rw [hidle.console]
    · unfold filed
      rw [hidle.console, hidle.attached]
  | attached path folder queue =>
    refine ⟨Nat.le_refl _, fun path' files hfiles => ?_⟩
    obtain ⟨-, rfl⟩ := Prod.mk.inj (Option.some.inj hfiles)
    have hnone : w.console.drop w.console.length = [] := List.drop_length
    show After ⟨false, folder⟩ ((w.console.drop w.console.length).filterMap Entry.filed?) _
    rw [hnone]
    exact .nothing
  | line text queue hqueue hcalm hwrote =>
    exact filed_of_fed h hwrote.rest.attached hwrote.console
      (.inr ⟨text, hwrote.filed, hwrote.put⟩)
  | told taken next hstage htold =>
    exact filed_of_fed h htold.rest.attached htold.console htold.fed
  | _ => exact ⟨h.attached, h.files⟩

/-! ## The end -/

/-- The writer ends only when every sender is gone and nothing waits. -/
def Ending (w : LogThread) : Prop := w.stage.ending = true → w.hungUp = true ∧ w.queue = []

theorem receive_ending (env : WriteEnv) (h : Ending w) : Ending (w.receive env) := by
  unfold receive
  split
  · next text queue hqueue =>
    intro hending
    rw [(write_wrote env _ _).rest.stage] at hending
    exact nomatch hending
  · exact fun hending => nomatch hending
  · exact fun hending => nomatch hending
  · next hqueue =>
    split
    · next hhungUp => exact fun _ => ⟨hhungUp, hqueue⟩
    · exact h

theorem work_ending (env : WriteEnv) (h : Ending w) : Ending (w.work env) := by
  unfold work
  split
  · split
    · exact fun hending => nomatch hending
    · exact fun hending => nomatch hending
  · exact receive_ending env h
  · next counter rest taken next hstage =>
    unfold Ending at h
    rw [hstage] at h
    exact h
  · next taken next hstage =>
    have hrest := (report_told env ⟨taken, w.counters.longestCallbackNs⟩
      { w with counters := w.counters.takeLongest, stage := .reported next }).rest
    unfold Ending at h ⊢
    rw [hstage] at h
    rw [hrest.stage, hrest.hungUp, hrest.queue]
    exact h
  · exact fun hending => nomatch hending
  · exact fun hending => nomatch hending
  · next hstage =>
    unfold Ending at h
    rw [hstage] at h
    exact fun _ => h rfl
  · exact h

theorem ending_step (h : Ending w) (act : LogAct) : Ending (w.step act) := by
  cases act with
  | send msg =>
    unfold step send
    dsimp only
    split
    · exact h
    · next hhungUp =>
      -- Before the senders are gone the writer does not end.
      have hgoes : w.stage.ending ≠ true := fun hending => hhungUp (h hending).1
      split
      · exact fun hending => absurd hending hgoes
      · cases msg with
        | line text => exact fun hending => absurd hending hgoes
        | attach path folder => exact h
        | flush => exact h
  | hangUp => exact fun hending => ⟨rfl, (h hending).2⟩
  | work env => exact work_ending env h
  | timeout =>
    unfold step
    dsimp only
    split
    · split
      · exact fun hending => nomatch hending
      · exact h
    · exact h
  | countDropped =>
    unfold step
    dsimp only
    split
    · exact h
    · exact h
  | bump counter =>
    unfold step
    dsimp only
    split
    · exact h
    · exact h
  | pass elapsed => exact h
  | record took => exact h

end LogThread

/-! ## Any interleaving -/

/-- The writer among the threads that log, in any interleaving. -/
def logThread : Machine LogThread LogAct Unit := ⟨fun w act => (w.step act, ()), fun _ _ => True⟩

/-- What holds of the writer. -/
structure LogRules (w : LogThread) : Prop where
  /-- Each line accepted is written once, in the order of the queue, or waits there. -/
  order : ∃ received waiting, w.InOrder received waiting
  /-- Each line dropped is counted, once its sender is done. -/
  dropped : w.bumped .logLinesDropped + w.owed = w.dropped
  /-- Each count is in one report, in the writer's hand or waits. -/
  counts : ∀ counter, w.Balanced counter
  callbacks : ∀ took ∈ w.recorded, LogThread.isSlow took →
    took ≤ w.counters.longestCallbackNs ∨ w.Shown took
  /-- Once a flush is acknowledged, the lines accepted before it are written, and the reports
  have what was counted before it. -/
  flushes : ∀ i ∈ w.acked, w.Reported w.sent i ∧ linesOf (w.sent.take i) <+: w.written
  /-- The files got the same lines since they were attached. -/
  files : w.Filed
  ended : w.stage = .ended → w.written = linesOf w.sent

/-- **In any interleaving, the log is written in order.** Each line that the queue takes is
written once, in the queue's order, into the files as on the console, and each that it does not
take is counted. A count is in one report, in the writer's hand or still to be taken. When a
flush is acknowledged, all lines accepted before it are written and all that was counted before
it is reported; when the writer ends, none of them waits. -/
theorem log_written_in_order (acts : List LogAct) : LogRules (logThread.run .new acts) := by
  have hinv : logThread.Invariant fun w => w.Counted ∧ w.Timed ∧ w.Filed ∧ w.Ending ∧
      ∃ received waiting, w.InOrder received waiting ∧ w.Flushed received := by
    rintro w act ⟨hcounted, htimed, hfiled, hending, received, waiting, horder, hflushed⟩ -
    have hstep := LogThread.step_stepped w act
    obtain ⟨received', waiting', hreceived, horder'⟩ := LogThread.inOrder_stepped horder hstep
    exact ⟨LogThread.counted_stepped hcounted hstep, LogThread.timed_stepped htimed hstep,
      LogThread.filed_stepped hfiled hstep, LogThread.ending_step hending act, received', waiting',
      horder',
      LogThread.flushed_stepped horder horder' hreceived hcounted htimed hflushed hstep⟩
  have hnew : LogThread.new.Counted ∧ LogThread.new.Timed ∧ LogThread.new.Filed ∧
      LogThread.new.Ending ∧
      ∃ received waiting, LogThread.new.InOrder received waiting ∧
        LogThread.new.Flushed received := by
    refine ⟨⟨fun _ _ => rfl, List.nodup_nil, ?_, rfl, ?_⟩, ⟨?_, ?_⟩, ⟨Nat.le_refl _, ?_⟩,
      fun h => Bool.noConfusion h, [], [], ⟨rfl, rfl, rfl⟩, ?_, ?_⟩
    · exact fun _ h => absurd h List.not_mem_nil
    · exact fun _ h => absurd h List.not_mem_nil
    · exact fun _ h => absurd h List.not_mem_nil
    · exact fun _ h => absurd h List.not_mem_nil
    · exact fun _ _ h => absurd h (by simp [LogThread.new])
    · exact fun _ h => absurd h (by simp [LogThread.new, WriterStage.flush?])
    · exact fun _ h => absurd h List.not_mem_nil
  have hlegal := Machine.legal_of_enabled logThread (fun _ _ => trivial) .new acts
  obtain ⟨hcounted, htimed, hfiled, hending, received, waiting, horder, hflushed⟩ :=
    hinv.run hnew hlegal
  refine ⟨⟨received, waiting, horder⟩, hcounted.dropped, hcounted.balanced, htimed.shown,
    fun i hi => ?_, hfiled, fun hstage => ?_⟩
  case refine_2 =>
    have hempty : waiting = [] := by
      rw [← List.map_eq_nil_iff, ← horder.queue]
      exact (hending (by rw [hstage]; rfl)).2
    rw [horder.written, horder.sent, hempty, List.append_nil]
  have hreported := hflushed.acked i hi
  obtain ⟨message, hflush, -⟩ := id hreported
  obtain ⟨hlength, -⟩ := List.getElem?_eq_some_iff.mp hflush.1
  refine ⟨hreported.later ?_ (fun _ => Nat.le_refl _) (fun _ => Nat.le_refl _) List.prefix_rfl,
    ?_⟩
  · rw [horder.sent]
    exact List.prefix_append _ _
  · rw [horder.sent, List.take_append_of_le_length hlength.le, horder.written]
    exact (List.take_prefix i received).filterMap _

end KeySwitch.Logging
