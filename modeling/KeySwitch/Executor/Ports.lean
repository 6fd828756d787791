import KeySwitch.Executor.Fates

/-!
# The executor thread with its paste session

What is known of the executor thread holds in every `Env`, which leaves open what the paste
session is. Here it is the source's, over ports that answer its questions in the thread's
world. It keeps what the loop takes from it: a `tick` or a `restoreIfDue` that answers that
it asked nothing left the world as it was, and a restore asks the clipboard alone, whose
calls take no posted message. So the thread with this session misses no wake and loses no
job (`no_lost_wake`, `every_job_accounted`).
-/

namespace KeySwitch.Executor

open Data Lib Dialogue

variable {V : Type}

/-! ## What a restore asks -/

/-- The calls of the clipboard, and those that make and destroy its windows. -/
def Question.isClipboard : Question → Bool
  | createWindow | destroyWindow _ | owner | openClipboard _ | closeClipboard | emptyClipboard
  | formats | formatName _ | read _ _ | write _ _ | register _ | sequenceNumber => true
  | _ => false

theorem writeAll_only (entries : List (Format × Payload)) :
    Only (fun q => q.isClipboard = true) (writeAll entries) := by
  induction entries with
  | nil => exact only_done _
  | cons entry rest ih => exact only_ask rfl fun _ => ih

theorem putBack_only (pending : Pending) (markers : Option Markers) :
    Only (fun q => q.isClipboard = true) (putBack pending markers) := by
  unfold putBack
  refine only_ask rfl fun emptied => ?_
  split
  · exact only_done _
  · split
    · exact writeAll_only _
    · exact only_done _
    · exact only_done _

theorem stillOurs_only (pending : Pending) :
    Only (fun q => q.isClipboard = true) (stillOurs pending) := by
  unfold stillOurs
  refine only_ask rfl fun owner => ?_
  split
  · exact only_done _
  · exact only_ask rfl fun _ => only_done _

namespace PasteSession

theorem makeIdle_only (s : PasteSession) (after : After) :
    Only (fun q => q.isClipboard = true) (s.makeIdle after) := by
  unfold makeIdle
  split
  · exact only_ask rfl fun _ => only_done _
  · exact only_done _

theorem endSession_only (s : PasteSession) (after : After) :
    Only (fun q => q.isClipboard = true) (s.endSession after) := by
  unfold endSession
  split
  · exact only_ask rfl fun _ => makeIdle_only _ _
  · exact makeIdle_only _ _

theorem tryRestore_only (s : PasteSession) (after : After) :
    Only (fun q => q.isClipboard = true) (s.tryRestore after) := by
  unfold tryRestore
  split
  · exact only_done _
  · refine only_ask rfl fun _ => only_ask rfl fun opened => ?_
    split
    · exact only_done _
    · refine only_bind (stillOurs_only _) fun ours => ?_
      split
      · refine only_bind (putBack_only _ _) fun _ => only_ask rfl fun _ => ?_
        exact only_map (endSession_only _ _) _
      · exact only_ask rfl fun _ => only_map (endSession_only _ _) _

/-- A restore that is tried at once asks the clipboard alone. -/
theorem restoreNow_only (s : PasteSession) :
    Only (fun q => q.isClipboard = true) s.restoreNow := by
  unfold restoreNow
  split
  · exact only_done _
  · refine only_bind (tryRestore_only _ _) fun tried => ?_
    split
    · exact only_done _
    · exact only_done _
    · exact endSession_only _ _

/-- A tick that answers that it asked nothing did nothing to the world. -/
theorem tick_idle {W : Type} (answer : (q : Question) → W → W × q.Answer) (s : PasteSession)
    (now : Instant) (w : W) (h : ((s.tick now).within answer w).2.2 = false) :
    ((s.tick now).within answer w).1 = w := by
  unfold tick at h ⊢
  split
  · rfl
  · next pending hpending =>
    rw [hpending] at h
    dsimp only at h
    split
    · rfl
    · next hwaits =>
      rw [if_neg hwaits] at h
      split
      · rfl
      · next target htarget =>
        rw [htarget] at h
        dsimp only at h
        split
        · rfl
        · next hlimit =>
          rw [if_neg hlimit] at h
          exact absurd h (by simp [within])

theorem restoreIfDue_idle {W : Type} (answer : (q : Question) → W → W × q.Answer)
    (s : PasteSession) (now : Instant) (w : W)
    (h : ((s.restoreIfDue now).within answer w).2.2 = false) :
    ((s.restoreIfDue now).within answer w).1 = w := by
  unfold restoreIfDue at h ⊢
  split
  · rfl
  · next pending hpending =>
    rw [hpending] at h
    dsimp only at h ⊢
    split
    · rfl
    · next hdue =>
      rw [if_neg hdue] at h
      split
      · rfl
      · next htry =>
        -- A try that was made answers that it asked, whatever came of it.
        rw [if_neg htry, within_bind] at h
        split at h
        · rw [map, within_bind] at h
          exact absurd h (by simp [within])
        · exact absurd h (by simp [within])
        · exact absurd h (by simp [within])

end PasteSession

/-! ## The ports -/

/-- The world of the executor thread, in which others act: it answers the questions of the
paste session, and takes the actions and the steps of the macros. -/
structure Ports (V : Type) where
  answer : (q : Question) → World V → World V × q.Answer
  action : BindAction → World V → World V × Bool
  step : SequenceStep → TargetWindow → World V → World V × Bool
  now : World V → Instant
  drift : World V → World V
  answer_pumps : ∀ q w, Pumps w.shared (answer q w).1.shared
  /-- The clipboard's calls take no posted message. -/
  clipboard_moves : ∀ q w, q.isClipboard = true → Moves w.shared (answer q w).1.shared
  action_pumps : ∀ a w, Pumps w.shared (action a w).1.shared
  step_pumps : ∀ s t w, Pumps w.shared (step s t w).1.shared
  drift_moves : ∀ w, Moves w.shared (drift w).shared

theorem pumps_trans {s s' s'' : Shared} (h : Pumps s s') (h' : Pumps s' s'') : Pumps s s'' := by
  induction h' with
  | refl => exact h
  | act _ act ih => exact ih.act act
  | take _ taken ih => exact ih.take taken

/-- A stretch in which no message was pumped is one in which some may have been. -/
theorem pumps_of_moves {s s' : Shared} (h : Moves s s') : Pumps s s' := by
  obtain ⟨acts, hacts⟩ := h
  rw [hacts]
  clear hacts
  induction acts using List.reverseRecOn with
  | nil => exact .refl
  | append_singleton acts act ih =>
    rw [List.foldl_append]
    exact ih.act act

namespace Ports

variable (ports : Ports V)

/-- The ports as a paste of `epoch` asks them: whether it may go on is read off the epoch. -/
def ask (epoch : Nat) (q : Question) (w : World V) : World V × q.Answer :=
  match q with
  | .live =>
    let w := ports.drift w
    (w, w.shared.live epoch)
  | q => ports.answer q w

/-- The paste session over the ports. A call of it that panics is caught by the loop, and is
not one of these. -/
def session : Session (World V) PasteSession Attempt where
  attempt s state spec epoch w :=
    let made := (s.attempt state spec).within (ports.ask epoch) w
    match made.2 with
    | none => (s, made.1, .panicked)
    | some tried =>
      (tried.session, made.1,
        match tried.step, tried.state with
        | .waitUntil deadline, some state => .waitUntil state deadline
        | _, _ => .done)
  tick s now w :=
    let made := (s.tick now).within ports.answer w
    (made.2.1, made.1, some made.2.2)
  restoreIfDue s now w :=
    let made := (s.restoreIfDue now).within ports.answer w
    (made.2.1, made.1, some made.2.2)
  giveUp s w :=
    let made := s.giveUp.within ports.answer w
    (made.2, made.1)
  restoreNow s w :=
    let made := s.restoreNow.within ports.answer w
    (made.2, made.1)
  isPending s := s.pending.isSome
  next := PasteSession.next

theorem ask_pumps (epoch : Nat) (q : Question) (w : World V) :
    Pumps w.shared (ports.ask epoch q w).1.shared := by
  cases q with
  | live => exact pumps_of_moves (ports.drift_moves w)
  | _ => exact ports.answer_pumps _ w

/-- A program over the ports is one long call. -/
theorem within_pumps {β : Type} {answer : (q : Question) → World V → World V × q.Answer}
    (h : ∀ q w, Pumps w.shared (answer q w).1.shared) (p : Talk β) (w : World V) :
    Pumps w.shared (p.within answer w).1.shared := by
  have hany : Only (fun _ => True) p := fun _ _ _ _ _ => trivial
  exact within_only (R := fun w w' => Pumps w.shared w'.shared) (fun _ => .refl)
    (fun _ _ _ => pumps_trans) (fun q w _ => h q w) hany w

theorem restoreNow_moves (s : PasteSession) (w : World V) :
    Moves w.shared (s.restoreNow.within ports.answer w).1.shared :=
  within_only (R := fun w w' => Moves w.shared w'.shared) (fun _ => moves_refl _)
    (fun _ _ _ => moves_trans) ports.clipboard_moves s.restoreNow_only w

/-- The executor thread's surroundings. -/
def env : Env V PasteSession Attempt where
  action := ports.action
  step := ports.step
  session := ports.session
  close s now limit w :=
    let made := (s.close now limit).within ports.answer w
    (made.2.1, made.1, made.2.2)
  abandon s w :=
    let made := s.abandon.within ports.answer w
    (made.2, made.1)
  now := ports.now
  drift := ports.drift
  drift_moves := ports.drift_moves
  action_pumps := ports.action_pumps
  step_pumps := ports.step_pumps
  attempt_pumps s a p e w := by
    have h := within_pumps (ports.ask_pumps e) (s.attempt a p) w
    unfold session
    dsimp only
    split <;> exact h
  tick_pumps s now w := within_pumps ports.answer_pumps _ w
  restoreIfDue_pumps s now w := within_pumps ports.answer_pumps _ w
  giveUp_pumps s w := within_pumps ports.answer_pumps _ w
  tick_moves s now w h := by
    have hsame := PasteSession.tick_idle ports.answer s now w (Option.some.inj h)
    show Moves w.shared ((s.tick now).within ports.answer w).1.shared
    rw [hsame]
    exact moves_refl _
  restoreIfDue_moves s now w h := by
    have hsame := PasteSession.restoreIfDue_idle ports.answer s now w (Option.some.inj h)
    show Moves w.shared ((s.restoreIfDue now).within ports.answer w).1.shared
    rw [hsame]
    exact moves_refl _
  restoreNow_moves := ports.restoreNow_moves
  close_pumps s now limit w := within_pumps ports.answer_pumps _ w
  abandon_pumps s w := within_pumps ports.answer_pumps _ w

end Ports

/-! ## In any interleaving -/

/-- **In any interleaving, the executor thread misses no wake.** Whenever it waits, and is
not closing, each job in a queue it drained, each run and held job whose epoch is over and
each stop has a wake that waits for it, or that a thread will still post, or that Windows
refused since the pass began. -/
theorem no_lost_wake (ports : Ports V) (capacity : Nat) (rest : V)
    (happenings : List Happening) :
    WaitsAttended ((system ports.env).run (.new capacity .new rest) happenings) :=
  waits_attended ports.env capacity .new rest happenings

/-- **In any interleaving, no job is lost or done twice.** The queue holds the last jobs
accepted, in order and never more than its room. Every job before them was taken out once:
it has begun, waits to begin, or was dropped; those that a thread that died left in the
queue are counted. What a step logs of a job is what happened to it: the runner was called,
its run advanced, its epoch was over or a `Paste` waited. -/
theorem every_job_accounted (ports : Ports V) (capacity : Nat) (rest : V)
    (happenings : List Happening) :
    Accounted (max capacity 1) ((system ports.env).run (.new capacity .new rest) happenings) ∧
      ∀ x ∈ (system ports.env).trace (.new capacity .new rest) happenings,
        Logged ports.env x.before x.after :=
  system_accounted ports.env capacity .new rest happenings

/-! ## A dialog -/

/-- Others go on with a script, with one part of it at each read and in each action. -/
def goOn (w : World (List (List Act))) : World (List (List Act)) :=
  match w.rest with
  | [] => w
  | acts :: rest => ⟨acts.foldl Shared.act w.shared, rest⟩

theorem goOn_moves (w : World (List (List Act))) : Moves w.shared (goOn w).shared := by
  unfold goOn
  split
  · exact moves_refl _
  · next acts rest _ => exact ⟨acts, rfl⟩

/-- What a desk answers on which nothing stands in a paste's way. -/
def freeDesk : (q : Question) → q.Answer
  | .foreground => (7 : Int)
  | .responds _ _ => Probe.answered
  | .modifierDown => false
  | .press keys => (⟨2 * keys.length, 2 * keys.length⟩ : ComboSent)
  | .releaseAfter _ _ => (0 : Nat)
  | .createWindow => some (1 : Int)
  | .destroyWindow _ => ()
  | .owner => (none : Option Int)
  | .openClipboard _ => true
  | .closeClipboard => true
  | .emptyClipboard => true
  | .formats => ([] : List Format)
  | .formatName _ => (none : Option String)
  | .read _ _ => Read.failed
  | .write _ _ => true
  | .register marker => some (0xC000 + Marker.ALL.idxOf marker)
  | .sequenceNumber => (0 : Nat)
  | .now => (0 : Nat)
  | .live => true

/-- Ports over a script, where each action shows a dialog that takes the wakes that wait. -/
def dialogPorts : Ports (List (List Act)) where
  answer q w := (w, freeDesk q)
  action _ w :=
    let w := goOn w
    ({ w with shared := w.shared.takeWakes w.shared.mail.posts }, true)
  step _ _ w := (goOn w, true)
  now _ := 0
  drift := goOn
  answer_pumps _ _ := .refl
  clipboard_moves _ w _ := moves_refl w.shared
  action_pumps _ w := (pumps_of_moves (goOn_moves w)).take _
  step_pumps _ _ w := pumps_of_moves (goOn_moves w)
  drift_moves := goOn_moves

/-- While the first action runs, a second one is submitted, its epoch ends, and both wakes
are posted. -/
def dialogScript : List (List Act) :=
  [[], [], [],
    [.submit (.launch "b" []) 7, .cancelPending, .trySend 0, .wake true, .wake true]]

/-- The first action is submitted and runs, the thread goes on until it waits, and a third
one is queued whose wake is not posted yet. -/
def dialogHappenings : List Happening :=
  let go : Happening := .go ⟨true, .timer, false⟩
  [.other (.submit (.launch "a" []) 7), .other (.trySend 0), .other (.wake true),
    go, go, go, go, go, .other (.submit (.launch "c" []) 7), .other (.trySend 0)]

/-- The dialog took the second job's wake: the thread took the job all the same before it
waited. -/
theorem no_lost_wake_dialog :
    let t := (system dialogPorts.env).run (.new 2 .new dialogScript) dialogHappenings
    WaitsAttended t ∧ t.place = .waiting true ∧ t.shared.mail.posts = 0 ∧
      ids t.shared.mail.items = [2] :=
  ⟨no_lost_wake dialogPorts 2 dialogScript dialogHappenings, rfl, rfl, rfl⟩

/-- The first job began, the second was dropped, and the third is in the queue. -/
theorem every_job_accounted_dialog :
    let t := (system dialogPorts.env).run (.new 2 .new dialogScript) dialogHappenings
    Accounted 2 t ∧ began t.loop.runs.log = [0] ∧ lost .epochEnded t.loop.runs.log = [1] ∧
      ids t.shared.queued = [0, 1, 2] :=
  ⟨(every_job_accounted dialogPorts 2 dialogScript dialogHappenings).1, rfl, rfl, rfl⟩

end KeySwitch.Executor
