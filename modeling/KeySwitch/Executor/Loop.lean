import KeySwitch.Executor.Polls
import KeySwitch.Lib.Ledger

/-!
# The runs under the executor's loop

The loop takes jobs out of a queue, each followed by a poll, and polls again when
a timer or a message wakes it; where the timer cannot be set it calls
`drop_timed` instead. Every call comes with its own `Ctx`, so that the world may
answer one in a way it did not answer the last.

Three machines on one state, each made of the one before: single calls, passes
(a `start` with its poll, or a poll alone), and turns of the loop.
-/

namespace KeySwitch.Executor

open Data Lib

variable {W S A : Type}

/-- The runs, and how many jobs were submitted. -/
structure Loop (W S A : Type) where
  runs : Runs W S A
  submitted : Nat

/-- One call of `Runs`. -/
inductive Call (W S A : Type)
  | start (ctx : Ctx W S A) (action : BindAction) (target : TargetWindow) (epoch : Nat)
  | poll (ctx : Ctx W S A)

/-- A job with the poll that follows it, or a poll alone. -/
inductive Pass (W S A : Type)
  | submit (ctx : Ctx W S A) (action : BindAction) (target : TargetWindow) (epoch : Nat)
  | poll (ctx : Ctx W S A)

/-- What a pass needs of the world. -/
def Pass.ctx : Pass W S A → Ctx W S A
  | .submit ctx .. => ctx
  | .poll ctx => ctx

/-- What `run_loop` does between two waits: passes, and `drop_timed` where the
timer could not be set. -/
inductive Turn (W S A : Type)
  | pass (pass : Pass W S A)
  | timerFailed (ctx : Ctx W S A)

namespace Loop

def new (session : S) (world : W) : Loop W S A := ⟨.new session world, 0⟩

def start (ctx : Ctx W S A) (action : BindAction) (target : TargetWindow) (epoch : Nat)
    (s : Loop W S A) : Loop W S A :=
  ⟨s.runs.start ctx ⟨s.submitted, action, target, epoch⟩, s.submitted + 1⟩

def poll (ctx : Ctx W S A) (s : Loop W S A) : Loop W S A := { s with runs := s.runs.poll ctx }

def call (s : Loop W S A) : Call W S A → Loop W S A
  | .start ctx action target epoch => s.start ctx action target epoch
  | .poll ctx => s.poll ctx

def pass (s : Loop W S A) : Pass W S A → Loop W S A
  | .submit ctx action target epoch => (s.start ctx action target epoch).poll ctx
  | .poll ctx => s.poll ctx

def turn (s : Loop W S A) : Turn W S A → Loop W S A
  | .pass p => s.pass p
  | .timerFailed ctx => { s with runs := s.runs.dropTimed ctx }

end Loop

/-- Calls in any order. -/
def calls (W S A : Type) : Machine (Loop W S A) (Call W S A) Unit where
  step s c := (s.call c, ())
  enabled _ _ := True

/-- Passes in any order. -/
def passes (W S A : Type) : Machine (Loop W S A) (Pass W S A) Unit where
  step s p := (s.pass p, ())
  enabled _ _ := True

/-- Turns of the loop in any order. -/
def turns (W S A : Type) : Machine (Loop W S A) (Turn W S A) Unit where
  step s t := (s.turn t, ())
  enabled _ _ := True

/-! ## What holds between two passes -/

/-- Every job submitted is accounted for, every run has started, and jobs are
held only behind a paste that waits. -/
structure Settled (s : Loop W S A) : Prop where
  books : Ledger s.submitted (line s.runs)
    (lost .epochEnded s.runs.log ++ lost .secondPaste s.runs.log)
  started : unstarted s.runs.active = []
  wf : ∀ run ∈ s.runs.active, run.Wf
  waits : s.runs.held = [] ∨ s.runs.attemptWaits = true
  counted : s.runs.calls.droppedPastes = (lost .secondPaste s.runs.log).length

/-- Between a `start` and its poll: the job may be a run that has not started. -/
structure Filed (s : Loop W S A) : Prop where
  books : Ledger s.submitted (line s.runs)
    (lost .epochEnded s.runs.log ++ lost .secondPaste s.runs.log)
  wf : ∀ run ∈ s.runs.active, run.Wf
  counted : s.runs.calls.droppedPastes = (lost .secondPaste s.runs.log).length

theorem settled_new (session : S) (world : W) : Settled (Loop.new session world : Loop W S A) :=
  ⟨Ledger.empty, rfl, fun _ h => absurd h List.not_mem_nil, .inl rfl, rfl⟩

theorem quiet_line {r r' : Runs W S A} (h : Quiet r r') : line r' = line r := by
  unfold line
  rw [(quiet_books h).1, h.active, h.held]

/-- One job goes into the books, and overtakes none: it begins only if no job is
held. -/
theorem start_filed {s : Loop W S A} (hs : Settled s) (ctx : Ctx W S A) (action : BindAction)
    (target : TargetWindow) (epoch : Nat) : Filed (s.start ctx action target epoch) := by
  have hwf := Runs.start_wf ctx ⟨s.submitted, action, target, epoch⟩ hs.wf
  have hstarted := s.runs.start_started ctx ⟨s.submitted, action, target, epoch⟩
  unfold Loop.start
  generalize s.runs.start ctx ⟨s.submitted, action, target, epoch⟩ = r' at hwf hstarted ⊢
  cases hstarted with
  | @refused q why hquiet =>
    obtain ⟨-, hlost, -⟩ := quiet_books hquiet
    have hline : line (q.record (.dropped s.submitted why)) = line s.runs := by
      rw [← quiet_line hquiet]
      simp [line, Runs.record, began]
    -- The newest action is lost at once; the line stays as it was.
    refine ⟨?_, hwf, ?_⟩
    · have hbooks := hs.books.turnAway
      cases why with
      | epochEnded =>
        refine (hline ▸ hbooks).perm_lost ?_
        simp only [Runs.record, lost_append, hlost]
        simp only [lost, List.filterMap_cons, List.filterMap_nil, reduceCtorEq, if_true, if_false,
          List.append_nil, List.append_assoc]
        exact List.Perm.append_left _ List.perm_append_comm
      | secondPaste =>
        refine (hline ▸ hbooks).perm_lost ?_
        simp only [Runs.record, lost_append, hlost]
        simp only [lost, List.filterMap_cons, List.filterMap_nil, reduceCtorEq, if_true, if_false,
          List.append_nil, List.append_assoc]
        exact List.Perm.refl _
    · simp only [Runs.record, lost_append, hlost, hquiet.dropped, hs.counted, List.length_append]
      cases why <;> simp [lost, Lost.counted]
  | @waits q hquiet _ =>
    obtain ⟨-, hlost, -⟩ := quiet_books hquiet
    -- It waits, last in the line.
    refine ⟨?_, hwf, ?_⟩
    · have hline : line { q with held := q.held ++ [⟨s.submitted, action, target, epoch⟩] } =
          line s.runs ++ [s.submitted] := by
        rw [← quiet_line hquiet]
        simp [line, ids]
      simp only [hline, hlost]
      exact hs.books.enter
    · simp only [hlost, hquiet.dropped, hs.counted]
  | @begun q hquiet hfree _ =>
    obtain ⟨-, hlost, -⟩ := quiet_books hquiet
    obtain ⟨fresh, hbegun⟩ := Runs.begin_begun ctx ⟨s.submitted, action, target, epoch⟩ q
    refine ⟨?_, hwf, ?_⟩
    · -- A run begins at once only when none is held, so it is last in the line too.
      have hheld : s.runs.held = [] := by
        rcases hs.waits with hheld | hwaits
        · exact hheld
        · have hsame : q.attemptWaits = s.runs.attemptWaits := by
            unfold Runs.attemptWaits
            rw [hquiet.active]
          rw [hsame, hwaits] at hfree
          exact absurd hfree (by simp)
      have hline : line (q.begin ctx ⟨s.submitted, action, target, epoch⟩) =
          line s.runs ++ [s.submitted] := by
        unfold line
        rw [hbegun.active, hbegun.held, hquiet.held, hheld, unstarted_append, hquiet.active,
          hs.started, List.nil_append, hbegun.began, (quiet_books hquiet).1]
        simp [ids]
      rw [hline, hbegun.lost, hbegun.lost, hlost, hlost]
      exact hs.books.enter
    · rw [hbegun.dropped, hquiet.dropped, hbegun.lost, hlost]
      exact hs.counted

/-- A poll keeps the books and leaves every run started. -/
theorem poll_settled {s : Loop W S A} (hs : Filed s) (ctx : Ctx W S A) : Settled (s.poll ctx) := by
  obtain ⟨gone, hpolled⟩ := Runs.poll_polled ctx s.runs hs.wf
  refine ⟨?_, hpolled.unstarted, hpolled.wf, hpolled.waits, ?_⟩
  · refine (hs.books.leave hpolled.sub hpolled.line).perm_lost ?_
    show List.Perm (lost .epochEnded (s.runs.poll ctx).log ++
      lost .secondPaste (s.runs.poll ctx).log) _
    rw [hpolled.ended, hpolled.pastes, List.append_assoc, List.append_assoc]
    exact List.Perm.append_left _ List.perm_append_comm
  · show (s.runs.poll ctx).calls.droppedPastes = (lost .secondPaste (s.runs.poll ctx).log).length
    rw [hpolled.dropped, hpolled.pastes]
    exact hs.counted

theorem pass_settled {s : Loop W S A} (hs : Settled s) (p : Pass W S A) : Settled (s.pass p) := by
  cases p with
  | submit ctx action target epoch =>
    exact poll_settled (start_filed hs ctx action target epoch) ctx
  | poll ctx => exact poll_settled ⟨hs.books, hs.wf, hs.counted⟩ ctx

theorem passes_settled (session : S) (world : W) (ps : List (Pass W S A)) :
    Settled ((passes W S A).run (.new session world) ps) := by
  have hinv : (passes W S A).Invariant Settled := fun s p hs _ => pass_settled hs p
  exact hinv.run (settled_new session world) (Machine.legal_of_enabled _ (fun _ _ => trivial) _ _)

end KeySwitch.Executor
