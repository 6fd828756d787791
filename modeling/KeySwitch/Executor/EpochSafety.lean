import KeySwitch.Executor.Loop
import KeySwitch.Executor.Tallies

/-!
# Work of an ended epoch

A job that begins at its `start`, and every step and paste try of a run, is begun
right after a check of its epoch. A plain action that was held is not: its epoch was
found live by the sweep at the head of the poll (`released_found`), and the calls
between the two, the held actions before it among them, may end it. So every call is
made for a live epoch exactly in the runs of which no poll releases a plain action
whose epoch ended earlier in that poll (`calls_live`), and not in all of them
(`ended_by_the_first`).
-/

namespace KeySwitch.Executor

open Data Lib

variable {W S A : Type}

/-! ## What a poll releases -/

namespace Runs

theorem releases_held (ctx : Ctx W S A) (held : List Job) :
    ∀ r : Runs W S A, ∀ x ∈ r.releases ctx held, x.1 ∈ held := by
  induction held with
  | nil => exact fun r x hx => absurd hx List.not_mem_nil
  | cons job rest ih =>
    intro r x hx
    unfold releases at hx
    split at hx
    · exact absurd hx List.not_mem_nil
    · rcases List.mem_cons.mp hx with rfl | hx
      · exact List.mem_cons_self
      · exact List.mem_cons_of_mem _ (ih _ x hx)

/-- **What a poll releases was found live in that poll**, before its first runner
call. -/
theorem released_found (ctx : Ctx W S A) (r : Runs W S A) : ∀ x ∈ r.released ctx,
    ∃ w, Made ctx r.world 0 w ∧ ctx.live w x.1.epoch = true := by
  intro x hx
  obtain ⟨hmade₁, -, -, -⟩ := retainActive_found ctx r.active r
  obtain ⟨-, -, -, hkept⟩ := retainHeld_found ctx (retainActive ctx r.active r).held
    (retainActive ctx r.active r)
  unfold released at hx
  dsimp only at hx
  have hheld := releases_held ctx _ _ x hx
  -- The runs that go on before the release hold no job, and let none go.
  rw [advanceFrom_held, (sessionCall_quiet ctx ctx.session.tick _).held] at hheld
  obtain ⟨w, hlive, hmade, -⟩ := hkept x.1 hheld
  exact ⟨w, hmade₁.trans hmade, hlive⟩

end Runs

/-! ## Runs of calls -/

/-- The call is no poll that releases a plain action whose epoch ended in it. -/
def ReleasesLive (s : Loop W S A) : Call W S A → Prop
  | .start .. => True
  | .poll ctx => LiveAtRelease ctx (s.runs.released ctx)

/-- One call, with the runs as they should be before it. -/
theorem call_live {s : Loop W S A} (hwf : ∀ run ∈ s.runs.active, run.Wf) (c : Call W S A) :
    (∀ run ∈ (s.call c).runs.active, run.Wf) ∧
      (AllLive (s.call c).runs.log ↔ AllLive s.runs.log ∧ ReleasesLive s c) := by
  cases c with
  | start ctx action target epoch =>
    refine ⟨Runs.start_wf ctx _ hwf, (Runs.start_live ctx _ s.runs).trans ?_⟩
    exact (and_iff_left trivial).symm
  | poll ctx =>
    obtain ⟨gone, hpolled⟩ := Runs.poll_polled ctx s.runs hwf
    exact ⟨hpolled.wf, hpolled.live⟩

/-- **Every runner action, macro step and paste try is begun for a live epoch if and
only if no poll releases a plain action whose epoch ended in that poll**, in every
run of calls; the epoch of what a poll releases was live in that poll, before any
call of the runner. -/
theorem calls_live (session : S) (world : W) (cs : List (Call W S A)) :
    (AllLive ((calls W S A).run (.new session world) cs).runs.log ↔
      ∀ x ∈ (calls W S A).trace (.new session world) cs, ReleasesLive x.before x.input) ∧
    ∀ x ∈ (calls W S A).trace (.new session world) cs, ∀ ctx, x.input = .poll ctx →
      ∀ y ∈ x.before.runs.released ctx,
        ∃ w, Made ctx x.before.runs.world 0 w ∧ ctx.live w y.1.epoch = true := by
  have hrun : ∀ (cs : List (Call W S A)) (s : Loop W S A), (∀ run ∈ s.runs.active, run.Wf) →
      (AllLive ((calls W S A).run s cs).runs.log ↔
        AllLive s.runs.log ∧ ∀ x ∈ (calls W S A).trace s cs, ReleasesLive x.before x.input) := by
    intro cs
    induction cs with
    | nil => exact fun s _ => (and_iff_left fun x hx => absurd hx List.not_mem_nil).symm
    | cons c cs ih =>
      intro s hwf
      obtain ⟨hwf', hlive⟩ := call_live hwf c
      rw [Machine.run_cons, Machine.trace_cons, List.forall_mem_cons]
      refine (ih (s.call c) hwf').trans ?_
      rw [hlive, and_assoc]
      rfl
  refine ⟨?_, fun x _ ctx _ => Runs.released_found ctx x.before.runs⟩
  refine (hrun cs _ fun _ hmem => absurd hmem List.not_mem_nil).trans ?_
  exact and_iff_right fun _ hmem => absurd hmem List.not_mem_nil

/-! ## A launch that ends the epoch -/

/-- A world that is its epoch. A paste waits once and is done at its second try,
and a `Launch` ends the epoch. -/
def epochCtx : Ctx Nat Bool Unit where
  action
    | .launch .., epoch => (epoch + 1, false)
    | _, epoch => (epoch, false)
  step _ _ epoch := (epoch, false)
  session :=
    { attempt := fun tried _ _ _ epoch =>
        if tried then (tried, epoch, .done) else (true, epoch, .waitUntil () 5)
      tick := fun tried _ epoch => (tried, epoch, some false)
      restoreIfDue := fun tried _ epoch => (tried, epoch, some false)
      giveUp := fun tried epoch => (tried, epoch)
      restoreNow := fun tried epoch => (tried, epoch)
      isPending := fun _ => false
      next := fun _ => none }
  live epoch fired := epoch == fired
  now _ := 9
  drift epoch := epoch

instance (ctx : Ctx W S A) (released : List (Job × Runs W S A)) :
    Decidable (LiveAtRelease ctx released) :=
  inferInstanceAs (Decidable (∀ x ∈ released,
    x.1.action.isPlain = true → ctx.live x.2.world x.1.epoch = true))

instance (s : Loop W S A) : (c : Call W S A) → Decidable (ReleasesLive s c)
  | .start .. => inferInstanceAs (Decidable True)
  | .poll ctx => inferInstanceAs (Decidable (LiveAtRelease ctx (s.runs.released ctx)))

/-- A text and a program to launch are held behind a paste, and released in one
poll, which ends their epoch; one more text of that epoch comes after it. -/
def launchLast : List (Call Nat Bool Unit) :=
  [.start epochCtx (.paste ⟨[], [], 0⟩) 0 0, .poll epochCtx, .start epochCtx (.text "hi") 0 0,
    .start epochCtx (.launch "calc.exe" []) 0 0, .poll epochCtx,
    .start epochCtx (.text "late") 0 0, .poll epochCtx]

/-- The text and the launch begin while their epoch lives; the late text does not
begin. -/
theorem calls_live_launchLast :
    let s := (calls Nat Bool Unit).run (.new false 0) launchLast
    AllLive s.runs.log ∧ began s.runs.log = [0, 1, 2] ∧ lost .epochEnded s.runs.log = [3] ∧
      s.runs.world = 1 :=
  ⟨(calls_live false 0 launchLast).1.mpr (by decide), by decide, by decide, by decide⟩

/-- Two programs to launch are held behind a paste, and released in one poll. -/
def twoLaunches : List (Call Nat Bool Unit) :=
  [.start epochCtx (.paste ⟨[], [], 0⟩) 0 0, .poll epochCtx,
    .start epochCtx (.launch "notepad.exe" []) 0 0, .start epochCtx (.launch "calc.exe" []) 0 0,
    .poll epochCtx]

/-- The first of the two ends the epoch, and the second is launched all the
same. -/
theorem ended_by_the_first :
    ¬ AllLive ((calls Nat Bool Unit).run (.new false 0) twoLaunches).runs.log := by
  intro h
  exact absurd (h false (by decide)) (by decide)

end KeySwitch.Executor
