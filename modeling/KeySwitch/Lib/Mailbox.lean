import Mathlib.Data.List.Basic

/-!
# A queue whose senders announce what they did

Senders put items into a bounded queue, or change something else that its reader must
look at, and then each owes the reader a post: it does the one before the other, so that
a reader who looked too early is woken once more. The reader takes items until there are
none, and waits only then. A post may be refused.

`Told` says that the reader will be woken, or would have been: a post is owed or waits, or
one was refused since the reader last began to look. What senders do keeps it
(`Sent.told`), and brings it about where there is anything new (`Sent.news`). So a reader
that found the queue empty, and took no post after that, has been told of every item that
is in the queue (`Sent.empty`).
-/

namespace KeySwitch.Lib

structure Mailbox (α : Type) where
  capacity : Nat
  items : List α
  /-- Senders that have done something and not posted yet. -/
  owed : Nat
  /-- Posts that the reader has not taken. -/
  posts : Nat
  /-- Whether a post was refused since the reader last began to look. -/
  refused : Bool

namespace Mailbox

variable {α : Type}

def new (capacity : Nat) : Mailbox α := ⟨capacity, [], 0, 0, false⟩

/-- Puts `a` into the queue; `none` if it is full. -/
def trySend (m : Mailbox α) (a : α) : Option (Mailbox α) :=
  if m.items.length < m.capacity then
    some { m with items := m.items ++ [a], owed := m.owed + 1 }
  else none

/-- Something else has changed that the reader must look at. -/
def publish (m : Mailbox α) : Mailbox α := { m with owed := m.owed + 1 }

/-- A sender posts, and is refused or not. -/
def post (m : Mailbox α) (accepted : Bool) : Mailbox α :=
  if m.owed = 0 then m
  else if accepted then { m with owed := m.owed - 1, posts := m.posts + 1 }
  else { m with owed := m.owed - 1, refused := true }

/-- The reader begins to look. -/
def look (m : Mailbox α) : Mailbox α := { m with refused := false }

/-- The reader takes the first item. -/
def receive (m : Mailbox α) : Option (α × Mailbox α) :=
  match m.items with
  | [] => none
  | a :: items => some (a, { m with items := items })

/-- The reader takes posts. -/
def takePosts (m : Mailbox α) (n : Nat) : Mailbox α := { m with posts := m.posts - n }

/-- The reader will be woken, or would have been had no post been refused. -/
def Told (m : Mailbox α) : Prop := 0 < m.owed ∨ 0 < m.posts ∨ m.refused = true

@[simp] theorem post_items (m : Mailbox α) (accepted : Bool) :
    (m.post accepted).items = m.items := by
  unfold post
  split
  · rfl
  · split <;> rfl

@[simp] theorem post_capacity (m : Mailbox α) (accepted : Bool) :
    (m.post accepted).capacity = m.capacity := by
  unfold post
  split
  · rfl
  · split <;> rfl

theorem told_publish (m : Mailbox α) : m.publish.Told := .inl (Nat.succ_pos _)

theorem told_post {m : Mailbox α} (h : m.Told) (accepted : Bool) : (m.post accepted).Told := by
  unfold post
  split
  · exact h
  · split
    · exact .inr (.inl (Nat.succ_pos _))
    · exact .inr (.inr rfl)

theorem trySend_some {m m' : Mailbox α} {a : α} (h : m.trySend a = some m') :
    m.items.length < m.capacity ∧
      m' = { m with items := m.items ++ [a], owed := m.owed + 1 } := by
  unfold trySend at h
  split at h
  · next hroom => exact ⟨hroom, (Option.some.inj h).symm⟩
  · exact absurd h (by simp)

theorem trySend_none {m : Mailbox α} {a : α} (h : m.trySend a = none) :
    m.capacity ≤ m.items.length := by
  unfold trySend at h
  split at h
  · exact absurd h (by simp)
  · next hfull => omega

theorem receive_some {m m' : Mailbox α} {a : α} (h : m.receive = some (a, m')) :
    ∃ items, m.items = a :: items ∧ m' = { m with items := items } := by
  unfold receive at h
  split at h
  · exact absurd h (by simp)
  · next b items hitems =>
    obtain ⟨rfl, rfl⟩ := Prod.mk.inj (Option.some.inj h)
    exact ⟨items, hitems, rfl⟩

theorem receive_none {m : Mailbox α} (h : m.receive = none) : m.items = [] := by
  unfold receive at h
  split at h
  · next hitems => exact hitems
  · exact absurd h (by simp)

/-! ## What senders do -/

/-- What any senders did, each in its order. -/
inductive Sent (m : Mailbox α) : Mailbox α → Prop
  | refl : Sent m m
  | trySend {m' m'' : Mailbox α} {a : α} (h : Sent m m') (hs : m'.trySend a = some m'') :
    Sent m m''
  | publish {m' : Mailbox α} (h : Sent m m') : Sent m m'.publish
  | post {m' : Mailbox α} (h : Sent m m') (accepted : Bool) : Sent m (m'.post accepted)

namespace Sent

variable {m m' : Mailbox α}

/-- A reader that was told stays told. -/
theorem told (h : Sent m m') (hm : m.Told) : m'.Told := by
  induction h with
  | refl => exact hm
  | trySend _ hs ih =>
    obtain ⟨-, rfl⟩ := trySend_some hs
    exact .inl (Nat.succ_pos _)
  | publish _ ih => exact told_publish _
  | post _ accepted ih => exact told_post ih accepted

/-- The reader is told of what is new. -/
theorem news (h : Sent m m') (hnew : m'.items ≠ m.items) : m'.Told := by
  induction h with
  | refl => exact absurd rfl hnew
  | trySend _ hs ih =>
    obtain ⟨-, rfl⟩ := trySend_some hs
    exact .inl (Nat.succ_pos _)
  | publish _ ih => exact told_publish _
  | post _ accepted ih =>
    rw [post_items] at hnew
    exact told_post (ih hnew) accepted

/-- **A reader that found nothing is told of whatever has come since.** -/
theorem empty (h : Sent m m') (hm : m.items = []) (hitems : m'.items ≠ []) : m'.Told := by
  apply h.news
  rw [hm]
  exact hitems

end Sent

end Mailbox

end KeySwitch.Lib
