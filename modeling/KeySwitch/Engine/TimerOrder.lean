import KeySwitch.Engine.Schedule
import KeySwitch.Lib.Drain

/-!
# The order of the timer queue

Gestures that are due together fire in the order the queue hands their timers out. The
queue searches its vector for the first of the earliest due requests and removes it by
its index, so that the others keep their start order. Taken until it gives none, it
hands out every due request, earliest first, those due at the same time in start order
(`queue_order`).
-/

namespace KeySwitch.Engine

open Data Lib

/-- Whether the timer is due at `now`. -/
def TimerRequest.isDue (now : Instant) (request : TimerRequest) : Bool := request.due ≤ now

/-- Whether the one is due no later than the other. -/
def TimerRequest.dueBy (best request : TimerRequest) : Bool := best.due ≤ request.due

namespace TimerQueue

/-- Where the timer to hand out at `now` is: the first of those with the least due time,
among the due ones. -/
def dueIndex (q : TimerQueue) (now : Instant) : Option Nat :=
  (firstBest (fun entry => entry.1.isDue now) (fun best entry => best.1.dueBy entry.1)
    q.pending.zipIdx).map Prod.snd

/-- `takeDue` as the vector does it: the index is found, and its request removed. -/
def removeDue (q : TimerQueue) (now : Instant) : TimerQueue × Option TimerRequest :=
  match q.dueIndex now with
  | some index => (⟨q.pending.eraseIdx index⟩, q.pending[index]?)
  | none => (q, none)

theorem dueBy_preorder : TotalPreorder TimerRequest.dueBy := by
  unfold TimerRequest.dueBy
  constructor
  · intro x y
    rw [decide_eq_true_eq, decide_eq_true_eq]
    exact Nat.le_total x.due y.due
  · intro x y z hxy hyz
    rw [decide_eq_true_eq] at hxy hyz ⊢
    exact Nat.le_trans hxy hyz

/-- **What one call takes out**, and where it stood. -/
theorem removeDue_cases (q : TimerQueue) (now : Instant) :
    (q.removeDue now = (q, none) ∧ ∀ r ∈ q.pending, r.isDue now = false) ∨
      ∃ as r bs, q.pending = as ++ r :: bs ∧ q.removeDue now = (⟨as ++ bs⟩, some r) ∧
        IsFirstBest (TimerRequest.isDue now) TimerRequest.dueBy as r bs := by
  unfold removeDue dueIndex
  cases hfound : firstBest (fun entry : TimerRequest × Nat => entry.1.isDue now)
      (fun best entry => best.1.dueBy entry.1) q.pending.zipIdx with
  | none => exact Or.inl ⟨rfl, firstBest_zipIdx_none dueBy_preorder hfound⟩
  | some entry =>
    obtain ⟨r, index⟩ := entry
    obtain ⟨as, bs, hsplit, rfl, hbest⟩ := firstBest_zipIdx dueBy_preorder hfound
    refine Or.inr ⟨as, r, bs, hsplit, ?_, hbest⟩
    rw [hsplit]
    simp [List.eraseIdx_append_of_length_le]

/-- **The queue of the engine's timers hands out the same.** -/
theorem removeDue_eq (q : TimerQueue) (now : Instant) : q.removeDue now = q.takeDue now := by
  unfold takeDue
  rcases q.removeDue_cases now with ⟨hsame, hlate⟩ | ⟨as, r, bs, hsplit, hremoved, hbest⟩
  · rw [hsame]
    split
    · rfl
    · next due hdue =>
      obtain ⟨r, hr, rfl⟩ := nextDue_mem hdue
      have hnot : ¬r.due ≤ now := of_decide_eq_false (hlate r hr)
      rw [if_neg hnot]
  · have hdue : r.due ≤ now := of_decide_eq_true hbest.stands
    have hearlier : ∀ a ∈ as, r.due < a.due := by
      intro a ha
      by_cases hadue : a.due ≤ now
      · exact Nat.lt_of_not_le (of_decide_eq_false (hbest.before a ha (decide_eq_true hadue)))
      · exact Nat.lt_of_le_of_lt hdue (Nat.lt_of_not_le hadue)
    have hlater : ∀ b ∈ bs, r.due ≤ b.due := by
      intro b hb
      by_cases hbdue : b.due ≤ now
      · exact of_decide_eq_true (hbest.after b hb (decide_eq_true hbdue))
      · exact Nat.le_trans hdue (Nat.le_of_lt (Nat.lt_of_not_le hbdue))
    have hnext : q.nextDue = some r.due := by
      unfold nextDue
      rw [List.min?_eq_some_iff, hsplit]
      refine ⟨List.mem_map_of_mem (by simp), fun due hmem => ?_⟩
      obtain ⟨r', hr', rfl⟩ := List.mem_map.mp hmem
      rcases List.mem_append.mp hr' with hr' | hr'
      · exact Nat.le_of_lt (hearlier r' hr')
      · rcases List.mem_cons.mp hr' with rfl | hr'
        · exact Nat.le_refl _
        · exact hlater r' hr'
    rw [hremoved, hnext]
    dsimp only
    rw [if_pos hdue]
    have hfirst : ∀ a ∈ as, (a.due == r.due) = false := fun a ha => by
      simpa using Nat.ne_of_gt (hearlier a ha)
    obtain ⟨hfind, herase⟩ :
        (as ++ r :: bs).find? (fun r' => r'.due == r.due) = some r ∧
          (as ++ r :: bs).eraseP (fun r' => r'.due == r.due) = as ++ bs :=
      find?_middle hfirst (by simp)
    rw [hsplit, hfind, herase]

/-! ## Every due timer -/

theorem removeDue_length {q q' : TimerQueue} {now : Instant} {r : TimerRequest}
    (h : q.removeDue now = (q', some r)) : q'.pending.length < q.pending.length := by
  rcases q.removeDue_cases now with ⟨hsame, -⟩ | ⟨as, r', bs, hsplit, hremoved, -⟩
  · rw [hsame] at h
    exact absurd (Prod.mk.inj h).2 (by simp)
  · rw [hremoved] at h
    rw [← (Prod.mk.inj h).1, hsplit]
    simp

/-- The requests handed out at `now` until none is due, and the queue they leave. -/
def takeAll (q : TimerQueue) (now : Instant) : List TimerRequest × TimerQueue :=
  match _h : q.removeDue now with
  | (_, none) => ([], q)
  | (q', some request) =>
    let later := takeAll q' now
    (request :: later.1, later.2)
termination_by q.pending.length
decreasing_by exact removeDue_length _h

/-- Taking every due timer drains the queue. -/
theorem takeAll_drains (q : TimerQueue) (now : Instant) :
    Drains (TimerRequest.isDue now) TimerRequest.dueBy q.pending (q.takeAll now).1
      (q.takeAll now).2.pending := by
  induction hn : q.pending.length using Nat.strongRecOn generalizing q with
  | ind n ih =>
    unfold takeAll
    rcases q.removeDue_cases now with ⟨hsame, hlate⟩ | ⟨as, r, bs, hsplit, hremoved, hbest⟩
    · split
      · exact .stop hlate
      · next q' r h =>
        rw [hsame] at h
        exact absurd (Prod.mk.inj h).2 (by simp)
    · split
      · next q' h =>
        rw [hremoved] at h
        exact absurd (Prod.mk.inj h).2 (by simp)
      · next q' r' h =>
        have hlt := removeDue_length h
        rw [hremoved] at h
        obtain ⟨rfl, heq⟩ := Prod.mk.inj h
        obtain rfl := Option.some.inj heq
        rw [hsplit]
        exact .take hbest (ih _ (hn ▸ hlt) _ rfl)

end TimerQueue

/-! ## The queue over its calls -/

/-- A call that changes what is queued. -/
inductive QueueCall
  | start (request : TimerRequest)
  | retain (live : TimerToken → Bool)

/-- The queue after one call. -/
def TimerQueue.call (q : TimerQueue) : QueueCall → TimerQueue
  | .start request => (q.start request).1
  | .retain live => q.retain live

/-- Whether a later call keeps `request` queued. -/
def QueueCall.keeps (request : TimerRequest) : QueueCall → Bool
  | .start _ => true
  | .retain live => live request.token

/-- What is queued after `calls`: what was started and never rejected, in start order. -/
def queued : List QueueCall → List TimerRequest
  | [] => []
  | .start request :: later =>
    if later.all (QueueCall.keeps request) then request :: queued later else queued later
  | .retain _ :: later => queued later

theorem foldl_call_pending (q : TimerQueue) (calls : List QueueCall) :
    (calls.foldl TimerQueue.call q).pending =
      (q.pending.filter fun r => calls.all (QueueCall.keeps r)) ++ queued calls := by
  induction calls generalizing q with
  | nil => simp [queued]
  | cons call calls ih =>
    rw [List.foldl_cons, ih]
    cases call with
    | start request =>
      have hpending : (q.call (.start request)).pending = q.pending ++ [request] := rfl
      have hqueued : queued (.start request :: calls) =
          [request].filter (fun r => calls.all (QueueCall.keeps r)) ++ queued calls := by
        rw [queued]
        by_cases hkept : calls.all (QueueCall.keeps request)
        · simp [hkept]
        · simp [hkept]
      rw [hpending, List.filter_append, List.append_assoc, hqueued]
      rfl
    | retain live =>
      have hpending : (q.call (.retain live)).pending =
        q.pending.filter fun r => live r.token := rfl
      rw [hpending, List.filter_filter]
      congr 1
      exact List.filter_congr fun r _ => by simp [QueueCall.keeps, Bool.and_comm]

/-- What the queue hands out at `now`, and what it keeps. -/
structure QueueOrder (requests : List TimerRequest) (now : Instant)
    (out left : List TimerRequest) : Prop where
  /-- Every due request, each once. -/
  due : out.Perm (requests.filter (TimerRequest.isDue now))
  sorted : out.Pairwise fun r r' => r.due ≤ r'.due
  /-- Those due at the same time in start order. -/
  stable : ∀ time, (out.filter fun r => r.due == time) =
    (requests.filter (TimerRequest.isDue now)).filter fun r => r.due == time
  /-- The others stay, in start order. -/
  left : left = requests.filter fun r => !r.isDue now

/-- **The queue hands out every due timer, earliest first, and keeps the others**, after
any calls. -/
theorem queue_order (calls : List QueueCall) (now : Instant) :
    let q := calls.foldl TimerQueue.call .new
    let taken := q.takeAll now
    QueueOrder (queued calls) now taken.1 taken.2.pending ∧
      q.nextDue = ((queued calls).map TimerRequest.due).min? ∧
      taken.2.nextDue =
        (((queued calls).filter fun r => !r.isDue now).map TimerRequest.due).min? := by
  intro q taken
  have hqueued : q.pending = queued calls := foldl_call_pending .new calls
  have hdrains := TimerQueue.takeAll_drains q now
  rw [hqueued] at hdrains
  have hleft := drains_left hdrains
  refine ⟨⟨drains_perm hdrains, ?_, fun time => ?_, hleft⟩, ?_, ?_⟩
  · exact (drains_sorted TimerQueue.dueBy_preorder hdrains).imp fun h => of_decide_eq_true h
  · refine drains_stable (fun x y hx hy => ?_) hdrains
    rw [beq_iff_eq] at hx hy
    exact decide_eq_true (Nat.le_of_eq (hx.trans hy.symm))
  · unfold TimerQueue.nextDue
    rw [hqueued]
  · unfold TimerQueue.nextDue
    rw [hleft]

end KeySwitch.Engine
