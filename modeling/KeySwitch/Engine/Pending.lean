import KeySwitch.Engine.Decide

/-!
# The timers that pending entries wait for

`timed` lists, for each pending entry that waits for a timer, the request that
timer was started with: held and due Holds, waiting Taps, chords, sequences. A
token is live exactly if a request with it is on that list (`isLive_iff`).

What an operation can do to the pending entries is then one statement about
lists: apart from the requests it makes, it adds none (`Subperm`). Moving an
entry between tables keeps its request, renumbering an entry makes a new one.
-/

namespace KeySwitch.Engine

open Data Lib

variable {α : Type}

/-- The request that a press waits for, if it waits for one. -/
def Press.timed (generation : Nat) (p : Press α) : List TimerRequest :=
  (p.phase.timerDue.map fun due => ⟨⟨generation, .gesture p.vk, p.seq⟩, due⟩).toList

def DueHold.timed (generation : Nat) (h : DueHold α) : TimerRequest :=
  ⟨⟨generation, .gesture h.vk, h.seq⟩, h.due⟩

def PendingChord.timed (generation : Nat) (c : PendingChord α) : TimerRequest :=
  ⟨⟨generation, .chord, c.seq⟩, c.expiresAt⟩

def PendingSequence.timed (generation : Nat) (s : PendingSequence α) : TimerRequest :=
  ⟨⟨generation, .sequence, s.seq⟩, s.expiresAt⟩

def Gestures.timed (generation : Nat) (g : Gestures α) : List TimerRequest :=
  g.presses.flatMap (Press.timed generation) ++ g.dueHolds.map (DueHold.timed generation)

def Chords.timed (generation : Nat) (c : Chords α) : List TimerRequest :=
  c.pending.map (PendingChord.timed generation)

def Sequences.timed (generation : Nat) (s : Sequences α) : List TimerRequest :=
  s.pending.map (PendingSequence.timed generation)

/-- The requests of every entry that waits for a timer. -/
def timed (e : Engine α) : List TimerRequest :=
  e.gestures.timed e.ids.generation ++ e.chords.timed e.ids.generation
    ++ e.sequences.timed e.ids.generation

/-! ## Live tokens -/

theorem Press.mem_timed {generation : Nat} {p : Press α} {r : TimerRequest} :
    r ∈ p.timed generation ↔
      r.token = ⟨generation, .gesture p.vk, p.seq⟩ ∧ p.phase.timerDue = some r.due := by
  unfold Press.timed
  rw [Option.mem_toList, Option.map_eq_some_iff]
  constructor
  · rintro ⟨due, hdue, rfl⟩
    exact ⟨rfl, hdue⟩
  · rintro ⟨htoken, hdue⟩
    exact ⟨r.due, hdue, by rw [← htoken]⟩

theorem Gestures.isLive_iff (g : Gestures α) (generation : Nat) (vk : VirtualKey) (seq : Nat) :
    g.isLive vk seq = true ↔
      ∃ due, ⟨⟨generation, .gesture vk, seq⟩, due⟩ ∈ g.timed generation := by
  unfold Gestures.isLive Gestures.timed
  rw [Bool.or_eq_true, List.any_eq_true, List.any_eq_true]
  constructor
  · rintro (⟨h, hmem, hours⟩ | ⟨p, hmem, hours⟩)
    · simp only [isDueHold, Bool.and_eq_true, beq_iff_eq] at hours
      obtain ⟨rfl, rfl⟩ := hours
      exact ⟨h.due, List.mem_append_right _ (List.mem_map_of_mem hmem)⟩
    · simp only [awaitsTimer, Bool.and_eq_true, beq_iff_eq] at hours
      obtain ⟨⟨rfl, rfl⟩, hdue⟩ := hours
      obtain ⟨due, hdue⟩ := Option.isSome_iff_exists.mp hdue
      exact ⟨due, List.mem_append_left _
        (List.mem_flatMap.mpr ⟨p, hmem, Press.mem_timed.mpr ⟨rfl, hdue⟩⟩)⟩
  · rintro ⟨due, hmem⟩
    rcases List.mem_append.mp hmem with hmem | hmem
    · obtain ⟨p, hp, hr⟩ := List.mem_flatMap.mp hmem
      obtain ⟨htoken, hdue⟩ := Press.mem_timed.mp hr
      injection htoken with _ hslot hseq
      injection hslot with hvk
      exact Or.inr ⟨p, hp, by simp [awaitsTimer, hvk, hseq, hdue]⟩
    · obtain ⟨h, hh, hr⟩ := List.mem_map.mp hmem
      injection hr with htoken _
      injection htoken with _ hslot hseq
      injection hslot with hvk
      exact Or.inl ⟨h, hh, by simp [isDueHold, hvk, hseq]⟩

theorem Chords.isLive_iff (c : Chords α) (generation seq : Nat) :
    c.isLive seq = true ↔ ∃ due, ⟨⟨generation, .chord, seq⟩, due⟩ ∈ c.timed generation := by
  unfold Chords.isLive Chords.timed
  rw [List.any_eq_true]
  constructor
  · rintro ⟨p, hmem, hseq⟩
    rw [beq_iff_eq] at hseq
    subst hseq
    exact ⟨p.expiresAt, List.mem_map_of_mem hmem⟩
  · rintro ⟨due, hmem⟩
    obtain ⟨p, hp, hr⟩ := List.mem_map.mp hmem
    injection hr with htoken _
    injection htoken with _ _ hseq
    exact ⟨p, hp, beq_iff_eq.mpr hseq⟩

theorem Sequences.isLive_iff (s : Sequences α) (generation seq : Nat) :
    s.isLive seq = true ↔ ∃ due, ⟨⟨generation, .sequence, seq⟩, due⟩ ∈ s.timed generation := by
  unfold Sequences.isLive Sequences.timed
  rw [List.any_eq_true]
  constructor
  · rintro ⟨p, hmem, hseq⟩
    rw [beq_iff_eq] at hseq
    subst hseq
    exact ⟨p.expiresAt, List.mem_map_of_mem hmem⟩
  · rintro ⟨due, hmem⟩
    obtain ⟨p, hp, hr⟩ := List.mem_map.mp hmem
    injection hr with htoken _
    injection htoken with _ _ hseq
    exact ⟨p, hp, beq_iff_eq.mpr hseq⟩

/-- Every request of the gestures names a gesture slot, and so on for each
table. -/
theorem Gestures.timed_slot {g : Gestures α} {generation : Nat} {r : TimerRequest}
    (h : r ∈ g.timed generation) : r.token.generation = generation ∧
      ∃ vk, r.token.slot = .gesture vk := by
  rcases List.mem_append.mp h with h | h
  · obtain ⟨p, -, hr⟩ := List.mem_flatMap.mp h
    rw [(Press.mem_timed.mp hr).1]
    exact ⟨rfl, p.vk, rfl⟩
  · obtain ⟨d, -, rfl⟩ := List.mem_map.mp h
    exact ⟨rfl, d.vk, rfl⟩

theorem Chords.timed_slot {c : Chords α} {generation : Nat} {r : TimerRequest}
    (h : r ∈ c.timed generation) : r.token.generation = generation ∧ r.token.slot = .chord := by
  obtain ⟨p, -, rfl⟩ := List.mem_map.mp h
  exact ⟨rfl, rfl⟩

theorem Sequences.timed_slot {s : Sequences α} {generation : Nat} {r : TimerRequest}
    (h : r ∈ s.timed generation) :
    r.token.generation = generation ∧ r.token.slot = .sequence := by
  obtain ⟨p, -, rfl⟩ := List.mem_map.mp h
  exact ⟨rfl, rfl⟩

theorem mem_timed {e : Engine α} {r : TimerRequest} : r ∈ e.timed ↔
    r ∈ e.gestures.timed e.ids.generation ∨ r ∈ e.chords.timed e.ids.generation ∨
      r ∈ e.sequences.timed e.ids.generation := by
  unfold timed
  rw [List.mem_append, List.mem_append, or_assoc]

/-- **A token is live exactly if an entry waits for it.** -/
theorem isLive_iff (e : Engine α) (token : TimerToken) :
    e.isLive token = true ↔ ∃ due, ⟨token, due⟩ ∈ e.timed := by
  obtain ⟨generation, slot, seq⟩ := token
  unfold Engine.isLive
  rw [Bool.and_eq_true, beq_iff_eq]
  constructor
  · rintro ⟨rfl, hlive⟩
    cases slot with
    | gesture vk =>
      obtain ⟨due, h⟩ := (e.gestures.isLive_iff e.ids.generation vk seq).mp hlive
      exact ⟨due, mem_timed.mpr (Or.inl h)⟩
    | chord =>
      obtain ⟨due, h⟩ := (e.chords.isLive_iff e.ids.generation seq).mp hlive
      exact ⟨due, mem_timed.mpr (Or.inr (Or.inl h))⟩
    | sequence =>
      obtain ⟨due, h⟩ := (e.sequences.isLive_iff e.ids.generation seq).mp hlive
      exact ⟨due, mem_timed.mpr (Or.inr (Or.inr h))⟩
  · rintro ⟨due, h⟩
    rcases mem_timed.mp h with h | h | h
    · obtain ⟨rfl, vk, hslot⟩ := Gestures.timed_slot h
      obtain rfl : slot = .gesture vk := hslot
      exact ⟨rfl, (e.gestures.isLive_iff e.ids.generation vk seq).mpr ⟨due, h⟩⟩
    · obtain ⟨rfl, hslot⟩ := Chords.timed_slot h
      obtain rfl : slot = .chord := hslot
      exact ⟨rfl, (e.chords.isLive_iff e.ids.generation seq).mpr ⟨due, h⟩⟩
    · obtain ⟨rfl, hslot⟩ := Sequences.timed_slot h
      obtain rfl : slot = .sequence := hslot
      exact ⟨rfl, (e.sequences.isLive_iff e.ids.generation seq).mpr ⟨due, h⟩⟩

end KeySwitch.Engine
