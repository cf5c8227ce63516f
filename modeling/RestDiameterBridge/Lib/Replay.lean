import Mathlib.Data.List.Induction

/-!
# RestDiameterBridge.Lib.Replay

State that is determined by the events it has taken.

`Replay allows next start events s` says that `events`, each allowed in the state it came
in, have led from `start` to `s`. What is known of the state in which one event of many came
is `Replay.allowed`; what that event brought about holds for as long as the later ones keep
it (`Replay.keeps`).
-/

/-- The events have led from the start to the state. -/
inductive Replay {σ ε : Type} (allows : σ → ε → Prop) (next : σ → ε → σ) (start : σ) :
    List ε → σ → Prop
  | nil : Replay allows next start [] start
  | snoc {events : List ε} {s : σ} {e : ε} :
      Replay allows next start events s → allows s e →
      Replay allows next start (events ++ [e]) (next s e)

namespace Replay

variable {σ ε : Type} {allows : σ → ε → Prop} {next : σ → ε → σ} {start s t : σ}
  {events before after : List ε} {e : ε}

/-- The last event splits off. -/
theorem of_snoc (h : Replay allows next start (events ++ [e]) t) :
    ∃ s, Replay allows next start events s ∧ allows s e ∧ t = next s e := by
  generalize hall : events ++ [e] = all at h
  cases h with
  | nil => simp at hall
  | snoc hbefore hallows =>
    obtain ⟨rfl, heq⟩ := List.append_inj' hall rfl
    cases heq
    exact ⟨_, hbefore, hallows, rfl⟩

/-- A replay can be cut in two. -/
theorem of_append (h : Replay allows next start (before ++ after) t) :
    ∃ s, Replay allows next start before s ∧ Replay allows next s after t := by
  induction after using List.reverseRecOn generalizing t with
  | nil => exact ⟨t, by simpa using h, .nil⟩
  | append_singleton after e ih =>
    rw [← List.append_assoc] at h
    obtain ⟨u, hu, hallows, rfl⟩ := h.of_snoc
    obtain ⟨s, hbefore, hafter⟩ := ih hu
    exact ⟨s, hbefore, hafter.snoc hallows⟩

/-- Every event was allowed in the state it came in. -/
theorem allowed (h : Replay allows next start (before ++ e :: after) t) :
    ∃ s, Replay allows next start before s ∧ allows s e ∧
      Replay allows next (next s e) after t := by
  rw [show before ++ e :: after = (before ++ [e]) ++ after by simp] at h
  obtain ⟨u, hu, hafter⟩ := h.of_append
  obtain ⟨s, hbefore, hallows, rfl⟩ := hu.of_snoc
  exact ⟨s, hbefore, hallows, hafter⟩

/-- What every event keeps, the whole replay keeps. -/
theorem holds {P : σ → Prop} (h : Replay allows next start events t) (hstart : P start)
    (hstep : ∀ s, ∀ e ∈ events, allows s e → P s → P (next s e)) : P t := by
  induction h with
  | nil => exact hstart
  | snoc _ hallows ih =>
    refine hstep _ _ (by simp) hallows (ih fun s e he => hstep s e ?_)
    exact List.mem_append_left _ he

/-- What an event brings about and the later ones keep holds at the end. -/
theorem keeps {P : σ → Prop} (h : Replay allows next start (before ++ e :: after) t)
    (hnow : ∀ s, Replay allows next start before s → allows s e → P (next s e))
    (hlater : ∀ s, ∀ e' ∈ after, allows s e' → P s → P (next s e')) : P t := by
  obtain ⟨s, hbefore, hallows, hafter⟩ := h.allowed
  exact hafter.holds (hnow s hbefore hallows) hlater

/-- Where the events are just written down, the state is what is written. -/
theorem eq_append {allows : List ε → ε → Prop} {start t : List ε}
    (h : Replay allows (fun s e => s ++ [e]) start events t) : t = start ++ events := by
  induction h with
  | nil => rw [List.append_nil]
  | snoc _ _ ih => rw [ih, List.append_assoc]

end Replay
