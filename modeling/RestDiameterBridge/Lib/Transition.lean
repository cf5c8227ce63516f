/-!
# RestDiameterBridge.Lib.Transition

Transition systems given by a partial step function `step : σ → ι → Option σ`, where
`none` says that the label cannot happen in the state.

`run` follows a list of labels, and `run_invariant` is the induction over it. `Always step P s
ls` says that every step of the run over `ls` from `s` satisfies `P`, a property of the state
before, the label and the state after; `Always.invariant` is the induction over such a run,
and `always_congr` exchanges two step properties that agree as long as one of them has held.
`observed` puts an observer beside the system, so that a step property can speak of the run
so far; what does not, holds with the observer exactly if it does without
(`always_observed_iff`).
-/

namespace Transition

variable {σ ι : Type} (step : σ → ι → Option σ)

/-- Follow the labels. -/
def run (s : σ) : List ι → Option σ
  | [] => some s
  | l :: ls => (step s l).bind fun t => run t ls

/-- Every step of the run satisfies `P`. -/
def Always (P : σ → ι → σ → Prop) (s : σ) : List ι → Prop
  | [] => True
  | l :: ls => ∀ t, step s l = some t → P s l t ∧ Always P t ls

instance Always.decidable (P : σ → ι → σ → Prop) [∀ s l t, Decidable (P s l t)] :
    (s : σ) → (ls : List ι) → Decidable (Always step P s ls)
  | _, [] => isTrue trivial
  | s, l :: ls =>
      match h : step s l with
      | none => isTrue fun t ht => by rw [h] at ht; cases ht
      | some u =>
          have := Always.decidable P u ls
          decidable_of_iff (P s l u ∧ Always step P u ls)
            ⟨fun hu t ht => by rw [h] at ht; cases ht; exact hu, fun hall => hall u h⟩

variable {step} {P Q : σ → ι → σ → Prop} {I : σ → Prop} {s t : σ}

/-- What the start has and every step keeps, every state reached has. -/
theorem run_invariant (hI : ∀ {s l t}, I s → step s l = some t → I t) (hs : I s) {ls : List ι}
    (hrun : run step s ls = some t) : I t := by
  induction ls generalizing s with
  | nil =>
    obtain rfl := Option.some.inj hrun
    exact hs
  | cons l ls ih =>
    obtain ⟨u, hu, hrest⟩ := Option.bind_eq_some_iff.mp hrun
    exact ih (hI hs hu) hrest

/-- What the start has and every `P`-step keeps, every state reached by `P`-steps has. -/
theorem Always.invariant (hI : ∀ {s l t}, I s → P s l t → step s l = some t → I t) (hs : I s)
    {ls : List ι} (h : Always step P s ls) (hrun : run step s ls = some t) : I t := by
  induction ls generalizing s with
  | nil =>
    obtain rfl := Option.some.inj hrun
    exact hs
  | cons l ls ih =>
    obtain ⟨u, hu, hrest⟩ := Option.bind_eq_some_iff.mp hrun
    obtain ⟨hP, hls⟩ := h u hu
    exact ih (hI hs hP hu) hls hrest

/-- What every step from a state with an invariant has, every step of a run has. -/
theorem always_of_invariant (hI : ∀ {s l t}, I s → step s l = some t → I t)
    (hP : ∀ {s l t}, I s → step s l = some t → P s l t) (hs : I s) {ls : List ι} :
    Always step P s ls := by
  induction ls generalizing s with
  | nil => exact trivial
  | cons l ls ih => exact fun t ht => ⟨hP hs ht, ih (hI hs ht)⟩

/-- A run with one more step. -/
theorem run_snoc (ls : List ι) (l : ι) :
    run step s (ls ++ [l]) = (run step s ls).bind (step · l) := by
  induction ls generalizing s with
  | nil => exact Option.bind_fun_some _
  | cons l' ls ih =>
    show ((step s l').bind fun t => run step t (ls ++ [l])) = _
    rw [funext fun t => ih, ← Option.bind_assoc]
    rfl

theorem always_snoc {ls : List ι} {l : ι} :
    Always step P s (ls ++ [l]) ↔ Always step P s ls ∧
      ∀ u t, run step s ls = some u → step u l = some t → P u l t := by
  induction ls generalizing s with
  | nil =>
    constructor
    · refine fun h => ⟨trivial, fun u t hrun hstep => ?_⟩
      obtain rfl := Option.some.inj hrun
      exact (h t hstep).1
    · exact fun h t hstep => ⟨h.2 s t rfl hstep, trivial⟩
  | cons l' ls ih =>
    constructor
    · refine fun h => ⟨fun t ht => ⟨(h t ht).1, (ih.mp (h t ht).2).1⟩, fun u t hrun hstep => ?_⟩
      obtain ⟨v, hv, hrest⟩ := Option.bind_eq_some_iff.mp hrun
      exact (ih.mp (h v hv).2).2 u t hrest hstep
    · rintro ⟨h, hlast⟩ v hv
      refine ⟨(h v hv).1, ih.mpr ⟨(h v hv).2, fun u t hrun hstep => hlast u t ?_ hstep⟩⟩
      exact Option.bind_eq_some_iff.mpr ⟨v, hv, hrun⟩

/-- The last step of a run has what every step has. -/
theorem Always.last {ls : List ι} {l : ι} {u : σ} (h : Always step P s (ls ++ [l]))
    (hrun : run step s ls = some u) (hstep : step u l = some t) : P u l t :=
  (always_snoc.mp h).2 u t hrun hstep

/-- Two step properties that agree in every state satisfying an invariant, which the
steps with the property keep, hold throughout the same runs. -/
theorem always_congr (hI : ∀ {s l t}, I s → Q s l t → step s l = some t → I t)
    (hPQ : ∀ {s l t}, I s → step s l = some t → (P s l t ↔ Q s l t)) (hs : I s)
    {ls : List ι} : Always step P s ls ↔ Always step Q s ls := by
  induction ls generalizing s with
  | nil => exact Iff.rfl
  | cons l ls ih =>
    refine forall_congr' fun t => forall_congr' fun ht => ?_
    rw [hPQ hs ht]
    exact and_congr_right fun hQ => ih (hI hs hQ ht)

/-! ### Observers -/

section
variable {ω : Type} {note : ω → σ → ι → ω}

/-- The system with an observer, who notes the label and the state it comes in. -/
def observed (step : σ → ι → Option σ) (note : ω → σ → ι → ω) (s : σ × ω) (l : ι) :
    Option (σ × ω) :=
  (step s.1 l).map fun t => (t, note s.2 s.1 l)

theorem eq_of_observed {s t : σ × ω} {l : ι} (h : observed step note s l = some t) :
    step s.1 l = some t.1 ∧ t.2 = note s.2 s.1 l := by
  obtain ⟨u, hu, rfl⟩ := Option.map_eq_some_iff.mp h
  exact ⟨hu, rfl⟩

variable (note) in
/-- The observer does not take part. -/
theorem always_observed_iff (o : ω) {ls : List ι} :
    Always (observed step note) (fun s l t => P s.1 l t.1) (s, o) ls ↔ Always step P s ls := by
  induction ls generalizing s o with
  | nil => exact Iff.rfl
  | cons l ls ih =>
    constructor
    · intro h t ht
      obtain ⟨hP, hls⟩ := h (t, note o s l) (Option.map_eq_some_iff.mpr ⟨t, ht, rfl⟩)
      exact ⟨hP, (ih _).mp hls⟩
    · intro h t ht
      obtain ⟨u, hu, rfl⟩ := Option.map_eq_some_iff.mp ht
      obtain ⟨hP, hls⟩ := h u hu
      exact ⟨hP, (ih _).mpr hls⟩

end

end Transition
