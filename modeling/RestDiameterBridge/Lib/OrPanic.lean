import Mathlib.Data.List.Forall2

/-!
# RestDiameterBridge.Lib.OrPanic

Results of code that can panic.
-/

/-- A result, or `none` where the code panics. -/
abbrev OrPanic (α : Type) := Option α

namespace OrPanic

variable {α β : Type}

/-- Running a function over a list ends without panic exactly if it does on each
element. -/
theorem mapM_eq_some_iff {f : α → OrPanic β} {as : List α} {bs : List β} :
    as.mapM f = some bs ↔ List.Forall₂ (fun a b => f a = some b) as bs := by
  induction as generalizing bs with
  | nil => simp [eq_comm]
  | cons a as ih =>
    rw [List.mapM_cons, List.forall₂_cons_left_iff]
    simp only [Option.bind_eq_bind, Option.bind_eq_some_iff, ih, Option.pure_def,
      Option.some.injEq]
    constructor
    · intro hexists
      obtain ⟨b, hb, bs, hbs, rfl⟩ := hexists
      exact ⟨b, bs, hb, hbs, rfl⟩
    · intro hexists
      obtain ⟨b, bs, hb, hbs, rfl⟩ := hexists
      exact ⟨b, hb, bs, hbs, rfl⟩

/-- So it is enough that it does on each element. -/
theorem isSome_mapM_iff {f : α → OrPanic β} {as : List α} :
    (as.mapM f).isSome ↔ ∀ a ∈ as, (f a).isSome := by
  induction as with
  | nil => simp
  | cons a as ih =>
    rw [List.mapM_cons, List.forall_mem_cons, ← ih]
    cases hfa : f a with
    | none => simp
    | some b => cases as.mapM f <;> simp

/-- A fold ends without panic exactly if each of its steps does, where that depends on the
element alone. -/
theorem isSome_foldlM_iff {f : β → α → OrPanic β} {P : α → Prop}
    (h : ∀ b a, (f b a).isSome ↔ P a) {as : List α} (b : β) :
    (as.foldlM f b).isSome ↔ ∀ a ∈ as, P a := by
  induction as generalizing b with
  | nil => simp
  | cons a as ih =>
    rw [List.foldlM_cons, List.forall_mem_cons, ← h b a]
    cases hstep : f b a with
    | none => simp
    | some b' => simpa using ih b'

/-- What each step adds to a list, the fold adds for all elements. -/
theorem foldlM_flatMap {γ : Type} {f : β → α → OrPanic β} {g : β → List γ} {e : α → List γ}
    (h : ∀ b a b', f b a = some b' → g b' = g b ++ e a) {as : List α} {b b' : β}
    (hfold : as.foldlM f b = some b') : g b' = g b ++ as.flatMap e := by
  induction as generalizing b with
  | nil =>
    obtain rfl := Option.some.inj hfold
    simp
  | cons a as ih =>
    rw [List.foldlM_cons] at hfold
    obtain ⟨b₁, hstep, hrest⟩ := Option.bind_eq_some_iff.mp hfold
    rw [ih hrest, h b a b₁ hstep, List.flatMap_cons, List.append_assoc]

/-- What each step keeps, the fold keeps. -/
theorem foldlM_keeps {γ : Type} {f : β → α → OrPanic β} {g : β → γ}
    (h : ∀ b a b', f b a = some b' → g b' = g b) {as : List α} {b b' : β}
    (hfold : as.foldlM f b = some b') : g b' = g b := by
  induction as generalizing b with
  | nil =>
    obtain rfl := Option.some.inj hfold
    rfl
  | cons a as ih =>
    rw [List.foldlM_cons] at hfold
    obtain ⟨b₁, hstep, hrest⟩ := Option.bind_eq_some_iff.mp hfold
    rw [ih hrest, h b a b₁ hstep]

/-- Results for every element make up a list of results. -/
theorem exists_forall₂ {R : α → β → Prop} {as : List α} (h : ∀ a ∈ as, ∃ b, R a b) :
    ∃ bs, List.Forall₂ R as bs := by
  induction as with
  | nil => exact ⟨[], .nil⟩
  | cons a as ih =>
    obtain ⟨b, hb⟩ := h a List.mem_cons_self
    obtain ⟨bs, hbs⟩ := ih fun a' ha' => h a' (List.mem_cons_of_mem _ ha')
    exact ⟨b :: bs, .cons hb hbs⟩

/-- What every result has, all elements of a list of results have. -/
theorem forall_mem_of_forall₂ {R : α → β → Prop} {P : β → Prop} {as : List α}
    {bs : List β} (h : List.Forall₂ R as bs) (hP : ∀ a b, R a b → P b) : ∀ b ∈ bs, P b := by
  induction h with
  | nil => simp
  | cons hab _ ih => exact List.forall_mem_cons.mpr ⟨hP _ _ hab, ih⟩

/-- Filtering both lists alike keeps them in step. -/
theorem forall₂_filter {R : α → β → Prop} {p : α → Bool} {q : β → Bool} {as : List α} {bs : List β}
    (hpq : ∀ a b, R a b → p a = q b) (h : List.Forall₂ R as bs) :
    List.Forall₂ R (as.filter p) (bs.filter q) := by
  induction h with
  | nil => exact .nil
  | @cons a b as bs hab _ ih =>
    rw [List.filter_cons, List.filter_cons, hpq a b hab]
    split
    · exact .cons hab ih
    · exact ih

/-! ### Fallible results -/

/-- There is no panic exactly if `counts`, and then a value exactly if `fits`. -/
structure Settles (r : OrPanic (Option α)) (counts fits : Prop) : Prop where
  isSome_iff : r.isSome ↔ counts
  eq_none_iff : counts → (r = some none ↔ ¬fits)

section
variable {γ : Type} {r : OrPanic (Option α)} {s : OrPanic (Option β)}
  {counts fits counts' fits' : Prop}

theorem settles_some {o : Option α} (hcounts : counts) (h : o.isSome ↔ fits) :
    Settles (some o) counts fits where
  isSome_iff := by simp [hcounts]
  eq_none_iff _ := by rw [← h, Option.some.injEq, Option.not_isSome_iff_eq_none]

theorem Settles.map (h : Settles r counts fits) (f : α → β) :
    Settles (r.map (·.map f)) counts fits where
  isSome_iff := by
    rw [Option.isSome_map]
    exact h.isSome_iff
  eq_none_iff hcounts := by
    rw [← h.eq_none_iff hcounts]
    cases r with
    | none => simp
    | some o => simp

/-- Two conversions, the second of them only after a value of the first. -/
theorem Settles.andThen {t : OrPanic (Option γ)} (f : α → β → γ) (h : Settles r counts fits)
    (hs : Settles s counts' fits') (hpanic : r = none → t = none)
    (hrefused : r = some none → t = some none)
    (hvalue : ∀ a, r = some (some a) → t = s.map (·.map (f a))) :
    Settles t (counts ∧ (fits → counts')) (fits ∧ fits') := by
  cases r with
  | none =>
    have hnot : ¬counts := by simp [← h.isSome_iff]
    rw [hpanic rfl]
    exact ⟨by simp [hnot], fun hboth => absurd hboth.1 hnot⟩
  | some o =>
    have hcounts : counts := h.isSome_iff.mp rfl
    have hfits := h.eq_none_iff hcounts
    cases o with
    | none =>
      have hnot : ¬fits := hfits.mp rfl
      rw [hrefused rfl]
      exact settles_some ⟨hcounts, fun hfit => absurd hfit hnot⟩ (by simp [hnot])
    | some a =>
      have hfit : fits := by simpa using hfits
      rw [hvalue a rfl]
      simpa [hcounts, hfit] using hs.map (f a)

end

end OrPanic
