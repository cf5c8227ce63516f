import Mathlib.Algebra.BigOperators.Group.List.Basic
import Mathlib.Algebra.Ring.Int.Defs

/-!
# RestDiameterBridge.Lib.Nesting

Nesting of brackets in a text over arbitrary symbols. A symbol that opens weighs 1, one that
closes -1, all others 0, so the depth behind a text is its weight.

`Nested` texts close what they open and never more; they can be put one after another and
between brackets. `Shields` says that no separator of a text is met at depth 0, which is
what a reader that splits at separators on the outermost level goes by.
-/

namespace Nesting

variable {α : Type} (weight : α → Int)

/-- What the text opens and does not close. -/
def depth (s : List α) : Int := (s.map weight).sum

/-- The text closes what it opens, and no part in front closes more. -/
structure Nested (s : List α) : Prop where
  depth_eq : depth weight s = 0
  depth_nonneg : ∀ p, p <+: s → 0 ≤ depth weight p

/-- Read from `level` on, the text has no separator behind which the level is 0. -/
def Shields (sep : α → Prop) : Int → List α → Prop
  | _, [] => True
  | level, c :: s => (level + weight c = 0 → ¬sep c) ∧ Shields sep (level + weight c) s

variable {weight} {s t : List α}

@[simp] theorem depth_nil : depth weight [] = 0 := rfl

@[simp] theorem depth_cons (c : α) : depth weight (c :: s) = weight c + depth weight s := by
  simp [depth]

@[simp] theorem depth_append : depth weight (s ++ t) = depth weight s + depth weight t := by
  simp [depth]

/-- Symbols may be replaced by others of the same weight. -/
theorem depth_map {f : α → α} (h : ∀ c, weight (f c) = weight c) :
    depth weight (s.map f) = depth weight s := by
  rw [depth, depth, List.map_map]
  exact congrArg List.sum (List.map_congr_left fun c _ => h c)

theorem depth_of_weightless (h : ∀ c ∈ s, weight c = 0) : depth weight s = 0 := by
  induction s with
  | nil => rfl
  | cons c s ih =>
    rw [depth_cons, h c List.mem_cons_self, ih fun d hd => h d (List.mem_cons_of_mem _ hd)]
    rfl

theorem nested_of_weightless (h : ∀ c ∈ s, weight c = 0) : Nested weight s where
  depth_eq := depth_of_weightless h
  depth_nonneg _ hp := Int.le_of_eq (depth_of_weightless fun c hc => h c (hp.subset hc)).symm

theorem Nested.append (hs : Nested weight s) (ht : Nested weight t) : Nested weight (s ++ t) where
  depth_eq := by rw [depth_append, hs.depth_eq, ht.depth_eq, Int.add_zero]
  depth_nonneg p hp := by
    obtain ⟨r, hr⟩ := hp
    rcases List.append_eq_append_iff.mp hr with ⟨a, rfl, -⟩ | ⟨q, rfl, rfl⟩
    · exact hs.depth_nonneg p (List.prefix_append p a)
    · rw [depth_append, hs.depth_eq, Int.zero_add]
      exact ht.depth_nonneg q (List.prefix_append q r)

/-- A nested text between brackets is nested. -/
theorem Nested.bracket {o c : α} (ho : weight o = 1) (hc : weight c = -1) (hs : Nested weight s) :
    Nested weight (o :: (s ++ [c])) where
  depth_eq := by simp [ho, hc, hs.depth_eq]
  depth_nonneg p hp := by
    rcases List.prefix_cons_iff.mp hp with rfl | ⟨q, rfl, hq⟩
    · exact Int.le_refl 0
    rw [depth_cons, ho]
    rcases List.prefix_concat_iff.mp hq with rfl | hq
    · simp [hc, hs.depth_eq]
    · have := hs.depth_nonneg q hq
      omega

section
variable {sep : α → Prop} {level : Int}

theorem shields_append_iff : Shields weight sep level (s ++ t) ↔
    Shields weight sep level s ∧ Shields weight sep (level + depth weight s) t := by
  induction s generalizing level with
  | nil => simp [Shields]
  | cons c s ih =>
    rw [List.cons_append, Shields, Shields, ih, depth_cons, and_assoc, Int.add_assoc]

/-- A text without separators. -/
theorem shields_of_forall (h : ∀ c ∈ s, ¬sep c) : Shields weight sep level s := by
  induction s generalizing level with
  | nil => trivial
  | cons c s ih =>
    exact ⟨fun _ => h c List.mem_cons_self, ih fun d hd => h d (List.mem_cons_of_mem _ hd)⟩

/-- Inside brackets the separators of a nested text do not matter. -/
theorem shields_of_pos (hlevel : 0 < level) (h : ∀ p, p <+: s → 0 ≤ depth weight p) :
    Shields weight sep level s := by
  have hpos : ∀ p, p <+: s → 0 < level + depth weight p := fun p hp => by
    have := h p hp
    omega
  clear h hlevel
  induction s generalizing level with
  | nil => trivial
  | cons c s ih =>
    have hc := hpos [c] (List.prefix_append [c] s)
    rw [depth_cons, depth_nil, Int.add_zero] at hc
    refine ⟨fun heq => absurd heq (by omega), ih fun p hp => ?_⟩
    have := hpos (c :: p) (List.prefix_cons_inj c |>.mpr hp)
    rw [depth_cons] at this
    omega

end

end Nesting
