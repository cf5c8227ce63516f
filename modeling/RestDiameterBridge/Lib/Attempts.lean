import Mathlib.Data.List.Count
import Mathlib.Data.List.Nodup

/-!
# RestDiameterBridge.Lib.Attempts

Trying the elements of a list in turn until one accepts.

`upTo accepts xs` lists what is tried: everything before the first acceptor, and that
acceptor. Trying one list after another is trying their concatenation (`upTo_append`).
-/

namespace Attempts

variable {α : Type} {accepts : α → Bool}

/-- The elements up to the first that accepts, that one included. -/
def upTo (accepts : α → Bool) : List α → List α
  | [] => []
  | x :: xs => if accepts x then [x] else x :: upTo accepts xs

theorem upTo_append (xs ys : List α) :
    upTo accepts (xs ++ ys) =
      if xs.any accepts then upTo accepts xs else xs ++ upTo accepts ys := by
  induction xs with
  | nil => rfl
  | cons x xs ih =>
    by_cases hx : accepts x = true
    · simp [upTo, hx]
    · rw [List.cons_append, upTo, if_neg hx, ih, List.any_cons, eq_false_of_ne_true hx,
        Bool.false_or, upTo, if_neg hx]
      split
      · rfl
      · rfl

/-- Where nothing accepts, everything is tried. -/
theorem upTo_of_none {xs : List α} (h : xs.any accepts = false) : upTo accepts xs = xs := by
  induction xs with
  | nil => rfl
  | cons x xs ih =>
    rw [List.any_cons, Bool.or_eq_false_iff] at h
    rw [upTo, if_neg (by simp [h.1]), ih h.2]

theorem upTo_isStart (xs : List α) : upTo accepts xs <+: xs := by
  induction xs with
  | nil => exact List.prefix_refl []
  | cons x xs ih =>
    by_cases hx : accepts x = true
    · rw [upTo, if_pos hx]
      exact ⟨xs, rfl⟩
    · rw [upTo, if_neg hx]
      exact (List.prefix_cons_inj x).mpr ih

/-- What is tried before the last refused. -/
theorem refuses_of_mem_dropLast {xs : List α} {x : α} (h : x ∈ (upTo accepts xs).dropLast) :
    accepts x = false := by
  induction xs with
  | nil => cases h
  | cons y ys ih =>
    by_cases hy : accepts y = true
    · rw [upTo, if_pos hy] at h
      cases h
    · rw [upTo, if_neg hy] at h
      rcases hr : upTo accepts ys with _ | ⟨z, zs⟩
      · rw [hr] at h
        cases h
      · rw [hr, List.dropLast_cons_cons] at h
        rcases List.mem_cons.mp h with rfl | h
        · simpa using hy
        · exact ih (hr ▸ h)

/-- One acceptor is reached where there is one. -/
theorem countP_upTo (xs : List α) :
    (upTo accepts xs).countP accepts = if xs.any accepts then 1 else 0 := by
  induction xs with
  | nil => rfl
  | cons x xs ih =>
    by_cases hx : accepts x = true
    · simp [upTo, hx]
    · rw [upTo, if_neg hx, List.countP_cons_of_neg hx, ih, List.any_cons,
        eq_false_of_ne_true hx, Bool.false_or]

/-- The last one tried is the first acceptor. -/
theorem getLast?_upTo {xs : List α} (h : xs.any accepts = true) :
    (upTo accepts xs).getLast? = xs.find? accepts := by
  induction xs with
  | nil => cases h
  | cons x xs ih =>
    by_cases hx : accepts x = true
    · simp [upTo, hx]
    · have hany : xs.any accepts = true := by simpa [hx] using h
      rw [upTo, if_neg hx, List.find?_cons_of_neg hx, ← ih hany]
      rcases hr : upTo accepts xs with _ | ⟨y, ys⟩
      · have := ih hany
        rw [hr] at this
        exact absurd (List.find?_isSome.mpr (List.any_eq_true.mp hany)) (by simp [← this])
      · rw [List.getLast?_cons_cons]

/-- Trying two parts of a list in the other order leads to another acceptor exactly if
both parts hold one. -/
theorem find?_append_comm_iff {front back : List α} (hnodup : (front ++ back).Nodup) :
    (back ++ front).find? accepts = (front ++ back).find? accepts ↔
      ∀ a ∈ front, ∀ b ∈ back, ¬(accepts a = true ∧ accepts b = true) := by
  have hdisjoint := (List.nodup_append.mp hnodup).2.2
  rw [List.find?_append, List.find?_append]
  cases hfront : front.find? accepts with
  | none =>
    simp only [Option.or_none, Option.none_or, true_iff]
    exact fun a ha b _ h => List.find?_eq_none.mp hfront a ha h.1
  | some a =>
    cases hback : back.find? accepts with
    | none =>
      simp only [Option.or_none, Option.none_or, true_iff]
      exact fun a _ b hb h => List.find?_eq_none.mp hback b hb h.2
    | some b =>
      have ha := List.mem_of_find?_eq_some hfront
      have hb := List.mem_of_find?_eq_some hback
      simp only [Option.some_or, Option.some.injEq]
      constructor
      · intro heq
        exact absurd heq.symm (hdisjoint a ha b hb)
      · intro h
        exact absurd ⟨List.find?_some hfront, List.find?_some hback⟩ (h a ha b hb)

end Attempts
