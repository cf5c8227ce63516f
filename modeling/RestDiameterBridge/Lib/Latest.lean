import Mathlib.Data.List.Nodup

/-!
# RestDiameterBridge.Lib.Latest

The last element of a list with a given key.

Whatever keeps elements by their key and lets a later one replace an earlier one answers
a look-up with it (`lookup_foldl`).
-/

namespace Latest

variable {α κ σ : Type} [DecidableEq κ] {key : α → κ} {k : κ} {x : α} {xs : List α}

/-- The last element with the key. -/
def latest (key : α → κ) (k : κ) : List α → Option α
  | [] => none
  | x :: xs => (latest key k xs).or (if key x = k then some x else none)

theorem latest_eq_none_iff : latest key k xs = none ↔ ∀ x ∈ xs, key x ≠ k := by
  induction xs with
  | nil => simp [latest]
  | cons y ys ih =>
    rw [latest, Option.or_eq_none_iff, ih, List.forall_mem_cons, and_comm]
    simp

theorem latest_append (xs ys : List α) :
    latest key k (xs ++ ys) = (latest key k ys).or (latest key k xs) := by
  induction xs with
  | nil => rw [List.nil_append, latest, Option.or_none]
  | cons x xs ih => rw [List.cons_append, latest, ih, latest, Option.or_assoc]

/-- Nothing with the key stands behind it. -/
theorem latest_eq_some_iff :
    latest key k xs = some x ↔
      ∃ before after, xs = before ++ x :: after ∧ key x = k ∧ ∀ y ∈ after, key y ≠ k := by
  constructor
  · intro h
    induction xs with
    | nil => cases h
    | cons y ys ih =>
      rw [latest, Option.or_eq_some_iff] at h
      rcases h with h | ⟨hnone, h⟩
      · obtain ⟨before, after, rfl, hx⟩ := ih h
        exact ⟨y :: before, after, rfl, hx⟩
      · split at h
        · rename_i hy
          cases h
          exact ⟨[], ys, rfl, hy, latest_eq_none_iff.mp hnone⟩
        · cases h
  · intro h
    obtain ⟨before, after, rfl, hx, hafter⟩ := h
    rw [latest_append, latest, latest_eq_none_iff.mpr hafter, if_pos hx]
    rfl

/-- Where no key stands twice it is the only one. -/
theorem latest_of_nodup (hnodup : (xs.map key).Nodup) :
    latest key k xs = some x ↔ x ∈ xs ∧ key x = k := by
  constructor
  · intro h
    obtain ⟨before, after, rfl, hx, -⟩ := latest_eq_some_iff.mp h
    exact ⟨List.mem_append_right _ List.mem_cons_self, hx⟩
  · intro h
    obtain ⟨hx, rfl⟩ := h
    obtain ⟨before, after, rfl⟩ := List.append_of_mem hx
    refine latest_eq_some_iff.mpr ⟨before, after, rfl, rfl, fun y hy heq => ?_⟩
    rw [List.map_append, List.map_cons] at hnodup
    have hnotin := (List.nodup_cons.mp (List.nodup_append.mp hnodup).2.1).1
    exact hnotin (heq ▸ List.mem_map_of_mem hy)

/-- Without the elements of one key, the last elements of the others are the same. -/
theorem latest_filter_ne (k' : κ) :
    latest key k (xs.filter fun x => key x ≠ k') = if k = k' then none else latest key k xs := by
  induction xs with
  | nil => simp [latest]
  | cons x xs ih =>
    by_cases hx : key x = k'
    · rw [List.filter_cons_of_neg (by simpa using hx), ih, latest]
      split
      · rfl
      · rename_i hne
        rw [if_neg fun heq => hne (heq.symm.trans hx), Option.or_none]
    · rw [List.filter_cons_of_pos (by simpa using hx), latest, ih, latest]
      split
      · rename_i heq
        rw [if_neg fun hkey => hx (hkey.trans heq)]
        rfl
      · rfl

/-- A store whose every step puts one element under its key looks up the last element
with the key, else what it held before. -/
theorem lookup_foldl {step : σ → α → σ} (lookup : σ → κ → Option α)
    (hstep : ∀ s x k, lookup (step s x) k = if k = key x then some x else lookup s k)
    (xs : List α) (s : σ) (k : κ) :
    lookup (xs.foldl step s) k = (latest key k xs).or (lookup s k) := by
  induction xs generalizing s with
  | nil => rfl
  | cons x xs ih =>
    rw [List.foldl_cons, ih, hstep, latest, Option.or_assoc]
    by_cases hk : k = key x
    · rw [if_pos hk, if_pos hk.symm]
      rfl
    · rw [if_neg hk, if_neg (Ne.symm hk)]
      rfl

end Latest
