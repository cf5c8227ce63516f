import Mathlib.Order.Lattice

/-!
# RestDiameterBridge.Lib.StableSort

Sorting by a key, where elements of one key keep their order.
-/

namespace StableSort

variable {α κ : Type} [LinearOrder κ]

/-- The elements of `l` in the order of their keys, those of one key as they stand in `l`. -/
structure SortedBy (key : α → κ) (l sorted : List α) : Prop where
  perm : sorted.Perm l
  ordered : sorted.Pairwise fun a b => key a ≤ key b
  stable : ∀ k, sorted.filter (key · = k) = l.filter (key · = k)

/-- Elements that all have one key keep their order. -/
theorem SortedBy.filter_eq {key : α → κ} {l sorted : List α} (h : SortedBy key l sorted)
    {p : α → Bool} {k : κ} (hp : ∀ a, p a = true → key a = k) : sorted.filter p = l.filter p := by
  have hkey : ∀ l : List α, l.filter p = (l.filter (key · = k)).filter p := by
    intro l
    rw [List.filter_filter]
    refine List.filter_congr fun a _ => ?_
    cases hpa : p a with
    | true => simp [hp a hpa]
    | false => rfl
  rw [hkey sorted, h.stable, ← hkey l]

theorem sortedBy_mergeSort (key : α → κ) (l : List α) :
    SortedBy key l (l.mergeSort fun a b => key a ≤ key b) := by
  have htrans : ∀ a b c, decide (key a ≤ key b) = true → decide (key b ≤ key c) = true →
      decide (key a ≤ key c) = true := by
    simp only [decide_eq_true_eq]
    exact fun a b c => le_trans
  have htotal : ∀ a b, (decide (key a ≤ key b) || decide (key b ≤ key a)) = true := by
    simpa only [Bool.or_eq_true, decide_eq_true_eq] using fun a b => le_total (key a) (key b)
  have hperm := List.mergeSort_perm l fun a b => decide (key a ≤ key b)
  refine ⟨hperm, ?_, fun k => ?_⟩
  · simpa only [decide_eq_true_eq] using List.pairwise_mergeSort htrans htotal l
  · -- the elements of one key are sorted as they stand
    have hone : (l.filter (key · = k)).Pairwise fun a b => decide (key a ≤ key b) = true := by
      refine List.pairwise_iff_forall_sublist.mpr fun {a b} hsub => ?_
      have hkey : ∀ x ∈ [a, b], key x = k := fun x hx => by
        simpa using (List.mem_filter.mp (hsub.subset hx)).2
      simp [hkey a (by simp), hkey b (by simp)]
    have hsub := (List.sublist_mergeSort htrans htotal hone List.filter_sublist).filter (key · = k)
    simp only [List.filter_filter, Bool.and_self] at hsub
    exact (hsub.eq_of_length (hperm.filter _).length_eq.symm).symm

end StableSort
