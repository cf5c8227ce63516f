import Mathlib.Data.List.Infix

/-!
# RestDiameterBridge.Lib.Separators

Where a separator of several elements can occur.

One that does not occur in two pieces can still arise where they meet. It does not if what
stands between them is no part of it (`infix_append_cons`), or if its last element does not
occur in the second piece (`infix_of_append`).
-/

namespace Separators

variable {α : Type} {sep a b : List α} {c d : α}

/-- An occurrence does not run over an element that is no part of the separator. -/
theorem infix_append_cons (hc : c ∉ sep) (h : sep <:+: a ++ c :: b) :
    sep <:+: a ∨ sep <:+: b := by
  obtain ⟨before, after, heq⟩ := h
  rcases List.append_eq_append_iff.mp heq with ⟨w, ha, -⟩ | ⟨w, hfront, hback⟩
  · exact .inl ⟨before, w, ha.symm⟩
  · cases w with
    | nil => exact .inl ⟨before, [], by simpa using hfront⟩
    | cons e w =>
      obtain ⟨rfl, rfl⟩ := List.cons.inj hback
      have hsplit : before ++ sep = (a ++ [c]) ++ w := by simpa using hfront
      rcases List.append_eq_append_iff.mp hsplit with ⟨v, hv, rfl⟩ | ⟨v, -, rfl⟩
      · -- the element would be the last one of `v`, or the occurrence starts behind it
        rcases List.eq_nil_or_concat v with rfl | ⟨u, e, rfl⟩
        · exact .inr ⟨[], after, rfl⟩
        · rw [List.concat_eq_append, ← List.append_assoc] at hv
          obtain rfl : c = e := List.singleton_inj.mp (List.append_inj_right' hv rfl)
          exact absurd (by simp) hc
      · exact .inr ⟨v, after, rfl⟩

theorem not_infix_intercalate {pieces : List (List α)} (hc : c ∉ sep) (hne : sep ≠ [])
    (h : ∀ p ∈ pieces, ¬sep <:+: p) : ¬sep <:+: [c].intercalate pieces := by
  match pieces with
  | [] =>
    intro hin
    exact hne (List.infix_nil.mp hin)
  | [p] => simpa using h p List.mem_cons_self
  | p :: q :: pieces =>
    intro hin
    rw [List.intercalate_cons_cons, List.append_assoc] at hin
    rcases infix_append_cons hc hin with hin | hin
    · exact h p List.mem_cons_self hin
    · exact not_infix_intercalate hc hne (fun r hr => h r (List.mem_cons_of_mem p hr)) hin

/-- An occurrence ends in front of a piece without the last element of the separator. -/
theorem infix_of_append (hd : d ∉ b) (h : sep ++ [d] <:+: a ++ b) : sep ++ [d] <:+: a := by
  obtain ⟨before, after, heq⟩ := h
  rcases List.append_eq_append_iff.mp heq with ⟨w, ha, -⟩ | ⟨w, hfront, rfl⟩
  · exact ⟨before, w, ha.symm⟩
  · rcases List.eq_nil_or_concat w with rfl | ⟨u, e, rfl⟩
    · exact ⟨before, [], by simpa using hfront⟩
    · rw [List.concat_eq_append, ← List.append_assoc, ← List.append_assoc] at hfront
      obtain rfl : d = e := List.singleton_inj.mp (List.append_inj_right' hfront rfl)
      exact absurd (by simp) hd

/-- An element is in a list of pieces if it is in one of them, or stands between two. -/
theorem mem_of_mem_intercalate {pieces : List (List α)} (h : d ∈ [c].intercalate pieces) :
    d = c ∨ ∃ p ∈ pieces, d ∈ p := by
  match pieces with
  | [] => simp at h
  | [p] => exact .inr ⟨p, List.mem_cons_self, by simpa using h⟩
  | p :: q :: pieces =>
    rw [List.intercalate_cons_cons, List.append_assoc, List.mem_append, List.mem_append,
      List.mem_singleton] at h
    rcases h with h | h | h
    · exact .inr ⟨p, List.mem_cons_self, h⟩
    · exact .inl h
    · rcases mem_of_mem_intercalate h with h | ⟨r, hr, h⟩
      · exact .inl h
      · exact .inr ⟨r, List.mem_cons_of_mem p hr, h⟩

end Separators
