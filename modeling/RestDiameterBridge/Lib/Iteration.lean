/-!
# RestDiameterBridge.Lib.Iteration

Iterators as step functions `next : σ → Option α × σ`, and the sequence one yields.

`Drains next s xs s'` says that calling `next` from `s` returns exactly the elements of
`xs` in order and then `none`, ending in `s'`. A drained sequence is unique
(`Drains.unique`), and `Drains.append_of_exhausted` composes an inner iterator with what
the outer one does once the inner is exhausted.
-/

namespace Iteration

variable {σ α : Type}

/-- Repeated calls of `next` return the elements of the list and then `none`. -/
inductive Drains (next : σ → Option α × σ) : σ → List α → σ → Prop
  /-- Exhausted. -/
  | done {s s' : σ} : next s = (none, s') → Drains next s [] s'
  /-- One element, then the rest. -/
  | more {s s₁ s' : σ} {a : α} {as : List α} :
      next s = (some a, s₁) → Drains next s₁ as s' → Drains next s (a :: as) s'

variable {next : σ → Option α × σ}

/-- A state that steps like another drains like it. -/
theorem Drains.congr {s t s' : σ} {as : List α} (h : next s = next t)
    (hd : Drains next t as s') : Drains next s as s' := by
  cases hd with
  | done hn => exact .done (h.trans hn)
  | more hn hrest => exact .more (h.trans hn) hrest

/-- The drained sequence and the final state are functions of the start. -/
theorem Drains.unique {s s₁ s₂ : σ} {as bs : List α} (h₁ : Drains next s as s₁)
    (h₂ : Drains next s bs s₂) : as = bs ∧ s₁ = s₂ := by
  induction h₁ generalizing bs with
  | done hn =>
    cases h₂ with
    | done hn' => exact ⟨rfl, (Prod.mk.inj (hn.symm.trans hn')).2⟩
    | more hn' _ => exact absurd (hn.symm.trans hn') (by simp)
  | more hn _ ih =>
    cases h₂ with
    | done hn' => exact absurd (hn.symm.trans hn') (by simp)
    | more hn' hrest =>
      obtain ⟨ha, rfl⟩ := Prod.mk.inj (hn.symm.trans hn')
      obtain ⟨rfl, rfl⟩ := ih hrest
      exact ⟨by rw [Option.some.inj ha], rfl⟩

/-- A drained iterator ends with a call that has no result. -/
theorem Drains.exhausted {s s' : σ} {as : List α} (hd : Drains next s as s') :
    ∃ t, next t = (none, s') := by
  induction hd with
  | done hn => exact ⟨_, hn⟩
  | more _ _ ih => exact ih

/-- An outer iterator that forwards to an inner one drains the inner sequence and then
goes on from wherever the exhausted inner state leads. `embed` places an inner state
inside the outer one. -/
theorem Drains.append_of_exhausted {τ : Type} {inner : τ → Option α × τ} (embed : τ → σ)
    (hsome : ∀ {t t' a}, inner t = (some a, t') → next (embed t) = (some a, embed t'))
    {t t' : τ} {as : List α} (hd : Drains inner t as t') {bs : List α} {s' : σ}
    (hnone : ∀ {u}, inner u = (none, t') → Drains next (embed u) bs s') :
    Drains next (embed t) (as ++ bs) s' := by
  induction hd with
  | done hn => exact hnone hn
  | more hn _ ih => exact .more (hsome hn) (ih hnone)

end Iteration
