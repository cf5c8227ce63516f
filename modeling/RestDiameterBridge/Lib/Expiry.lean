import Mathlib.Logic.Function.Basic
import RestDiameterBridge.Lib.Retain

/-!
# RestDiameterBridge.Lib.Expiry

Stores whose entries expire, seen through their look-ups `κ → Option ε`.

`live` is what a store holds that has not expired. Stores that hold the same from some time
on (`Agree`) stay so when the same entry is put into both, and a store may drop what has
expired at any time (`Sheds`) without being told apart from one that never does.
-/

namespace Expiry

variable {κ ε : Type} (expired : ε → Nat → Bool)

/-- What a look-up finds that has not expired. -/
def live (f : κ → Option ε) (now : Nat) (k : κ) : Option ε := (f k).filter fun e => !expired e now

/-- From the first store to the second only expired entries were dropped. -/
def Sheds (now : Nat) (f g : κ → Option ε) : Prop :=
  ∀ k, g k = f k ∨ g k = none ∧ ∀ e, f k = some e → expired e now = true

/-- From now on the stores hold the same. -/
def Agree (now : Nat) (f g : κ → Option ε) : Prop :=
  ∀ t, now ≤ t → ∀ k, live expired f t k = live expired g t k

variable {expired} {f g h : κ → Option ε} {now t : Nat} {k : κ} {e : ε}

theorem live_eq_some_iff : live expired f now k = some e ↔ f k = some e ∧ expired e now = false := by
  rw [live, Option.filter_eq_some_iff, Bool.not_eq_true']

theorem live_of_none (hk : f k = none) : live expired f now k = none := by
  rw [live, hk, Option.filter_none]

theorem live_of_expired (hk : f k = some e) (he : expired e now = true) :
    live expired f now k = none := by
  rw [live, hk, Option.filter_some, he]
  rfl

theorem live_of_fresh (hk : f k = some e) (he : expired e now = false) :
    live expired f now k = some e :=
  live_eq_some_iff.mpr ⟨hk, he⟩

theorem Agree.refl (f : κ → Option ε) : Agree expired now f f := fun _ _ _ => rfl

theorem Agree.symm (hfg : Agree expired now f g) : Agree expired now g f :=
  fun t ht k => (hfg t ht k).symm

theorem Agree.trans (hfg : Agree expired now f g) (hgh : Agree expired now g h) :
    Agree expired now f h :=
  fun t ht k => (hfg t ht k).trans (hgh t ht k)

theorem Agree.later (hfg : Agree expired now f g) (ht : now ≤ t) : Agree expired t f g :=
  fun t' ht' => hfg t' (Nat.le_trans ht ht')

/-- The same entry put into both, or taken out of both. -/
theorem Agree.update [DecidableEq κ] (hfg : Agree expired now f g) (k : κ) (o : Option ε) :
    Agree expired now (Function.update f k o) (Function.update g k o) := by
  intro t ht k'
  by_cases hk : k' = k
  · subst hk
    rw [live, live, Function.update_self, Function.update_self]
  · have := hfg t ht k'
    rwa [live, live, Function.update_of_ne hk, Function.update_of_ne hk]

theorem Sheds.refl (f : κ → Option ε) : Sheds expired now f f := fun _ => .inl rfl

theorem Sheds.trans (hfg : Sheds expired now f g) (hgh : Sheds expired now g h) :
    Sheds expired now f h := by
  intro k
  rcases hgh k with hk | ⟨hnone, hexpired⟩
  · rw [hk]
    exact hfg k
  · rcases hfg k with hk | ⟨-, hexpired'⟩
    · rw [hk] at hexpired
      exact .inr ⟨hnone, hexpired⟩
    · exact .inr ⟨hnone, hexpired'⟩

/-- Retaining what has not expired. -/
theorem sheds_retain [DecidableEq κ] (m : AList fun _ : κ => ε) :
    Sheds expired now m.lookup (m.retain fun _ e => !expired e now).lookup := by
  intro k
  show (m.retain fun _ e => !expired e now).lookup k = m.lookup k ∨
    (m.retain fun _ e => !expired e now).lookup k = none ∧
      ∀ e, m.lookup k = some e → expired e now = true
  cases hfound : m.lookup k with
  | none =>
    refine .inl (Option.eq_none_iff_forall_ne_some.mpr fun e he => ?_)
    rw [AList.lookup_of_lookup_retain he] at hfound
    cases hfound
  | some e =>
    cases hexpired : expired e now with
    | false => exact .inl (AList.lookup_retain_eq_some.mpr ⟨hfound, by rw [hexpired]; rfl⟩)
    | true =>
      refine .inr ⟨Option.eq_none_iff_forall_ne_some.mpr fun e' he' => ?_, fun e' he' => ?_⟩
      · obtain ⟨hlookup, hkeep⟩ := AList.lookup_retain_eq_some.mp he'
        obtain rfl := Option.some.inj (hfound.symm.trans hlookup)
        rw [hexpired] at hkeep
        cases hkeep
      · obtain rfl := Option.some.inj he'
        exact hexpired

/-- What has expired stays so, so dropping it cannot be seen. -/
theorem Sheds.agree (hmono : ∀ e t t', t ≤ t' → expired e t = true → expired e t' = true)
    (hfg : Sheds expired now f g) : Agree expired now f g := by
  intro t ht k
  rcases hfg k with hk | ⟨hnone, hexpired⟩
  · rw [live, live, hk]
  · rw [live_of_none hnone]
    cases hk : f k with
    | none => exact live_of_none hk
    | some e => exact live_of_expired hk (hmono e now t ht (hexpired e hk))

/-- What is live stays in the store when it sheds. -/
theorem Sheds.eq_some (hfg : Sheds expired now f g) (hk : f k = some e)
    (he : expired e now = false) : g k = some e := by
  rcases hfg k with hsame | ⟨-, hexpired⟩
  · rw [hsame, hk]
  · rw [hexpired e hk] at he
    cases he

end Expiry
