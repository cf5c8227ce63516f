import Mathlib.Data.List.Perm.Subperm

/-!
# RestDiameterBridge.Lib.Sweep

Stores that are swept now and then.

What is put into such a store has a time limit, but nothing watches the limits. The store is
swept when something is put in, unless the last sweep is less than an interval ago: what is
past its limit then goes. `Holds` is what all operations keep, and `Holds.length_le` what it
comes to: a store never holds more than was put in with a limit at most an interval past.
-/

namespace Sweep

/-- The keys in a store, their time limits, if they have one, and when to sweep next. -/
structure Store (κ : Type) where
  keys : List κ
  nodup : keys.Nodup
  limit : κ → Option Nat
  due : Nat

variable {κ : Type}

/-- If a sweep is due, what is past its limit goes. -/
structure Sweeps (interval now : Nat) (s s' : Store κ) : Prop where
  keys : s'.keys ⊆ s.keys
  limit : ∀ k ∈ s'.keys, s'.limit k = s.limit k
  fresh : s.due ≤ now → ∀ k ∈ s'.keys, ∀ t, s'.limit k = some t → now ≤ t
  due : s'.due = if now < s.due then s.due else now + interval

/-- A key is put in, with its limit. -/
structure Puts (k : κ) (limit : Option Nat) (s s' : Store κ) : Prop where
  old : ∀ k' ∈ s'.keys, k' ≠ k → k' ∈ s.keys ∧ s'.limit k' = s.limit k'
  new : s'.limit k = limit
  due : s'.due = s.due

/-- Keys are taken out. -/
structure Drops (s s' : Store κ) : Prop where
  keys : s'.keys ⊆ s.keys
  limit : ∀ k ∈ s'.keys, s'.limit k = s.limit k
  due : s'.due = s.due

/-- The keys in the store are among those put in, and no limit is more than an interval before
the next sweep. The last sweep was due or asked for at `last`. -/
structure Holds (interval last : Nat) (added : List (κ × Option Nat)) (s : Store κ) : Prop where
  added : ∀ k ∈ s.keys, (k, s.limit k) ∈ added
  swept : ∀ k ∈ s.keys, ∀ t, s.limit k = some t → s.due ≤ t + interval
  due : last < s.due ∧ s.due ≤ last + interval

variable {interval last now : Nat} {added : List (κ × Option Nat)} {s s' : Store κ} {k : κ}
  {limit : Option Nat}

theorem drops_refl (s : Store κ) : Drops s s := ⟨fun _ hk => hk, fun _ _ => rfl, rfl⟩

theorem holds_nil (hkeys : s.keys = []) (hdue : s.due = now + interval) (hinterval : 0 < interval) :
    Holds interval now [] s where
  added k hk := by simp [hkeys] at hk
  swept k hk := by simp [hkeys] at hk
  due := by omega

theorem Holds.sweep (h : Holds interval last added s) (hsweeps : Sweeps interval now s s')
    (hlast : last ≤ now) (hinterval : 0 < interval) : Holds interval now added s' := by
  have hbefore := h.due
  refine ⟨fun k hk => ?_, fun k hk t ht => ?_, ?_⟩
  · rw [hsweeps.limit k hk]
    exact h.added k (hsweeps.keys hk)
  · have hswept := h.swept k (hsweeps.keys hk) t (hsweeps.limit k hk ▸ ht)
    rw [hsweeps.due]
    split
    · exact hswept
    · have hfresh := hsweeps.fresh (by omega) k hk t ht
      omega
  · rw [hsweeps.due]
    split <;> omega

theorem Holds.put (h : Holds interval last added s) (hputs : Puts k limit s s')
    (hlimit : ∀ t, limit = some t → last ≤ t) : Holds interval last (added ++ [(k, limit)]) s' := by
  refine ⟨fun k' hk' => ?_, fun k' hk' t ht => ?_, hputs.due ▸ h.due⟩
  · by_cases hk : k' = k
    · subst hk
      rw [hputs.new]
      exact List.mem_append_right _ List.mem_cons_self
    · obtain ⟨hmem, hsame⟩ := hputs.old k' hk' hk
      rw [hsame]
      exact List.mem_append_left _ (h.added k' hmem)
  · rw [hputs.due]
    by_cases hk : k' = k
    · subst hk
      have hfresh := hlimit t (hputs.new ▸ ht)
      have hdue := h.due
      omega
    · obtain ⟨hmem, hsame⟩ := hputs.old k' hk' hk
      exact h.swept k' hmem t (hsame ▸ ht)

theorem Holds.drop (h : Holds interval last added s) (hdrops : Drops s s') :
    Holds interval last added s' where
  added k hk := hdrops.limit k hk ▸ h.added k (hdrops.keys hk)
  swept k hk t ht := by
    rw [hdrops.due]
    exact h.swept k (hdrops.keys hk) t (hdrops.limit k hk ▸ ht)
  due := hdrops.due ▸ h.due

/-- No more is held than was put in with a limit at most an interval before the last time. -/
theorem Holds.length_le (h : Holds interval last added s) : s.keys.length ≤
    (added.filter fun a => a.2.all fun t => decide (last < t + interval)).length := by
  have hsubset : s.keys ⊆
      (added.filter fun a => a.2.all fun t => decide (last < t + interval)).map Prod.fst := by
    intro k hk
    refine List.mem_map.mpr ⟨(k, s.limit k), List.mem_filter.mpr ⟨h.added k hk, ?_⟩, rfl⟩
    rw [Option.all_eq_true]
    intro t ht
    have hswept := h.swept k hk t ht
    have hdue := h.due
    exact decide_eq_true (by omega)
  have hle := (List.subperm_of_subset s.nodup hsubset).length_le
  rwa [List.length_map] at hle

end Sweep
