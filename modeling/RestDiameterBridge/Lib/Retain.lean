import Mathlib.Data.List.AList

/-!
# RestDiameterBridge.Lib.Retain

`retain` on association lists: drop the entries that fail a test.
-/

namespace AList

variable {α β : Type} [DecidableEq α]

/-- Keep the entries that pass the test. -/
def retain (m : AList fun _ : α => β) (keep : α → β → Bool) : AList fun _ : α => β where
  entries := m.entries.filter fun e => keep e.1 e.2
  nodupKeys := m.nodupKeys.sublist List.filter_sublist

theorem lookup_retain_eq_some {m : AList fun _ : α => β} {keep : α → β → Bool} {a : α} {b : β} :
    (m.retain keep).lookup a = some b ↔ m.lookup a = some b ∧ keep a b = true := by
  have hmem : ∀ m : AList fun _ : α => β, m.lookup a = some b ↔ ⟨a, b⟩ ∈ m.entries :=
    fun m => mem_lookup_iff
  rw [hmem, hmem, retain, List.mem_filter]

/-- What `retain` leaves was there before. -/
theorem lookup_of_lookup_retain {m : AList fun _ : α => β} {keep : α → β → Bool} {a : α} {b : β}
    (h : (m.retain keep).lookup a = some b) : m.lookup a = some b :=
  (lookup_retain_eq_some.mp h).1

theorem lookup_retain_of_mem {m : AList fun _ : α => β} {keep : α → β → Bool} {a : α}
    (h : a ∈ (m.retain keep).keys) : (m.retain keep).lookup a = m.lookup a := by
  obtain ⟨b, hb⟩ := Option.isSome_iff_exists.mp (lookup_isSome.mpr h)
  rw [hb, lookup_of_lookup_retain hb]

omit [DecidableEq α] in
theorem keys_retain_sublist {m : AList fun _ : α => β} {keep : α → β → Bool} :
    (m.retain keep).keys.Sublist m.keys :=
  List.filter_sublist.map Sigma.fst

theorem keys_erase_sublist {m : AList fun _ : α => β} {a : α} : (m.erase a).keys.Sublist m.keys := by
  rw [keys_erase]
  exact List.erase_sublist

/-- What is left when a key is taken out is found as before. -/
theorem lookup_erase_of_mem {m : AList fun _ : α => β} {a a' : α} (h : a' ∈ (m.erase a).keys) :
    (m.erase a).lookup a' = m.lookup a' :=
  lookup_erase_ne (mem_erase.mp (mem_keys.mpr h)).1

end AList
