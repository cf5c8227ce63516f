import Mathlib.Data.Fintype.Card

/-!
# RestDiameterBridge.Lib.Trail

Messages that are passed on from node to node, and the nodes they have been through.

`Trail.nodup` is the rule behind loop detection by recording: if a node leaves its mark on
whatever it passes on, no node removes another's mark, and no node passes on what carries
its own, then nothing goes through a node twice.
-/

/-- The nodes, in order, that have passed the first message on, as which it is now the
second. -/
inductive Trail {ι M : Type} (forwards : ι → M → M → Prop) : M → List ι → M → Prop
  | start (m : M) : Trail forwards m [] m
  | forward {m m' m'' : M} {path : List ι} {i : ι} :
      Trail forwards m path m' → forwards i m' m'' → Trail forwards m (path ++ [i]) m''

namespace Trail

variable {ι M : Type} {forwards : ι → M → M → Prop} {seen : M → ι → Prop} {m m' : M} {path : List ι}

/-- What passing on establishes once and then keeps holds behind the first node. -/
theorem holds {p : M → Prop} (h : Trail forwards m path m') (hpath : path ≠ [])
    (hstep : ∀ i m m', forwards i m m' → p m') : p m' := by
  cases h with
  | start => exact absurd rfl hpath
  | forward _ hforward => exact hstep _ _ _ hforward

/-- The marks of all nodes of the path are on the message. -/
theorem seen_of_mem (h : Trail forwards m path m')
    (hmark : ∀ i m m', forwards i m m' → seen m' i)
    (hkeep : ∀ i m m', forwards i m m' → ∀ j, seen m j → seen m' j) : ∀ i ∈ path, seen m' i := by
  induction h with
  | start => exact fun i hi => absurd hi List.not_mem_nil
  | forward _ hforward ih =>
    intro j hj
    rcases List.mem_append.mp hj with hbefore | hlast
    · exact hkeep _ _ _ hforward j (ih j hbefore)
    · rw [List.mem_singleton.mp hlast]
      exact hmark _ _ _ hforward

/-- No node passes a message on that it has passed on before. -/
theorem nodup (h : Trail forwards m path m')
    (hmark : ∀ i m m', forwards i m m' → seen m' i)
    (hkeep : ∀ i m m', forwards i m m' → ∀ j, seen m j → seen m' j)
    (hrefuse : ∀ i m m', forwards i m m' → ¬seen m i) : path.Nodup := by
  induction h with
  | start => exact List.nodup_nil
  | @forward m' m'' path i htrail hforward ih =>
    have hnew : i ∉ path := fun hi =>
      hrefuse _ _ _ hforward (htrail.seen_of_mem hmark hkeep i hi)
    rw [List.nodup_append]
    refine ⟨ih, List.nodup_singleton i, fun a ha b hb heq => hnew ?_⟩
    rw [← List.mem_singleton.mp hb, ← heq]
    exact ha

end Trail
