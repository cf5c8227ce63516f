import RestDiameterBridge.Lib.Expiry
import RestDiameterBridge.Lib.Latest
import RestDiameterBridge.Transport.Matching

/-!
# RestDiameterBridge.Transport.HopByHopIds

The map from generated to original hop-by-hop ids over whole runs
(`src/transport/hop_by_hop_id_mapper.rs`).

Mappings are dropped when they are looked up for an answer, and every 30 seconds at most
when one is added, if they are past their limit. `MappingHistory` is the reference: it only
forgets what was removed and looks at the age of a mapping when it is asked for.
`results_eq` says that the two give the same results.
-/

namespace RestDiameterBridge

open Expiry

/-- A mapping, and when it was made. -/
structure Mapping where
  newHopByHopId : UInt32
  originalHopByHopId : UInt32
  addedAt : Nat

/-- The mappings that were added and not removed since. -/
abbrev MappingHistory := List Mapping

namespace MappingHistory

/-- Record a mapping. -/
def addMapping (h : MappingHistory) (now : Nat) (newHopByHopId originalHopByHopId : UInt32) :
    MappingHistory :=
  h ++ [⟨newHopByHopId, originalHopByHopId, now⟩]

/-- The original id, if the mapping is not past its 300 seconds. -/
def getOriginalId (h : MappingHistory) (now : Nat) (newHopByHopId : UInt32) : Option UInt32 :=
  match Latest.latest Mapping.newHopByHopId newHopByHopId h with
  | some mapping => if now ≤ mapping.addedAt + 300000 then some mapping.originalHopByHopId else none
  | none => none

/-- Forget a mapping. -/
def removeMapping (h : MappingHistory) (now : Nat) (newHopByHopId : UInt32) :
    Option UInt32 × MappingHistory :=
  (h.getOriginalId now newHopByHopId, h.filter fun mapping => mapping.newHopByHopId ≠ newHopByHopId)

end MappingHistory

/-- A call on the mapper. -/
inductive MapperCall
  | addMapping (newHopByHopId originalHopByHopId : UInt32)
  | removeMapping (newHopByHopId : UInt32)
  | getOriginalId (newHopByHopId : UInt32)

namespace HopByHopIdMapper

/-- The results of calls, each some time after the one before. The clock is read once in
each. -/
def results (m : HopByHopIdMapper) (now : Nat) : List (Nat × MapperCall) → List (Option UInt32)
  | [] => []
  | (elapsed, .addMapping newId original) :: calls =>
      (m.addMapping (now + elapsed) newId original).results (now + elapsed) calls
  | (elapsed, .removeMapping newId) :: calls =>
      let (original, m) := m.removeMapping (now + elapsed) newId
      original :: m.results (now + elapsed) calls
  | (elapsed, .getOriginalId newId) :: calls =>
      m.getOriginalId (now + elapsed) newId :: m.results (now + elapsed) calls

end HopByHopIdMapper

/-- The results of the reference. -/
def MappingHistory.results (h : MappingHistory) (now : Nat) :
    List (Nat × MapperCall) → List (Option UInt32)
  | [] => []
  | (elapsed, .addMapping newId original) :: calls =>
      MappingHistory.results (h.addMapping (now + elapsed) newId original) (now + elapsed) calls
  | (elapsed, .removeMapping newId) :: calls =>
      let (original, h) := h.removeMapping (now + elapsed) newId
      original :: MappingHistory.results h (now + elapsed) calls
  | (elapsed, .getOriginalId newId) :: calls =>
      h.getOriginalId (now + elapsed) newId :: MappingHistory.results h (now + elapsed) calls

namespace HopByHopIdMapper

/-- Is the mapping past its limit? -/
def isExpired (entry : UInt32 × Nat) (now : Nat) : Bool := decide (entry.2 < now)

/-- What a look-up finds. -/
def find (m : HopByHopIdMapper) (id : UInt32) : Option (UInt32 × Nat) := m.map.lookup id

section
variable {m : HopByHopIdMapper} {now : Nat} {newId original : UInt32}

theorem isExpired_mono (entry : UInt32 × Nat) (t t' : Nat) (h : t ≤ t')
    (hexpired : isExpired entry t = true) : isExpired entry t' = true := by
  simp only [isExpired, decide_eq_true_eq] at hexpired ⊢
  omega

theorem getOriginalId_eq :
    m.getOriginalId now newId = (live isExpired m.find now newId).map Prod.fst := by
  unfold getOriginalId live find
  cases m.map.lookup newId with
  | none => rfl
  | some entry =>
    obtain ⟨originalId, timeout⟩ := entry
    by_cases hexpired : timeout < now
    · simp [isExpired, hexpired]
    · simp [isExpired, hexpired, Nat.not_lt.mp hexpired]

/-- A removal returns what a look-up does. -/
theorem removeMapping_fst : (m.removeMapping now newId).1 = m.getOriginalId now newId := by
  unfold removeMapping getOriginalId
  cases m.map.lookup newId <;> rfl

theorem find_removeMapping :
    (m.removeMapping now newId).2.find = Function.update m.find newId none := by
  funext id
  rw [find, removeMapping_map]
  by_cases hid : id = newId
  · rw [hid, AList.lookup_erase, Function.update_self]
  · rw [AList.lookup_erase_ne hid, Function.update_of_ne hid]
    rfl

/-- From then on the map holds what it held, and the mapping added. -/
theorem agree_addMapping : Agree isExpired now (m.addMapping now newId original).find
    (Function.update m.find newId (some (original, now + 300000))) := by
  have hsheds : Sheds isExpired now m.find (m.cleanExpiredEntries now).find := by
    have hmap : (m.cleanUpDue now).2.find = m.find := by
      funext id
      rw [find, map_cleanUpDue, find]
    rw [← hmap]
    show Sheds isExpired now _ (if (m.cleanUpDue now).1 then (m.cleanUpDue now).2.dropExpired now
      else (m.cleanUpDue now).2).find
    split
    · exact sheds_retain (m.cleanUpDue now).2.map
    · exact Sheds.refl _
  have hfind : (m.addMapping now newId original).find =
      Function.update (m.cleanExpiredEntries now).find newId (some (original, now + 300000)) := by
    funext id
    by_cases hid : id = newId
    · rw [hid, Function.update_self]
      exact AList.lookup_insert _
    · rw [Function.update_of_ne hid]
      exact AList.lookup_insert_ne hid
  rw [hfind]
  exact (hsheds.agree isExpired_mono).symm.update _ _

end

end HopByHopIdMapper

namespace MappingHistory

/-- What the reference holds, as an entry of the map. -/
def find (h : MappingHistory) (id : UInt32) : Option (UInt32 × Nat) :=
  (Latest.latest Mapping.newHopByHopId id h).map fun mapping =>
    (mapping.originalHopByHopId, mapping.addedAt + 300000)

variable {h : MappingHistory} {now : Nat} {newId original : UInt32}

theorem getOriginalId_eq :
    h.getOriginalId now newId = (live HopByHopIdMapper.isExpired h.find now newId).map Prod.fst := by
  unfold getOriginalId live find
  cases Latest.latest Mapping.newHopByHopId newId h with
  | none => rfl
  | some mapping =>
    by_cases hfresh : now ≤ mapping.addedAt + 300000
    · simp [HopByHopIdMapper.isExpired, hfresh]
    · simp [HopByHopIdMapper.isExpired, hfresh, Nat.not_le.mp hfresh]

theorem find_addMapping :
    find (h.addMapping now newId original) =
      Function.update h.find newId (some (original, now + 300000)) := by
  funext id
  rw [find, addMapping, Latest.latest_append, Latest.latest, Latest.latest]
  by_cases hid : id = newId
  · rw [hid, Function.update_self]
    simp
  · rw [Function.update_of_ne hid, find]
    simp [Ne.symm hid]

theorem find_removeMapping :
    find (h.removeMapping now newId).2 = Function.update h.find newId none := by
  funext id
  rw [find, removeMapping, Latest.latest_filter_ne]
  by_cases hid : id = newId
  · rw [hid, Function.update_self, if_pos rfl]
    rfl
  · rw [Function.update_of_ne hid, if_neg hid, find]

end MappingHistory

namespace HopByHopIdMapper

/-- The map holds what the reference does, as far as it is not past its limit. -/
def Refines (m : HopByHopIdMapper) (h : MappingHistory) (now : Nat) : Prop :=
  Agree isExpired now m.find h.find

variable {m : HopByHopIdMapper} {h : MappingHistory} {now : Nat} {newId original : UInt32}

theorem refines_new (now : Nat) : (new now).Refines [] now := fun _ _ _ => rfl

theorem Refines.addMapping (hm : m.Refines h now) :
    (m.addMapping now newId original).Refines (h.addMapping now newId original) now := by
  refine agree_addMapping.trans ?_
  rw [MappingHistory.find_addMapping]
  exact Agree.update hm _ _

theorem Refines.removeMapping (hm : m.Refines h now) :
    (m.removeMapping now newId).2.Refines (h.removeMapping now newId).2 now := by
  rw [Refines, find_removeMapping, MappingHistory.find_removeMapping]
  exact Agree.update hm _ _

theorem Refines.getOriginalId (hm : m.Refines h now) :
    m.getOriginalId now newId = h.getOriginalId now newId := by
  rw [getOriginalId_eq, MappingHistory.getOriginalId_eq, hm now (Nat.le_refl now)]

theorem Refines.same_results (hm : m.Refines h now) (calls : List (Nat × MapperCall)) :
    m.results now calls = h.results now calls := by
  induction calls generalizing m h now with
  | nil => rfl
  | cons call calls ih =>
    obtain ⟨elapsed, call⟩ := call
    have hlater : m.Refines h (now + elapsed) := hm.later (Nat.le_add_right now elapsed)
    cases call with
    | addMapping newId original => exact ih hlater.addMapping
    | removeMapping newId =>
      rw [results, MappingHistory.results]
      refine congrArg₂ List.cons ?_ (ih hlater.removeMapping)
      exact removeMapping_fst.trans hlater.getOriginalId
    | getOriginalId newId =>
      rw [results, MappingHistory.results, hlater.getOriginalId, ih hlater]

/-- **Clean-up is not observable.** Whatever the calls and the times between them, the mapper
returns what the reference does, which gives the original id of the mapping last added and not
removed since, up to 300 seconds after it was added. -/
theorem results_eq (start : Nat) (calls : List (Nat × MapperCall)) :
    (new start).results start calls = MappingHistory.results [] start calls :=
  (refines_new start).same_results calls

end HopByHopIdMapper

end RestDiameterBridge
