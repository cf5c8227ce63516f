import RestDiameterBridge.Command
import RestDiameterBridge.Lib.Retain

/-!
# RestDiameterBridge.Transport.Matching

The shared state that matches answers to requests: the id generator
(`src/transport/id_generator.rs`), the map from generated to original hop-by-hop ids
(`hop_by_hop_id_mapper.rs`) and the answer manager (`answer_manager.rs`).

Times are milliseconds. Both maps drop expired entries when something is added, at most every 30
seconds: `clean_expired_entries` first asks under a lock of its own whether it is time to, and
then drops them under the lock of the map, which is taken once more to add the new entry. Here
are the three steps, and the whole call with nothing in between. A mapping is taken out by the
first look-up; an answer entry stays until it expires, however many answers find it.
-/

namespace RestDiameterBridge

/-! ### Ids -/

/-- A wrapping counter. -/
structure IdGenerator where
  currentId : UInt32
  deriving Repr, DecidableEq

namespace IdGenerator

/-- A generator starting at zero. -/
def new : IdGenerator := ⟨0⟩

/-- `fetch_add(1)`: the current id, and the generator after it. -/
def nextId (g : IdGenerator) : UInt32 × IdGenerator := (g.currentId, ⟨g.currentId + 1⟩)

/-- Ids drawn before the generator has come round are different. -/
theorem ofNat_inj {draw draw' n : Nat} (hn : n ≤ 2 ^ 32) (h : draw < n) (h' : draw' < n)
    (hid : UInt32.ofNat draw = UInt32.ofNat draw') : draw = draw' := by
  have htoNat := congrArg UInt32.toNat hid
  rw [UInt32.toNat_ofNat', UInt32.toNat_ofNat'] at htoNat
  omega

end IdGenerator

/-! ### The id map -/

/-- Original ids by generated id, each with its time limit. -/
structure HopByHopIdMapper where
  map : AList fun _ : UInt32 => UInt32 × Nat
  nextCleanupTime : Nat

namespace HopByHopIdMapper

/-- An empty map. -/
def new (now : Nat) : HopByHopIdMapper := { map := ∅, nextCleanupTime := now + 30000 }

/-- Is it time to drop the expired mappings? Then the next time is 30 seconds later. -/
def cleanUpDue (m : HopByHopIdMapper) (now : Nat) : Bool × HopByHopIdMapper :=
  if now < m.nextCleanupTime then (false, m)
  else (true, { m with nextCleanupTime := now + 30000 })

/-- Drop the expired mappings. -/
def dropExpired (m : HopByHopIdMapper) (now : Nat) : HopByHopIdMapper :=
  { m with map := m.map.retain fun _ entry => !decide (entry.2 < now) }

/-- Drop the expired mappings if it is time to. -/
def cleanExpiredEntries (m : HopByHopIdMapper) (now : Nat) : HopByHopIdMapper :=
  let (due, m) := m.cleanUpDue now
  if due then m.dropExpired now else m

/-- Put a mapping into the map, for 300 seconds. -/
def insertMapping (m : HopByHopIdMapper) (now : Nat) (newHopByHopId originalHopByHopId : UInt32) :
    HopByHopIdMapper :=
  { m with map := m.map.insert newHopByHopId (originalHopByHopId, now + 300000) }

/-- Map a generated id to the original one, for 300 seconds. -/
def addMapping (m : HopByHopIdMapper) (now : Nat) (newHopByHopId originalHopByHopId : UInt32) :
    HopByHopIdMapper :=
  (m.cleanExpiredEntries now).insertMapping now newHopByHopId originalHopByHopId

/-- Take the mapping of a generated id out. -/
def removeMapping (m : HopByHopIdMapper) (now : Nat) (newHopByHopId : UInt32) :
    Option UInt32 × HopByHopIdMapper :=
  let rest := { m with map := m.map.erase newHopByHopId }
  match m.map.lookup newHopByHopId with
  | some (originalId, timeout) => (if timeout < now then none else some originalId, rest)
  | none => (none, rest)

/-- The original id of a generated one. -/
def getOriginalId (m : HopByHopIdMapper) (now : Nat) (newHopByHopId : UInt32) : Option UInt32 :=
  match m.map.lookup newHopByHopId with
  | some (originalId, timeout) => if timeout < now then none else some originalId
  | none => none

section
variable {m : HopByHopIdMapper} {now : Nat} {id newId original : UInt32}

theorem removeMapping_map : (m.removeMapping now newId).2.map = m.map.erase newId := by
  unfold removeMapping
  dsimp only
  split <;> rfl

/-- The generated id is mapped, up to the limit at least. -/
def Maps (m : HopByHopIdMapper) (id original : UInt32) (limit : Nat) : Prop :=
  ∃ timeout, m.map.lookup id = some (original, timeout) ∧ limit ≤ timeout

theorem maps_insertMapping :
    (m.insertMapping now newId original).Maps newId original (now + 300000) :=
  ⟨now + 300000, AList.lookup_insert _, Nat.le_refl _⟩

theorem Maps.insertMapping {mapped : UInt32} {limit : Nat} (h : m.Maps id mapped limit)
    (hne : id ≠ newId) : (m.insertMapping now newId original).Maps id mapped limit := by
  obtain ⟨timeout, hlookup, hlimit⟩ := h
  exact ⟨timeout, (AList.lookup_insert_ne hne).trans hlookup, hlimit⟩

theorem map_cleanUpDue : (m.cleanUpDue now).2.map = m.map := by
  unfold cleanUpDue
  split <;> rfl

theorem Maps.cleanUpDue {limit : Nat} (h : m.Maps id original limit) :
    (m.cleanUpDue now).2.Maps id original limit := by
  rwa [Maps, map_cleanUpDue]

theorem Maps.dropExpired {limit : Nat} (h : m.Maps id original limit) (hnow : now ≤ limit) :
    (m.dropExpired now).Maps id original limit := by
  obtain ⟨timeout, hlookup, hlimit⟩ := h
  refine ⟨timeout, AList.lookup_retain_eq_some.mpr ⟨hlookup, ?_⟩, hlimit⟩
  have hfresh : ¬timeout < now := by omega
  simp [hfresh]

theorem Maps.removeMapping {limit : Nat} (h : m.Maps id original limit) (hne : id ≠ newId) :
    (m.removeMapping now newId).2.Maps id original limit := by
  obtain ⟨timeout, hlookup, hlimit⟩ := h
  refine ⟨timeout, ?_, hlimit⟩
  rw [removeMapping_map, AList.lookup_erase_ne hne, hlookup]

/-- A look-up in time gives the original id. -/
theorem Maps.lookUp {limit : Nat} (h : m.Maps id original limit) (hnow : now ≤ limit) :
    (m.removeMapping now id).1 = some original := by
  obtain ⟨timeout, hlookup, hlimit⟩ := h
  have hfresh : ¬timeout < now := by omega
  simp [HopByHopIdMapper.removeMapping, hlookup, hfresh]

end

end HopByHopIdMapper

/-! ### The answer manager -/

/-- What is known of a request that awaits its answer. -/
structure AnswerInfo where
  /-- The connection the request came from. -/
  connectionId : String
  answerHost : String
  answerRealm : String
  /-- The permit of its `Notify`. -/
  notified : Bool
  answer : Option Command
  timeout : Nat

/-- An info without an answer. -/
def AnswerInfo.new (connectionId answerHost answerRealm : String) (timeout : Nat) : AnswerInfo :=
  { connectionId, answerHost, answerRealm, notified := false, answer := none, timeout }

/-- Where the request came from. -/
def AnswerInfo.origin (i : AnswerInfo) : String × String × String :=
  (i.connectionId, i.answerHost, i.answerRealm)

/-- The answer infos by hop-by-hop id. An info is shared: the map and the tasks that wait
for it hold its index in `infos`. -/
structure AnswerManager where
  map : AList fun _ : UInt32 => Nat
  infos : List AnswerInfo
  nextCleanupTime : Nat

namespace AnswerManager

/-- A manager that expects nothing. -/
def new (now : Nat) : AnswerManager := { map := ∅, infos := [], nextCleanupTime := now + 30000 }

/-- Is it time to drop the expired entries? Then the next time is 30 seconds later. -/
def cleanUpDue (m : AnswerManager) (now : Nat) : Bool × AnswerManager :=
  if now < m.nextCleanupTime then (false, m)
  else (true, { m with nextCleanupTime := now + 30000 })

/-- Drop the expired entries. -/
def dropExpired (m : AnswerManager) (now : Nat) : AnswerManager :=
  { m with
    map := m.map.retain fun _ info =>
      (m.infos[info]?).any fun (i : AnswerInfo) => !decide (i.timeout < now) }

/-- Drop the expired entries if it is time to. -/
def cleanExpiredEntries (m : AnswerManager) (now : Nat) : AnswerManager :=
  let (due, m) := m.cleanUpDue now
  if due then m.dropExpired now else m

/-- Put a new info into the map. -/
def insertInfo (m : AnswerManager) (timeout : Nat) (hopByHopId : UInt32)
    (connectionId answerHost answerRealm : String) : AnswerManager :=
  { m with
    map := m.map.insert hopByHopId m.infos.length
    infos := m.infos ++ [.new connectionId answerHost answerRealm timeout] }

/-- Expect an answer with the given id, for 60 seconds. -/
def prepareForAnswer (m : AnswerManager) (now : Nat) (hopByHopId : UInt32)
    (connectionId answerHost answerRealm : String) : AnswerManager :=
  (m.cleanExpiredEntries now).insertInfo (now + 60000) hopByHopId connectionId answerHost answerRealm

/-- The info an answer with the given id belongs to. -/
def getAnswerInfo (m : AnswerManager) (hopByHopId : UInt32) : Option Nat :=
  m.map.lookup hopByHopId

/-- Hand an answer to whoever waits for it, and say where the request came from. -/
def answerReceived (m : AnswerManager) (answer : Command) :
    Option (String × String × String) × AnswerManager :=
  match m.getAnswerInfo answer.hopByHopId with
  | some info =>
      ((m.infos[info]?).map fun (i : AnswerInfo) => (i.connectionId, i.answerHost, i.answerRealm),
        { m with infos := m.infos.modify info fun i =>
            { i with answer := some answer, notified := true } })
  | none => (none, m)

/-- Where the request came from that awaits an answer with the given id. -/
def origin (m : AnswerManager) (hopByHopId : UInt32) : Option (String × String × String) :=
  (m.getAnswerInfo hopByHopId).bind fun info => (m.infos[info]?).map AnswerInfo.origin

/-- Wait for an info's notification: it takes the permit and returns the answer last set.
Without a permit the wait goes on. -/
def notified (m : AnswerManager) (info : Nat) : Option (Option Command × AnswerManager) :=
  match m.infos[info]? with
  | some i =>
      if i.notified then
        some (i.answer, { m with infos := m.infos.modify info ({ · with notified := false }) })
      else none
  | none => none

section
variable {m m' : AnswerManager} {now timeout info : Nat} {id newId : UInt32}
  {host realm connection : String} {i : AnswerInfo}

@[simp] theorem map_cleanUpDue : (m.cleanUpDue now).2.map = m.map := by
  unfold cleanUpDue
  split <;> rfl

@[simp] theorem infos_cleanUpDue : (m.cleanUpDue now).2.infos = m.infos := by
  unfold cleanUpDue
  split <;> rfl

/-- A sweep leaves what has not expired. -/
theorem lookup_dropExpired (hfound : m.getAnswerInfo id = some info) (hi : m.infos[info]? = some i)
    (hnow : now ≤ i.timeout) : (m.dropExpired now).getAnswerInfo id = some info := by
  refine AList.lookup_retain_eq_some.mpr ⟨hfound, ?_⟩
  have hfresh : ¬i.timeout < now := by omega
  simp [hi, hfresh]

/-- An entry found after a preparation is the new one or an old one. -/
theorem getAnswerInfo_insertInfo
    (h : (m.insertInfo timeout newId connection host realm).getAnswerInfo id = some info) :
    (id = newId ∧ info = m.infos.length) ∨ (id ≠ newId ∧ m.getAnswerInfo id = some info) := by
  replace h : (m.map.insert newId m.infos.length).lookup id = some info := h
  by_cases hid : id = newId
  · rw [hid, AList.lookup_insert] at h
    exact .inl ⟨hid, (Option.some.inj h).symm⟩
  · rw [AList.lookup_insert_ne hid] at h
    exact .inr ⟨hid, h⟩

theorem infos_insertInfo : (m.insertInfo timeout newId connection host realm).infos =
    m.infos ++ [.new connection host realm timeout] := rfl

/-- The new entry leads to the new info. -/
theorem getAnswerInfo_insertInfo_self :
    (m.insertInfo timeout newId connection host realm).getAnswerInfo newId = some m.infos.length :=
  AList.lookup_insert _

theorem getAnswerInfo_insertInfo_of_ne (hne : id ≠ newId) :
    (m.insertInfo timeout newId connection host realm).getAnswerInfo id = m.getAnswerInfo id :=
  AList.lookup_insert_ne hne

theorem getElem?_insertInfo_self :
    (m.insertInfo timeout newId connection host realm).infos[m.infos.length]? =
      some (.new connection host realm timeout) := by
  simp [infos_insertInfo]

theorem getElem?_insertInfo (hi : m.infos[info]? = some i) :
    (m.insertInfo timeout newId connection host realm).infos[info]? = some i := by
  rw [infos_insertInfo, List.getElem?_append_left (List.getElem?_eq_some_iff.mp hi).1, hi]

theorem answerReceived_origin {answer : Command} :
    (m.answerReceived answer).1 = m.origin answer.hopByHopId := by
  unfold answerReceived origin
  split <;> rename_i hinfo
  · rw [hinfo]
    rfl
  · rw [hinfo]
    rfl

@[simp] theorem answerReceived_map {answer : Command} : (m.answerReceived answer).2.map = m.map := by
  unfold answerReceived
  split <;> rfl

@[simp] theorem length_answerReceived {answer : Command} :
    (m.answerReceived answer).2.infos.length = m.infos.length := by
  unfold answerReceived
  split <;> simp

/-- Only the contents of the answer infos change. -/
theorem notified_eq {answer : Option Command} (h : m.notified info = some (answer, m')) :
    ∃ infos, m' = { m with infos } ∧ infos.length = m.infos.length := by
  unfold notified at h
  split at h
  · split at h
    · obtain ⟨-, rfl⟩ := Prod.mk.inj (Option.some.inj h)
      exact ⟨_, rfl, List.length_modify ..⟩
    · cases h
  · cases h

/-- The same entries under the same ids: only answers and permits differ. -/
structure SameEntries (m m' : AnswerManager) : Prop where
  map : m'.map = m.map
  infos : ∀ (k : Nat) (i : AnswerInfo), m.infos[k]? = some i →
    ∃ i' : AnswerInfo, m'.infos[k]? = some i' ∧ i'.origin = i.origin ∧ i'.timeout = i.timeout

theorem sameEntries_refl : m.SameEntries m where
  map := rfl
  infos := fun _ i hi => ⟨i, hi, rfl, rfl⟩

theorem sameEntries_modify {f : AnswerInfo → AnswerInfo} (horigin : ∀ i, (f i).origin = i.origin)
    (htimeout : ∀ i, (f i).timeout = i.timeout) :
    m.SameEntries { m with infos := m.infos.modify info f } where
  map := rfl
  infos := by
    intro k i hi
    show ∃ i', (m.infos.modify info f)[k]? = some i' ∧ _
    rw [List.getElem?_modify, hi]
    refine ⟨_, rfl, ?_⟩
    split
    · exact ⟨horigin i, htimeout i⟩
    · exact ⟨rfl, rfl⟩

theorem sameEntries_answerReceived {answer : Command} :
    m.SameEntries (m.answerReceived answer).2 := by
  unfold AnswerManager.answerReceived
  split
  · exact sameEntries_modify (fun _ => rfl) fun _ => rfl
  · exact sameEntries_refl

theorem sameEntries_notified {answer : Option Command}
    (hnotified : m.notified info = some (answer, m')) : m.SameEntries m' := by
  unfold AnswerManager.notified at hnotified
  split at hnotified
  · split at hnotified
    · obtain ⟨-, rfl⟩ := Prod.mk.inj (Option.some.inj hnotified)
      exact sameEntries_modify (fun _ => rfl) fun _ => rfl
    · cases hnotified
  · cases hnotified

/-- An answer with the given id is expected for the origin, up to the limit at least. -/
def Expects (m : AnswerManager) (id : UInt32) (origin : String × String × String)
    (limit : Nat) : Prop :=
  ∃ (info : Nat) (i : AnswerInfo), m.getAnswerInfo id = some info ∧ m.infos[info]? = some i ∧
    i.origin = origin ∧ limit ≤ i.timeout

section
variable {origin : String × String × String} {limit : Nat}

theorem Expects.origin_eq (h : m.Expects id origin limit) : m.origin id = some origin := by
  obtain ⟨info, i, hfound, hi, rfl, -⟩ := h
  simp [AnswerManager.origin, hfound, hi]

theorem expects_insertInfo : (m.insertInfo timeout newId connection host realm).Expects newId
    (connection, host, realm) timeout :=
  ⟨m.infos.length, _, getAnswerInfo_insertInfo_self, getElem?_insertInfo_self, rfl, Nat.le_refl _⟩

theorem Expects.insertInfo (h : m.Expects id origin limit) (hne : id ≠ newId) :
    (m.insertInfo timeout newId connection host realm).Expects id origin limit := by
  obtain ⟨info, i, hfound, hi, horigin, hlimit⟩ := h
  exact ⟨info, i, (getAnswerInfo_insertInfo_of_ne hne).trans hfound, getElem?_insertInfo hi,
    horigin, hlimit⟩

theorem Expects.cleanUpDue (h : m.Expects id origin limit) :
    (m.cleanUpDue now).2.Expects id origin limit := by
  rwa [Expects, getAnswerInfo, map_cleanUpDue, infos_cleanUpDue]

theorem Expects.dropExpired (h : m.Expects id origin limit) (hnow : now ≤ limit) :
    (m.dropExpired now).Expects id origin limit := by
  obtain ⟨info, i, hfound, hi, horigin, hlimit⟩ := h
  exact ⟨info, i, lookup_dropExpired hfound hi (hnow.trans hlimit), hi, horigin, hlimit⟩

/-- Answers and notifications do not change what is expected. -/
theorem Expects.sameEntries (h : m.Expects id origin limit) (hsame : m.SameEntries m') :
    m'.Expects id origin limit := by
  obtain ⟨info, i, hfound, hi, rfl, hlimit⟩ := h
  obtain ⟨i', hi', horigin, htimeout⟩ := hsame.infos info i hi
  refine ⟨info, i', ?_, hi', horigin, htimeout ▸ hlimit⟩
  rw [getAnswerInfo, hsame.map]
  exact hfound

end

end

end AnswerManager

end RestDiameterBridge
