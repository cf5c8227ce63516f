import RestDiameterBridge.Lib.Replay
import RestDiameterBridge.Transport.Course
import RestDiameterBridge.Transport.Matching

/-!
# RestDiameterBridge.Transport.SharedState

The state that matches answers to requests, as it follows from the calls on record.

The id generator, the id map and the answer manager are changed by calls of the tasks only,
so the calls in their order determine them, and the replies of these calls with them
(`SharedState.Allows`). What the record tells about a reply is said here: ids are drawn once
(`drawn_unique`), an answer is found for a request that was prepared for it (`origin_eq_some`,
`notified_eq_some`), and a mapping and an entry are there until they expire (`lookUp_found`,
`origin_found`). The calls of `add_mapping` and `prepare_for_answer` come to what the mapper and
the manager make of them where nothing overlaps them (`alone_addMapping`,
`alone_prepareForAnswer`).
-/

namespace RestDiameterBridge

/-- A call on record: the number of the job that made it (`none` if it was made outside the
tasks), its time and its reply. -/
structure Entry where
  job : Option Nat
  time : Nat
  event : Event

namespace Entry

/-- The id drawn by the call. -/
def drawn (e : Entry) : Option UInt32 :=
  match e.event with
  | ⟨.nextId, id⟩ => some id
  | _ => none

/-- The id for which the call prepares an answer, and the origin of the request. -/
def prepared (e : Entry) : Option (UInt32 × String × String × String) :=
  match e.event with
  | ⟨.prepareForAnswer _ id connectionId host realm, _⟩ => some (id, connectionId, host, realm)
  | _ => none

/-- The time limit of the answer that the call prepares for. -/
def limit (e : Entry) : Option Nat :=
  match e.event with
  | ⟨.prepareForAnswer timeout .., _⟩ => some timeout
  | _ => none

/-- The id that the call maps, and to which one. -/
def mapped (e : Entry) : Option (UInt32 × UInt32) :=
  match e.event with
  | ⟨.addMapping id original, _⟩ => some (id, original)
  | _ => none

/-- The id that the call looks up in the id map. -/
def lookedUp (e : Entry) : Option UInt32 :=
  match e.event with
  | ⟨.removeMapping id, _⟩ => some id
  | _ => none

/-- The id of the answer that the call hands to the answer manager. -/
def received (e : Entry) : Option UInt32 :=
  match e.event with
  | ⟨.answerReceived answer, _⟩ => some answer.hopByHopId
  | _ => none

section
variable {e : Entry} {id original : UInt32} {connectionId host realm : String}

theorem event_of_drawn (h : e.drawn = some id) : e.event = ⟨.nextId, id⟩ := by
  obtain ⟨job, time, c, r⟩ := e
  cases c with
  | nextId =>
    obtain rfl : r = id := Option.some.inj h
    rfl
  | _ => cases h

theorem event_of_prepared (h : e.prepared = some (id, connectionId, host, realm)) :
    ∃ timeout, e.event = ⟨.prepareForAnswer timeout id connectionId host realm, ()⟩ := by
  obtain ⟨job, time, c, r⟩ := e
  cases c with
  | prepareForAnswer timeout =>
    cases h
    exact ⟨timeout, rfl⟩
  | _ => cases h

theorem event_of_mapped (h : e.mapped = some (id, original)) :
    e.event = ⟨.addMapping id original, ()⟩ := by
  obtain ⟨job, time, c, r⟩ := e
  cases c with
  | addMapping =>
    cases h
    rfl
  | _ => cases h

theorem event_of_lookedUp (h : e.lookedUp = some id) : ∃ r, e.event = ⟨.removeMapping id, r⟩ := by
  obtain ⟨job, time, c, r⟩ := e
  cases c with
  | removeMapping =>
    cases h
    exact ⟨r, rfl⟩
  | _ => cases h

end

end Entry

/-- The shared state, and when it was last called. -/
structure SharedState where
  now : Nat
  hopByHopIds : IdGenerator
  mapper : HopByHopIdMapper
  answers : AnswerManager

namespace SharedState

/-- The state of a new node. -/
def new (now : Nat) : SharedState :=
  { now, hopByHopIds := .new, mapper := .new now, answers := .new now }

/-- The call comes later than the ones before, and its reply is the one that the state
gives. -/
def Allows (s : SharedState) (e : Entry) : Prop :=
  s.now ≤ e.time ∧
    match e.event with
    | ⟨.nextId, id⟩ => id = s.hopByHopIds.nextId.1
    | ⟨.now, now⟩ => now = e.time
    | ⟨.mappingsDue now, due⟩ => due = (s.mapper.cleanUpDue now).1
    | ⟨.answersDue now, due⟩ => due = (s.answers.cleanUpDue now).1
    | ⟨.removeMapping newId, original⟩ => original = (s.mapper.removeMapping e.time newId).1
    | ⟨.answerReceived answer, origin⟩ => origin = (s.answers.answerReceived answer).1
    | ⟨.getAnswerInfo id, info⟩ => info = s.answers.getAnswerInfo id
    | ⟨.notified _ _ info, some answer⟩ =>
        ∃ answers, s.answers.notified info = some (answer, answers)
    | _ => True

/-- The state after a call. -/
def next (s : SharedState) (e : Entry) : SharedState :=
  match e.event with
  | ⟨.nextId, _⟩ => { s with now := e.time, hopByHopIds := s.hopByHopIds.nextId.2 }
  | ⟨.mappingsDue now, _⟩ => { s with now := e.time, mapper := (s.mapper.cleanUpDue now).2 }
  | ⟨.dropMappings, _⟩ => { s with now := e.time, mapper := s.mapper.dropExpired e.time }
  | ⟨.addMapping newId originalId, _⟩ =>
      { s with now := e.time, mapper := s.mapper.insertMapping e.time newId originalId }
  | ⟨.removeMapping newId, _⟩ =>
      { s with now := e.time, mapper := (s.mapper.removeMapping e.time newId).2 }
  | ⟨.answersDue now, _⟩ => { s with now := e.time, answers := (s.answers.cleanUpDue now).2 }
  | ⟨.dropAnswers, _⟩ => { s with now := e.time, answers := s.answers.dropExpired e.time }
  | ⟨.prepareForAnswer timeout id connectionId host realm, _⟩ =>
      { s with
        now := e.time
        answers := s.answers.insertInfo timeout id connectionId host realm }
  | ⟨.answerReceived answer, _⟩ =>
      { s with now := e.time, answers := (s.answers.answerReceived answer).2 }
  | ⟨.notified _ _ info, some _⟩ =>
      { s with
        now := e.time
        answers := ((s.answers.notified info).map Prod.snd).getD s.answers }
  | _ => { s with now := e.time }

@[simp] theorem next_now (s : SharedState) (e : Entry) : (s.next e).now = e.time := by
  unfold next
  split <;> rfl

end SharedState

/-- The calls on record have led to the state. -/
abbrev Recorded (start : Nat) (entries : List Entry) (s : SharedState) : Prop :=
  Replay SharedState.Allows SharedState.next (.new start) entries s

namespace Recorded

variable {start : Nat} {entries before after : List Entry} {e e' : Entry} {s : SharedState}

/-- No call on record is later than the last one. -/
theorem time_le (h : Recorded start entries s) (he : e ∈ entries) : e.time ≤ s.now := by
  induction h with
  | nil => cases he
  | @snoc entries s e' _ hallows ih =>
    rw [SharedState.next_now]
    rcases List.mem_append.mp he with hbefore | hlast
    · exact (ih hbefore).trans hallows.1
    · rw [List.mem_singleton.mp hlast]

/-! ### Ids -/

theorem next_hopByHopIds :
    (s.next e).hopByHopIds = if e.drawn.isSome then s.hopByHopIds.nextId.2 else s.hopByHopIds := by
  obtain ⟨job, time, c, r⟩ := e
  cases c with
  | notified => cases r <;> rfl
  | _ => rfl

/-- The ids drawn count up from zero. -/
theorem drawn_eq (h : Recorded start entries s) :
    entries.filterMap Entry.drawn =
        (List.range (entries.filterMap Entry.drawn).length).map UInt32.ofNat ∧
      s.hopByHopIds.currentId = .ofNat (entries.filterMap Entry.drawn).length := by
  induction h with
  | nil => exact ⟨rfl, rfl⟩
  | @snoc entries s e _ hallows ih =>
    obtain ⟨hids, hcurrent⟩ := ih
    cases hdrawn : e.drawn with
    | none =>
      rw [List.filterMap_append, List.filterMap_cons_none hdrawn, next_hopByHopIds, hdrawn]
      simpa using ⟨hids, hcurrent⟩
    | some id =>
      have hid : id = s.hopByHopIds.currentId := by
        have hreply := hallows.2
        rw [Entry.event_of_drawn hdrawn] at hreply
        exact hreply
      rw [List.filterMap_append, List.filterMap_cons_some hdrawn, next_hopByHopIds, hdrawn]
      simp only [List.filterMap_nil, List.length_append, List.length_singleton, List.range_succ,
        List.map_append, List.map_singleton, ← hids, ← hcurrent, hid, Option.isSome_some, if_true,
        IdGenerator.nextId, true_and]
      rw [hcurrent]
      exact (UInt32.ofNat_add ..).symm

/-- No id is drawn twice before the generator has come round. -/
theorem drawn_unique {id : UInt32} (h : Recorded start entries s)
    (hfew : (entries.filterMap Entry.drawn).length ≤ 2 ^ 32) (he : e ∈ entries) (he' : e' ∈ entries)
    (hid : e.drawn = some id) (hid' : e'.drawn = some id) : e' = e := by
  have hnodup : (entries.filterMap Entry.drawn).Nodup := by
    rw [h.drawn_eq.1]
    refine List.Nodup.map_on (fun i hi j hj heq => ?_) List.nodup_range
    exact IdGenerator.ofNat_inj hfew (List.mem_range.mp hi) (List.mem_range.mp hj) heq
  by_contra hne
  have hpairwise := List.pairwise_filterMap.mp hnodup
  have hsymm : Std.Symm fun a b : Entry =>
      ∀ x, a.drawn = some x → ∀ y, b.drawn = some y → x ≠ y :=
    ⟨fun a b hab x hx y hy heq => hab y hy x hx heq.symm⟩
  exact hpairwise.forall he' he hne id hid' id hid rfl

/-! ### Answers -/

/-- The infos of the answer manager are those prepared, in their order. They are found under
the ids they were prepared for, and the answers in them came under these ids. -/
structure Awaits (entries : List Entry) (m : AnswerManager) : Prop where
  origins : m.infos.map AnswerInfo.origin = (entries.filterMap Entry.prepared).map Prod.snd
  found : ∀ id info, m.getAnswerInfo id = some info →
    ((entries.filterMap Entry.prepared)[info]?).map Prod.fst = some id
  answers : ∀ (info : Nat) (i : AnswerInfo) (answer : Command),
    m.infos[info]? = some i → i.answer = some answer →
    ((entries.filterMap Entry.prepared)[info]?).map Prod.fst = some answer.hopByHopId ∧
      ∃ e ∈ entries, ∃ origin, e.event = ⟨.answerReceived answer, some origin⟩

namespace Awaits

variable {m : AnswerManager}

/-- A call that does not touch the answer manager. -/
theorem other (h : Awaits entries m) (he : e.prepared = none) : Awaits (entries ++ [e]) m := by
  have hsame : (entries ++ [e]).filterMap Entry.prepared = entries.filterMap Entry.prepared := by
    rw [List.filterMap_append, List.filterMap_cons_none he, List.filterMap_nil, List.append_nil]
  refine ⟨by rw [hsame]; exact h.origins, by rw [hsame]; exact h.found, ?_⟩
  intro info i answer hi hanswer
  obtain ⟨hid, e', he', hevent⟩ := h.answers info i answer hi hanswer
  exact ⟨by rw [hsame]; exact hid, e', List.mem_append_left _ he', hevent⟩

/-- What is found no more. -/
theorem shed {m' : AnswerManager} (h : Awaits entries m) (hinfos : m'.infos = m.infos)
    (hfound : ∀ id info, m'.getAnswerInfo id = some info → m.getAnswerInfo id = some info) :
    Awaits entries m' where
  origins := hinfos ▸ h.origins
  found id info hid := h.found id info (hfound id info hid)
  answers info i answer hi := h.answers info i answer (hinfos ▸ hi)

/-- A further info. -/
theorem prepare {timeout : Nat} {id : UInt32} {connectionId host realm : String}
    (h : Awaits entries m) (he : e.prepared = some (id, connectionId, host, realm)) :
    Awaits (entries ++ [e]) (m.insertInfo timeout id connectionId host realm) := by
  have hall : (entries ++ [e]).filterMap Entry.prepared =
      entries.filterMap Entry.prepared ++ [(id, connectionId, host, realm)] := by
    rw [List.filterMap_append, List.filterMap_cons_some he, List.filterMap_nil]
  have hlength : m.infos.length = (entries.filterMap Entry.prepared).length := by
    simpa using congrArg List.length h.origins
  have hold : ∀ {info : Nat} {x : UInt32},
      ((entries.filterMap Entry.prepared)[info]?).map Prod.fst = some x →
      ((entries.filterMap Entry.prepared ++ [(id, connectionId, host, realm)])[info]?).map Prod.fst =
        some x := by
    intro info x hx
    obtain ⟨p, hp, rfl⟩ := Option.map_eq_some_iff.mp hx
    rw [List.getElem?_append_left (List.getElem?_eq_some_iff.mp hp).1, hp]
    rfl
  refine ⟨?_, ?_, ?_⟩
  · rw [AnswerManager.infos_insertInfo, hall, List.map_append, List.map_append, h.origins]
    rfl
  · intro id' info hfound
    rw [hall]
    rcases AnswerManager.getAnswerInfo_insertInfo hfound with ⟨rfl, rfl⟩ | ⟨-, hbefore⟩
    · rw [hlength, List.getElem?_append_right (Nat.le_refl _)]
      simp
    · exact hold (h.found id' info hbefore)
  · intro info i answer hi hanswer
    rw [AnswerManager.infos_insertInfo] at hi
    have hbefore : m.infos[info]? = some i := by
      rw [List.getElem?_append] at hi
      split at hi
      · exact hi
      · -- the new info has no answer
        obtain rfl := List.mem_singleton.mp (List.mem_of_getElem? hi)
        cases hanswer
    obtain ⟨hid, e', he', hevent⟩ := h.answers info i answer hbefore hanswer
    rw [hall]
    exact ⟨hold hid, e', List.mem_append_left _ he', hevent⟩

/-- An info is changed, but not its origin. -/
theorem modify {info : Nat} {f : AnswerInfo → AnswerInfo} (h : Awaits entries m)
    (horigin : ∀ i, (f i).origin = i.origin)
    (hanswer : ∀ i answer, m.infos[info]? = some i → (f i).answer = some answer →
      ((entries.filterMap Entry.prepared)[info]?).map Prod.fst = some answer.hopByHopId ∧
        ∃ e ∈ entries, ∃ origin, e.event = ⟨.answerReceived answer, some origin⟩) :
    Awaits entries { m with infos := m.infos.modify info f } := by
  refine ⟨?_, h.found, ?_⟩
  · show (m.infos.modify info f).map AnswerInfo.origin = _
    rw [← h.origins]
    refine List.ext_getElem? fun n => ?_
    rw [List.getElem?_map, List.getElem?_map, List.getElem?_modify]
    cases m.infos[n]? with
    | none => rfl
    | some i =>
      by_cases hn : info = n
      · simp [hn, horigin]
      · simp [hn]
  · intro info' i' answer hi' hanswer'
    have hmodified : (m.infos.modify info f)[info']? = some i' := hi'
    rw [List.getElem?_modify] at hmodified
    obtain ⟨i, hi, heq⟩ := Option.map_eq_some_iff.mp hmodified
    split at heq
    · rename_i hsame
      subst hsame heq
      exact hanswer i answer hi hanswer'
    · subst heq
      exact h.answers info' i answer hi hanswer'

/-- An answer comes. -/
theorem receive {answer : Command} (h : Awaits entries m)
    (he : e.event = ⟨.answerReceived answer, (m.answerReceived answer).1⟩) :
    Awaits (entries ++ [e]) (m.answerReceived answer).2 := by
  have hother : Awaits (entries ++ [e]) m := h.other (by simp [Entry.prepared, he])
  rw [AnswerManager.answerReceived_origin] at he
  unfold AnswerManager.answerReceived
  split
  · rename_i info hfound
    refine hother.modify (fun _ => rfl) fun i answer' hi hanswer => ?_
    obtain rfl : answer = answer' := Option.some.inj hanswer
    simp only [AnswerManager.origin, hfound, Option.bind_some, hi, Option.map_some] at he
    exact ⟨hother.found _ info hfound, e, by simp, i.origin, he⟩
  · exact hother

end Awaits

theorem awaits (h : Recorded start entries s) : Awaits entries s.answers := by
  induction h with
  | nil => exact ⟨rfl, fun _ _ hfound => (by cases hfound), fun _ _ _ hi => (by cases hi)⟩
  | @snoc entries s e _ hallows ih =>
    obtain ⟨job, time, c, r⟩ := e
    cases c with
    | prepareForAnswer timeout id connectionId host realm => exact ih.prepare rfl
    | answersDue now =>
      refine (ih.other rfl).shed AnswerManager.infos_cleanUpDue fun id info hid => ?_
      have hfound : (s.answers.cleanUpDue now).2.map.lookup id = some info := hid
      rwa [AnswerManager.map_cleanUpDue] at hfound
    | dropAnswers =>
      exact (ih.other rfl).shed rfl fun id info hid => AList.lookup_of_lookup_retain hid
    | answerReceived answer =>
      obtain rfl : r = (s.answers.answerReceived answer).1 := hallows.2
      exact ih.receive rfl
    | notified deadline id info =>
      match r with
      | none => exact ih.other rfl
      | some answer =>
        obtain ⟨answers, hanswers⟩ : ∃ answers, s.answers.notified info = some (answer, answers) :=
          hallows.2
        show Awaits _ (((s.answers.notified info).map Prod.snd).getD s.answers)
        rw [hanswers]
        unfold AnswerManager.notified at hanswers
        split at hanswers
        · rename_i i hi
          split at hanswers
          · obtain ⟨rfl, rfl⟩ := Prod.mk.inj (Option.some.inj hanswers)
            have hother : Awaits (entries ++ [⟨job, time, .notified deadline id info, some i.answer⟩])
                s.answers := ih.other rfl
            exact hother.modify (fun _ => rfl) fun i' answer hi' hanswer =>
              hother.answers info i' answer hi' hanswer
          · cases hanswers
        · cases hanswers
    | _ => exact ih.other rfl

/-- An answer that is accepted has been prepared for: its origin is that of a request that was
given its id. -/
theorem origin_eq_some {id : UInt32} {origin : String × String × String}
    (h : Recorded start entries s) (horigin : s.answers.origin id = some origin) :
    ∃ e ∈ entries, e.prepared = some (id, origin) := by
  obtain ⟨info, hfound, hinfo⟩ := Option.bind_eq_some_iff.mp horigin
  have hid := h.awaits.found id info hfound
  have hnth := congrArg (·[info]?) h.awaits.origins
  simp only [List.getElem?_map, hinfo] at hnth
  obtain ⟨p, hp, rfl⟩ := Option.map_eq_some_iff.mp hid
  rw [hp] at hnth
  obtain rfl : origin = p.2 := Option.some.inj hnth
  exact List.mem_filterMap.mp (List.mem_of_getElem? hp)

/-- An answer that a wait ends with has been accepted before, under the id of the wait. -/
theorem notified_eq_some {deadline info : Nat} {id : UInt32} {answer : Command}
    (h : Recorded start (before ++ e :: after) s) (hfound : e' ∈ before)
    (he' : e'.event = ⟨.getAnswerInfo id, some info⟩)
    (he : e.event = ⟨.notified deadline id info, some (some answer)⟩) :
    answer.hopByHopId = id ∧
      ∃ e ∈ before, ∃ origin, e.event = ⟨.answerReceived answer, some origin⟩ := by
  obtain ⟨s', hbefore, hallows, -⟩ := h.allowed
  have hid : ((before.filterMap Entry.prepared)[info]?).map Prod.fst = some id := by
    obtain ⟨first, second, rfl⟩ := List.append_of_mem hfound
    obtain ⟨s₁, hfirst, hallows₁, -⟩ := hbefore.allowed
    have hreply := hallows₁.2
    rw [he'] at hreply
    have hprepared := (awaits hfirst).found id info hreply.symm
    obtain ⟨p, hp, rfl⟩ := Option.map_eq_some_iff.mp hprepared
    rw [List.filterMap_append, List.getElem?_append_left (List.getElem?_eq_some_iff.mp hp).1, hp]
    rfl
  obtain ⟨answers, hanswers⟩ : ∃ answers, s'.answers.notified info = some (some answer, answers) := by
    have hreply := hallows.2
    rw [he] at hreply
    exact hreply
  unfold AnswerManager.notified at hanswers
  split at hanswers
  · rename_i i hi
    split at hanswers
    · obtain ⟨hanswer, -⟩ := Prod.mk.inj (Option.some.inj hanswers)
      obtain ⟨hhop, haccepted⟩ := (awaits hbefore).answers info i answer hi hanswer
      rw [hid] at hhop
      exact ⟨(Option.some.inj hhop).symm, haccepted⟩
    · cases hanswers
  · cases hanswers

/-! ### As long as nothing expires -/

/-- The first look-up of an id since its mapping, within 300 seconds, gives the original id. -/
theorem lookUp_found {between : List Entry} {id original : UInt32} {look : Entry} {r : Option UInt32}
    (h : Recorded start (before ++ e :: (between ++ look :: after)) s)
    (hlook : look.event = ⟨.removeMapping id, r⟩) (hmapped : e.mapped = some (id, original))
    (hsame : ∀ e' ∈ between, ∀ o, e'.mapped = some (id, o) → o = original)
    (hfirst : ∀ e' ∈ between, e'.lookedUp ≠ some id) (htime : look.time ≤ e.time + 300000) :
    r = some original := by
  rw [show before ++ e :: (between ++ look :: after) = (before ++ e :: between) ++ look :: after by
    simp] at h
  obtain ⟨s', hbefore, hallows, -⟩ := h.allowed
  have hkept : e.time ≤ s'.now ∧ s'.mapper.Maps id original (e.time + 300000) := by
    refine hbefore.keeps
      (P := fun s => e.time ≤ s.now ∧ s.mapper.Maps id original (e.time + 300000))
      (fun s _ _ => ⟨by simp, ?_⟩) fun s e' he' hallows' hs => ?_
    · unfold SharedState.next
      rw [Entry.event_of_mapped hmapped]
      exact HopByHopIdMapper.maps_insertMapping
    · obtain ⟨hnow, hmaps⟩ := hs
      have hbound : e'.time ≤ e.time + 300000 :=
        (time_le hbefore (by simp [he'])).trans (hallows.1.trans htime)
      refine ⟨by simpa using hnow.trans hallows'.1, ?_⟩
      obtain ⟨job, time, c, r'⟩ := e'
      cases c with
      | addMapping id' original' =>
        by_cases hid : id = id'
        · -- a further mapping is to the same id, and lasts longer
          subst hid
          obtain rfl := hsame _ he' original' rfl
          have hnew : (s.mapper.insertMapping time id original').Maps id original' (time + 300000) :=
            HopByHopIdMapper.maps_insertMapping
          obtain ⟨timeout, hlookup, hlimit⟩ := hnew
          have hle : e.time ≤ time := hnow.trans hallows'.1
          exact ⟨timeout, hlookup, by omega⟩
        · exact hmaps.insertMapping hid
      | mappingsDue now => exact hmaps.cleanUpDue
      | dropMappings => exact hmaps.dropExpired hbound
      | removeMapping id' =>
        refine hmaps.removeMapping fun hid => ?_
        subst hid
        exact hfirst _ he' rfl
      | notified => cases r' <;> exact hmaps
      | _ => exact hmaps
  have hreply := hallows.2
  rw [hlook] at hreply
  exact hreply.trans (hkept.2.lookUp htime)

theorem next_answers_expects {id : UInt32} {origin : String × String × String} {limit : Nat}
    (hallows : s.Allows e) (hprepare : ∀ o, e.prepared ≠ some (id, o)) (htime : e.time ≤ limit)
    (h : s.answers.Expects id origin limit) : (s.next e).answers.Expects id origin limit := by
  obtain ⟨job, time, c, r⟩ := e
  cases c with
  | answersDue now => exact h.cleanUpDue
  | dropAnswers => exact h.dropExpired htime
  | prepareForAnswer timeout id' connectionId host realm =>
    refine h.insertInfo fun hid => ?_
    subst hid
    exact hprepare _ rfl
  | answerReceived answer => exact h.sameEntries AnswerManager.sameEntries_answerReceived
  | notified deadline id' info =>
    match r with
    | none => exact h
    | some answer =>
      obtain ⟨answers, hanswers⟩ : ∃ answers, s.answers.notified info = some (answer, answers) :=
        hallows.2
      show AnswerManager.Expects (((s.answers.notified info).map Prod.snd).getD s.answers) _ _ _
      rw [hanswers]
      exact h.sameEntries (AnswerManager.sameEntries_notified hanswers)
  | _ => exact h

/-- An answer is accepted up to the time limit of the preparation for it. -/
theorem origin_found {answer : Command} {origin : String × String × String}
    {received : Entry} {r : Option (String × String × String)}
    (h : Recorded start (before ++ received :: after) s)
    (hreceived : received.event = ⟨.answerReceived answer, r⟩) (he : e ∈ before)
    (hprepared : e.prepared = some (answer.hopByHopId, origin))
    (hsame : ∀ e' ∈ before, ∀ o, e'.prepared = some (answer.hopByHopId, o) →
      o = origin ∧ ∀ limit ∈ e'.limit, received.time ≤ limit) : r = some origin := by
  obtain ⟨s', hbefore, hallows, -⟩ := h.allowed
  obtain ⟨first, second, rfl⟩ := List.append_of_mem he
  -- every preparation for the id is for the same origin, and lasts long enough
  have hprepares : ∀ {s : SharedState} {e' : Entry} {o : String × String × String},
      e' ∈ first ++ e :: second → e'.prepared = some (answer.hopByHopId, o) →
      (s.next e').answers.Expects answer.hopByHopId origin received.time := by
    intro s e' o hmem he'
    obtain ⟨rfl, hlimit⟩ := hsame e' hmem o he'
    obtain ⟨job, time, c, u⟩ := e'
    cases c with
    | prepareForAnswer timeout id connectionId host realm =>
      cases he'
      have hnew : (s.answers.insertInfo timeout answer.hopByHopId connectionId host realm).Expects
          answer.hopByHopId (connectionId, host, realm) timeout := AnswerManager.expects_insertInfo
      obtain ⟨info, i, hfound, hi, horigin, hle⟩ := hnew
      exact ⟨info, i, hfound, hi, horigin, (hlimit timeout rfl).trans hle⟩
    | _ => cases he'
  have hkept : s'.answers.Expects answer.hopByHopId origin received.time := by
    refine hbefore.keeps (P := fun s => s.answers.Expects answer.hopByHopId origin received.time)
      (fun s _ _ => hprepares (by simp) hprepared) fun s e' he' hallows' hexpects => ?_
    by_cases hanother : ∃ o, e'.prepared = some (answer.hopByHopId, o)
    · obtain ⟨o, ho⟩ := hanother
      exact hprepares (by simp [he']) ho
    · refine next_answers_expects hallows' (fun o ho => hanother ⟨o, ho⟩) ?_ hexpects
      exact (time_le hbefore (by simp [he'])).trans hallows.1
  have hreply := hallows.2
  rw [hreceived] at hreply
  rw [hreply, AnswerManager.answerReceived_origin]
  exact hkept.origin_eq

end Recorded

/-! ### Calls that nothing overlaps -/

namespace SharedState

/-- Run on its own, and with the clock at rest, the program leads from `s` to `t`. -/
def Alone (s : SharedState) (p : Proc Unit) (t : SharedState) : Prop :=
  ∃ trace : List Event, p.Reaches trace (.ret ()) ∧
    ∀ start entries job, Recorded start entries s →
      Recorded start (entries ++ trace.map fun event => ⟨job, s.now, event⟩) t

variable {s t u : SharedState}

theorem alone_ret : s.Alone (.ret ()) s :=
  ⟨[], .refl _, fun _ _ _ h => by simpa using h⟩

theorem alone_call {c : Call} {r : c.Reply} {next : c.Reply → Proc Unit}
    (hallows : ∀ job, s.Allows ⟨job, s.now, ⟨c, r⟩⟩)
    (hnext : ∀ job, s.next ⟨job, s.now, ⟨c, r⟩⟩ = u) (h : u.Alone (next r) t) :
    s.Alone (.call c next) t := by
  obtain ⟨trace, hreaches, hrecorded⟩ := h
  have hnow : u.now = s.now := by rw [← hnext none, next_now]
  refine ⟨⟨c, r⟩ :: trace, .cons hreaches, fun start entries job hs => ?_⟩
  have hsnoc := hs.snoc (hallows job)
  rw [hnext job] at hsnoc
  have hmore := hrecorded start _ job hsnoc
  rw [hnow] at hmore
  simpa using hmore

/-- A mapping that nothing overlaps is added as by one call. -/
theorem alone_addMapping (s : SharedState) (id original : UInt32) :
    s.Alone (Proc.addMapping id original)
      { s with mapper := s.mapper.addMapping s.now id original } := by
  have hinsert : ∀ m : HopByHopIdMapper, SharedState.Alone { s with mapper := m }
      (.call (.addMapping id original) .ret)
      { s with mapper := m.insertMapping s.now id original } := fun m =>
    alone_call (r := ()) (fun _ => ⟨Nat.le_refl _, trivial⟩) (fun _ => rfl) alone_ret
  refine alone_call (r := s.now) (u := s) (fun _ => ⟨Nat.le_refl _, rfl⟩) (fun _ => rfl) ?_
  refine alone_call (r := (s.mapper.cleanUpDue s.now).1)
    (u := { s with mapper := (s.mapper.cleanUpDue s.now).2 })
    (fun _ => ⟨Nat.le_refl _, rfl⟩) (fun _ => rfl) ?_
  have hadd : s.mapper.addMapping s.now id original =
      (if (s.mapper.cleanUpDue s.now).1 then (s.mapper.cleanUpDue s.now).2.dropExpired s.now
        else (s.mapper.cleanUpDue s.now).2).insertMapping s.now id original := rfl
  rw [hadd]
  cases hdue : (s.mapper.cleanUpDue s.now).1 with
  | false => exact hinsert _
  | true =>
    exact alone_call (r := ())
      (u := { s with mapper := (s.mapper.cleanUpDue s.now).2.dropExpired s.now })
      (fun _ => ⟨Nat.le_refl _, trivial⟩) (fun _ => rfl) (hinsert _)

/-- And so is a preparation for an answer. -/
theorem alone_prepareForAnswer (s : SharedState) (id : UInt32)
    (connectionId answerHost answerRealm : String) :
    s.Alone (Proc.prepareForAnswer id connectionId answerHost answerRealm)
      { s with
        answers := s.answers.prepareForAnswer s.now id connectionId answerHost answerRealm } := by
  have hinsert : ∀ m : AnswerManager, SharedState.Alone { s with answers := m }
      (.call .now fun now =>
        .call (.prepareForAnswer (now + 60000) id connectionId answerHost answerRealm) .ret)
      { s with
        answers := m.insertInfo (s.now + 60000) id connectionId answerHost answerRealm } := fun m =>
    alone_call (r := s.now) (u := { s with answers := m }) (fun _ => ⟨Nat.le_refl _, rfl⟩)
      (fun _ => rfl)
      (alone_call (r := ()) (fun _ => ⟨Nat.le_refl _, trivial⟩) (fun _ => rfl) alone_ret)
  refine alone_call (r := s.now) (u := s) (fun _ => ⟨Nat.le_refl _, rfl⟩) (fun _ => rfl) ?_
  refine alone_call (r := (s.answers.cleanUpDue s.now).1)
    (u := { s with answers := (s.answers.cleanUpDue s.now).2 })
    (fun _ => ⟨Nat.le_refl _, rfl⟩) (fun _ => rfl) ?_
  have hprepare : s.answers.prepareForAnswer s.now id connectionId answerHost answerRealm =
      (if (s.answers.cleanUpDue s.now).1 then (s.answers.cleanUpDue s.now).2.dropExpired s.now
        else (s.answers.cleanUpDue s.now).2).insertInfo (s.now + 60000) id connectionId answerHost
          answerRealm := rfl
  rw [hprepare]
  cases hdue : (s.answers.cleanUpDue s.now).1 with
  | false => exact hinsert _
  | true =>
    exact alone_call (r := ())
      (u := { s with answers := (s.answers.cleanUpDue s.now).2.dropExpired s.now })
      (fun _ => ⟨Nat.le_refl _, trivial⟩) (fun _ => rfl) (hinsert _)

end SharedState

end RestDiameterBridge
