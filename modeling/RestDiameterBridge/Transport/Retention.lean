import RestDiameterBridge.Lib.SharedSweep
import RestDiameterBridge.Transport.Journal
import RestDiameterBridge.Transport.RedirectCoverage

/-!
# RestDiameterBridge.Transport.Retention

How much a node keeps of requests that are never answered, and of redirects.

Nothing removes a mapping, an awaited answer or a cached redirect when its time is over: each
store is swept by additions, every 30 seconds at most. An addition to the first two is several
steps, and other tasks take theirs in between. `retained_of_run` says what comes of it, in
every run whose additions need no longer than a delay: no more mappings than were made within 330
seconds, and no more awaited answers than were prepared for within 90, but for those that come
while a sweep is waiting. For redirects there is no such bound (`size_le_of_run`): an answer
without a Redirect-Max-Cache-Time counts for ever.
-/

namespace RestDiameterBridge

open Program Transition Sweep

/-! ### The stores -/

namespace HopByHopIdMapper

/-- The mappings, with their limits. -/
def store (m : HopByHopIdMapper) : Store UInt32 where
  keys := m.map.keys
  nodup := m.map.keys_nodup
  limit id := (m.map.lookup id).map Prod.snd
  due := m.nextCleanupTime

variable {m : HopByHopIdMapper} {now : Nat} {newId original : UInt32}

theorem cleanUpDue_of_lt (h : now < m.nextCleanupTime) : m.cleanUpDue now = (false, m) := if_pos h

theorem cleanUpDue_of_le (h : m.nextCleanupTime ≤ now) :
    m.cleanUpDue now = (true, { m with nextCleanupTime := now + 30000 }) :=
  if_neg (Nat.not_lt.mpr h)

theorem clears_dropExpired : Clears now m.store (m.dropExpired now).store := by
  refine ⟨⟨AList.keys_retain_sublist.subset, fun id hid => ?_, rfl⟩, fun id hid t ht => ?_⟩
  · exact congrArg (Option.map Prod.snd) (AList.lookup_retain_of_mem hid)
  · obtain ⟨entry, hentry, rfl⟩ := Option.map_eq_some_iff.mp ht
    obtain ⟨-, hkept⟩ := AList.lookup_retain_eq_some.mp hentry
    simpa using hkept

theorem puts_insertMapping : Puts newId (some (now + 300000)) m.store
    (m.insertMapping now newId original).store where
  old id hid hne := ⟨((AList.mem_insert _).mp hid).resolve_left hne,
    congrArg (Option.map Prod.snd) (AList.lookup_insert_ne hne)⟩
  new := by
    show ((m.map.insert newId _).lookup newId).map Prod.snd = _
    rw [AList.lookup_insert]
    rfl
  due := rfl

theorem drops_removeMapping : Drops m.store (m.removeMapping now newId).2.store := by
  have hrest : (m.removeMapping now newId).2 = { m with map := m.map.erase newId } := by
    unfold removeMapping
    dsimp only
    split <;> rfl
  rw [hrest]
  exact ⟨AList.keys_erase_sublist.subset, fun id hid =>
    congrArg (Option.map Prod.snd) (AList.lookup_erase_of_mem hid), rfl⟩

end HopByHopIdMapper

namespace AnswerManager

/-- The awaited answers, with their limits. -/
def store (m : AnswerManager) : Store UInt32 where
  keys := m.map.keys
  nodup := m.map.keys_nodup
  limit id := ((m.map.lookup id).bind (m.infos[·]?)).map AnswerInfo.timeout
  due := m.nextCleanupTime

variable {m m' : AnswerManager} {now timeout : Nat} {id : UInt32} {connectionId host realm : String}

theorem cleanUpDue_of_lt (h : now < m.nextCleanupTime) : m.cleanUpDue now = (false, m) := if_pos h

theorem cleanUpDue_of_le (h : m.nextCleanupTime ≤ now) :
    m.cleanUpDue now = (true, { m with nextCleanupTime := now + 30000 }) :=
  if_neg (Nat.not_lt.mpr h)

theorem clears_dropExpired : Clears now m.store (m.dropExpired now).store := by
  refine ⟨⟨AList.keys_retain_sublist.subset, fun id hid => ?_, rfl⟩, fun id hid t ht => ?_⟩
  · exact congrArg (fun info => (info.bind (m.infos[·]?)).map AnswerInfo.timeout)
      (AList.lookup_retain_of_mem hid)
  · obtain ⟨i, hi, rfl⟩ := Option.map_eq_some_iff.mp ht
    obtain ⟨info, hfound, hinfo⟩ := Option.bind_eq_some_iff.mp hi
    obtain ⟨-, hkept⟩ := AList.lookup_retain_eq_some.mp hfound
    have hsame : m.infos[info]? = some i := hinfo
    rw [hsame] at hkept
    simpa using hkept

theorem puts_insertInfo
    (hknown : ∀ id info, m.getAnswerInfo id = some info → info < m.infos.length) :
    Puts id (some timeout) m.store (m.insertInfo timeout id connectionId host realm).store where
  old id' hid hne := by
    have hmem : id' ∈ m.map := ((AList.mem_insert _).mp hid).resolve_left hne
    refine ⟨hmem, congrArg (Option.map AnswerInfo.timeout) ?_⟩
    have hsame : (m.insertInfo timeout id connectionId host realm).map.lookup id' =
        m.map.lookup id' := AList.lookup_insert_ne hne
    obtain ⟨info, hinfo⟩ := Option.isSome_iff_exists.mp (AList.lookup_isSome.mpr hmem)
    rw [hsame, hinfo, Option.bind_some, Option.bind_some, infos_insertInfo]
    exact List.getElem?_append_left (hknown id' info hinfo)
  new := by
    have hfound : (m.insertInfo timeout id connectionId host realm).map.lookup id =
      some m.infos.length := getAnswerInfo_insertInfo_self
    show (((m.insertInfo timeout id connectionId host realm).map.lookup id).bind _).map _ = _
    rw [hfound, Option.bind_some, getElem?_insertInfo_self]
    rfl
  due := rfl

/-- What is awaited, and until when, does not change when an answer comes. -/
theorem drops_of_sameEntries (hsame : m.SameEntries m')
    (hknown : ∀ id info, m.getAnswerInfo id = some info → info < m.infos.length)
    (hdue : m'.nextCleanupTime = m.nextCleanupTime) : Drops m.store m'.store := by
  have hkeys : m'.store.keys = m.store.keys := congrArg AList.keys hsame.map
  refine ⟨fun id hid => hkeys ▸ hid, fun id hid => ?_, hdue⟩
  obtain ⟨info, hinfo⟩ := Option.isSome_iff_exists.mp (AList.lookup_isSome.mpr hid)
  have hfound : m.map.lookup id = some info := hsame.map ▸ hinfo
  have hi := List.getElem?_eq_getElem (hknown id info hfound)
  obtain ⟨i', hi', -, htimeout⟩ := hsame.infos info _ hi
  show ((m'.map.lookup id).bind (m'.infos[·]?)).map AnswerInfo.timeout =
    ((m.map.lookup id).bind (m.infos[·]?)).map AnswerInfo.timeout
  rw [hinfo, hfound, Option.bind_some, Option.bind_some, hi', hi, Option.map_some, Option.map_some,
    htimeout]

theorem nextCleanupTime_answerReceived {answer : Command} :
    (m.answerReceived answer).2.nextCleanupTime = m.nextCleanupTime := by
  unfold answerReceived
  split <;> rfl

end AnswerManager

/-! ### The steps on them -/

/-- What a call does to the id map. -/
def mappingOp : Event → Option (Op UInt32)
  | ⟨.mappingsDue now, due⟩ => some (.ask now due)
  | ⟨.dropMappings, _⟩ => some .sweep
  | ⟨.addMapping id _, _⟩ => some (.put id)
  | _ => none

/-- What a call does to the answer manager. -/
def answerOp : Event → Option (Op UInt32)
  | ⟨.answersDue now, due⟩ => some (.ask now due)
  | ⟨.dropAnswers, _⟩ => some .sweep
  | ⟨.prepareForAnswer _ id _ _ _, _⟩ => some (.put id)
  | _ => none

/-- The calls on record, as steps on the id map. -/
def mappingSteps : Steps Entry (Option Nat) UInt32 where
  time := Entry.time
  owner := Entry.job
  op e := mappingOp e.event
  limit e := e.time + 300000

/-- And on the answer manager. -/
def answerSteps : Steps Entry (Option Nat) UInt32 where
  time := Entry.time
  owner := Entry.job
  op e := answerOp e.event
  limit e := e.limit.getD 0

namespace Recorded

variable {start : Nat} {entries : List Entry} {s : SharedState}

/-- The mappings of a node. -/
theorem makes_mappings (h : Recorded start entries s) :
    mappingSteps.Make 30000 start entries s.now s.mapper.store := by
  induction h with
  | nil => exact .nil rfl rfl
  | @snoc entries s e _ hallows ih =>
    rw [SharedState.next_now]
    refine ih.snoc hallows.1 ?_
    obtain ⟨job, time, c, r⟩ := e
    cases c with
    | mappingsDue now =>
      obtain rfl : r = (s.mapper.cleanUpDue now).1 := hallows.2
      show mappingSteps.Does 30000 _ s.mapper.store (s.mapper.cleanUpDue now).2.store
      by_cases hearly : now < s.mapper.nextCleanupTime
      · rw [HopByHopIdMapper.cleanUpDue_of_lt hearly]
        exact ⟨hearly, drops_refl _⟩
      · have hdue := Nat.not_lt.mp hearly
        rw [HopByHopIdMapper.cleanUpDue_of_le hdue]
        exact ⟨hdue, fun _ hk => hk, fun _ _ => rfl, rfl⟩
    | dropMappings => exact HopByHopIdMapper.clears_dropExpired
    | addMapping => exact HopByHopIdMapper.puts_insertMapping
    | removeMapping => exact HopByHopIdMapper.drops_removeMapping
    | notified => cases r <;> exact drops_refl _
    | _ => exact drops_refl _

/-- Every info in the map is there. -/
theorem known (h : Recorded start entries s) (id : UInt32) (info : Nat)
    (hfound : s.answers.getAnswerInfo id = some info) : info < s.answers.infos.length := by
  have hawaits := h.awaits
  obtain ⟨p, hp, -⟩ := Option.map_eq_some_iff.mp (hawaits.found id info hfound)
  have hlength : s.answers.infos.length = (entries.filterMap Entry.prepared).length := by
    simpa using congrArg List.length hawaits.origins
  rw [hlength]
  exact (List.getElem?_eq_some_iff.mp hp).1

/-- The answers that a node awaits. -/
theorem makes_answers (h : Recorded start entries s) :
    answerSteps.Make 30000 start entries s.now s.answers.store := by
  induction h with
  | nil => exact .nil rfl rfl
  | @snoc entries s e hbefore hallows ih =>
    rw [SharedState.next_now]
    refine ih.snoc hallows.1 ?_
    obtain ⟨job, time, c, r⟩ := e
    cases c with
    | answersDue now =>
      obtain rfl : r = (s.answers.cleanUpDue now).1 := hallows.2
      show answerSteps.Does 30000 _ s.answers.store (s.answers.cleanUpDue now).2.store
      by_cases hearly : now < s.answers.nextCleanupTime
      · rw [AnswerManager.cleanUpDue_of_lt hearly]
        exact ⟨hearly, drops_refl _⟩
      · have hdue := Nat.not_lt.mp hearly
        rw [AnswerManager.cleanUpDue_of_le hdue]
        exact ⟨hdue, fun _ hk => hk, fun _ _ => rfl, rfl⟩
    | dropAnswers => exact AnswerManager.clears_dropExpired
    | prepareForAnswer => exact AnswerManager.puts_insertInfo (known hbefore)
    | answerReceived =>
      exact AnswerManager.drops_of_sameEntries AnswerManager.sameEntries_answerReceived
        (known hbefore) AnswerManager.nextCleanupTime_answerReceived
    | notified deadline id info =>
      match r with
      | none => exact drops_refl _
      | some answer =>
        obtain ⟨answers, hanswers⟩ : ∃ answers, s.answers.notified info = some (answer, answers) :=
          hallows.2
        show Drops _ (((s.answers.notified info).map Prod.snd).getD s.answers).store
        rw [hanswers]
        obtain ⟨infos, heq, -⟩ := AnswerManager.notified_eq hanswers
        exact AnswerManager.drops_of_sameEntries (AnswerManager.sameEntries_notified hanswers)
          (known hbefore) (by rw [heq]; rfl)
    | _ => exact drops_refl _

end Recorded

/-! ### Along a course -/

/-- What has been done at each stage of a clean-up. -/
def Cleaning.Did (ops : List (Op UInt32)) : Cleaning → Prop
  | .start | .asking _ => ops = []
  | .due => ∃ reading, ops = [.ask reading true]
  | .done => ∃ reading, ops = [.ask reading false] ∨ ops = [.ask reading true, .sweep]

/-- The reading of the clock that a clean-up goes on with. -/
def Cleaning.reading : Cleaning → Option Nat
  | .asking now => some now
  | _ => none

namespace Point

/-- What has been done to the id map, up to the mapping. -/
def MappingOps (ops : List (Op UInt32)) : Point → Prop
  | .request _ => ops = []
  | .drawn _ _ cleaning => cleaning.Did ops
  | _ => True

/-- What has been done to the answer manager, up to the preparation. -/
def AnswerOps (ops : List (Op UInt32)) : Point → Prop
  | .request _ | .drawn .. | .own _ | .ownDrawn .. => ops = []
  | .mapped _ _ cleaning | .ownNumbered _ _ _ cleaning => cleaning.Did ops
  | .timed .. | .ownTimed .. => Cleaning.done.Did ops
  | _ => True

/-- The reading of the clock that a clean-up goes on with. -/
def reading : Point → Option Nat
  | .drawn _ _ cleaning | .mapped _ _ cleaning | .ownNumbered _ _ _ cleaning => cleaning.reading
  | _ => none

/-- Nothing is put in from there on. -/
def Behind : Point → Prop
  | .request _ | .drawn .. | .mapped .. | .timed .. | .own _ | .ownDrawn .. | .ownNumbered ..
  | .ownTimed .. => False
  | _ => True

end Point

section
variable {ctx : CommandProcessorContext} {cleaning cleaning' : Cleaning} {c : Call} {r : c.Reply}
  {p p' : Point} {ops : List (Op UInt32)} {before trace : List Event}

theorem CleansMappings.did (h : CleansMappings cleaning c r cleaning') (hops : cleaning.Did ops) :
    cleaning'.Did (ops ++ (mappingOp ⟨c, r⟩).toList) := by
  cases h with
  | clock => simpa [Cleaning.Did, mappingOp] using hops
  | early =>
    obtain rfl : ops = [] := hops
    exact ⟨_, .inl rfl⟩
  | due =>
    obtain rfl : ops = [] := hops
    exact ⟨_, rfl⟩
  | drop =>
    obtain ⟨reading, rfl⟩ := hops
    exact ⟨reading, .inr rfl⟩

theorem CleansAnswers.did (h : CleansAnswers cleaning c r cleaning') (hops : cleaning.Did ops) :
    cleaning'.Did (ops ++ (answerOp ⟨c, r⟩).toList) := by
  cases h with
  | clock => simpa [Cleaning.Did, answerOp] using hops
  | early =>
    obtain rfl : ops = [] := hops
    exact ⟨_, .inl rfl⟩
  | due =>
    obtain rfl : ops = [] := hops
    exact ⟨_, rfl⟩
  | drop =>
    obtain ⟨reading, rfl⟩ := hops
    exact ⟨reading, .inr rfl⟩

/-- No step is on the answer manager in the clean-up of the id map. -/
theorem CleansMappings.answerOp_eq_none (h : CleansMappings cleaning c r cleaning') :
    answerOp ⟨c, r⟩ = none := by
  cases h <;> rfl

namespace Point

variable {connectionId host realm : String} {response command : Command}

theorem Behind.mappingOps (h : p.Behind) : p.MappingOps ops := by
  cases p <;> first | exact trivial | exact h.elim

theorem Behind.answerOps (h : p.Behind) : p.AnswerOps ops := by
  cases p <;> first | exact trivial | exact h.elim

theorem Behind.reading (h : p.Behind) : p.reading = none := by
  cases p <;> first | rfl | exact h.elim

theorem behind_handled {handled : Except String (Option Command)} :
    (Point.handled ctx handled).Behind := by
  unfold Point.handled
  split <;> exact trivial

theorem behind_byId {connection : Option Connection} :
    (Point.byId host realm response connection).Behind := by
  cases connection <;> exact trivial

theorem behind_byPeer {connection : Option Connection} :
    (Point.byPeer response connection).Behind := by
  cases connection <;> exact trivial

theorem behind_matched {original : Option UInt32} {origin : Option (String × String × String)} :
    (Point.matched ctx command original origin).Behind := by
  unfold Point.matched
  split
  · split <;> exact trivial
  · exact trivial

variable (ctx command) (transport : Transport)

/-- No job starts in the middle. -/
theorem start_cases : (Point.start ctx transport command).Behind ∨
    Point.start ctx transport command = .own command ∨
      Point.start ctx transport command = .request command := by
  unfold Point.start
  repeat' split
  all_goals simp [Behind]

theorem mappingOps_start : (Point.start ctx transport command).MappingOps [] := by
  rcases start_cases ctx command transport with hbehind | hown | hrequest
  · exact hbehind.mappingOps
  · exact hown ▸ trivial
  · exact hrequest ▸ rfl

theorem answerOps_start : (Point.start ctx transport command).AnswerOps [] := by
  rcases start_cases ctx command transport with hbehind | hown | hrequest
  · exact hbehind.answerOps
  · exact hown ▸ rfl
  · exact hrequest ▸ rfl

theorem reading_start : (Point.start ctx transport command).reading = none := by
  rcases start_cases ctx command transport with hbehind | hown | hrequest
  · exact hbehind.reading
  · rw [hown]
    rfl
  · rw [hrequest]
    rfl

end Point

namespace Course

/-- What a call does to the id map. -/
theorem mappingOps (h : Course ctx p c r p') (hops : p.MappingOps ops) :
    p'.MappingOps (ops ++ (mappingOp ⟨c, r⟩).toList) := by
  cases h with
  | draw =>
    obtain rfl : ops = [] := hops
    rfl
  | cleanMappings hclean => exact hclean.did hops
  | handle => exact Point.behind_handled.mappingOps
  | giveUp | findById => exact Point.behind_byId.mappingOps
  | findByPeer => exact Point.behind_byPeer.mappingOps
  | «match» => exact Point.behind_matched.mappingOps
  | _ => exact trivial

/-- What a call does to the answer manager. -/
theorem answerOps (h : Course ctx p c r p') (hops : p.AnswerOps ops) :
    p'.AnswerOps (ops ++ (answerOp ⟨c, r⟩).toList) := by
  cases h with
  | draw | drawOwn | number | addMapping =>
    obtain rfl : ops = [] := hops
    rfl
  | cleanMappings hclean =>
    obtain rfl : ops = [] := hops
    rw [hclean.answerOp_eq_none]
    rfl
  | cleanAnswers hclean | cleanOwn hclean => exact hclean.did hops
  | clock | clockOwn => simpa [Point.AnswerOps, answerOp] using hops
  | handle => exact Point.behind_handled.answerOps
  | giveUp | findById => exact Point.behind_byId.answerOps
  | findByPeer => exact Point.behind_byPeer.answerOps
  | «match» => exact Point.behind_matched.answerOps
  | _ => exact trivial

/-- The clock has just been read. -/
theorem reading {now : Nat} (h : Course ctx p c r p') (hreading : p'.reading = some now) :
    (⟨c, r⟩ : Event) = ⟨.now, now⟩ := by
  cases h with
  | cleanMappings hclean | cleanAnswers hclean | cleanOwn hclean =>
    cases hclean with
    | clock =>
      obtain rfl := Option.some.inj hreading
      rfl
    | _ => cases hreading
  | handle => rw [Point.behind_handled.reading] at hreading; cases hreading
  | giveUp | findById => rw [Point.behind_byId.reading] at hreading; cases hreading
  | findByPeer => rw [Point.behind_byPeer.reading] at hreading; cases hreading
  | «match» => rw [Point.behind_matched.reading] at hreading; cases hreading
  | _ => cases hreading

/-- Only what has been read is asked with. -/
theorem reading_of_asks {now : Nat} {due : Bool} (h : Course ctx p c r p')
    (hasks : mappingOp ⟨c, r⟩ = some (.ask now due) ∨ answerOp ⟨c, r⟩ = some (.ask now due)) :
    p.reading = some now := by
  cases h with
  | cleanMappings hclean | cleanAnswers hclean | cleanOwn hclean =>
    cases hclean <;> simp_all [mappingOp, answerOp, Point.reading, Cleaning.reading]
  | control hc | route hc =>
    cases c <;> first | exact hc.elim | simp [mappingOp, answerOp] at hasks
  | _ => simp [mappingOp, answerOp] at hasks

theorem did_of_maps {id : UInt32} (h : Course ctx p c r p') (hops : p.MappingOps ops)
    (hput : mappingOp ⟨c, r⟩ = some (.put id)) : Cleaning.done.Did ops := by
  cases h with
  | addMapping => exact hops
  | cleanMappings hclean | cleanAnswers hclean | cleanOwn hclean => cases hclean <;> cases hput
  | control hc | route hc => cases c <;> first | exact hc.elim | cases hput
  | _ => cases hput

theorem did_of_prepares {id : UInt32} (h : Course ctx p c r p') (hops : p.AnswerOps ops)
    (hput : answerOp ⟨c, r⟩ = some (.put id)) : Cleaning.done.Did ops := by
  cases h with
  | prepare | prepareOwn => exact hops
  | cleanMappings hclean | cleanAnswers hclean | cleanOwn hclean => cases hclean <;> cases hput
  | control hc | route hc => cases c <;> first | exact hc.elim | cases hput
  | _ => cases hput

end Course

end

/-! ### A node -/

namespace Journal.Tracks

variable {g : Journal} {s : Node} {start k : Nat} {before after : List Entry} {e : Entry}
  {op : Event → Option (Op UInt32)}

/-- A call on record, at the point to which the calls of its job have led. -/
theorem exists_course {Q : Point → List Event → Prop} (h : g.Tracks start s)
    (hentries : g.entries = before ++ e :: after) (hdrawn : e.drawn = none)
    (hstart : ∀ ctx command transport, Q (.start ctx transport command) []) (hcontrol : Q .control [])
    (hstep : ∀ {ctx} p trace c r p', Course ctx p c r p' → Q p trace → Q p' (trace ++ [⟨c, r⟩])) :
    ∃ k ctx p p', e.job = some k ∧ Course ctx p e.event.1 e.event.2 p' ∧
      Q p (RestDiameterBridge.trace before k) := by
  obtain ⟨k, w, hjob, hw⟩ := h.exists_work (by simp [hentries]) hdrawn
  have hsplit : g.entries = (before ++ [e]) ++ after := by simp [hentries]
  obtain ⟨p', hpath⟩ := h.path hw hsplit
  have hlast : RestDiameterBridge.trace [e] k = [e.event] := by simp [RestDiameterBridge.trace, hjob]
  rw [trace_append, hlast] at hpath
  obtain ⟨p, hbefore, hnext⟩ := hpath.of_append
  obtain ⟨t, hcourse, -⟩ := path_cons.mp hnext
  refine ⟨k, w.context, p, t, hjob, hcourse, ?_⟩
  have hfirst : Q w.start [] := by
    unfold Work.start
    split
    · exact hstart _ _ _
    · exact hcontrol
  simpa using hbefore.keeps (fun p trace c r p' => hstep p trace c r p') hfirst

theorem filterMap_concat {trace : List Event} {event : Event} :
    (trace ++ [event]).filterMap op = trace.filterMap op ++ (op event).toList := by
  cases h : op event <;> simp [h]

/-- What a job has done to a store is to be read off its calls. -/
theorem own_eq {S : Steps Entry (Option Nat) UInt32} (howner : S.owner = Entry.job)
    (hop : S.op = op ∘ Entry.event) :
    S.own (some k) before = (RestDiameterBridge.trace before k).filterMap op := by
  simp [Steps.own, RestDiameterBridge.trace, howner, hop, List.filterMap_map]

/-- Before a job puts a mapping in, it has asked, and dropped the expired ones if it was told to. -/
theorem guarded_mappings (h : g.Tracks start s) : mappingSteps.Guarded g.entries := by
  intro before e after hentries hput
  obtain ⟨id, hkey⟩ := Option.isSome_iff_exists.mp hput
  have hop : mappingOp e.event = some (.put id) := Steps.key_eq_some.mp hkey
  have hdrawn : e.drawn = none := by
    obtain ⟨_, _, c, _⟩ := e
    cases c <;> first | rfl | cases hop
  obtain ⟨k, ctx, p, p', hjob, hcourse, hops⟩ := h.exists_course
    (Q := fun p trace => p.MappingOps (trace.filterMap mappingOp)) hentries hdrawn
    Point.mappingOps_start trivial fun p trace c r p' hstep hp => by
      rw [filterMap_concat]
      exact hstep.mappingOps hp
  have hown : mappingSteps.own e.job before =
      (RestDiameterBridge.trace before k).filterMap mappingOp := hjob ▸ own_eq rfl rfl
  rw [show mappingSteps.owner e = e.job from rfl, hown]
  exact hcourse.did_of_maps hops hop

/-- The same for the answers that are prepared for. -/
theorem guarded_answers (h : g.Tracks start s) : answerSteps.Guarded g.entries := by
  intro before e after hentries hput
  obtain ⟨id, hkey⟩ := Option.isSome_iff_exists.mp hput
  have hop : answerOp e.event = some (.put id) := Steps.key_eq_some.mp hkey
  have hdrawn : e.drawn = none := by
    obtain ⟨_, _, c, _⟩ := e
    cases c <;> first | rfl | cases hop
  obtain ⟨k, ctx, p, p', hjob, hcourse, hops⟩ := h.exists_course
    (Q := fun p trace => p.AnswerOps (trace.filterMap answerOp)) hentries hdrawn
    Point.answerOps_start trivial fun p trace c r p' hstep hp => by
      rw [filterMap_concat]
      exact hstep.answerOps hp
  have hown : answerSteps.own e.job before =
      (RestDiameterBridge.trace before k).filterMap answerOp := hjob ▸ own_eq rfl rfl
  rw [show answerSteps.owner e = e.job from rfl, hown]
  exact hcourse.did_of_prepares hops hop

/-- What a job reads off the clock is the time. -/
theorem time_of_clock {now : Nat} (h : g.Tracks start s) (hentries : g.entries = before ++ e :: after)
    (hread : ⟨.now, now⟩ ∈ RestDiameterBridge.trace before k) : now ≤ e.time := by
  obtain ⟨time, -, hrecorded⟩ := h.shared
  rw [hentries] at hrecorded
  obtain ⟨s', hbefore, hallows, -⟩ := hrecorded.allowed
  obtain ⟨a, ha, -, hevent⟩ := exists_of_mem_trace hread
  obtain ⟨first, last, rfl⟩ := List.append_of_mem ha
  obtain ⟨_, -, hallows', -⟩ := hbefore.allowed
  have hreply := hallows'.2
  rw [hevent] at hreply
  have hnow : now = a.time := hreply
  rw [hnow]
  exact (Recorded.time_le hbefore ha).trans hallows.1

/-- Whether it is time to clean up is asked with a reading of the clock. -/
theorem reading_le {now : Nat} {due : Bool} (h : g.Tracks start s) (he : e ∈ g.entries)
    (hasks : mappingOp e.event = some (.ask now due) ∨ answerOp e.event = some (.ask now due)) :
    now ≤ e.time := by
  obtain ⟨before, after, hentries⟩ := List.append_of_mem he
  have hdrawn : e.drawn = none := by
    obtain ⟨_, _, c, _⟩ := e
    cases c <;> first | rfl | simp [mappingOp, answerOp] at hasks
  obtain ⟨k, ctx, p, p', hjob, hcourse, hread⟩ := h.exists_course
    (Q := fun p trace => ∀ now, p.reading = some now → ⟨.now, now⟩ ∈ trace) hentries hdrawn
    (fun ctx command transport now hnow => by
      rw [Point.reading_start] at hnow
      cases hnow)
    (fun now hnow => by cases hnow)
    fun p trace c r p' hstep _ now hnow => by
      rw [hstep.reading hnow]
      exact List.mem_append_right _ (List.mem_singleton.mpr rfl)
  exact h.time_of_clock hentries (hread now (hcourse.reading_of_asks hasks))

/-- The time limit of an answer is at most 60 seconds after its preparation. -/
theorem limit_le {id : UInt32} (h : g.Tracks start s) (he : e ∈ g.entries)
    (hput : answerOp e.event = some (.put id)) : answerSteps.limit e ≤ e.time + 60000 := by
  obtain ⟨before, after, hentries⟩ := List.append_of_mem he
  obtain ⟨job, time, c, r⟩ := e
  cases c with
  | prepareForAnswer timeout id connectionId host realm =>
    obtain ⟨k, w, hjob, hw⟩ := h.exists_work he rfl
    have hsplit : g.entries = (before ++ [⟨job, time, .prepareForAnswer timeout id connectionId host
      realm, r⟩]) ++ after := by simp [hentries]
    obtain ⟨p, hpath⟩ := h.path hw hsplit
    have hmem := mem_trace (List.mem_append_right before (List.mem_singleton.mpr rfl)) hjob
    obtain ⟨-, -, htimed⟩ := (Work.performs hpath).prepared hmem
    obtain ⟨now, hread, rfl⟩ := htimed.clock
    rw [trace_append] at hread
    have hbefore : ⟨.now, now⟩ ∈ RestDiameterBridge.trace before k := by
      refine (List.mem_append.mp hread).resolve_right fun hlast => ?_
      obtain ⟨e, he, -, hevent⟩ := exists_of_mem_trace hlast
      rw [List.mem_singleton.mp he] at hevent
      cases hevent
    have hnow := h.time_of_clock hentries hbefore
    exact Nat.add_le_add_right hnow 60000
  | _ => cases hput

end Journal.Tracks

/-- **What a node retains.** In every run whose mappings and preparations each take no longer than
a delay of less than 30 seconds: if no more than `n` requests are forwarded in any 330 seconds and
the delay, and no more than `m` in any delay, the node never holds more than `n + m` mappings; if it
does not prepare for more than `n'` answers in any 90 seconds and the delay, and not for more than
`m'` in any delay, it never awaits more than `n' + m'`. -/
theorem retained_of_run {settings : SendSettings} {myHost myRealm : String}
    {start delay n m n' m' : Nat} {labels : List Node.Label} {s : Node} {g : Journal}
    (hrun : run Node.journalStep (.new settings myHost myRealm start, .empty) labels = some (s, g))
    (hdelay : delay < 30000) (hmapping : mappingSteps.prompt delay g.entries = true)
    (hpreparing : answerSteps.prompt delay g.entries = true)
    (hmapped : Within (330000 + delay) n (mappingSteps.putTimes g.entries))
    (hmapped' : Within delay m (mappingSteps.putTimes g.entries))
    (hprepared : Within (90000 + delay) n' (answerSteps.putTimes g.entries))
    (hprepared' : Within delay m' (answerSteps.putTimes g.entries)) :
    s.mapper.map.keys.length ≤ n + m ∧ s.answers.map.keys.length ≤ n' + m' := by
  have htracks := Journal.tracks_of_run hrun
  obtain ⟨now, -, hrecorded⟩ := htracks.shared
  have hmappings : mappingSteps.Timely 300000 delay g.entries :=
    Steps.timely htracks.guarded_mappings hmapping (fun _ _ _ => Nat.le_refl _)
      fun e he r due hop => htracks.reading_le he (.inl hop)
  have hanswers : answerSteps.Timely 60000 delay g.entries := by
    refine Steps.timely htracks.guarded_answers hpreparing (fun e he hput => ?_)
      fun e he r due hop => htracks.reading_le he (.inr hop)
    obtain ⟨id, hkey⟩ := Option.isSome_iff_exists.mp hput
    exact htracks.limit_le he (Steps.key_eq_some.mp hkey)
  exact ⟨hrecorded.makes_mappings.length_le hmappings hdelay hmapped hmapped',
    hrecorded.makes_answers.length_le hanswers hdelay hprepared hprepared'⟩

namespace Retention

open Node.Sample

/-- A request comes in on `id`, and its task makes `n` calls. -/
def takes (id : String) (n : Nat) : List Node.Label :=
  [.deliver id (request 7), .process id] ++ List.replicate n (.run id (replies "z"))

/-- Two requests are forwarded, after one second and after two. After 400 seconds the task of a
third is told to drop the expired mappings, and before it does, a fourth is forwarded. -/
def preempted : List Node.Label :=
  ["a", "b", "c", "d"].map (fun id => .connect id .tcpServer id "realm") ++
    [.elapse 1000] ++ takes "a" 8 ++ [.elapse 1000] ++ takes "b" 8 ++ [.elapse 398000] ++
      takes "c" 3 ++ takes "d" 9

/-- The third task goes on. -/
def resumed : List Node.Label := preempted ++ List.replicate 2 (.run "c" (replies "z"))

/-- What is put in is put in at these times, in no time, and so many are held in the end. -/
def Shows (labels : List Node.Label) (mapped prepared : List Nat) (size : Nat) : Prop :=
  (run Node.journalStep (node, .empty) labels).any (fun sg =>
    mappingSteps.putTimes sg.2.entries == mapped && answerSteps.putTimes sg.2.entries == prepared &&
      mappingSteps.prompt 0 sg.2.entries && answerSteps.prompt 0 sg.2.entries &&
        sg.1.mapper.map.keys.length == size) = true

instance (labels : List Node.Label) (mapped prepared : List Nat) (size : Nat) :
    Decidable (Shows labels mapped prepared size) := inferInstanceAs (Decidable (_ = true))

theorem within_sample : Within 330000 2 [1000, 2000, 400000] ∧ Within 90000 2 [1000, 2000, 400000] ∧
    Within 0 1 [1000, 2000, 400000] := by
  refine ⟨fun t => ?_, fun t => ?_, fun t => ?_⟩ <;> simp only [List.filter_cons, List.filter_nil] <;>
    split <;> split <;> split <;> simp_all <;> omega

theorem within_resumed : Within 330000 2 [1000, 2000, 400000, 400000] ∧
    Within 0 2 [1000, 2000, 400000, 400000] := by
  refine ⟨fun t => ?_, fun t => ?_⟩ <;> simp only [List.filter_cons, List.filter_nil] <;>
    split <;> split <;> split <;> simp_all <;> omega

theorem exists_of_shows {labels : List Node.Label} {mapped prepared : List Nat} {size : Nat}
    (h : Shows labels mapped prepared size) : ∃ s g,
      run Node.journalStep (node, .empty) labels = some (s, g) ∧
        mappingSteps.putTimes g.entries = mapped ∧ answerSteps.putTimes g.entries = prepared ∧
          mappingSteps.prompt 0 g.entries = true ∧ answerSteps.prompt 0 g.entries = true ∧
            s.mapper.map.keys.length = size := by
  obtain ⟨⟨s, g⟩, hrun, hview⟩ := (Option.any_eq_true _ _).mp h
  simp only [Bool.and_eq_true, beq_iff_eq] at hview
  obtain ⟨⟨⟨⟨hmapped, hprepared⟩, hmapping⟩, hpreparing⟩, hsize⟩ := hview
  exact ⟨s, g, hrun, hmapped, hprepared, hmapping, hpreparing, hsize⟩

end Retention

open Retention Node.Sample in
set_option maxRecDepth 100000 in
/-- While the sweep is waiting, a node holds three mappings, though it has made no more than two
within 330 seconds. Then the expired ones go. -/
theorem retained_of_run_sample :
    (∃ s g, run Node.journalStep (node, .empty) preempted = some (s, g) ∧
      mappingSteps.putTimes g.entries = [1000, 2000, 400000] ∧ s.mapper.map.keys.length = 2 + 1 ∧
        s.answers.map.keys.length ≤ 2 + 1) ∧
    ∃ s g, run Node.journalStep (node, .empty) resumed = some (s, g) ∧
      mappingSteps.putTimes g.entries = [1000, 2000, 400000, 400000] ∧
        s.mapper.map.keys.length = 2 ∧ s.answers.map.keys.length ≤ 2 + 1 := by
  have hpreempted : Shows preempted [1000, 2000, 400000] [1000, 2000, 400000] 3 := by decide
  have hresumed : Shows resumed [1000, 2000, 400000, 400000] [1000, 2000, 400000] 2 := by decide
  obtain ⟨hlong, hminute, hinstant⟩ := within_sample
  obtain ⟨hlong', hinstant'⟩ := within_resumed
  refine ⟨?_, ?_⟩
  · obtain ⟨s, g, hrun, hmapped, hprepared, hmapping, hpreparing, hsize⟩ := exists_of_shows hpreempted
    have hretained := retained_of_run hrun (by decide) hmapping hpreparing (hmapped ▸ hlong)
      (hmapped ▸ hinstant) (hprepared ▸ hminute) (hprepared ▸ hinstant)
    exact ⟨s, g, hrun, hmapped, hsize, hretained.2⟩
  · obtain ⟨s, g, hrun, hmapped, hprepared, hmapping, hpreparing, hsize⟩ := exists_of_shows hresumed
    have hretained := retained_of_run hrun (by decide) hmapping hpreparing (hmapped ▸ hlong')
      (hmapped ▸ hinstant') (hprepared ▸ hminute) (hprepared ▸ hinstant)
    exact ⟨s, g, hrun, hmapped, hsize, hretained.2⟩

/-! ### Redirects -/

namespace RedirectLevel

/-- All levels. -/
def all : List RedirectLevel := [session, realm, realmApp, application, host, user]

theorem mem_all (level : RedirectLevel) : level ∈ all := by
  cases level <;> simp [all]

theorem nodup_all : all.Nodup := by decide

end RedirectLevel

namespace RedirectCaches

/-- The keys in one of the maps. -/
def keysAt (c : RedirectCaches) (level : RedirectLevel) : List (RedirectLevel × String) :=
  (c.caches level).keys.map (level, ·)

/-- The cached redirects, with their limits. -/
def store (c : RedirectCaches) : Store (RedirectLevel × String) where
  keys := RedirectLevel.all.flatMap c.keysAt
  nodup := by
    refine List.nodup_flatMap.mpr ⟨fun level _ => ?_, ?_⟩
    · exact (c.caches level).keys_nodup.map fun _ _ heq => congrArg Prod.snd heq
    · refine RedirectLevel.nodup_all.imp fun hne key hkey hkey' => hne ?_
      obtain ⟨_, -, rfl⟩ := List.mem_map.mp hkey
      obtain ⟨_, -, heq⟩ := List.mem_map.mp hkey'
      exact (congrArg Prod.fst heq).symm
  limit key := (c.find key).bind RedirectEntry.expiresAt
  due := c.nextCleanupTime

/-- How many redirects are cached. -/
def size (c : RedirectCaches) : Nat :=
  (RedirectLevel.all.map fun level => (c.caches level).keys.length).sum

variable {c : RedirectCaches} {now : Nat} {key : RedirectLevel × String} {entry : RedirectEntry}

theorem length_keys_store : c.store.keys.length = c.size := by
  simp [store, size, keysAt, List.length_flatMap]

theorem mem_keys_store : key ∈ c.store.keys ↔ (c.find key).isSome := by
  obtain ⟨level, k⟩ := key
  have hfound : (c.find (level, k)).isSome ↔ k ∈ (c.caches level).keys := AList.lookup_isSome
  rw [hfound]
  simp [store, keysAt, RedirectLevel.mem_all]

/-- What finds less than before, but the same, has dropped the rest. -/
theorem drops_of_sheds {c' : RedirectCaches}
    (h : ∀ key, c'.find key = c.find key ∨ c'.find key = none)
    (hdue : c'.nextCleanupTime = c.nextCleanupTime) : Drops c.store c'.store := by
  have hsame : ∀ key ∈ c'.store.keys, c'.find key = c.find key := by
    intro key hkey
    rcases h key with hsame | hnone
    · exact hsame
    · rw [mem_keys_store, hnone] at hkey
      cases hkey
  refine ⟨fun key hkey => ?_, fun key hkey => ?_, hdue⟩
  · rw [mem_keys_store, ← hsame key hkey]
    exact mem_keys_store.mp hkey
  · exact congrArg (Option.bind · RedirectEntry.expiresAt) (hsame key hkey)

theorem sweeps_removeExpired (hinterval : c.cleanInterval = 30000) :
    Sweeps 30000 now c.store (c.removeExpired now).store := by
  unfold removeExpired
  split
  · rename_i hearly
    exact ⟨fun _ hkey => hkey, fun _ _ => rfl, fun hdue => absurd hearly (Nat.not_lt.mpr hdue),
      (if_pos hearly).symm⟩
  · rename_i hdue
    have hfind : ∀ key e, AList.lookup key.2 ((c.caches key.1).retain fun _ e => !e.isExpired now) =
        some e → c.find key = some e ∧ e.isExpired now = false := by
      intro key e he
      simpa [find] using AList.lookup_retain_eq_some.mp he
    refine ⟨fun key hkey => ?_, fun key hkey => ?_, fun _ key _ t ht => ?_, ?_⟩
    · obtain ⟨e, he⟩ := Option.isSome_iff_exists.mp (mem_keys_store.mp hkey)
      rw [mem_keys_store, (hfind key e he).1]
      rfl
    · obtain ⟨e, he⟩ := Option.isSome_iff_exists.mp (mem_keys_store.mp hkey)
      refine congrArg (Option.bind · RedirectEntry.expiresAt) (he.trans ?_)
      exact (hfind key e he).1.symm
    · obtain ⟨e, he, hexpires⟩ := Option.bind_eq_some_iff.mp ht
      have hfresh := (hfind key e he).2
      unfold RedirectEntry.isExpired at hfresh
      rw [hexpires] at hfresh
      exact (Nat.not_le.mp (of_decide_eq_false hfresh)).le
    · show now + c.cleanInterval = _
      rw [hinterval]
      exact (if_neg hdue).symm

theorem cleanInterval_removeExpired : (c.removeExpired now).cleanInterval = c.cleanInterval := by
  unfold removeExpired
  split <;> rfl

theorem puts_insert : Puts key entry.expiresAt c.store (c.insert key entry).store := by
  have hold : ∀ key', key' ≠ key → (c.insert key entry).find key' = c.find key' := by
    intro key' hne
    rw [find_insert, Function.update_of_ne hne]
  refine ⟨fun key' hkey' hne => ⟨?_, ?_⟩, ?_, rfl⟩
  · rw [mem_keys_store, ← hold key' hne]
    exact mem_keys_store.mp hkey'
  · exact congrArg (Option.bind · RedirectEntry.expiresAt) (hold key' hne)
  · show ((c.insert key entry).find key).bind _ = _
    rw [find_insert, Function.update_self, Option.bind_some]

/-- A look-up puts nothing in. -/
theorem times_lookupFirst (keys : List (RedirectLevel × String)) :
    (c.lookupFirst now keys).2.nextCleanupTime = c.nextCleanupTime ∧
      (c.lookupFirst now keys).2.cleanInterval = c.cleanInterval := by
  induction keys generalizing c with
  | nil => exact ⟨rfl, rfl⟩
  | cons key keys ih =>
    have hone : (c.lookupIn now key).2.nextCleanupTime = c.nextCleanupTime ∧
        (c.lookupIn now key).2.cleanInterval = c.cleanInterval := by
      unfold lookupIn
      split
      · split <;> exact ⟨rfl, rfl⟩
      · exact ⟨rfl, rfl⟩
    rw [lookupFirst]
    split
    · rename_i hlookup
      rwa [hlookup] at hone
    · rename_i c' hlookup
      rw [hlookup] at hone
      obtain ⟨hdue, hinterval⟩ := ih (c := c')
      exact ⟨hdue.trans hone.1, hinterval.trans hone.2⟩

theorem drops_getRedirect {request : Command} : Drops c.store (c.getRedirect now request).2.store := by
  refine drops_of_sheds (fun key => ?_) (times_lookupFirst _).1
  exact ((c.lookupFirst_spec now request.redirectKeys).2 key).imp_right And.left

/-- What the answers among the calls put in, with its limit. -/
def cached (now : Nat) : List (Nat × RedirectCall) → List ((RedirectLevel × String) × Option Nat)
  | [] => []
  | (elapsed, .addRedirect answer) :: calls =>
      ((added answer (now + elapsed)).map fun (key, entry) => (key, entry.expiresAt)).toList ++
        cached (now + elapsed) calls
  | (elapsed, .getRedirect _) :: calls => cached (now + elapsed) calls

/-- When the last of the answers came, if not before. -/
def lastAnswer (last now : Nat) : List (Nat × RedirectCall) → Nat
  | [] => last
  | (elapsed, .addRedirect _) :: calls => lastAnswer (now + elapsed) (now + elapsed) calls
  | (elapsed, .getRedirect _) :: calls => lastAnswer last (now + elapsed) calls

theorem limit_le_of_added {answer : Command} {t : Nat} (h : added answer now = some (key, entry))
    (ht : entry.expiresAt = some t) : now ≤ t := by
  obtain ⟨⟨usage, e⟩, he, hkey⟩ := Option.bind_eq_some_iff.mp h
  obtain ⟨_, -, heq⟩ := Option.map_eq_some_iff.mp hkey
  obtain rfl : e = entry := congrArg Prod.snd heq
  unfold Command.redirectEntry at he
  dsimp only at he
  split at he
  · cases he
  · split at he
    · cases he
    · cases he
      obtain ⟨seconds, -, rfl⟩ := Option.map_eq_some_iff.mp ht
      exact Nat.le_add_right _ _

theorem holds_after {last : Nat} {done : List ((RedirectLevel × String) × Option Nat)}
    (calls : List (Nat × RedirectCall)) (hinterval : c.cleanInterval = 30000) (hlast : last ≤ now)
    (h : Holds 30000 last done c.store) :
    Holds 30000 (lastAnswer last now calls) (done ++ cached now calls) (c.after now calls).1.store := by
  induction calls generalizing c now last done with
  | nil => simpa [lastAnswer, cached, after] using h
  | cons call calls ih =>
    obtain ⟨elapsed, call⟩ := call
    cases call with
    | addRedirect answer =>
      have hsweep := h.sweep (sweeps_removeExpired hinterval)
        (hlast.trans (Nat.le_add_right now elapsed)) (by decide)
      have hinterval' : (c.removeExpired (now + elapsed)).cleanInterval = 30000 := by
        rw [cleanInterval_removeExpired, hinterval]
      rw [after, cached, lastAnswer, addRedirect_eq, ← List.append_assoc]
      cases hadded : added answer (now + elapsed) with
      | none =>
        rw [Option.map_none, Option.toList_none, List.append_nil]
        exact ih hinterval' (Nat.le_refl _) hsweep
      | some put =>
        obtain ⟨key, entry⟩ := put
        exact ih hinterval' (Nat.le_refl _)
          (hsweep.put puts_insert fun t ht => limit_le_of_added hadded ht)
    | getRedirect request =>
      rw [after, cached, lastAnswer]
      exact ih ((times_lookupFirst _).2.trans hinterval) (hlast.trans (Nat.le_add_right _ _))
        (h.drop drops_getRedirect)

/-- **What the caches retain.** Whatever the calls, no more redirects are cached than came with
an answer that had no Redirect-Max-Cache-Time, or one that was over less than 30 seconds before
the last answer. -/
theorem size_le_of_run (start : Nat) (calls : List (Nat × RedirectCall)) :
    ((new start).after start calls).1.size ≤ ((cached start calls).filter fun a =>
      a.2.all fun t => decide (lastAnswer start start calls < t + 30000)).length := by
  have hempty : Holds 30000 start [] (new start).store := holds_nil rfl rfl (by decide)
  rw [← length_keys_store]
  exact (holds_after calls rfl (Nat.le_refl _) hempty).length_le

end RedirectCaches

end RestDiameterBridge
