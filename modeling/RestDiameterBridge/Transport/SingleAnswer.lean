import RestDiameterBridge.Transport.Correlation

/-!
# RestDiameterBridge.Transport.SingleAnswer

How often a forwarded request is answered, and under which id, over all runs of a node.

A response to it comes from its own job, when `forward_request` gives up, or from a job that
processes an answer under the drawn id. Nothing in the node keeps two of them apart: the id
map gives the original id to the first look-up only, but the answer manager takes every
answer. `Orderly` says at which calls they can come together. In a run that avoids these, all
the answers taken up are one, since each is that of the first look-up since the mapping
(`AnswersOnce`).
-/

namespace RestDiameterBridge

open Program Transition

/-! ### The calls at which responses can come together -/

/-- The call maps the id. -/
def Entry.maps (id : UInt32) (e : Entry) : Bool := e.mapped.any (·.1 == id)

/-- The mapping of an id, and the first look-up since. -/
def firstLookUp (id : UInt32) (entries : List Entry) : Option (Entry × Entry) :=
  match entries.dropWhile fun e => !e.maps id with
  | [] => none
  | mapped :: later => (later.find? fun e => e.lookedUp == some id).map fun look => (mapped, look)

/-- The job was the first to look the id up since it was mapped, within 300 seconds. -/
def LookedUpFirst (entries : List Entry) (job : Option Nat) (id : UInt32) : Prop :=
  ∃ p ∈ firstLookUp id entries, p.2.job = job ∧ p.2.time ≤ p.1.time + 300000

/-- The job that has drawn the id has not responded to its request itself. -/
def Unresponded (entries : List Entry) (id : UInt32) : Prop :=
  ∀ e ∈ entries, e.drawn = some id → ∀ e' ∈ entries, e'.job = e.job → e'.responded = none

/-- No answer has come under an id that the job has drawn. -/
def Unanswered (entries : List Entry) (job : Option Nat) : Prop :=
  ∀ e ∈ entries, e.job = job → ∀ id ∈ e.drawn, ∀ e' ∈ entries, e'.received ≠ some id

instance {entries : List Entry} {job : Option Nat} {id : UInt32} :
    Decidable (LookedUpFirst entries job id) :=
  inferInstanceAs (Decidable (∃ p ∈ firstLookUp id entries, _))

instance {entries : List Entry} {id : UInt32} : Decidable (Unresponded entries id) :=
  inferInstanceAs (Decidable (∀ e ∈ entries, e.drawn = some id → ∀ e' ∈ entries, _))

/-- In this form it is decided without trying all ids. -/
theorem unanswered_iff {entries : List Entry} {job : Option Nat} : Unanswered entries job ↔
    ∀ e ∈ entries, e.job = job → e.drawn.isSome → ∀ e' ∈ entries, e'.received ≠ e.drawn := by
  constructor
  · intro h e he hjob hsome e' he' heq
    obtain ⟨id, hid⟩ := Option.isSome_iff_exists.mp hsome
    exact h e he hjob id hid e' he' (heq.trans hid)
  · intro h e he hjob id hid e' he' heq
    have hdrawn : e.drawn = some id := hid
    exact h e he hjob (by rw [hdrawn]; rfl) e' he' (heq.trans hdrawn.symm)

instance {entries : List Entry} {job : Option Nat} : Decidable (Unanswered entries job) :=
  decidable_of_iff' _ unanswered_iff

namespace Node

/-- The call brings no second response. An id is drawn only while fewer than `2 ^ 32` have
been. An answer for whose id a peer's request has an entry comes first and in time, and that
request's job has not given up. A job responds to its own request only as long as no answer
has come. -/
def OrderlyCall (s : Node) (entries : List Entry) (job : Option Nat) : Call → Prop
  | .nextId => (entries.filterMap Entry.drawn).length < 2 ^ 32
  | .answerReceived answer =>
      ∀ origin ∈ s.answers.origin answer.hopByHopId, origin.2 ≠ (s.myHost, s.myRealm) →
        LookedUpFirst entries job answer.hopByHopId ∧ Unresponded entries answer.hopByHopId
  | .send _ _ => Unanswered entries job
  | _ => True

instance (s : Node) (entries : List Entry) (job : Option Nat) :
    (c : Call) → Decidable (s.OrderlyCall entries job c)
  | .nextId => inferInstanceAs (Decidable (_ < _))
  | .answerReceived answer =>
      inferInstanceAs (Decidable (∀ origin ∈ s.answers.origin answer.hopByHopId,
        origin.2 ≠ (s.myHost, s.myRealm) →
          LookedUpFirst entries job answer.hopByHopId ∧ Unresponded entries answer.hopByHopId))
  | .send _ _ => inferInstanceAs (Decidable (Unanswered entries job))
  | .nextEndToEndId | .mappingsDue _ | .dropMappings | .addMapping .. | .removeMapping _
  | .answersDue _ | .dropAnswers | .prepareForAnswer .. | .getAnswerInfo _ | .notified .. | .now
  | .getConnectionById _ | .getConnectionByHostRealm ..
  | .getConnectionsForRequest _ | .getConnectionsByHosts _ | .addRedirect _ | .handleCommand _
  | .sendWithin .. | .isConnected | .write _ | .shutdown => isTrue trivial

/-- The step makes no call that brings a second response. -/
def Orderly (sg : Node × Journal) : Label → Prop
  | .exchange => (sg.2.entries.filterMap Entry.drawn).length < 2 ^ 32
  | .run id _ => ∀ next ∈ sg.1.nextCall id, sg.1.OrderlyCall sg.2.entries (sg.2.latest id) next.2
  | _ => True

instance (sg : Node × Journal) : (label : Label) → Decidable (Orderly sg label)
  | .exchange => inferInstanceAs (Decidable (_ < _))
  | .run id _ =>
      inferInstanceAs (Decidable (∀ next ∈ sg.1.nextCall id,
        sg.1.OrderlyCall sg.2.entries (sg.2.latest id) next.2))
  | .elapse _ | .connect .. | .deliver .. | .process _ | .tick _ | .disconnect _ => isTrue trivial

end Node

/-! ### The first look-up -/

section
variable {entries after : List Entry} {id : UInt32} {mapped look : Entry}

/-- The first look-up stays the first. -/
theorem firstLookUp_append (h : firstLookUp id entries = some (mapped, look)) :
    firstLookUp id (entries ++ after) = some (mapped, look) := by
  unfold firstLookUp at h ⊢
  rw [List.dropWhile_append]
  cases hdrop : entries.dropWhile fun e => !e.maps id with
  | nil => simp [hdrop] at h
  | cons m later =>
    simp only [hdrop] at h
    obtain ⟨l, hfind, heq⟩ := Option.map_eq_some_iff.mp h
    simp [List.find?_append, hfind, heq]

theorem of_firstLookUp (h : firstLookUp id entries = some (mapped, look)) :
    ∃ before between after original, entries = before ++ mapped :: (between ++ look :: after) ∧
      mapped.mapped = some (id, original) ∧ look.lookedUp = some id ∧
      ∀ e ∈ between, e.lookedUp ≠ some id := by
  unfold firstLookUp at h
  split at h
  · cases h
  · rename_i m later hdrop
    obtain ⟨l, hfind, heq⟩ := Option.map_eq_some_iff.mp h
    obtain ⟨rfl, rfl⟩ := Prod.mk.inj heq
    obtain ⟨hlook, between, after, rfl, hbetween⟩ := List.find?_eq_some_iff_append.mp hfind
    have hmaps : m.maps id = true := by
      have hnot := List.head?_dropWhile_not (fun e => !e.maps id) entries
      simpa [hdrop] using hnot
    obtain ⟨⟨id', original⟩, hmapped, hid⟩ := (Option.any_eq_true _ _).mp hmaps
    obtain rfl : id' = id := by simpa using hid
    refine ⟨entries.takeWhile fun e => !e.maps id', between, after, original, ?_, hmapped,
      by simpa using hlook, fun e he => by simpa using hbetween e he⟩
    rw [← hdrop, List.takeWhile_append_dropWhile]

end

/-! ### Orderly records -/

/-- A call was made as `OrderlyCall` asks. -/
structure OrderlyEntry (myHost myRealm : String) (before : List Entry) (e : Entry) : Prop where
  drawn : e.drawn.isSome → (before.filterMap Entry.drawn).length < 2 ^ 32
  received : ∀ answer origin, e.event = ⟨.answerReceived answer, some origin⟩ →
    origin.2 ≠ (myHost, myRealm) →
      LookedUpFirst before e.job answer.hopByHopId ∧ Unresponded before answer.hopByHopId
  responded : e.responded.isSome → Unanswered before e.job

/-- All calls on record were. -/
abbrev OrderlyRecord (myHost myRealm : String) (entries : List Entry) : Prop :=
  Replay (OrderlyEntry myHost myRealm) (fun before e => before ++ [e]) [] entries entries

namespace OrderlyRecord

variable {myHost myRealm : String} {entries before after : List Entry} {e : Entry}

theorem entry (h : OrderlyRecord myHost myRealm (before ++ e :: after)) :
    OrderlyEntry myHost myRealm before e := by
  obtain ⟨_, hbefore, hallows, -⟩ := h.allowed
  obtain rfl := hbefore.eq_append
  exact hallows

theorem few (h : OrderlyRecord myHost myRealm entries) :
    (entries.filterMap Entry.drawn).length ≤ 2 ^ 32 := by
  refine h.holds (P := fun before => (before.filterMap Entry.drawn).length ≤ 2 ^ 32)
    (Nat.zero_le _) fun before e _ he hbefore => ?_
  rw [List.filterMap_append, List.length_append]
  cases hdrawn : e.drawn with
  | none => simpa [hdrawn] using hbefore
  | some id =>
    rw [List.filterMap_cons_some hdrawn]
    exact Nat.succ_le_of_lt (he.drawn (by simp [hdrawn]))

end OrderlyRecord

variable {s s' : Node} {g g' : Journal}

/-- **One step.** An orderly step keeps the record orderly. -/
theorem OrderlyRecord.step {label : Node.Label} (h : OrderlyRecord s.myHost s.myRealm g.entries)
    (horderly : Node.Orderly (s, g) label) (hstep : Node.Writes s g label s' g') :
    OrderlyRecord s'.myHost s'.myRealm g'.entries := by
  cases hstep with
  | idle => exact h
  | exchange =>
    exact h.snoc ⟨fun _ => horderly, fun _ _ heq => (by cases heq), fun hsome => (by cases hsome)⟩
  | @start _ id t j =>
    obtain ⟨tasks, heq⟩ := Node.settle_eq s id t j
    rw [heq]
    exact h
  | @call id t j j' answer c next r s' hjob hprogram hperform =>
    obtain ⟨tasks, heq⟩ := Node.settle_eq s' id t { j' with program := next r }
    have hframe := Node.perform_frame hperform
    have hcall := horderly (j, c) (Node.nextCall_eq hjob hprogram)
    obtain ⟨-, ⟨-, hreply⟩, -⟩ := Node.perform_shared (k := g.latest id) (Nat.le_refl _) hperform
    rw [heq, hframe.host, hframe.realm]
    refine h.snoc ⟨fun hsome => ?_, fun command origin hevent hother => ?_, fun hsome => ?_⟩
    · cases c with
      | nextId => exact hcall
      | _ => cases hsome
    · cases hevent
      have horigin : s.answers.origin command.hopByHopId = some origin := by
        rw [← AnswerManager.answerReceived_origin]
        exact hreply.symm
      exact hcall origin horigin hother
    · cases c with
      | send => exact hcall
      | _ => cases hsome

/-! ### The answers taken up -/

namespace Journal

/-- The call sends a response to the request of the job. -/
def Responds (g : Journal) (k : Nat) (e : Entry) : Prop :=
  e.responded.isSome ∧ ∃ i, e.job = some i ∧ g.Concerns k i

/-- The request of the job has one response at most, and it is under the request's own id. -/
structure AnsweredOnce (g : Journal) (k : Nat) (request : Command) : Prop where
  once : g.entries.Pairwise fun e e' => ¬(g.Responds k e ∧ g.Responds k e')
  own : ∀ e ∈ g.entries, g.Responds k e → ∀ sent ∈ e.responded, sent.2 = request.hopByHopId

/-- Every request that is forwarded, its id mapped, has. -/
def AnswersOnce (g : Journal) : Prop :=
  ∀ k w request id, g.works[k]? = some w → w.command = some request →
    ⟨.addMapping id request.hopByHopId, ()⟩ ∈ g.trace k → g.AnsweredOnce k request

/-- What is on record before the response to an answer under an id that the job `k` has drawn:
the job `i` has made the first look-up since the mapping, and the answer has come when `k` had
drawn the id and not responded itself. -/
structure TakesUp (g : Journal) (before : List Entry) (k i : Nat) (id : UInt32) : Prop where
  first : ∃ mapped look, firstLookUp id g.entries = some (mapped, look) ∧ look.job = some i
  received : ∃ front received back, before = front ++ received :: back ∧
    received.received = some id ∧ (∃ e ∈ front, e.job = some k ∧ e.drawn = some id) ∧
    ∀ e ∈ front, e.job = some k → e.responded = none

variable {start k i : Nat} {w : Work} {request : Command} {id : UInt32} {e e' : Entry}
  {before between after : List Entry} {sent : String × UInt32}

/-- A job that looks an id up is at an answer under it, and does that first. -/
theorem Tracks.answering (h : g.Tracks start s) (hw : g.works[k]? = some w) {r : Option UInt32}
    (hlooked : ⟨.removeMapping id, r⟩ ∈ g.trace k) :
    ∃ answer, answer.hopByHopId = id ∧ (g.trace k).head? = some ⟨.removeMapping id, r⟩ ∧
      ∀ before after, g.entries = before ++ after →
        ∃ p, Answering w.context answer (RestDiameterBridge.trace before k) p := by
  obtain ⟨p, hpath⟩ := h.path hw (List.append_nil _).symm
  obtain ⟨_, -, -, hanswering⟩ := (Work.performs hpath).answering hlooked trivial
  have hhead : (g.trace k).head? = some ⟨.removeMapping id, r⟩ := by
    cases hanswering.event hlooked with
    | lookUp _ hhead => exact hhead
    | responds _ _ hcall => exact hcall.elim
  obtain ⟨rest, htrace⟩ := List.head?_eq_some_iff.mp hhead
  rw [show RestDiameterBridge.trace g.entries k = g.trace k from rfl, htrace] at hpath
  obtain ⟨_, hstep, -⟩ := path_cons.mp hpath
  generalize hstart : w.start = point at hstep
  cases hstep with
  | @lookUp answer =>
    refine ⟨answer, rfl, hhead, fun before after hentries => ?_⟩
    obtain ⟨p, hbefore⟩ := h.path hw hentries
    rw [hstart] at hbefore
    exact ⟨p, path_answer hbefore⟩
  | control hcall | route hcall => exact hcall.elim
  | cleanMappings hclean | cleanAnswers hclean | cleanOwn hclean => cases hclean

/-- What such a job sends goes out under what it has found, and behind the acceptance of its
answer, for another peer. -/
theorem Tracks.accepted (h : g.Tracks start s) (hw : g.works[i]? = some w) {r : Option UInt32}
    (hlooked : ⟨.removeMapping id, r⟩ ∈ g.trace i) (hentries : g.entries = before ++ e :: after)
    (hi : e.job = some i) (hsent : e.responded = some sent) :
    sent.2 = r.getD id ∧ ∃ front received back answer origin,
      before = front ++ received :: back ∧ received.job = some i ∧
      received.event = ⟨.answerReceived answer, some origin⟩ ∧ answer.hopByHopId = id ∧
      origin.2 ≠ (s.myHost, s.myRealm) := by
  obtain ⟨connection, response, result, hevent, rfl⟩ := Entry.event_of_responded hsent
  obtain ⟨answer, rfl, hhead, hall⟩ := h.answering hw hlooked
  have hcut : g.entries = (before ++ [e]) ++ after := by simp [hentries]
  obtain ⟨p, hanswering⟩ := hall _ _ hcut
  have hmem : ⟨.send connection response, result⟩ ∈
      RestDiameterBridge.trace (before ++ [e]) i := by
    rw [← hevent]
    exact mem_trace (by simp) hi
  have hreceived : ∃ origin, ⟨.answerReceived (answer.removeRecordRoute w.context.myHost), origin⟩ ∈
      RestDiameterBridge.trace (before ++ [e]) i := by
    cases hanswering.event hmem with
    | responds _ hreceived => exact ⟨_, hreceived⟩
  obtain ⟨origin, hreceived⟩ := hreceived
  obtain ⟨-, original, rest, htrace, hmatched⟩ := hanswering.of_received hreceived
  -- the look-up comes first, on the whole record as well
  have horiginal : original = r := by
    rw [trace, hcut, trace_append, htrace] at hhead
    simpa using hhead
  have hrest : ⟨.send connection response, result⟩ ∈ rest := by
    rw [htrace] at hmem
    simpa using hmem
  rcases path_matched hmatched with ⟨rfl, -⟩ | ⟨connectionId, host, realm, rfl, hother, hresponding⟩
  · cases hrest
  rcases path_responding hresponding with ⟨rfl, -⟩ | hresponded
  · cases hrest
  obtain ⟨rfl, -⟩ := hresponded.target connection response result hrest
  obtain ⟨received, hr, hri, hrevent⟩ := exists_of_mem_trace hreceived
  have hbefore : received ∈ before := by
    refine (List.mem_append.mp hr).resolve_right fun hlast => ?_
    rw [List.mem_singleton.mp hlast, hevent] at hrevent
    cases hrevent
  obtain ⟨front, back, rfl⟩ := List.append_of_mem hbefore
  obtain ⟨hhost, hrealm⟩ := h.own w (List.mem_of_getElem? hw)
  rw [hhost, hrealm] at hother
  exact ⟨by rw [← horiginal]; rfl, front, received, back, _, _, rfl, hri, hrevent, rfl,
    fun heq => hother (Prod.mk.inj heq)⟩

/-- A response by another job is to an answer under an id that the job has drawn, it has been
taken up, and it goes out under the request's own id. -/
theorem Tracks.takesUp (h : g.Tracks start s) (hrecord : OrderlyRecord s.myHost s.myRealm g.entries)
    (hw : g.works[k]? = some w) (hrequest : w.command = some request)
    (hentries : g.entries = before ++ e :: after) (hi : e.job = some i)
    (hsent : e.responded = some sent) (hconcerns : g.Concerns k i) (hne : i ≠ k) :
    ∃ id, ⟨.nextId, id⟩ ∈ g.trace k ∧ g.TakesUp before k i id ∧ sent.2 = request.hopByHopId := by
  obtain ⟨id, hdrawn, r, hlooked⟩ := hconcerns.resolve_left hne
  obtain ⟨w', hw'⟩ : ∃ w', g.works[i]? = some w' :=
    ⟨_, List.getElem?_eq_getElem (h.made e (by simp [hentries]) i hi)⟩
  obtain ⟨hid, front, received, back, answer, origin, rfl, hri, hrevent, rfl, hother⟩ :=
    h.accepted hw' hlooked hentries hi hsent
  have hfew := hrecord.few
  have hfront : g.entries = front ++ received :: (back ++ e :: after) := by simp [hentries]
  obtain ⟨⟨⟨mapped, look⟩, hfirst, hjob, htime⟩, hunresponded⟩ :=
    (hfront ▸ hrecord).entry.received answer origin hrevent hother
  have hlook : look.job = some i := hjob.trans hri
  obtain ⟨first, between, last, original, hparts, hmapped, hlookedUp, hno⟩ := of_firstLookUp hfirst
  have hfull : g.entries = first ++ mapped :: (between ++ look :: (last ++ received ::
      (back ++ e :: after))) := by simp [hfront, hparts]
  -- the job that has mapped the id is the one that has drawn it
  obtain ⟨k', -, -, hk', -, -, -, -, hid'⟩ :=
    h.mapped hfront (by simp [hparts] : mapped ∈ front) hmapped
  obtain ⟨drawn, hd, hdk, hdevent⟩ := exists_of_mem_trace hid'
  have hdrew : drawn.drawn = some answer.hopByHopId := by simp [Entry.drawn, hdevent]
  have hwhole : ⟨.nextId, answer.hopByHopId⟩ ∈ g.trace k' := by
    rw [trace, hfront, trace_append]
    exact List.mem_append_left _ hid'
  obtain rfl := h.drawn_unique hfew hdrawn hwhole
  refine ⟨_, hdrawn, ⟨⟨mapped, look, ?_, hlook⟩, front, received, back, rfl,
    by simp [Entry.received, hrevent], ⟨drawn, hd, hdk, hdrew⟩, fun e' he' hk => ?_⟩, ?_⟩
  · rw [hfront]
    exact firstLookUp_append hfirst
  · exact hunresponded drawn hd hdrew e' he' (hk.trans hdk.symm)
  · obtain ⟨-, -, request', hrequest', hevent⟩ :=
      h.looked_first hfew hw hfull hk' hmapped hlookedUp hno htime
    obtain rfl := Option.some.inj (hrequest.symm.trans hrequest')
    have hmade : ⟨.removeMapping answer.hopByHopId, some request.hopByHopId⟩ ∈ g.trace i := by
      rw [← hevent]
      exact mem_trace (by simp [hfull]) hlook
    obtain ⟨-, -, hhead, -⟩ := h.answering hw' hlooked
    obtain ⟨-, -, hhead', -⟩ := h.answering hw' hmade
    have hsame : r = some request.hopByHopId := by simpa using hhead.symm.trans hhead'
    rw [hid, hsame]
    rfl

/-- A job responds once. -/
theorem Tracks.responds_once (h : g.Tracks start s) (horder : [e, e'].Sublist g.entries)
    (hi : e.job = some i) (hi' : e'.job = some i) : e.responded = none := by
  by_contra hsome
  obtain ⟨sent, hsent⟩ := Option.ne_none_iff_exists'.mp hsome
  obtain ⟨connection, response, result, hevent, -⟩ := Entry.event_of_responded hsent
  have he : e ∈ g.entries := horder.subset List.mem_cons_self
  obtain ⟨w, hw⟩ : ∃ w, g.works[i]? = some w := ⟨_, List.getElem?_eq_getElem (h.made e he i hi)⟩
  obtain ⟨p, hpath⟩ := h.path hw (List.append_nil _).symm
  have hlast := List.pairwise_iff_forall_sublist.mp (pairwise_trace.mp (path_send_last hpath)) horder
  exact hlast hi hi' connection response result hevent

/-- An answer that has been taken up has come to the job that has drawn its id. -/
theorem TakesUp.not_unanswered (h : g.TakesUp before k i id) (hsub : before ⊆ between) :
    ¬Unanswered between (some k) := by
  obtain ⟨front, received, back, rfl, hreceived, ⟨drawn, hd, hdk, hdrew⟩, -⟩ := h.received
  intro hunanswered
  exact hunanswered drawn (hsub (by simp [hd])) hdk id hdrew received (hsub (by simp)) hreceived

/-- It is not taken up behind a response of that job. -/
theorem TakesUp.before_response (h : g.TakesUp (before ++ e :: after) k i id) (hk : e.job = some k)
    (hsent : e.responded.isSome) : g.TakesUp before k i id := by
  obtain ⟨front, received, back, heq, hreceived, hdrawn, hsilent⟩ := h.received
  have hne : e ≠ received := by
    intro hsame
    subst hsame
    obtain ⟨sent, hsent⟩ := Option.isSome_iff_exists.mp hsent
    obtain ⟨_, _, _, hevent, -⟩ := Entry.event_of_responded hsent
    simp [Entry.received, hevent] at hreceived
  have hnot : e ∉ front := fun he => by simp [hsilent e he hk] at hsent
  rcases List.append_eq_append_iff.mp heq with ⟨rest, hfront, hrest⟩ | ⟨rest, hbefore, hrest⟩
  · cases rest with
    | nil => exact absurd (List.cons.inj hrest).1 hne
    | cons x rest =>
      obtain ⟨rfl, -⟩ := List.cons.inj hrest
      exact absurd (by simp [hfront]) hnot
  · cases rest with
    | nil => exact absurd (List.cons.inj hrest).1.symm hne
    | cons x rest =>
      obtain ⟨rfl, -⟩ := List.cons.inj hrest
      exact ⟨h.first, front, received, rest, hbefore, hreceived, hdrawn, hsilent⟩

/-- **A forwarded request is answered once.** -/
theorem Tracks.answeredOnce (h : g.Tracks start s)
    (hrecord : OrderlyRecord s.myHost s.myRealm g.entries) (hw : g.works[k]? = some w)
    (hrequest : w.command = some request)
    (hmapped : ⟨.addMapping id request.hopByHopId, ()⟩ ∈ g.trace k) : g.AnsweredOnce k request := by
  obtain ⟨p, hpath⟩ := h.path hw (List.append_nil _).symm
  obtain ⟨request', hrequest', -, hforwarding⟩ := (Work.performs hpath).forwarding hmapped
  obtain rfl := Option.some.inj (hrequest.symm.trans hrequest')
  refine ⟨List.pairwise_iff_forall_sublist.mpr fun {e e'} horder hboth => ?_, ?_⟩
  · obtain ⟨⟨hsome, i, hi, hconcerns⟩, hsome', i', hi', hconcerns'⟩ := hboth
    obtain ⟨sent, hsent⟩ := Option.isSome_iff_exists.mp hsome
    obtain ⟨sent', hsent'⟩ := Option.isSome_iff_exists.mp hsome'
    obtain ⟨front, back, hfront, he, hback⟩ := List.cons_sublist_iff.mp horder
    obtain ⟨before, between, rfl⟩ := List.append_of_mem he
    obtain ⟨between', after, rfl⟩ := List.append_of_mem (List.singleton_sublist.mp hback)
    have hcut : g.entries = before ++ e :: (between ++ between' ++ e' :: after) := by simp [hfront]
    have hcut' : g.entries = (before ++ e :: (between ++ between')) ++ e' :: after := by
      simp [hfront]
    by_cases hsame : i = i'
    · subst hsame
      rw [h.responds_once horder hi hi'] at hsome
      cases hsome
    by_cases hk : i = k
    · subst hk
      obtain ⟨_, -, htakes, -⟩ :=
        h.takesUp hrecord hw hrequest hcut' hi' hsent' hconcerns' (Ne.symm hsame)
      have hunanswered := (hcut ▸ hrecord).entry.responded hsome
      rw [hi] at hunanswered
      exact (htakes.before_response hi hsome).not_unanswered (List.Subset.refl _) hunanswered
    obtain ⟨id₁, hid, htakes, -⟩ := h.takesUp hrecord hw hrequest hcut hi hsent hconcerns hk
    by_cases hk' : i' = k
    · subst hk'
      have hunanswered := (hcut' ▸ hrecord).entry.responded hsome'
      rw [hi'] at hunanswered
      exact htakes.not_unanswered (List.subset_append_left _ _) hunanswered
    · -- two answers: both are that of the first look-up
      obtain ⟨id₂, hid', htakes', -⟩ := h.takesUp hrecord hw hrequest hcut' hi' hsent' hconcerns' hk'
      obtain rfl := (hforwarding.event hid).1 id₁ id₂ rfl hid'
      obtain ⟨_, look, hfirst, hlook⟩ := htakes.first
      obtain ⟨_, look', hfirst', hlook'⟩ := htakes'.first
      obtain ⟨-, rfl⟩ := Prod.mk.inj (Option.some.inj (hfirst.symm.trans hfirst'))
      exact hsame (Option.some.inj (hlook.symm.trans hlook'))
  · rintro e he ⟨-, i, hi, hconcerns⟩ sent hsent
    by_cases hk : i = k
    · subst hk
      obtain ⟨connection, response, result, hevent, rfl⟩ := Entry.event_of_responded hsent
      have hmem := mem_trace he hi
      rw [hevent] at hmem
      exact (hforwarding.event hmem).2 connection response result rfl
    · obtain ⟨before, after, hcut⟩ := List.append_of_mem he
      obtain ⟨_, -, -, hid⟩ := h.takesUp hrecord hw hrequest hcut hi hsent hconcerns hk
      exact hid

/-- **Single answers.** In every run of orderly steps, each forwarded request has at most one
response, and it carries the request's own hop-by-hop id. -/
theorem answersOnce_of_orderly {settings : SendSettings} {myHost myRealm : String}
    {labels : List Node.Label}
    (horderly : Always Node.journalStep (fun sg label _ => Node.Orderly sg label)
      (.new settings myHost myRealm start, empty) labels)
    (hrun : run Node.journalStep (.new settings myHost myRealm start, empty) labels = some (s, g)) :
    g.AnswersOnce := by
  have h := tracks_of_run hrun
  have hrecord : OrderlyRecord s.myHost s.myRealm g.entries := by
    refine horderly.invariant
      (I := fun sg : Node × Journal => OrderlyRecord sg.1.myHost sg.1.myRealm sg.2.entries) ?_ .nil hrun
    intro sg label sg' hbefore hstep hmade
    exact OrderlyRecord.step hbefore hstep (Node.journalStep_cases hmade)
  exact fun _ _ _ _ hw hrequest hmapped => h.answeredOnce hrecord hw hrequest hmapped

open Node.Sample in
set_option maxRecDepth 100000 in
/-- One request is forwarded and its answer brought back. -/
theorem answersOnce_of_orderly_sample : ∃ s g,
    run Node.journalStep (node, empty) (connect ++ forward "a" "b" 7 ++ bringBack "b" 0) =
        some (s, g) ∧
      g.entries.filterMap Entry.responded = [("a", 7)] ∧ g.AnswersOnce := by
  have horderly : Always Node.journalStep (fun sg label _ => Node.Orderly sg label) (node, empty)
      (connect ++ forward "a" "b" 7 ++ bringBack "b" 0) := by decide
  have hview : (run Node.journalStep (node, empty)
      (connect ++ forward "a" "b" 7 ++ bringBack "b" 0)).map (fun sg =>
        sg.2.entries.filterMap Entry.responded) = some [("a", 7)] := by decide
  obtain ⟨⟨s, g⟩, hrun, hresponded⟩ := Option.map_eq_some_iff.mp hview
  exact ⟨s, g, hrun, hresponded, answersOnce_of_orderly horderly hrun⟩

open Node.Sample in
set_option maxRecDepth 100000 in
/-- The peer answers twice, and the second answer is sent on as well, under the drawn id. -/
theorem not_answersOnce_duplicate : ∃ s g,
    run Node.journalStep (node, empty)
        (connect ++ forward "a" "b" 7 ++ bringBack "b" 0 ++ bringBack "b" 0) = some (s, g) ∧
      g.entries.filterMap Entry.responded = [("a", 7), ("a", 0)] ∧
      g.entries.all (fun e => e.time == 0) ∧ ¬g.AnswersOnce := by
  have hview : (run Node.journalStep (node, empty)
      (connect ++ forward "a" "b" 7 ++ bringBack "b" 0 ++ bringBack "b" 0)).any (fun sg =>
        sg.2.entries.filterMap Entry.responded == [("a", 7), ("a", 0)] &&
        sg.2.entries.all (fun e => e.time == 0) &&
        (sg.2.works[0]?).any (fun w => w.command.any (·.hopByHopId == 7)) &&
        sg.2.entries.any (fun e => e.job == some 0 && e.drawn == some 0) &&
        sg.2.entries.any (fun e => e.job == some 0 && e.mapped == some (0, 7)) &&
        sg.2.entries.any (fun e => e.job == some 2 && e.lookedUp == some 0) &&
        sg.2.entries.any fun e => e.job == some 2 && e.responded == some ("a", 0)) = true := by
    decide
  obtain ⟨⟨s, g⟩, hrun, hview⟩ := (Option.any_eq_true _ _).mp hview
  simp only [Bool.and_eq_true, List.any_eq_true, Option.any_eq_true, beq_iff_eq] at hview
  obtain ⟨⟨⟨⟨⟨⟨hresponded, htimes⟩, w, hw, request, hrequest, hid⟩, drawn, hd, hd0, hdrawn⟩, mapped,
    hm, hm0, hmapped⟩, look, hl, hl2, hlook⟩, response, hr, hr2, hresponse⟩ := hview
  refine ⟨s, g, hrun, hresponded, htimes, fun honce => ?_⟩
  have hmade : ⟨.addMapping 0 request.hopByHopId, ()⟩ ∈ g.trace 0 := by
    have hmem := mem_trace hm hm0
    rw [Entry.event_of_mapped hmapped] at hmem
    rw [hid]
    exact hmem
  have hconcerns : g.Concerns 0 2 := by
    obtain ⟨r, hevent⟩ := Entry.event_of_lookedUp hlook
    have hmem := mem_trace hd hd0
    have hmem' := mem_trace hl hl2
    rw [Entry.event_of_drawn hdrawn] at hmem
    rw [hevent] at hmem'
    exact .inr ⟨0, hmem, r, hmem'⟩
  have hown := (honce 0 w request 0 hw hrequest hmade).own response hr
    ⟨by simp [hresponse], 2, hr2, hconcerns⟩ ("a", 0) hresponse
  rw [hid] at hown
  exact absurd hown (by decide)

end Journal

end RestDiameterBridge
