import RestDiameterBridge.Transport.Journal

/-!
# RestDiameterBridge.Transport.Correlation

How the answers that come in belong to the requests that went out, over all runs of a node.

An answer is known by its hop-by-hop id alone. It is accepted if a job has drawn that id for
its request and prepared for the answer, whatever connection it comes from
(`accepts_pending`), and the first one to come for a forwarded request goes back where that
request came from (`first_answer_returned`). Where ids must not come twice, the bound is on all
that are drawn in the run: a task may be held up for any time between drawing an id and using it,
so that no window of time keeps two tasks with one id apart.
-/

namespace RestDiameterBridge

open Program Transition

namespace Entry

/-- The connection on which the call sends a request, and the id of the request. -/
def sent (e : Entry) : Option (String × UInt32) :=
  match e.event with
  | ⟨.sendWithin _ connection request, _⟩ => some (connection.self.id, request.hopByHopId)
  | _ => none

/-- The connection on which the call sends a response, and the id of the response. -/
def responded (e : Entry) : Option (String × UInt32) :=
  match e.event with
  | ⟨.send connection response, _⟩ => some (connection.self.id, response.hopByHopId)
  | _ => none

theorem event_of_responded {e : Entry} {sent : String × UInt32} (h : e.responded = some sent) :
    ∃ connection response result, e.event = ⟨.send connection response, result⟩ ∧
      (connection.self.id, response.hopByHopId) = sent := by
  obtain ⟨job, time, c, r⟩ := e
  cases c with
  | send connection response => exact ⟨connection, response, r, rfl, Option.some.inj h⟩
  | _ => cases h

end Entry

namespace Journal

variable {s : Node} {g : Journal} {start k : Nat} {w : Work} {before after : List Entry} {e : Entry}
  {id : UInt32}

namespace Tracks

/-- Answers are prepared for under ids that the job has drawn, and for its own origin. -/
theorem prepared (h : g.Tracks start s) (hentries : g.entries = before ++ after) (he : e ∈ before)
    {origin : String × String × String} (hprepared : e.prepared = some (id, origin)) :
    ∃ k w, e.job = some k ∧ g.works[k]? = some w ∧ origin = w.origin ∧
      ⟨.nextId, id⟩ ∈ RestDiameterBridge.trace before k ∧
        ∀ limit ∈ e.limit, Timed (RestDiameterBridge.trace before k) limit := by
  obtain ⟨connectionId, host, realm⟩ := origin
  obtain ⟨timeout, hevent⟩ := Entry.event_of_prepared hprepared
  have hentry : e ∈ g.entries := by simp [hentries, he]
  obtain ⟨k, w, hk, hw⟩ := h.exists_work hentry (by simp [Entry.drawn, hevent])
  obtain ⟨p, hpath⟩ := h.path hw hentries
  have hmem := mem_trace he hk
  rw [hevent] at hmem
  obtain ⟨hid, horigin, htimed⟩ := (Work.performs hpath).prepared hmem
  refine ⟨k, w, hk, hw, horigin, hid, fun limit hlimit => ?_⟩
  obtain rfl : timeout = limit := by simpa [Entry.limit, hevent] using hlimit
  exact htimed

/-- Ids are mapped that the job has drawn for the request it forwards. -/
theorem mapped (h : g.Tracks start s) (hentries : g.entries = before ++ after) (he : e ∈ before)
    {original : UInt32} (hmapped : e.mapped = some (id, original)) :
    ∃ k w command, e.job = some k ∧ g.works[k]? = some w ∧ w.transport ≠ .rest ∧
      w.command = some command ∧ original = command.hopByHopId ∧
      ⟨.nextId, id⟩ ∈ RestDiameterBridge.trace before k := by
  have hevent := Entry.event_of_mapped hmapped
  have hentry : e ∈ g.entries := by simp [hentries, he]
  obtain ⟨k, w, hk, hw⟩ := h.exists_work hentry (by simp [Entry.drawn, hevent])
  obtain ⟨p, hpath⟩ := h.path hw hentries
  have hmem := mem_trace he hk
  rw [hevent] at hmem
  obtain ⟨hid, hrest, command, hcommand, horiginal⟩ := (Work.performs hpath).mapped hmem
  exact ⟨k, w, command, hk, hw, hrest, hcommand, horiginal, hid⟩

/-- An id is drawn by one job only. -/
theorem drawn_unique (h : g.Tracks start s)
    (hfew : (g.entries.filterMap Entry.drawn).length ≤ 2 ^ 32) {k' : Nat}
    (hk : ⟨.nextId, id⟩ ∈ g.trace k) (hk' : ⟨.nextId, id⟩ ∈ g.trace k') : k' = k := by
  obtain ⟨now, -, hshared⟩ := h.shared
  obtain ⟨e, he, hjob, hevent⟩ := exists_of_mem_trace hk
  obtain ⟨e', he', hjob', hevent'⟩ := exists_of_mem_trace hk'
  have hdrawn : e.drawn = some id := by simp [Entry.drawn, hevent]
  have hdrawn' : e'.drawn = some id := by simp [Entry.drawn, hevent']
  have hsame : e' = e := Recorded.drawn_unique hshared hfew he he' hdrawn hdrawn'
  rw [hsame, hjob] at hjob'
  exact (Option.some.inj hjob').symm

/-- All preparations under an id are for one origin. -/
theorem origin_unique (h : g.Tracks start s)
    (hfew : (g.entries.filterMap Entry.drawn).length ≤ 2 ^ 32) (hk : ⟨.nextId, id⟩ ∈ g.trace k)
    (hw : g.works[k]? = some w) (he : e ∈ g.entries) {origin : String × String × String}
    (hprepared : e.prepared = some (id, origin)) : origin = w.origin := by
  have hentries : g.entries = g.entries ++ [] := (List.append_nil _).symm
  obtain ⟨k', w', -, hw', rfl, hk', -⟩ := h.prepared hentries he hprepared
  obtain rfl := h.drawn_unique hfew hk hk'
  rw [Option.some.inj (hw.symm.trans hw')]

/-- And up to one time. -/
theorem limit_unique (h : g.Tracks start s)
    (hfew : (g.entries.filterMap Entry.drawn).length ≤ 2 ^ 32) {e' : Entry} (he : e ∈ g.entries)
    (he' : e' ∈ g.entries) {origin origin' : String × String × String}
    (hprepared : e.prepared = some (id, origin)) (hprepared' : e'.prepared = some (id, origin'))
    {limit limit' : Nat} (hlimit : limit ∈ e.limit) (hlimit' : limit' ∈ e'.limit) :
    limit' = limit := by
  have hentries : g.entries = g.entries ++ [] := (List.append_nil _).symm
  obtain ⟨k, -, hk, -, -, hid, htimed⟩ := h.prepared hentries he hprepared
  obtain ⟨k', -, hk', -, -, hid', -⟩ := h.prepared hentries he' hprepared'
  obtain rfl := h.drawn_unique hfew hid hid'
  obtain ⟨⟨connectionId, host, realm⟩, horigin⟩ : ∃ o, origin' = o := ⟨_, rfl⟩
  rw [horigin] at hprepared'
  obtain ⟨timeout, hevent⟩ := Entry.event_of_prepared hprepared'
  obtain rfl : timeout = limit' := by simpa [Entry.limit, hevent] using hlimit'
  exact (htimed limit hlimit).only _ _ _ _ _ (hevent ▸ mem_trace he' hk')

/-- It is 60 seconds after the job has read the clock for it. -/
theorem limit_eq (h : g.Tracks start s) (he : e ∈ g.entries) {limit : Nat}
    (hlimit : limit ∈ e.limit) : ∃ k now, e.job = some k ∧ ⟨.now, now⟩ ∈ g.trace k ∧
      limit = now + 60000 := by
  have hentries : g.entries = g.entries ++ [] := (List.append_nil _).symm
  obtain ⟨⟨id, origin⟩, hprepared⟩ : ∃ p, e.prepared = some p := by
    obtain ⟨job, time, c, r⟩ := e
    cases c <;> first | exact ⟨_, rfl⟩ | cases hlimit
  obtain ⟨k, -, hk, -, -, -, htimed⟩ := h.prepared hentries he hprepared
  obtain ⟨now, hclock, rfl⟩ := (htimed limit hlimit).clock
  exact ⟨k, now, hk, hclock, rfl⟩

end Tracks

/-- The jobs that deal with the request of a job: itself, and those that look up an id it has
drawn. -/
def Concerns (g : Journal) (k i : Nat) : Prop :=
  i = k ∨ ∃ id, ⟨.nextId, id⟩ ∈ g.trace k ∧ ∃ r, ⟨.removeMapping id, r⟩ ∈ g.trace i

/-! ### Which answers are accepted -/

/-- A request awaits an answer under the id: its job has drawn the id and prepared for the
answer, which goes to the origin of the request. -/
def Pending (g : Journal) (before : List Entry) (id : UInt32) (origin : String × String × String) :
    Prop :=
  ∃ k w, g.works[k]? = some w ∧ origin = w.origin ∧
    ⟨.nextId, id⟩ ∈ RestDiameterBridge.trace before k ∧
      ∃ e ∈ before, e.job = some k ∧ e.prepared = some (id, origin)

/-- The answers accepted: the connections they were read from, and their ids. -/
def accepted (g : Journal) : List (String × UInt32) :=
  g.entries.filterMap fun e =>
    match e.event with
    | ⟨.answerReceived answer, some _⟩ =>
        (e.job.bind (g.works[·]?)).map fun w => (w.context.connectionId, answer.hopByHopId)
    | _ => none

/-- The requests sent: the connections, and the ids. -/
def sent (g : Journal) : List (String × UInt32) := g.entries.filterMap Entry.sent

/-- Answers are accepted for pending requests. -/
structure AcceptsPending (g : Journal) : Prop where
  /-- An answer is accepted only if a request awaits one under its id. -/
  accepted : ∀ before e after answer origin, g.entries = before ++ e :: after →
    e.event = ⟨.answerReceived answer, some origin⟩ → g.Pending before answer.hopByHopId origin
  /-- The wait for an answer ends only with one that was accepted under the id of the wait. -/
  waited : ∀ before e after deadline id info answer, g.entries = before ++ e :: after →
    e.event = ⟨.notified deadline id info, some (some answer)⟩ → answer.hopByHopId = id ∧
      ∃ e' ∈ before, ∃ origin, e'.event = ⟨.answerReceived answer, some origin⟩
  /-- It is sent on to the origin of the request only. -/
  returned : ∀ k connectionId host realm answer connection response sent,
    ⟨.answerReceived answer, some (connectionId, host, realm)⟩ ∈ g.trace k →
    ⟨.send connection response, sent⟩ ∈ g.trace k →
    Target connectionId host realm (g.trace k) connection
  /-- Up to its time limit it is accepted from whichever connection it is read. -/
  whoever : (g.entries.filterMap Entry.drawn).length ≤ 2 ^ 32 →
    ∀ before e after answer r, g.entries = before ++ e :: after →
      e.event = ⟨.answerReceived answer, r⟩ → ∀ e' ∈ before, ∀ origin,
      e'.prepared = some (answer.hopByHopId, origin) → ∀ limit ∈ e'.limit, e.time ≤ limit →
      r = some origin
  /-- The limit is 60 seconds after the clock was read for it. -/
  limits : ∀ e ∈ g.entries, ∀ limit ∈ e.limit, ∃ k now, e.job = some k ∧
    ⟨.now, now⟩ ∈ g.trace k ∧ limit = now + 60000

theorem Tracks.pending (h : g.Tracks start s) {answer : Command} {origin : String × String × String}
    (hentries : g.entries = before ++ e :: after)
    (he : e.event = ⟨.answerReceived answer, some origin⟩) :
    g.Pending before answer.hopByHopId origin := by
  obtain ⟨now, -, hshared⟩ := h.shared
  rw [hentries] at hshared
  obtain ⟨s', hbefore, hallows, -⟩ := hshared.allowed
  have horigin : s'.answers.origin answer.hopByHopId = some origin := by
    have hreply := hallows.2
    rw [he] at hreply
    rw [← AnswerManager.answerReceived_origin]
    exact hreply.symm
  obtain ⟨e', he', hprepared⟩ := Recorded.origin_eq_some hbefore horigin
  obtain ⟨k, w, hk, hw, hown, hid, -⟩ := h.prepared hentries he' hprepared
  exact ⟨k, w, hw, hown, hid, e', he', hk, hprepared⟩

theorem Tracks.waited (h : g.Tracks start s) {deadline info : Nat} {answer : Command}
    (hentries : g.entries = before ++ e :: after)
    (he : e.event = ⟨.notified deadline id info, some (some answer)⟩) : answer.hopByHopId = id ∧
      ∃ e' ∈ before, ∃ origin, e'.event = ⟨.answerReceived answer, some origin⟩ := by
  obtain ⟨now, -, hshared⟩ := h.shared
  have hentry : e ∈ g.entries := by simp [hentries]
  obtain ⟨k, w, hk, hw⟩ := h.exists_work hentry (by simp [Entry.drawn, he])
  have hcut : g.entries = (before ++ [e]) ++ after := by simp [hentries]
  obtain ⟨p, hpath⟩ := h.path hw hcut
  have hmem : e.event ∈ RestDiameterBridge.trace (before ++ [e]) k := mem_trace (by simp) hk
  rw [he] at hmem
  obtain ⟨e', he', -, hfound⟩ := exists_of_mem_trace ((Work.performs hpath).waited hmem)
  have hbefore : e' ∈ before := by
    rcases List.mem_append.mp he' with hbefore | hlast
    · exact hbefore
    · rw [List.mem_singleton.mp hlast, he] at hfound
      cases hfound
  rw [hentries] at hshared
  exact Recorded.notified_eq_some hshared hbefore hfound he

theorem Tracks.returned (h : g.Tracks start s) {answer response : Command}
    {connectionId host realm : String} {connection : Connection} {sent : Except String Unit}
    (hreceived : ⟨.answerReceived answer, some (connectionId, host, realm)⟩ ∈ g.trace k)
    (hsent : ⟨.send connection response, sent⟩ ∈ g.trace k) :
    Target connectionId host realm (g.trace k) connection := by
  obtain ⟨e, he, hk, -⟩ := exists_of_mem_trace hreceived
  obtain ⟨w, hw⟩ : ∃ w, g.works[k]? = some w := ⟨_, List.getElem?_eq_getElem (h.made e he k hk)⟩
  obtain ⟨p, hpath⟩ := h.path hw (List.append_nil _).symm
  obtain ⟨command, -, -, hanswering⟩ := (Work.performs hpath).answering hreceived trivial
  obtain ⟨-, original, rest, htrace, hrest⟩ := hanswering.of_received hreceived
  have hlater : ⟨.send connection response, sent⟩ ∈ rest := by
    have hmem : ⟨.send connection response, sent⟩ ∈ RestDiameterBridge.trace g.entries k := hsent
    rw [htrace] at hmem
    simpa using hmem
  rcases path_matched hrest with ⟨rfl, -⟩ | ⟨_, _, _, heq, -, hresponding⟩
  · cases hlater
  · cases heq
    rcases path_responding hresponding with ⟨rfl, -⟩ | hresponded
    · cases hlater
    · have htarget := (hresponded.target connection response sent hlater).2
      show Target connectionId host realm (RestDiameterBridge.trace g.entries k) connection
      rw [htrace]
      exact htarget.mono fun event hevent => by simp [hevent]

theorem Tracks.whoever (h : g.Tracks start s)
    (hfew : (g.entries.filterMap Entry.drawn).length ≤ 2 ^ 32) {answer : Command}
    {r : Option (String × String × String)} {e' : Entry} {origin : String × String × String}
    (hentries : g.entries = before ++ e :: after) (he : e.event = ⟨.answerReceived answer, r⟩)
    (he' : e' ∈ before) (hprepared : e'.prepared = some (answer.hopByHopId, origin))
    {limit : Nat} (hlimit : limit ∈ e'.limit) (htime : e.time ≤ limit) : r = some origin := by
  obtain ⟨now, -, hshared⟩ := h.shared
  obtain ⟨k, w, -, hw, rfl, hid, -⟩ := h.prepared hentries he' hprepared
  have hid' : ⟨.nextId, answer.hopByHopId⟩ ∈ g.trace k := by
    rw [trace, hentries, trace_append]
    exact List.mem_append_left _ hid
  have hmem : ∀ e ∈ before, e ∈ g.entries := fun e he => by simp [hentries, he]
  rw [hentries] at hshared
  refine Recorded.origin_found hshared he he' hprepared fun e'' he'' o ho => ⟨?_, fun l hl => ?_⟩
  · exact h.origin_unique hfew hid' hw (hmem _ he'') ho
  · rwa [h.limit_unique hfew (hmem _ he') (hmem _ he'') hprepared ho hlimit hl]

/-- **Which answers are accepted.** In every run, those to pending requests, whichever
connection they come from. -/
theorem accepts_pending {settings : SendSettings} {myHost myRealm : String} {labels : List Node.Label}
    (hrun : run Node.journalStep (.new settings myHost myRealm start, empty) labels = some (s, g)) :
    g.AcceptsPending := by
  have h := tracks_of_run hrun
  exact ⟨fun _ _ _ _ _ hentries he => h.pending hentries he,
    fun _ _ _ _ _ _ _ hentries he => h.waited hentries he,
    fun _ _ _ _ _ _ _ _ hreceived hsent => h.returned hreceived hsent,
    fun hfew _ _ _ _ _ hentries he _ he' _ hprepared _ hlimit htime =>
      h.whoever hfew hentries he he' hprepared hlimit htime,
    fun _ he _ hlimit => h.limit_eq he hlimit⟩

open Node.Sample in
set_option maxRecDepth 100000 in
/-- The peer that was sent the request answers it. -/
theorem accepts_pending_sample : ∃ s g,
    run Node.journalStep (node, empty) (connect ++ forward "a" "b" 7 ++ bringBack "b" 0) =
        some (s, g) ∧
      g.accepted = [("b", 0)] ∧ g.AcceptsPending := by
  have hview : (run Node.journalStep (node, empty)
      (connect ++ forward "a" "b" 7 ++ bringBack "b" 0)).map (fun sg => sg.2.accepted) =
      some [("b", 0)] := by decide
  obtain ⟨⟨s, g⟩, hrun, haccepted⟩ := Option.map_eq_some_iff.mp hview
  exact ⟨s, g, hrun, haccepted, accepts_pending hrun⟩

open Node.Sample in
set_option maxRecDepth 100000 in
/-- A peer answers that was not sent the request, and its answer is accepted. -/
theorem not_accepts_sent_only : ∃ s g,
    run Node.journalStep (node, empty)
        (connect ++ [.connect "c" .tcpServer "host.c" "realm.c"] ++ forward "a" "b" 7 ++
          bringBack "c" 0) = some (s, g) ∧
      g.accepted = [("c", 0)] ∧ g.sent = [("b", 0)] ∧ ¬∀ answer ∈ g.accepted, answer ∈ g.sent := by
  have hview : (run Node.journalStep (node, empty)
      (connect ++ [.connect "c" .tcpServer "host.c" "realm.c"] ++ forward "a" "b" 7 ++
        bringBack "c" 0)).map (fun sg => (sg.2.accepted, sg.2.sent)) =
      some ([("c", 0)], [("b", 0)]) := by decide
  obtain ⟨⟨s, g⟩, hrun, hboth⟩ := Option.map_eq_some_iff.mp hview
  obtain ⟨haccepted, hsent⟩ := Prod.mk.inj hboth
  refine ⟨s, g, hrun, haccepted, hsent, ?_⟩
  rw [haccepted, hsent]
  decide

/-! ### Where the first answer goes -/

/-- A job forwards its request under the id: it has mapped the id and prepared for the
answer. -/
structure Forwards (g : Journal) (k : Nat) (id : UInt32) (mapped prepared : Entry) : Prop where
  mapped_mem : mapped ∈ g.entries
  mapped_job : mapped.job = some k
  mapped : ∃ original, mapped.mapped = some (id, original)
  prepared_mem : prepared ∈ g.entries
  prepared_job : prepared.job = some k
  prepared : ∃ origin, prepared.prepared = some (id, origin)

/-- A look-up of an id is the first one on record. -/
structure FirstLookUp (g : Journal) (id : UInt32) (before : List Entry) (look : Entry) : Prop where
  record : ∃ after, g.entries = before ++ look :: after
  lookedUp : look.lookedUp = some id
  first : ∀ e ∈ before, e.lookedUp ≠ some id

/-- The first answer under the id comes after the request is registered and before anything
expires: the job that processes it looks the id up within 300 seconds of the mapping, and hands
the answer over up to the time limit of the preparation for it, 60 seconds after the clock was read
for that. -/
structure InTime (g : Journal) (before : List Entry) (look mapped prepared : Entry) : Prop where
  mapped_mem : mapped ∈ before
  prepared_mem : prepared ∈ before
  look_time : look.time ≤ mapped.time + 300000
  received_time : ∀ e ∈ g.entries, e.job = look.job → e.received.isSome →
    ∀ limit ∈ prepared.limit, e.time ≤ limit

/-- A job sends the answer back: under the id of the request, on the connection the request
came from if that is found, and otherwise on one of the same peer. -/
structure Returns (g : Journal) (s : Node) (j : Nat) (w : Work) (request answer : Command) : Prop where
  target : ∀ connection response sent, ⟨.send connection response, sent⟩ ∈ g.trace j →
    response = answer.returned w.context.myHost request.hopByHopId ∧
      Target w.context.connectionId w.context.peerHost w.context.peerRealm (g.trace j) connection
  only : ∀ connection connection' response sent,
    ⟨.getConnectionById w.context.connectionId, some connection⟩ ∈ g.trace j →
    ⟨.send connection' response, sent⟩ ∈ g.trace j → connection' = connection
  ends : g.Ended s j → ∃ found, ⟨.getConnectionById w.context.connectionId, found⟩ ∈ g.trace j ∧
    ∀ connection, found = some connection → ∃ sent,
      ⟨.send connection (answer.returned w.context.myHost request.hopByHopId), sent⟩ ∈ g.trace j

section
variable {look mapped prepared : Entry} {j : Nat}

/-- A look-up within 300 seconds of the job's mapping of the id gives the id of the request, if
it is the first since. -/
theorem Tracks.looked_first (h : g.Tracks start s)
    (hfew : (g.entries.filterMap Entry.drawn).length ≤ 2 ^ 32) (hw : g.works[k]? = some w)
    {between after : List Entry} (hentries : g.entries = before ++ mapped :: (between ++ look :: after))
    (hjob : mapped.job = some k) {original : UInt32} (hmapped : mapped.mapped = some (id, original))
    (hlook : look.lookedUp = some id) (hfirst : ∀ e ∈ between, e.lookedUp ≠ some id)
    (htime : look.time ≤ mapped.time + 300000) :
    w.transport ≠ .rest ∧ ⟨.nextId, id⟩ ∈ g.trace k ∧ ∃ request, w.command = some request ∧
      look.event = ⟨.removeMapping id, some request.hopByHopId⟩ := by
  obtain ⟨r, hevent⟩ := Entry.event_of_lookedUp hlook
  obtain ⟨now, -, hshared⟩ := h.shared
  have hall : g.entries = g.entries ++ [] := (List.append_nil _).symm
  obtain ⟨k', w', request, hk', hw', hrest, hrequest, rfl, hid⟩ :=
    h.mapped hall (by simp [hentries]) hmapped
  obtain rfl : k = k' := Option.some.inj (hjob.symm.trans hk')
  obtain rfl : w = w' := Option.some.inj (hw.symm.trans hw')
  refine ⟨hrest, hid, request, hrequest, ?_⟩
  rw [hentries] at hshared
  rw [hevent, Recorded.lookUp_found hshared hevent hmapped (fun e he o ho => ?_) hfirst htime]
  -- a further mapping of the id is one of the same job
  obtain ⟨k'', w'', request', -, hw'', -, hrequest', rfl, hid'⟩ :=
    h.mapped hall (by simp [hentries, he]) ho
  obtain rfl := h.drawn_unique hfew hid hid'
  obtain rfl : w = w'' := Option.some.inj (hw.symm.trans hw'')
  rw [Option.some.inj (hrequest.symm.trans hrequest')]

/-- The job of the first look-up, and what the look-up gives. -/
theorem Tracks.looked (h : g.Tracks start s)
    (hfew : (g.entries.filterMap Entry.drawn).length ≤ 2 ^ 32) (hw : g.works[k]? = some w)
    (hforwards : g.Forwards k id mapped prepared) (hfirst : g.FirstLookUp id before look)
    (htime : g.InTime before look mapped prepared) :
    w.transport ≠ .rest ∧ ⟨.nextId, id⟩ ∈ g.trace k ∧ ∃ request, w.command = some request ∧
      look.event = ⟨.removeMapping id, some request.hopByHopId⟩ := by
  obtain ⟨after, hentries⟩ := hfirst.record
  obtain ⟨original, hmapped⟩ := hforwards.mapped
  obtain ⟨front, between, rfl⟩ := List.append_of_mem htime.mapped_mem
  have hcut : g.entries = front ++ mapped :: (between ++ look :: after) := by simp [hentries]
  exact h.looked_first hfew hw hcut hforwards.mapped_job hmapped hfirst.lookedUp
    (fun e he => hfirst.first e (by simp [he])) htime.look_time

/-- An answer is received after its id has been looked up, and so after the first look-up. -/
theorem Tracks.received_after (h : g.Tracks start s) (hfirst : g.FirstLookUp id before look)
    {answer : Command} {r : Option (String × String × String)} (hhop : answer.hopByHopId = id)
    (he : e ∈ g.entries) (hj : e.job = some j) (hevent : e.event = ⟨.answerReceived answer, r⟩) :
    ∃ between second, g.entries = (before ++ look :: between) ++ e :: second := by
  obtain ⟨after, hentries⟩ := hfirst.record
  have hmem : e ∈ before ++ look :: after := hentries ▸ he
  rcases List.mem_append.mp hmem with hbefore | hlater
  · obtain ⟨w, hw⟩ : ∃ w, g.works[j]? = some w :=
      ⟨_, List.getElem?_eq_getElem (h.made e he j hj)⟩
    obtain ⟨p, hpath⟩ := h.path hw hentries
    have hmade : ⟨.answerReceived answer, r⟩ ∈ RestDiameterBridge.trace before j := by
      rw [← hevent]
      exact mem_trace hbefore hj
    obtain ⟨command, -, -, hanswering⟩ := (Work.performs hpath).answering hmade trivial
    obtain ⟨rfl, original, rest, htrace, -⟩ := hanswering.of_received hmade
    have hlook : ⟨.removeMapping command.hopByHopId, original⟩ ∈
        RestDiameterBridge.trace before j := by
      rw [htrace]
      exact List.mem_cons_self
    obtain ⟨e', he', -, hevent'⟩ := exists_of_mem_trace hlook
    refine absurd ?_ (hfirst.first e' he')
    rw [Entry.lookedUp, hevent', ← hhop]
    rfl
  · rcases List.mem_cons.mp hlater with rfl | hafter
    · have hlook := hfirst.lookedUp
      rw [Entry.lookedUp, hevent] at hlook
      cases hlook
    · obtain ⟨between, second, rfl⟩ := List.append_of_mem hafter
      exact ⟨between, second, by simp [hentries]⟩

/-- What the answer manager gives to the job of the first look-up. -/
theorem Tracks.received (h : g.Tracks start s)
    (hfew : (g.entries.filterMap Entry.drawn).length ≤ 2 ^ 32) (hw : g.works[k]? = some w)
    (hid : ⟨.nextId, id⟩ ∈ g.trace k) (hforwards : g.Forwards k id mapped prepared)
    (hfirst : g.FirstLookUp id before look) (htime : g.InTime before look mapped prepared)
    (hj : look.job = some j) {answer : Command} {r : Option (String × String × String)}
    (hhop : answer.hopByHopId = id) (hreceived : ⟨.answerReceived answer, r⟩ ∈ g.trace j) :
    r = some w.origin := by
  obtain ⟨origin, hprepared⟩ := hforwards.prepared
  obtain ⟨now, -, hshared⟩ := h.shared
  obtain ⟨e, he, hek, hevent⟩ := exists_of_mem_trace hreceived
  have horigin : ∀ e ∈ g.entries, ∀ o, e.prepared = some (id, o) → o = w.origin :=
    fun e he o ho => h.origin_unique hfew hid hw he ho
  have hlimit : ∀ limit ∈ prepared.limit, e.time ≤ limit :=
    htime.received_time e he (hek.trans hj.symm) (by simp [Entry.received, hevent])
  obtain ⟨between, second, hcut⟩ := h.received_after hfirst hhop he hek hevent
  subst hhop
  rw [horigin prepared hforwards.prepared_mem origin hprepared] at hprepared
  have hmem : ∀ e ∈ before ++ look :: between, e ∈ g.entries := fun e he => by
    rw [hcut]
    exact List.mem_append_left _ he
  rw [hcut] at hshared
  refine Recorded.origin_found hshared hevent (by simp [htime.prepared_mem]) hprepared
    fun e' he' o ho => ⟨horigin e' (hmem e' he') o ho, fun l hl => ?_⟩
  have hl' : prepared.limit = some (prepared.limit.getD 0) := by
    obtain ⟨timeout, hevent'⟩ := Entry.event_of_prepared hprepared
    simp [Entry.limit, hevent']
  rw [h.limit_unique hfew hforwards.prepared_mem (hmem e' he') hprepared ho hl' hl]
  exact hlimit _ hl'

/-- The course of the job of the first look-up: it has made the look-up only, or goes on to
respond to the peer the request came from. -/
theorem Tracks.first_course (h : g.Tracks start s)
    (hfew : (g.entries.filterMap Entry.drawn).length ≤ 2 ^ 32) (hw : g.works[k]? = some w)
    (hpeer : ¬(w.context.peerHost = w.context.myHost ∧ w.context.peerRealm = w.context.myRealm))
    (hforwards : g.Forwards k id mapped prepared) (hfirst : g.FirstLookUp id before look)
    (htime : g.InTime before look mapped prepared) (hj : look.job = some j) {w' : Work}
    (hw' : g.works[j]? = some w') {p : Point}
    (hpath : Path (Course w'.context) w'.start (g.trace j) p) :
    ∃ request answer original, w.command = some request ∧ w'.command = some answer ∧
      answer.isRequest = false ∧ original = request.hopByHopId ∧
      ((g.trace j = [⟨.removeMapping id, some original⟩] ∧ p = .looked answer (some original)) ∨
        ∃ rest, g.trace j = ⟨.removeMapping id, some original⟩ ::
            ⟨.answerReceived (answer.removeRecordRoute w.context.myHost), some w.origin⟩ :: rest ∧
          Path (Course w'.context) (.responding w.context.connectionId w.context.peerHost
            w.context.peerRealm (answer.returned w.context.myHost original)) rest p) := by
  obtain ⟨hrest, hid, request, hrequest, hlook⟩ := h.looked hfew hw hforwards hfirst htime
  obtain ⟨after, hentries⟩ := hfirst.record
  have hmade : ⟨.removeMapping id, some request.hopByHopId⟩ ∈ g.trace j := by
    rw [← hlook]
    exact mem_trace (by simp [hentries]) hj
  obtain ⟨answer, hanswer, hflag, hanswering⟩ := (Work.performs hpath).answering hmade trivial
  refine ⟨request, answer, _, hrequest, hanswer, hflag, rfl, ?_⟩
  have hown : w'.context.myHost = w.context.myHost ∧ w'.context.myRealm = w.context.myRealm := by
    obtain ⟨hhost, hrealm⟩ := h.own w (List.mem_of_getElem? hw)
    obtain ⟨hhost', hrealm'⟩ := h.own w' (List.mem_of_getElem? hw')
    exact ⟨hhost'.trans hhost.symm, hrealm'.trans hrealm.symm⟩
  have horigin : w.origin = (w.context.connectionId, w.context.peerHost, w.context.peerRealm) := by
    simp [Work.origin, hrest]
  have hhead : id = answer.hopByHopId ∧
      (g.trace j).head? = some ⟨.removeMapping id, some request.hopByHopId⟩ := by
    cases hanswering.event hmade with
    | lookUp _ hhead => exact ⟨rfl, hhead⟩
    | responds _ _ hcall => exact hcall.elim
  obtain ⟨rfl, hhead⟩ := hhead
  have hreceived : ∀ r, ⟨.answerReceived (answer.removeRecordRoute w'.context.myHost), r⟩ ∈
      g.trace j → r = some w.origin :=
    fun r hr => h.received hfew hw hid hforwards hfirst htime hj
      (show (answer.removeRecordRoute w'.context.myHost).hopByHopId = _ from rfl) hr
  generalize htrace : g.trace j = trace at hhead hreceived hanswering ⊢
  cases hanswering with
  | start => cases hhead
  | looked original =>
    cases hhead
    exact .inl ⟨rfl, rfl⟩
  | matched original origin hmatched =>
    cases hhead
    obtain rfl := hreceived origin (by simp)
    refine .inr ⟨_, by rw [← hown.1], ?_⟩
    rw [horigin] at hmatched
    rcases path_matched hmatched with ⟨-, -, hno⟩ | ⟨_, _, _, heq, -, hresponding⟩
    · have hpeer' := hno _ _ _ rfl
      rw [hown.1, hown.2] at hpeer'
      exact absurd hpeer' hpeer
    · cases heq
      rw [← hown.1]
      exact hresponding

/-- The job of the first look-up returns its answer. -/
theorem Tracks.returns (h : g.Tracks start s)
    (hfew : (g.entries.filterMap Entry.drawn).length ≤ 2 ^ 32) (hw : g.works[k]? = some w)
    (hpeer : ¬(w.context.peerHost = w.context.myHost ∧ w.context.peerRealm = w.context.myRealm))
    (hforwards : g.Forwards k id mapped prepared) (hfirst : g.FirstLookUp id before look)
    (htime : g.InTime before look mapped prepared) :
    ∃ j w' request answer, look.job = some j ∧ g.works[j]? = some w' ∧
      w.command = some request ∧ w'.command = some answer ∧ answer.isRequest = false ∧
      g.Returns s j w request answer := by
  obtain ⟨after, hentries⟩ := hfirst.record
  obtain ⟨r, hlook⟩ := Entry.event_of_lookedUp hfirst.lookedUp
  have hentry : look ∈ g.entries := by simp [hentries]
  obtain ⟨j, w', hj, hw'⟩ := h.exists_work hentry (by simp [Entry.drawn, hlook])
  have hcourse := fun {p : Point} (hpath : Path (Course w'.context) w'.start (g.trace j) p) =>
    h.first_course hfew hw hpeer hforwards hfirst htime hj hw' hpath
  obtain ⟨p, hpath⟩ := h.path hw' (List.append_nil _).symm
  obtain ⟨request, answer, original, hrequest, hanswer, hflag, rfl, hmade⟩ := hcourse hpath
  refine ⟨j, w', request, answer, hj, hw', hrequest, hanswer, hflag, ?_, ?_, ?_⟩
  · intro connection response sent hsent
    rcases hmade with ⟨htrace, -⟩ | ⟨rest, htrace, hresponding⟩
    · rw [htrace] at hsent
      simp at hsent
    · have hlater : ⟨.send connection response, sent⟩ ∈ rest := by
        rw [htrace] at hsent
        simpa using hsent
      rcases path_responding hresponding with ⟨rfl, -⟩ | hresponded
      · cases hlater
      · obtain ⟨rfl, htarget⟩ := hresponded.target connection response sent hlater
        refine ⟨rfl, ?_⟩
        rw [htrace]
        exact htarget.mono fun event hevent => by simp [hevent]
  · intro connection connection' response sent hfound hsent
    rcases hmade with ⟨htrace, -⟩ | ⟨rest, htrace, hresponding⟩
    · rw [htrace] at hsent
      simp at hsent
    · rw [htrace] at hfound hsent
      exact eq_of_found hresponding (by simpa using hfound) (by simpa using hsent)
  · intro hended
    obtain ⟨p', result, hpath', hends⟩ := h.path_ended hw' hended
    obtain ⟨request', answer', original', hrequest', hanswer', -, rfl, hmade'⟩ := hcourse hpath'
    obtain rfl := Option.some.inj (hrequest.symm.trans hrequest')
    obtain rfl := Option.some.inj (hanswer.symm.trans hanswer')
    rcases hmade' with ⟨-, rfl⟩ | ⟨rest, htrace, hresponding⟩
    · exact hends.elim
    · rcases path_responding hresponding with ⟨-, rfl⟩ | hresponded
      · exact hends.elim
      · obtain ⟨found, hfound, hsent⟩ := hresponded.ends result hends
        rw [htrace]
        refine ⟨found, by simp [hfound], fun connection hconnection => ?_⟩
        obtain ⟨sent, hmem⟩ := hsent connection hconnection
        exact ⟨sent, by simp [hmem]⟩

end

/-! ### Runs -/

namespace Runs

open Node.Sample

/-- The sample node with longer waits. -/
def patient : Node :=
  .new { perConnTimeout := 120000, totalTimeout := 600000, retryableResultCodes := [] }
    "bridge" "home.org" 0

/-- A command comes in on `id`, and its task makes `n` calls; what it sends is routed to `next`. -/
def takes (id next : String) (command : Command) (n : Nat) : List Node.Label :=
  [.deliver id command, .process id] ++ List.replicate n (.run id (replies next))

/-- Ten seconds pass between the preparation for the answer and the sending. The answer comes 55
seconds later, when another request has had the expired entries dropped. -/
def swept : List Node.Label :=
  connect ++ [.connect "c" .tcpServer "host.c" "realm.c"] ++ takes "a" "b" (request 7) 8 ++
    [.elapse 10000] ++ List.replicate 6 (.run "a" (replies "b")) ++ [.elapse 55000] ++
    takes "c" "b" (request 8) 10 ++ takes "b" "b" (answer 0) 2

/-- 250 seconds pass between the mapping of the id and the preparation for the answer, which
comes 55 seconds later. -/
def expired : List Node.Label :=
  connect ++ takes "a" "b" (request 7) 4 ++ [.elapse 250000] ++
    List.replicate 11 (.run "a" (replies "b")) ++ [.elapse 55000] ++ takes "b" "b" (answer 0) 4

/-- The same, but in the meantime another peer's answer under the id comes and is processed. -/
def overtaken : List Node.Label :=
  connect ++ [.connect "c" .tcpServer "host.c" "realm.c"] ++ forward "a" "b" 7 ++
    forward "b" "a" 9 ++ [.elapse 1000, .deliver "b" (answer 0)] ++ bringBack "c" 0 ++
    [.elapse 119000] ++ List.replicate 4 (.run "b" (replies "a")) ++
    [.process "b"] ++ List.replicate 4 (.run "b" (replies "b"))

/-- In the run fewer than `2 ^ 32` ids are drawn and no peer goes by the node's own host; and
these are its requests, look-ups and responses, with their times, connections and ids. -/
def Shows (s : Node) (labels : List Node.Label) (requests : List (Nat × String × UInt32))
    (lookUps : List (Nat × UInt32)) (responses : List (Nat × String × UInt32)) : Prop :=
  (run Node.journalStep (s, empty) labels).any (fun sg =>
    decide ((sg.2.entries.filterMap Entry.drawn).length < 2 ^ 32) &&
    sg.2.works.all (fun w => w.context.peerHost != w.context.myHost) &&
    (sg.2.entries.filterMap fun e => e.sent.map fun sent => (e.time, sent)) == requests &&
    (sg.2.entries.filterMap fun e => e.lookedUp.map fun id => (e.time, id)) == lookUps &&
    (sg.2.entries.filterMap fun e => e.responded.map fun sent => (e.time, sent)) == responses) = true

instance (s : Node) (labels : List Node.Label) (requests : List (Nat × String × UInt32))
    (lookUps : List (Nat × UInt32)) (responses : List (Nat × String × UInt32)) :
    Decidable (Shows s labels requests lookUps responses) :=
  inferInstanceAs (Decidable (_ = true))

end Runs

end Journal

end RestDiameterBridge
