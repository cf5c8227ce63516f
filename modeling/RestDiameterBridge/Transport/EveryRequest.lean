import RestDiameterBridge.Transport.Correlation
import RestDiameterBridge.Transport.OwnAnswers

/-!
# RestDiameterBridge.Transport.EveryRequest

Whether every request gets an answer, over all runs of a node.

The answer to a request is sent by its own job, or by one that processes an answer to it
(`Concerns`). `every_request_answered` says under which conditions (`Meets`) there is one
when all these jobs have ended. A request for this node whose handling fails has none.
-/

namespace RestDiameterBridge

open Program Transition

/-- The request is for this node. -/
def Work.IsLocal (w : Work) (command : Command) : Prop :=
  w.context.isLoopedRequest command = false ∧ w.context.isMyCommand command = true

/-- The request is for another node. -/
def Work.IsForwarded (w : Work) (command : Command) : Prop :=
  w.context.isLoopedRequest command = false ∧ w.context.isMyCommand command = false

namespace Journal

variable {s : Node} {g : Journal} {start k : Nat} {w : Work} {command : Command} {id : UInt32}
  {handler : DefaultCommandHandler} {exchange : List (Sigma HttpCall.Reply)} {trace : List Event}
  {p : Point}

/-- All jobs that deal with the request have ended. If they looked for the connection it came
from they found it, and what they sent was written. -/
structure Settled (g : Journal) (s : Node) (k : Nat) (w : Work) : Prop where
  ended : ∀ i, g.Concerns k i → g.Ended s i
  registered : ∀ i found, g.Concerns k i →
    ⟨.getConnectionById w.context.connectionId, found⟩ ∈ g.trace i → found.isSome = true
  writable : ∀ i connection response sent, g.Concerns k i →
    ⟨.send connection response, sent⟩ ∈ g.trace i → sent = .ok ()

/-- The request has been answered on the connection it came from, under its own id. -/
def IsAnswered (g : Journal) (k : Nat) (w : Work) (command : Command) : Prop :=
  ∃ i connection response, g.Concerns k i ∧
    ⟨.getConnectionById w.context.connectionId, some connection⟩ ∈ g.trace i ∧
    ⟨.send connection response, .ok ()⟩ ∈ g.trace i ∧ response.isRequest = false ∧
    response.hopByHopId = command.hopByHopId

/-- What it takes for the request of a job to be answered. -/
structure Meets (g : Journal) (handler : DefaultCommandHandler)
    (exchange : List (Sigma HttpCall.Reply)) (k : Nat) (w : Work) (command : Command) : Prop where
  /-- If the request is for this node, its backends have an answer. -/
  answerable : w.IsLocal command →
    Answerable handler.dictionaries command handler.requestProcessors exchange
  few : w.IsForwarded command → (g.entries.filterMap Entry.drawn).length < 2 ^ 32
  /-- If it is forwarded, its peer does not go by this node's identity. -/
  peer : w.IsForwarded command →
    ¬(w.context.peerHost = w.context.myHost ∧ w.context.peerRealm = w.context.myRealm)
  /-- The first answer to come while its job is at work comes after the request is registered
  and before anything expires. -/
  inTime : ∀ id mapped prepared before look after, g.Forwards k id mapped prepared →
    g.FirstLookUp id before look → g.entries = before ++ look :: after →
    (∃ e ∈ after, e.job = some k) → g.InTime before look mapped prepared

/-- A response that a job has sent when it ends. -/
theorem Settled.sent {host realm : String} {response : Command} {i : Nat}
    {result : Except String Unit} (h : g.Settled s k w) (hconcerns : g.Concerns k i)
    (hresponded : Responded w.context.connectionId host realm response trace p)
    (hends : p.Ends result) (hsub : trace ⊆ g.trace i) : ∃ connection,
      ⟨.getConnectionById w.context.connectionId, some connection⟩ ∈ g.trace i ∧
        ⟨.send connection response, .ok ()⟩ ∈ g.trace i := by
  obtain ⟨found, hfound, hsent⟩ := hresponded.ends result hends
  obtain ⟨connection, rfl⟩ :=
    Option.isSome_iff_exists.mp (h.registered i found hconcerns (hsub hfound))
  obtain ⟨sent, hmem⟩ := hsent connection rfl
  obtain rfl := h.writable i connection response sent hconcerns (hsub hmem)
  exact ⟨connection, hsub hfound, hsub hmem⟩

/-- If a job's wait has ended with an answer, the first look-up of the id came before that. -/
theorem Tracks.firstLookUp_of_waited (h : g.Tracks start s) {deadline info : Nat} {answer : Command}
    (hwaited : ⟨.notified deadline id info, some (some answer)⟩ ∈ g.trace k) :
    ∃ before look after, g.FirstLookUp id before look ∧ g.entries = before ++ look :: after ∧
      ∃ e ∈ after, e.job = some k := by
  obtain ⟨e, he, hk, hevent⟩ := exists_of_mem_trace hwaited
  obtain ⟨front, back, hentries⟩ := List.append_of_mem he
  obtain ⟨rfl, e', he', origin, haccepted⟩ := h.waited hentries hevent
  -- the answer was looked up by the job that had it accepted
  have hentry : e' ∈ g.entries := by simp [hentries, he']
  obtain ⟨i, w', hi, hw'⟩ := h.exists_work hentry (by simp [Entry.drawn, haccepted])
  obtain ⟨p, hpath⟩ := h.path hw' hentries
  have hreceived : ⟨.answerReceived answer, some origin⟩ ∈ RestDiameterBridge.trace front i := by
    rw [← haccepted]
    exact mem_trace he' hi
  obtain ⟨command, -, -, hanswering⟩ := (Work.performs hpath).answering hreceived trivial
  obtain ⟨rfl, original, rest, htrace, -⟩ := hanswering.of_received hreceived
  have hlook : ⟨.removeMapping command.hopByHopId, original⟩ ∈ RestDiameterBridge.trace front i := by
    rw [htrace]
    exact List.mem_cons_self
  obtain ⟨e₁, he₁, -, hevent₁⟩ := exists_of_mem_trace hlook
  have hsome : (front.find? fun e => e.lookedUp == some command.hopByHopId).isSome = true := by
    refine List.find?_isSome.mpr ⟨e₁, he₁, ?_⟩
    simp [Entry.lookedUp, hevent₁]
  obtain ⟨look, hfind⟩ := Option.isSome_iff_exists.mp hsome
  obtain ⟨hlooked, before, between, rfl, hfirst⟩ := List.find?_eq_some_iff_append.mp hfind
  have hcut : g.entries = before ++ look :: (between ++ e :: back) := by simp [hentries]
  have hlookedUp : look.lookedUp = some command.hopByHopId := by simpa using hlooked
  refine ⟨before, look, between ++ e :: back, ⟨⟨_, hcut⟩, hlookedUp, fun e hbefore => ?_⟩, hcut, e,
    by simp, hk⟩
  have hno := hfirst e hbefore
  show e.lookedUp ≠ some command.hopByHopId
  simpa using hno

/-- A forwarded request the wait for which has ended with an answer. -/
theorem Tracks.forwarded_answered (h : g.Tracks start s) (hw : g.works[k]? = some w)
    (hcommand : w.command = some command) (hforwarded : w.IsForwarded command)
    (hmeets : g.Meets handler exchange k w command) (hsettled : g.Settled s k w)
    {deadline info timeout : Nat} {answer : Command} (hdrawn : ⟨.nextId, id⟩ ∈ g.trace k)
    (hmapped : ⟨.addMapping id command.hopByHopId, ()⟩ ∈ g.trace k)
    (hprepared : ⟨.prepareForAnswer timeout id w.context.connectionId w.context.peerHost
      w.context.peerRealm, ()⟩ ∈ g.trace k)
    (hwaited : ⟨.notified deadline id info, some (some answer)⟩ ∈ g.trace k) :
    g.IsAnswered k w command := by
  obtain ⟨before, look, after, hfirst, hentries, hlater⟩ := h.firstLookUp_of_waited hwaited
  obtain ⟨mapped, hmapped, hmk, hmevent⟩ := exists_of_mem_trace hmapped
  obtain ⟨prepared, hprepared, hpk, hpevent⟩ := exists_of_mem_trace hprepared
  have hforwards : g.Forwards k id mapped prepared :=
    ⟨hmapped, hmk, ⟨command.hopByHopId, by simp [Entry.mapped, hmevent]⟩, hprepared, hpk,
      ⟨(w.context.connectionId, w.context.peerHost, w.context.peerRealm),
        by simp [Entry.prepared, hpevent]⟩⟩
  have htime := hmeets.inTime id mapped prepared before look after hforwards hfirst hentries hlater
  obtain ⟨j, w', request, answer', hj, hw', hrequest, -, hflag, hreturns⟩ :=
    h.returns (Nat.le_of_lt (hmeets.few hforwarded)) hw (hmeets.peer hforwarded) hforwards hfirst htime
  obtain rfl : command = request := Option.some.inj (hcommand.symm.trans hrequest)
  have hconcerns : g.Concerns k j := by
    obtain ⟨r, hlook⟩ := Entry.event_of_lookedUp hfirst.lookedUp
    refine .inr ⟨id, hdrawn, r, ?_⟩
    rw [← hlook]
    exact mem_trace (by simp [hentries]) hj
  obtain ⟨found, hfound, hsent⟩ := hreturns.ends (hsettled.ended j hconcerns)
  obtain ⟨connection, rfl⟩ := Option.isSome_iff_exists.mp (hsettled.registered j found hconcerns hfound)
  obtain ⟨sent, hmem⟩ := hsent connection rfl
  obtain rfl := hsettled.writable j connection _ sent hconcerns hmem
  exact ⟨j, connection, _, hconcerns, hfound, hmem, hflag, rfl⟩

/-- A response of the job itself is an answer. -/
theorem Settled.answered {host realm : String} {response : Command} {result : Except String Unit}
    (h : g.Settled s k w)
    (hresponded : Responded w.context.connectionId host realm response trace p)
    (hends : p.Ends result) (hsub : trace ⊆ g.trace k) (hflag : response.isRequest = false)
    (hhop : response.hopByHopId = command.hopByHopId) : g.IsAnswered k w command := by
  have hown : g.Concerns k k := .inl rfl
  obtain ⟨connection, hfound, hsent⟩ := h.sent hown hresponded hends hsub
  exact ⟨k, connection, response, hown, hfound, hsent, hflag, hhop⟩

/-- A job that has only asked the command handler has answered nothing. -/
theorem not_isAnswered_of_handled {r : Except String (Option Command)}
    (htrace : g.trace k = [⟨.handleCommand command, r⟩]) : ¬g.IsAnswered k w command := by
  intro hanswered
  obtain ⟨i, connection, response, hconcerns, -, hsent, -⟩ := hanswered
  rcases hconcerns with rfl | ⟨id, hdrawn, -⟩
  · rw [htrace] at hsent
    simp at hsent
  · rw [htrace] at hdrawn
    simp at hdrawn

/-- **Every request is answered.** In every run, once the jobs that deal with an application
request have ended, it has been answered under its own id on its own connection, if its job
meets the conditions. For a request for this node they are exact. -/
theorem every_request_answered {settings : SendSettings} {myHost myRealm : String}
    {labels : List Node.Label}
    (hrun : run Node.journalStep (.new settings myHost myRealm start, empty) labels = some (s, g))
    (hw : g.works[k]? = some w) (hcommand : w.command = some command) (hrest : w.transport ≠ .rest)
    (hrequest : command.isRequest = true) (happlication : command.IsApplication)
    (hhandled : ∀ r, ⟨.handleCommand command, r⟩ ∈ g.trace k →
      Reaches (handler.handleCommand command) exchange (.ret (some r)))
    (hsettled : g.Settled s k w) :
    (g.Meets handler exchange k w command → g.IsAnswered k w command) ∧
      (w.IsLocal command → g.IsAnswered k w command →
        Answerable handler.dictionaries command handler.requestProcessors exchange) := by
  have h := tracks_of_run hrun
  obtain ⟨p, result, hpath, hends⟩ := h.path_ended hw (hsettled.ended k (.inl rfl))
  rw [Work.start, hcommand] at hpath
  have hrequested := path_application hrest hrequest happlication hpath
  generalize htrace : g.trace k = trace at hrequested
  cases hrequested with
  | looped hlooped hresponding =>
    refine ⟨fun _ => ?_, fun hlocal => ?_⟩
    · rcases path_responding hresponding with ⟨-, rfl⟩ | hresponded
      · exact hends.elim
      · exact hsettled.answered hresponded hends (by simp [htrace]) answers_loopDetected.isRequest
          answers_loopDetected.hopByHopId
    · rw [hlocal.1] at hlooped
      cases hlooped
  | start => exact hends.elim
  | @handled r rest _ hlooped hmine hpath' =>
    have hreply := hhandled r (by simp [htrace])
    rcases handleCommand_answerable hrequest hreply with
      ⟨hanswerable, answer, rfl, hflag, hhop⟩ | ⟨hno, e, rfl⟩
    · refine ⟨fun _ => ?_, fun _ _ => hanswerable⟩
      rcases path_responding hpath' with ⟨-, rfl⟩ | hresponded
      · exact hends.elim
      · exact hsettled.answered hresponded hends (by simp [htrace]) hflag hhop
    · -- nothing is sent behind the error
      obtain ⟨rfl, -⟩ := path_done hpath'
      have hnothing : ¬g.IsAnswered k w command := not_isAnswered_of_handled htrace
      exact ⟨fun hmeets => absurd (hmeets.answerable ⟨hlooped, hmine⟩) hno,
        fun _ hanswered => absurd hanswered hnothing⟩
  | forwarding hlooped hmine hforwarding =>
    refine ⟨fun hmeets => ?_, fun hlocal => ?_⟩
    · cases hforwarding with
      | start => exact hends.elim
      | drawn => exact hends.elim
      | mapped => exact hends.elim
      | timed => exact hends.elim
      | @sending id now mapping preparing rest _ _ _ hsending =>
        have hrest : ∀ {event : Event}, event ∈ rest → event ∈ g.trace k := by
          intro event hevent
          rw [htrace]
          simp [hevent]
        cases hsending with
        | givenUp hreply hsent hafter =>
          obtain rfl := Option.some.inj hreply
          exact hsettled.answered (responded_byId hafter) hends
            (fun _ hevent => hrest (List.mem_append_right _ hevent))
            answers_undeliverable.isRequest answers_undeliverable.hopByHopId
        | goesOn hsent =>
          -- the sending has not failed: an answer has been waited for
          have hanswered := (hends.resolve_right (by simp)).2
          obtain ⟨deadline, info, answer, hwaited⟩ :=
            (hsent.answered hanswered).resolve_left (by simp)
          have hprepared : ⟨.prepareForAnswer (now + 60000) id w.context.connectionId
              w.context.peerHost w.context.peerRealm, ()⟩ ∈ g.trace k := by simp [htrace]
          exact h.forwarded_answered hw hcommand ⟨hlooped, hmine⟩ hmeets hsettled
            (by simp [htrace]) (by simp [htrace]) hprepared (hrest hwaited)
    · rw [hlocal.2] at hmine
      cases hmine

end Journal

/-! ### Two runs -/

/-- No task is at a job. -/
theorem Node.job_eq_none {s : Node} {id : String}
    (h : s.tasks.entries.all (fun t => t.2.job.isNone) = true) : s.job id = none := by
  unfold Node.job
  cases ht : s.tasks.lookup id with
  | none => rfl
  | some t =>
    have hmem : ⟨id, t⟩ ∈ s.tasks.entries := AList.mem_lookup_iff.mp ht
    have hjob := List.all_eq_true.mp h _ hmem
    simpa using hjob

/-- The call has not failed to find or to write to a connection. -/
def Entry.succeeds (e : Entry) : Bool :=
  match e.event with
  | ⟨.getConnectionById _, found⟩ => found.isSome
  | ⟨.send .., .error _⟩ => false
  | _ => true

namespace Journal

variable {s : Node} {g : Journal} {start k n : Nat} {w : Work} {command : Command} {id : UInt32}
  {before : List Entry} {look mapped prepared : Entry}

/-- All is done when no task is at a job. -/
theorem Tracks.settled (h : g.Tracks start s) (hw : g.works[k]? = some w)
    (hjobs : s.tasks.entries.all (fun t => t.2.job.isNone) = true)
    (hsucceeds : g.entries.all Entry.succeeds = true) : g.Settled s k w := by
  have hentry : ∀ {i : Nat} {event : Event}, event ∈ g.trace i →
      ∃ e, e.succeeds = true ∧ e.job = some i ∧ e.event = event ∧ e ∈ g.entries := by
    intro i event hevent
    obtain ⟨e, he, hi, rfl⟩ := exists_of_mem_trace hevent
    exact ⟨e, List.all_eq_true.mp hsucceeds e he, hi, rfl, he⟩
  refine ⟨fun i hi => ⟨?_, fun _ _ => Node.job_eq_none hjobs⟩, ?_, ?_⟩
  · rcases hi with rfl | ⟨_, -, _, hlook⟩
    · exact (List.getElem?_eq_some_iff.mp hw).1
    · obtain ⟨e, -, hi, -, he⟩ := hentry hlook
      exact h.made e he i hi
  · intro i found _ hfound
    obtain ⟨e, hok, -, hevent, -⟩ := hentry hfound
    simpa [Entry.succeeds, hevent] using hok
  · intro i connection response sent _ hsent
    obtain ⟨e, hok, -, hevent, -⟩ := hentry hsent
    match sent with
    | .ok () => rfl
    | .error _ => simp [Entry.succeeds, hevent] at hok

/-- All registrations come before all look-ups, and the clock stands still. -/
def parts (g : Journal) (n : Nat) : Bool :=
  (g.entries.take n).all (fun e => e.lookedUp.isNone) &&
    (g.entries.drop n).all (fun e => e.mapped.isNone && e.prepared.isNone) &&
    g.entries.all (fun e => e.time == 0)

theorem inTime_of_parts (h : g.parts n = true) (hforwards : g.Forwards k id mapped prepared)
    (hfirst : g.FirstLookUp id before look) : g.InTime before look mapped prepared := by
  simp only [parts, Bool.and_eq_true, List.all_eq_true, beq_iff_eq] at h
  obtain ⟨⟨hlooks, hregistered⟩, hnow⟩ := h
  obtain ⟨after, hentries⟩ := hfirst.record
  have hn : n ≤ before.length := by
    by_contra hlt
    have hmem : look ∈ g.entries.take n := by
      obtain ⟨m, rfl⟩ := Nat.exists_eq_add_of_lt (Nat.lt_of_not_le hlt)
      rw [hentries, List.take_append]
      simp [show before.length + m + 1 - before.length = m + 1 by omega]
    have hnone := hlooks look hmem
    simp [hfirst.lookedUp] at hnone
  have hbefore : ∀ e ∈ g.entries, e ∉ g.entries.drop n → e ∈ before := by
    intro e he hnot
    rw [← List.take_append_drop n g.entries] at he
    have htake := (List.mem_append.mp he).resolve_right hnot
    rw [hentries, List.take_append_of_le_length hn] at htake
    exact List.mem_of_mem_take htake
  refine ⟨hbefore mapped hforwards.mapped_mem fun hlate => ?_,
    hbefore prepared hforwards.prepared_mem fun hlate => ?_, ?_, ?_⟩
  · obtain ⟨original, hmapped⟩ := hforwards.mapped
    have hnone := (hregistered mapped hlate).1
    simp [hmapped] at hnone
  · obtain ⟨origin, hprepared⟩ := hforwards.prepared
    have hnone := (hregistered prepared hlate).2
    simp [hprepared] at hnone
  · rw [hnow look (by simp [hentries])]
    exact Nat.zero_le _
  · intro e he _ _ limit _
    rw [hnow e he]
    exact Nat.zero_le _

end Journal

namespace EveryRequest

/-- A request for the sample node. -/
def command : Command :=
  ((Node.Sample.request 7).setDestinationHost "bridge").setDestinationRealm "home.org"

/-- Its backend is for other commands. -/
def handler : DefaultCommandHandler :=
  { OwnAnswers.handler with
    requestProcessors := [
      { commandCodes := [316], applicationIds := [], urls := ["http://backend"], timeout := 1000 }] }

def unmatched : String :=
  s!"No processor found for command with hop-by-hop ID: {command.hopByHopId}"

def replies : (c : Call) → c.Reply
  | .handleCommand _ => .error unmatched
  | _ => default

/-- The request comes in and is handed to the command handler. -/
def labels : List Node.Label :=
  [.connect "a" .tcpServer "host.a" "realm.a", .deliver "a" command, .process "a", .run "a" replies]

end EveryRequest

namespace Journal

open Node.Sample in
set_option maxRecDepth 100000 in
/-- A request that is forwarded, and its answer comes back. -/
theorem every_request_answered_sample : ∃ s g w,
    run Node.journalStep (node, empty)
        (connect ++ forward "a" "b" 7 ++ bringBack "b" 0 ++ [.run "a" (replies "a")]) =
        some (s, g) ∧
      g.works[0]? = some w ∧ w.command = some (request 7) ∧ g.IsAnswered 0 w (request 7) := by
  have hview : ∃ s g w,
      run Node.journalStep (node, empty)
          (connect ++ forward "a" "b" 7 ++ bringBack "b" 0 ++ [.run "a" (replies "a")]) =
          some (s, g) ∧
        g.works[0]? = some w ∧ w.command = some (request 7) ∧ w.transport = .tcpServer ∧
        w.context.isMyCommand (request 7) = false ∧ w.context.peerHost = "host.a" ∧
        w.context.myHost = "bridge" ∧
        (g.entries.all Entry.succeeds && g.parts 14 &&
          s.tasks.entries.all (fun t => t.2.job.isNone) &&
          decide ((g.entries.filterMap Entry.drawn).length < 2 ^ 32) &&
          (g.trace 0).all fun e => !(e.1 matches .handleCommand _)) = true :=
    ⟨_, _, _, rfl, rfl, rfl, rfl, rfl, rfl, rfl, rfl⟩
  obtain ⟨s, g, w, hrun, hw, hcommand, htransport, hmine, hpeer, hown, hview⟩ := hview
  simp only [Bool.and_eq_true, decide_eq_true_eq] at hview
  obtain ⟨⟨⟨⟨hsucceeds, hparts⟩, hjobs⟩, hfew⟩, hnone⟩ := hview
  have hunhandled : ∀ command r, ⟨.handleCommand command, r⟩ ∉ g.trace 0 := by
    intro command r hmem
    have hno := List.all_eq_true.mp hnone _ hmem
    simp at hno
  have hmeets : g.Meets EveryRequest.handler [] 0 w (request 7) := by
    refine ⟨fun hlocal => ?_, fun _ => hfew, fun _ hsame => ?_, ?_⟩
    · rw [hlocal.2] at hmine
      cases hmine
    · rw [hpeer, hown] at hsame
      exact absurd hsame.1 (by decide)
    · intro id mapped prepared before look after hforwards hfirst _ _
      exact inTime_of_parts hparts hforwards hfirst
  have hsettled := (tracks_of_run hrun).settled hw hjobs hsucceeds
  exact ⟨s, g, w, hrun, hw, hcommand,
    (every_request_answered hrun hw hcommand (by simp [htransport]) (by decide)
      ⟨by decide, by decide⟩ (fun r hr => absurd hr (hunhandled _ r)) hsettled).1 hmeets⟩

open EveryRequest in
set_option maxRecDepth 100000 in
/-- A request that no backend takes is not answered. -/
theorem not_answered_unmatched : ∃ s g w,
    run Node.journalStep (Node.Sample.node, empty) labels = some (s, g) ∧
      g.works[0]? = some w ∧ w.command = some command ∧ w.transport ≠ .rest ∧
      command.isRequest = true ∧ command.IsApplication ∧
      (∀ r, ⟨.handleCommand command, r⟩ ∈ g.trace 0 →
        Reaches (handler.handleCommand command) [] (.ret (some r))) ∧
      g.Settled s 0 w ∧ ¬g.IsAnswered 0 w command := by
  have hview : ∃ s g w, run Node.journalStep (Node.Sample.node, empty) labels = some (s, g) ∧
      g.works[0]? = some w ∧ w.command = some command ∧ w.transport = .tcpServer ∧
      g.trace 0 = [⟨.handleCommand command, .error unmatched⟩] ∧
      (g.entries.all Entry.succeeds && s.tasks.entries.all fun t => t.2.job.isNone) = true :=
    ⟨_, _, _, rfl, rfl, rfl, rfl, rfl, rfl⟩
  obtain ⟨s, g, w, hrun, hw, hcommand, htransport, htrace, hview⟩ := hview
  obtain ⟨hsucceeds, hjobs⟩ := Bool.and_eq_true_iff.mp hview
  refine ⟨s, g, w, hrun, hw, hcommand, by simp [htransport], by decide, ⟨by decide, by decide⟩, ?_,
    (tracks_of_run hrun).settled hw hjobs hsucceeds, not_isAnswered_of_handled htrace⟩
  intro r hr
  rw [htrace] at hr
  obtain rfl : r = .error unmatched := by simpa using hr
  exact .refl _

end Journal

end RestDiameterBridge
