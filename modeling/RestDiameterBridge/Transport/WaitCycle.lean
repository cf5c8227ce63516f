import Mathlib.Data.List.Cycle
import RestDiameterBridge.Transport.Jobs

/-!
# RestDiameterBridge.Transport.WaitCycle

Circular waits. A read loop awaits `send_request` inline, so while it waits for one answer
it reads no other, and two peers whose requests are forwarded to each other leave each
other's answers unread (`waitCycle_crossing_and_misdirected`).

There is no other way to a circular wait, as long as peers answer only what they were
asked: around the circle each task has sent the request it waits for on the connection of
the next one (`forwarded_of_waitCycle`).
-/

namespace RestDiameterBridge

open Program Transition

/-- What is sent on the connection goes out, or may go out, on the one with the id. -/
def Connection.reaches (c : Connection) (connectionId : String) : Bool :=
  c.leaves.any fun leaf => leaf.self.id == connectionId

/-- The wait for an answer that a call is: the deadline, the id awaited and its info. -/
def Call.awaited : Call → Option (Nat × UInt32 × Nat)
  | notified deadline hopByHopId info => some (deadline, hopByHopId, info)
  | _ => none

namespace Node

/-- A request with the id was sent on the connection, or is being sent. -/
def Asked (s : Node) (connectionId : String) (hopByHopId : UInt32) : Prop :=
  (∃ attempt ∈ s.history.attempts, attempt.connection.reaches connectionId = true ∧
      attempt.command.hopByHopId = hopByHopId) ∨
    ∃ id, ∃ next ∈ s.nextCall id, ∃ sent ∈ next.2.sentOn,
      sent.1.reaches connectionId = true ∧ sent.2.hopByHopId = hopByHopId

/-- Peers answer only what they were asked. -/
def Solicited (s : Node) : Label → Prop
  | .deliver id command => command.isRequest = false → s.Asked id command.hopByHopId
  | _ => True

/-- Before its timeout, the task `id` waits for an answer that it has not been given and
that the task `next` has not read. -/
def Waits (s : Node) (id next : String) : Prop :=
  ∃ call ∈ s.nextCall id, ∃ wait ∈ call.2.awaited,
    s.now < wait.1 ∧ (s.answers.notified wait.2.2).isNone = true ∧
      ∃ answer ∈ s.inbox next, answer.isRequest = false ∧ answer.hopByHopId = wait.2.1

/-- A circle of waits. -/
def WaitCycle (s : Node) (cycle : Cycle String) : Prop :=
  cycle ≠ .nil ∧ cycle.Chain s.Waits

/-- The task `id` waits for the answer to a request that went out on the connection
`next`: its own request, as long as no drawn id has been used again. -/
def Forwarded (s : Node) (id next : String) : Prop :=
  ∃ call ∈ s.nextCall id, ∃ wait ∈ call.2.awaited, s.Asked next wait.2.1 ∧
    (s.history.draws.length ≤ 2 ^ 32 → ∃ attempt ∈ s.history.attempts,
      attempt.draw = call.1.draw ∧ attempt.connection.reaches next = true ∧
        attempt.command.hopByHopId = wait.2.1)

/-- A task that waits neither goes on nor takes another command. -/
theorem Waits.blocked {s : Node} {id next : String} (h : s.Waits id next)
    (answer : (c : Call) → c.Reply) :
    s.step (.run id answer) = none ∧ s.step (.process id) = none := by
  obtain ⟨⟨j, c⟩, hcall, wait, hwait, htime, hnone, -⟩ := h
  obtain ⟨j, hj, hnext⟩ := Option.bind_eq_some_iff.mp hcall
  obtain ⟨t, ht, hjob⟩ := Option.bind_eq_some_iff.mp hj
  refine ⟨?_, by simp [step, ht, hjob]⟩
  cases hprogram : j.program with
  | ret _ => simp [hprogram] at hnext
  | call c' next =>
    simp only [hprogram, Option.some.injEq, Prod.mk.injEq] at hnext
    obtain ⟨rfl, rfl⟩ := hnext
    cases c' with
    | notified deadline hopByHopId info =>
      obtain rfl : (deadline, hopByHopId, info) = wait := Option.some.inj hwait
      simp only [step, ht, hjob, runTask, hprogram, perform, Option.isNone_iff_eq_none.mp hnone,
        if_neg (Nat.not_le.mpr htime), Option.map_none]
    | _ => cases hwait

theorem mem_keys_of_nextCall {s : Node} {id : String} {next : Job × Call}
    (h : next ∈ s.nextCall id) : id ∈ s.tasks.keys := by
  obtain ⟨j, hj, -⟩ := Option.bind_eq_some_iff.mp h
  obtain ⟨t, ht, -⟩ := Option.bind_eq_some_iff.mp hj
  rw [← AList.mem_keys, ← AList.lookup_isSome, ht]
  rfl

instance (s : Node) (connectionId : String) (hopByHopId : UInt32) :
    Decidable (s.Asked connectionId hopByHopId) :=
  decidable_of_iff
    ((∃ attempt ∈ s.history.attempts, attempt.connection.reaches connectionId = true ∧
        attempt.command.hopByHopId = hopByHopId) ∨
      ∃ id ∈ s.tasks.keys, ∃ next ∈ s.nextCall id, ∃ sent ∈ next.2.sentOn,
        sent.1.reaches connectionId = true ∧ sent.2.hopByHopId = hopByHopId)
    (or_congr_right ⟨fun ⟨id, _, h⟩ => ⟨id, h⟩,
      fun ⟨id, next, hnext, h⟩ => ⟨id, mem_keys_of_nextCall hnext, next, hnext, h⟩⟩)

instance (s : Node) : (label : Label) → Decidable (s.Solicited label)
  | .deliver id command =>
      inferInstanceAs (Decidable (command.isRequest = false → s.Asked id command.hopByHopId))
  | .elapse _ | .connect .. | .exchange | .process _ | .tick _ | .run .. | .disconnect _ =>
      isTrue trivial

instance (s : Node) (id next : String) : Decidable (s.Waits id next) :=
  inferInstanceAs (Decidable (∃ call ∈ s.nextCall id, ∃ wait ∈ call.2.awaited,
    s.now < wait.1 ∧ (s.answers.notified wait.2.2).isNone = true ∧
      ∃ answer ∈ s.inbox next, answer.isRequest = false ∧ answer.hopByHopId = wait.2.1))

end Node

/-! ### Drawn ids -/

/-- A task uses the id of a draw of its own. -/
def Job.Drew (h : History) (drawer : Nat → String) (id : String) (job : Job)
    (generated : UInt32) : Prop :=
  ∃ draw, job.draw = some draw ∧ draw < h.draws.length ∧ generated = UInt32.ofNat draw ∧
    drawer draw = id

namespace Node

/-- Requests are sent under drawn ids; the ghost state says which task drew each. -/
def drawing : TaskInvariant (Nat → String) where
  shared s _ :=
    s.hopByHopIds.currentId = UInt32.ofNat s.history.draws.length ∧
      ∀ attempt ∈ s.history.attempts, ∃ draw, attempt.draw = some draw ∧
        draw < s.history.draws.length ∧ attempt.command.hopByHopId = UInt32.ofNat draw
  knows s drawer id job stage :=
    ∀ generated, stage.generated = some generated → job.Drew s.history drawer id generated

variable {s s' : Node} {drawer : Nat → String} {id : String} {job job' : Job} {stage stage' : Stage}
  {answer : (c : Call) → c.Reply} {connectionId : String} {hopByHopId : UInt32}

/-- As long as nothing is drawn, what a job knows does not change. -/
theorem drawing_keep (hdraws : s'.history.draws = s.history.draws) {other : String} {j : Job}
    (hknows : drawing.knows s drawer other j stage) : drawing.knows s' drawer other j stage := by
  intro generated hgenerated
  obtain ⟨draw, hdraw, hlt, hid⟩ := hknows generated hgenerated
  exact ⟨draw, hdraw, by rwa [hdraws], hid⟩

/-- One more draw. -/
theorem drawing_draw (hshared : drawing.shared s drawer) (id : String) {command : Option Command}
    (hdraws : s'.history.draws = s.history.draws ++ [command])
    (hids : s'.hopByHopIds = s.hopByHopIds.nextId.2)
    (hattempts : s'.history.attempts = s.history.attempts) :
    drawing.shared s' (Function.update drawer s.history.draws.length id) ∧
      ∀ other j stage, drawing.knows s drawer other j stage →
        drawing.knows s' (Function.update drawer s.history.draws.length id) other j stage := by
  have hlength : s'.history.draws.length = s.history.draws.length + 1 := by simp [hdraws]
  refine ⟨⟨?_, fun attempt hattempt => ?_⟩, fun other j stage hknows generated hgenerated => ?_⟩
  · rw [hids, hlength, UInt32.ofNat_add, ← hshared.1]
    rfl
  · rw [hattempts] at hattempt
    obtain ⟨draw, hdraw, hlt, hid⟩ := hshared.2 attempt hattempt
    exact ⟨draw, hdraw, by omega, hid⟩
  · obtain ⟨draw, hdraw, hlt, hid, hdrawer⟩ := hknows generated hgenerated
    exact ⟨draw, hdraw, by omega, hid, (Function.update_of_ne (Nat.ne_of_lt hlt) _ _).trans hdrawer⟩

/-- A call that draws nothing leaves a job its draw, as long as it has a request to send. -/
theorem drawing_knows_call {c : Call} {r : c.Reply} (hc : c ≠ .nextId)
    (hknows : drawing.knows s drawer id job stage)
    (hexchange : Exchange s.myHost s.myRealm stage c r stage')
    (h : s.perform job answer c = some (r, job', s')) : drawing.knows s drawer id job' stage' := by
  cases hexchange with
  | quiet hquiet =>
    obtain rfl := perform_job hc h
    exact hknows
  | addMapping | prepare | prepareOwn =>
    obtain ⟨-, rfl, -⟩ := reply_inj h
    exact hknows
  | draw | drawForAnswer | drawMore => exact absurd rfl hc
  | respond | giveUp _ | lookUp | unmatched _ | matchedOwn _ | matched _ _ | reply _ =>
    intro generated hgenerated
    cases hgenerated

/-- **One call.** A program sends its request under the id it has drawn for it. -/
theorem drawing_call {c : Call} {r : c.Reply} (hshared : drawing.shared s drawer)
    (hknows : drawing.knows s drawer id job stage)
    (hexchange : Exchange s.myHost s.myRealm stage c r stage')
    (h : s.perform job answer c = some (r, job', s')) :
    ∃ drawer', drawing.shared s' drawer' ∧ drawing.knows s' drawer' id job' stage' ∧
      ∀ other j stage, drawing.knows s drawer other j stage →
        drawing.knows s' drawer' other j stage := by
  have hframe := perform_frame h
  by_cases hc : c = .nextId
  · subst hc
    obtain ⟨hr, rfl, hs'⟩ := reply_inj h
    have hdraws : s'.history.draws = s.history.draws ++ [job.command] := by rw [← hs']
    obtain ⟨hshared', hothers⟩ := drawing_draw hshared id hdraws (by rw [← hs']; rfl)
      (by rw [← hs'])
    refine ⟨_, hshared', fun generated hgenerated => ?_, hothers⟩
    cases hexchange with
    | quiet hquiet => exact hquiet.elim
    | draw =>
      obtain rfl := Option.some.inj hgenerated
      exact ⟨s.history.draws.length, rfl, by simp [hdraws], hr.symm.trans hshared.1,
        Function.update_self _ _ _⟩
    | drawForAnswer | drawMore => cases hgenerated
  · refine ⟨drawer, ⟨?_, fun attempt hattempt => ?_⟩, drawing_keep (hframe.draws hc)
      (drawing_knows_call hc hknows hexchange h), fun other j stage => drawing_keep (hframe.draws hc)⟩
    · rw [hframe.ids hc, hframe.draws hc]
      exact hshared.1
    · rw [hframe.draws hc]
      rw [hframe.attempts, List.mem_append] at hattempt
      rcases hattempt with hold | hnew
      · exact hshared.2 attempt hold
      · -- the attempt is this call
        cases c with
        | sendWithin deadline connection command =>
          obtain rfl : attempt = ⟨job.draw, connection, command⟩ := by
            simpa [Call.sentOn] using hnew
          cases hexchange with
          | quiet hquiet =>
            obtain ⟨draw, hdraw, hlt, hid, -⟩ := hknows command.hopByHopId hquiet
            exact ⟨draw, hdraw, hlt, hid⟩
        | _ => simp [Call.sentOn] at hnew

theorem drawing_kept : drawing.Kept (fun _ => True) (fun _ _ _ => True) where
  shared_frame hshared := hshared
  knows_frame hknows := hknows
  start := by
    intro s drawer id job stage hstarts generated hgenerated
    -- a new job has not drawn an id
    rw [hstarts.stage] at hgenerated
    cases hcommand : job.command with
    | none => simp [hcommand, Stage.generated] at hgenerated
    | some command =>
      simp only [hcommand, Option.map_some, Option.getD_some, Stage.start] at hgenerated
      split at hgenerated <;> cases hgenerated
  exchange := by
    intro s drawer _ hshared
    exact ⟨_, drawing_draw hshared "" rfl rfl rfl⟩
  call := by
    intro s s' drawer id job job' answer c r stage stage' _ hshared hknows hexchange h
    obtain ⟨drawer', hshared', hknows', hothers⟩ := drawing_call hshared hknows hexchange h
    exact ⟨drawer', hshared', hknows', fun other j stage _ => hothers other j stage⟩

/-! ### Asked answers -/

theorem nextCall_congr {other : String} (h : s'.job other = s.job other) :
    s'.nextCall other = s.nextCall other := by
  rw [nextCall, h, nextCall]

/-- What has been asked stays asked: a request being sent becomes an attempt. -/
theorem Asked.step {label : Label} (hasked : s.Asked connectionId hopByHopId)
    (h : s.step label = some s') : s'.Asked connectionId hopByHopId := by
  cases step_cases h with
  | idle hjobs =>
    refine hasked.imp_right fun hsending => ?_
    obtain ⟨other, next, hnext, hsent⟩ := hsending
    exact ⟨other, next, (nextCall_congr (hjobs other)).symm ▸ hnext, hsent⟩
  | exchange => exact hasked
  | @start _ id t j _ hnone hstarts _ =>
    obtain ⟨tasks, heq⟩ := settle_eq s id t j
    have hattempts : (s.settle id t j).history.attempts = s.history.attempts := by rw [heq]
    rcases hasked with hattempt | hsending
    · exact .inl (by rwa [hattempts])
    · obtain ⟨other, next, hnext, hsent⟩ := hsending
      have hother : other ≠ id := by
        intro heq
        subst heq
        simp [nextCall, hnone] at hnext
      exact .inr ⟨other, next, by rwa [nextCall_congr (job_settle_of_ne s id t j hother)], hsent⟩
  | @call id t j j' answer c next r s'' hjob hprogram hperform =>
    have hframe := perform_frame hperform
    obtain ⟨tasks, heq⟩ := settle_eq s'' id t { j' with program := next r }
    have hattempts : (s''.settle id t { j' with program := next r }).history.attempts =
        s''.history.attempts := by rw [heq]
    unfold Asked
    rw [hattempts, hframe.attempts]
    rcases hasked with hattempt | hsending
    · obtain ⟨attempt, hmem, hattempt⟩ := hattempt
      exact .inl ⟨attempt, List.mem_append_left _ hmem, hattempt⟩
    · obtain ⟨other, call, hcall, sent, hsent, hreaches, hid⟩ := hsending
      by_cases hother : other = id
      · subst hother
        rw [nextCall_eq hjob hprogram] at hcall
        obtain rfl := Option.some.inj hcall
        refine .inl ⟨⟨j.draw, sent.1, sent.2⟩, List.mem_append_right _ ?_, hreaches, hid⟩
        rw [Option.mem_toList]
        exact Option.mem_map_of_mem _ hsent
      · refine .inr ⟨other, call, ?_, sent, hsent, hreaches, hid⟩
        have hsame : (s''.settle id t { j' with program := next r }).job other = s.job other := by
          rw [job_settle_of_ne _ _ _ _ hother, job, hframe.tasks, job]
        rwa [nextCall_congr hsame]

/-- Every unread answer has been asked for. -/
def Expected (s : Node) : Prop :=
  ∀ id, ∀ answer ∈ s.inbox id, answer.isRequest = false → s.Asked id answer.hopByHopId

theorem Expected.step {label : Label} (hexpected : s.Expected) (hsolicited : s.Solicited label)
    (h : s.step label = some s') : s'.Expected := by
  intro id answer hanswer hkind
  rcases mem_inbox_of_step h hanswer with hold | rfl
  · exact (hexpected id answer hold hkind).step h
  · exact Asked.step (hsolicited hkind) h

/-! ### Circular waits -/

/-- Sending a request and waiting for its answer are quiet calls. -/
theorem quiet_of_exchange {host realm : String} {c : Call} {r : c.Reply}
    (h : Exchange host realm stage c r stage')
    (hc : c.sentOn.isSome = true ∨ c.awaited.isSome = true) : stage.Quiet c := by
  cases h with
  | quiet hquiet => exact hquiet
  | _ => simp [Call.sentOn, Call.awaited] at hc

/-- A task that does so has drawn the id of the request. -/
theorem drew_of_nextCall {stages : String → Stage} (hinv : drawing.Holds s drawer stages)
    {call : Job × Call} (hcall : call ∈ s.nextCall id)
    (hid : (∃ sent, call.2.sentOn = some sent ∧ sent.2.hopByHopId = hopByHopId) ∨
      ∃ wait, call.2.awaited = some wait ∧ wait.2.1 = hopByHopId) :
    call.1.Drew s.history drawer id hopByHopId := by
  obtain ⟨j, hj, hnext⟩ := Option.bind_eq_some_iff.mp hcall
  obtain ⟨hconforms, hknows⟩ := hinv.jobs id j hj
  cases hprogram : j.program with
  | ret _ => simp [hprogram] at hnext
  | call c next =>
    simp only [hprogram, Option.some.injEq] at hnext
    subst hnext
    rw [hprogram] at hconforms
    obtain ⟨stage', hexchange, -⟩ := follows_call.mp hconforms default
    have hquiet : (stages id).Quiet c := by
      refine quiet_of_exchange hexchange (hid.imp ?_ ?_)
      · intro ⟨sent, hsent, _⟩
        exact Option.isSome_of_eq_some hsent
      · intro ⟨wait, hwait, _⟩
        exact Option.isSome_of_eq_some hwait
    refine hknows hopByHopId ?_
    rcases hid with ⟨sent, hsent, rfl⟩ | ⟨wait, hwait, rfl⟩
    · cases c <;> simp only [Call.sentOn, reduceCtorEq, Option.some.injEq] at hsent
      subst hsent
      exact hquiet
    · cases c <;> simp only [Call.awaited, reduceCtorEq, Option.some.injEq] at hwait
      subst hwait
      exact hquiet

/-- The request a task waits for is the one asked for under the id. -/
theorem forwarded_of_waits {stages : String → Stage} {next : String}
    (hinv : drawing.Holds s drawer stages) (hexpected : s.Expected) (h : s.Waits id next) :
    s.Forwarded id next := by
  obtain ⟨call, hcall, wait, hwait, -, -, answer, hanswer, hkind, hid⟩ := h
  have hasked : s.Asked next wait.2.1 := hid ▸ hexpected next answer hanswer hkind
  refine ⟨call, hcall, wait, hwait, hasked, fun hfew => ?_⟩
  obtain ⟨draw, hdraw, hlt, hdrawn, hdrawer⟩ := drew_of_nextCall hinv hcall (.inr ⟨wait, hwait, rfl⟩)
  rcases hasked with hattempt | hsending
  · obtain ⟨attempt, hmem, hreaches, hattempt⟩ := hattempt
    obtain ⟨draw', hdraw', hlt', hdrawn'⟩ := hinv.shared.2 attempt hmem
    obtain rfl : draw = draw' := IdGenerator.ofNat_inj hfew hlt hlt'
      (hdrawn.symm.trans (hattempt.symm.trans hdrawn'))
    exact ⟨attempt, hmem, hdraw'.trans hdraw.symm, hreaches, hattempt⟩
  · -- it would be this very task that is sending the request, and it waits
    obtain ⟨id', call', hcall', sent, hsent, -, hid'⟩ := hsending
    obtain ⟨draw', -, hlt', hdrawn', hdrawer'⟩ :=
      drew_of_nextCall hinv hcall' (.inl ⟨sent, hsent, hid'⟩)
    obtain rfl : draw = draw' := IdGenerator.ofNat_inj hfew hlt hlt' (hdrawn.symm.trans hdrawn')
    obtain rfl : id = id' := hdrawer.symm.trans hdrawer'
    obtain rfl : call = call' := Option.some.inj (hcall.symm.trans hcall')
    obtain ⟨j, c⟩ := call
    cases c <;> simp [Call.sentOn, Call.awaited] at hsent hwait

theorem drawing_new (settings : SendSettings) (myHost myRealm : String) (now : Nat)
    (drawer : Nat → String) (stages : String → Stage) :
    drawing.Holds (new settings myHost myRealm now) drawer stages where
  shared := ⟨rfl, fun _ h => by cases h⟩
  jobs _ _ h := by cases h

/-- **Circular waits are circular forwards.** In every run in which peers answer only what
they were asked, a circle of tasks, each waiting for an answer that the next has not read,
is a circle of tasks that have forwarded to each other the requests they wait for. -/
theorem forwarded_of_waitCycle {settings : SendSettings} {myHost myRealm : String} {now : Nat}
    {labels : List Label} {cycle : Cycle String}
    (hsolicited : Always step (fun s label _ => s.Solicited label)
      (new settings myHost myRealm now) labels)
    (hrun : run step (new settings myHost myRealm now) labels = some s)
    (hcycle : s.WaitCycle cycle) : cycle.Chain s.Forwarded := by
  have hinv : (∃ drawer stages, drawing.Holds s drawer stages) ∧ s.Expected := by
    refine hsolicited.invariant
      (I := fun s => (∃ drawer stages, drawing.Holds s drawer stages) ∧ s.Expected) ?_ ?_ hrun
    · intro s label s' hinv hsolicited hstep
      obtain ⟨⟨drawer, stages, hinv⟩, hexpected⟩ := hinv
      refine ⟨drawing_kept.step hinv ?_ hstep, hexpected.step hsolicited hstep⟩
      cases label <;> first | exact trivial | exact fun _ _ => trivial
    · exact ⟨⟨fun _ => "", fun _ => .done, drawing_new ..⟩, fun _ _ h => by cases h⟩
  obtain ⟨⟨drawer, stages, hinv⟩, hexpected⟩ := hinv
  exact hcycle.2.imp fun _ _ => forwarded_of_waits hinv hexpected

/-- Two requests, forwarded on each other's connections, and their answers. -/
def Sample.crossing : List Label :=
  connect ++ forward "a" "b" 7 ++ forward "b" "a" 8 ++
    [.deliver "b" (Sample.answer 0), .deliver "a" (Sample.answer 1)]

/-- A request that is sent on one connection and answered on the one it came from. -/
def Sample.misdirected : List Label :=
  connect ++ forward "a" "b" 7 ++ [.deliver "a" (Sample.answer 0)]

/-- Waits around a circle, checked by evaluation. -/
theorem Sample.exists_waitCycle {labels : List Label} {id : String} {ids : List String}
    (h : (run step node labels).any (fun s => decide (List.IsChain s.Waits (id :: (ids ++ [id])))) =
      true) :
    ∃ s, run step node labels = some s ∧ s.WaitCycle (id :: ids : List String) := by
  obtain ⟨s, hs, hchain⟩ := (Option.any_eq_true _ _).mp h
  exact ⟨s, hs, by simp, (Cycle.chain_coe_cons ..).mpr (of_decide_eq_true hchain)⟩

open Sample in
set_option maxRecDepth 100000 in
theorem forwarded_of_waitCycle_sample :
    ∃ s, run step node crossing = some s ∧ (["a", "b"] : Cycle String).Chain s.Forwarded := by
  have hsolicited : Always step (fun s label _ => s.Solicited label) node crossing := by
    decide +kernel
  have hwaits : ∃ s, run step node crossing = some s ∧ s.WaitCycle (["a", "b"] : List String) :=
    Sample.exists_waitCycle (by decide)
  obtain ⟨s, hs, hcycle⟩ := hwaits
  exact ⟨s, hs, forwarded_of_waitCycle hsolicited hs hcycle⟩

open Sample in
set_option maxRecDepth 100000 in
/-- Circular waits happen: when requests cross, though each is answered where it was sent,
and when an answer comes on a connection its request was not sent on. -/
theorem waitCycle_crossing_and_misdirected :
    (Always step (fun s label _ => s.Solicited label) node crossing ∧
      ∃ s, run step node crossing = some s ∧ s.WaitCycle (["a", "b"] : List String)) ∧
    ∃ s, run step node misdirected = some s ∧ s.WaitCycle (["a"] : List String) := by
  refine ⟨⟨by decide +kernel, ?_⟩, ?_⟩
  · exact Sample.exists_waitCycle (by decide)
  · exact Sample.exists_waitCycle (by decide)

end Node

end RestDiameterBridge
