import RestDiameterBridge.Transport.Jobs
import RestDiameterBridge.Transport.SharedState

/-!
# RestDiameterBridge.Transport.Journal

A node with a journal of its jobs and of every call they make. No step reads the journal;
what a run is to satisfy is said about it.

`Tracks` is what holds of the journal after every run (`tracks_of_run`): the calls of a job
are a run of its program, to the end if the job has ended, and all calls together have led to
the shared state of the node.
-/

namespace RestDiameterBridge

open Program Transition

/-- A job on record: a task's work on a command, or on a watchdog request (`none`). -/
structure Work where
  settings : SendSettings
  transport : Transport
  context : CommandProcessorContext
  command : Option Command

namespace Work

/-- The program of the job. -/
def program (w : Work) : Proc (Except String Unit) :=
  match w.command with
  | some command => w.transport.processCommand w.settings w.context command
  | none => (w.transport.sendDwr w.context).getD (.ret (.ok ()))

/-- Where it starts. -/
def start (w : Work) : Point :=
  match w.command with
  | some command => .start w.context w.transport command
  | none => .control

theorem keeps (w : Work) : Keeps w.context w.start w.program := by
  unfold start program
  split
  · exact w.transport.processCommand_keeps
  · cases hsend : w.transport.sendDwr w.context with
    | none => exact trivial
    | some p => exact Transport.sendDwr_keeps hsend

end Work

/-- The calls of one job, in their order. -/
def trace (entries : List Entry) (k : Nat) : List Event :=
  (entries.filter fun e => e.job = some k).map Entry.event

section
variable {entries before after : List Entry} {k : Nat} {e : Entry} {event : Event}

theorem mem_trace (he : e ∈ entries) (hk : e.job = some k) : e.event ∈ trace entries k :=
  List.mem_map.mpr ⟨e, List.mem_filter.mpr ⟨he, by simpa using hk⟩, rfl⟩

theorem exists_of_mem_trace (h : event ∈ trace entries k) :
    ∃ e ∈ entries, e.job = some k ∧ e.event = event := by
  obtain ⟨e, he, heq⟩ := List.mem_map.mp h
  obtain ⟨hmem, hk⟩ := List.mem_filter.mp he
  exact ⟨e, hmem, by simpa using hk, heq⟩

theorem trace_append : trace (before ++ after) k = trace before k ++ trace after k := by
  simp [trace]

/-- What holds of the calls of a job, one before the other, holds of them on the record. -/
theorem pairwise_trace {R : Event → Event → Prop} : (trace entries k).Pairwise R ↔
    entries.Pairwise fun e e' => e.job = some k → e'.job = some k → R e.event e'.event := by
  simp [trace, List.pairwise_map, List.pairwise_filter]

end

/-- All jobs and calls of a node so far. -/
structure Journal where
  works : List Work
  /-- The last job of each task. -/
  latest : String → Option Nat
  entries : List Entry

namespace Journal

/-- Nothing yet. -/
def empty : Journal := { works := [], latest := fun _ => none, entries := [] }

/-- The calls of one job. -/
def trace (g : Journal) (k : Nat) : List Event := RestDiameterBridge.trace g.entries k

/-- The task starts a job. -/
def start (g : Journal) (id : String) (w : Work) : Journal :=
  { g with
    works := g.works ++ [w]
    latest := Function.update g.latest id (some g.works.length) }

/-- A call is made. -/
def write (g : Journal) (e : Entry) : Journal := { g with entries := g.entries ++ [e] }

/-- The job is on record, and no task is at it any more. -/
def Ended (g : Journal) (s : Node) (k : Nat) : Prop :=
  k < g.works.length ∧ ∀ id, g.latest id = some k → s.job id = none

end Journal

namespace Node

/-- The journal after a step. -/
def record (s : Node) (g : Journal) : Label → Journal
  | .exchange => g.write ⟨none, s.now, ⟨.nextId, s.hopByHopIds.nextId.1⟩⟩
  | .process id =>
      match s.tasks.lookup id with
      | some t =>
          match t.inbox with
          | command :: _ => g.start id ⟨s.settings, t.transport, s.context id t, some command⟩
          | [] => g
      | none => g
  | .tick id =>
      match s.tasks.lookup id with
      | some t => g.start id ⟨s.settings, t.transport, s.context id t, none⟩
      | none => g
  | .run id answer =>
      match s.nextCall id with
      | some (job, c) =>
          match s.perform job answer c with
          | some (r, _) => g.write ⟨g.latest id, s.now, ⟨c, r⟩⟩
          | none => g
      | none => g
  | .elapse _ | .connect .. | .deliver .. | .disconnect _ => g

/-- One step of a node with its journal. -/
def journalStep (sg : Node × Journal) (label : Label) : Option (Node × Journal) :=
  (sg.1.step label).map fun s => (s, sg.1.record sg.2 label)

/-- The state that matches answers to requests. -/
def shared (s : Node) (now : Nat) : SharedState :=
  { now, hopByHopIds := s.hopByHopIds, mapper := s.mapper, answers := s.answers }

variable {s s' : Node} {label : Label} {g g' : Journal}

/-! ### What a step writes -/

/-- The steps of a node, as far as the journal goes. -/
inductive Writes (s : Node) (g : Journal) : Label → Node → Journal → Prop
  | idle {label : Label} {now : Nat} {tasks : AList fun _ : String => Task} : s.now ≤ now →
      (∀ id, ({ s with tasks } : Node).job id = s.job id) →
      Writes s g label { s with now, tasks } g
  | exchange :
      Writes s g .exchange s.exchanged
        (g.write ⟨none, s.now, ⟨.nextId, s.hopByHopIds.nextId.1⟩⟩)
  | start {label : Label} {id : String} {t : Task} {j : Job} {w : Work} :
      s.job id = none → j.program = w.program → w.context.myHost = s.myHost →
      w.context.myRealm = s.myRealm → Writes s g label (s.settle id t j) (g.start id w)
  | call {id : String} {t : Task} {j j' : Job} {answer : (c : Call) → c.Reply} {c : Call}
      {next : c.Reply → Proc (Except String Unit)} {r : c.Reply} {s' : Node} :
      s.job id = some j → j.program = .call c next → s.perform j answer c = some (r, j', s') →
      Writes s g (.run id answer) (s'.settle id t { j' with program := next r })
        (g.write ⟨g.latest id, s.now, ⟨c, r⟩⟩)

theorem journalStep_cases (h : journalStep (s, g) label = some (s', g')) : Writes s g label s' g' := by
  obtain ⟨_, hstep, heq⟩ := Option.map_eq_some_iff.mp h
  cases heq
  cases moves hstep with
  | idle hidle hnow hjobs _ =>
    have hrecord : s.record g label = g := by
      cases label with
      | elapse | connect | deliver | disconnect => rfl
      | _ => exact hidle.elim
    rw [hrecord]
    exact .idle hnow hjobs
  | exchange => exact .exchange
  | process ht hjob hinbox =>
    simp only [record, ht, hinbox]
    exact .start (by simp [job, ht, hjob]) rfl rfl rfl
  | tick ht hjob hsend =>
    simp only [record, ht]
    exact .start (by simp [job, ht, hjob]) (by simp [Work.program, hsend]) rfl rfl
  | @run id _ j _ _ _ _ _ _ ht hjob hprogram hperform =>
    have hcurrent : s.job id = some j := by simp [job, ht, hjob]
    simp only [record, nextCall_eq hcurrent hprogram, hperform]
    exact .call hcurrent hprogram hperform

/-- A call is one of the shared state. -/
theorem perform_shared {j j' : Job} {answer : (c : Call) → c.Reply} {c : Call} {r : c.Reply}
    {k : Option Nat} {now : Nat} (hnow : now ≤ s.now)
    (h : s.perform j answer c = some (r, j', s')) :
    s'.now = s.now ∧ (s.shared now).Allows ⟨k, s.now, ⟨c, r⟩⟩ ∧
      (s.shared now).next ⟨k, s.now, ⟨c, r⟩⟩ = s'.shared s.now := by
  cases c with
  | notified deadline id info =>
    obtain ⟨-, ⟨command, answers, hnotified, rfl, rfl⟩ | ⟨-, rfl, rfl⟩⟩ := perform_notified h
    · refine ⟨rfl, ⟨hnow, answers, hnotified⟩, ?_⟩
      show SharedState.mk _ _ _ (((s.answers.notified info).map Prod.snd).getD s.answers) = _
      rw [hnotified]
      rfl
    · exact ⟨rfl, ⟨hnow, trivial⟩, rfl⟩
  | sendWithin deadline connection command =>
    obtain ⟨-, rfl⟩ := perform_sendWithin h
    exact ⟨rfl, ⟨hnow, trivial⟩, rfl⟩
  | nextId | now | mappingsDue _ | answersDue _ | removeMapping _ | answerReceived _
  | getAnswerInfo _ =>
    obtain ⟨rfl, rfl, rfl⟩ := reply_inj h
    exact ⟨rfl, ⟨hnow, rfl⟩, rfl⟩
  | _ =>
    obtain ⟨rfl, rfl, rfl⟩ := reply_inj h
    exact ⟨rfl, ⟨hnow, trivial⟩, rfl⟩

end Node

/-! ### What the journal tells -/

namespace Journal

variable {s s' : Node} {g g' : Journal} {start k : Nat} {e : Entry} {w : Work}

/-- The journal is that of the node, which started at the given time. -/
structure Tracks (g : Journal) (start : Nat) (s : Node) : Prop where
  shared : ∃ now, now ≤ s.now ∧ Recorded start g.entries (s.shared now)
  own : ∀ w ∈ g.works, w.context.myHost = s.myHost ∧ w.context.myRealm = s.myRealm
  known : ∀ id k, g.latest id = some k → k < g.works.length
  distinct : ∀ id id' k, g.latest id = some k → g.latest id' = some k → id' = id
  made : ∀ e ∈ g.entries, ∀ k, e.job = some k → k < g.works.length
  outside : ∀ e ∈ g.entries, e.job = none → ∃ id, e.drawn = some id
  running : ∀ id j, s.job id = some j → ∃ k w, g.latest id = some k ∧ g.works[k]? = some w ∧
    Reaches w.program (g.trace k) j.program
  ended : ∀ k w, g.works[k]? = some w → g.Ended s k →
    ∃ result, Reaches w.program (g.trace k) (.ret result)

theorem trace_write_self (he : e.job = some k) : (g.write e).trace k = g.trace k ++ [e.event] := by
  simp [trace, RestDiameterBridge.trace, write, he]

theorem trace_write_of_ne (he : e.job ≠ some k) : (g.write e).trace k = g.trace k := by
  simp [trace, RestDiameterBridge.trace, write, he]

/-- Nothing is on record of a job that is yet to come. -/
theorem trace_eq_nil (h : ∀ e ∈ g.entries, ∀ k, e.job = some k → k < g.works.length) :
    g.trace g.works.length = [] := by
  have hnone : g.entries.filter (fun e => e.job = some g.works.length) = [] := by
    refine List.filter_eq_nil_iff.mpr fun e he => ?_
    intro hjob
    have hlt := h e he g.works.length (by simpa using hjob)
    omega
  simp [trace, RestDiameterBridge.trace, hnone]

theorem forall_entries_write {P : Entry → Prop} :
    (∀ e' ∈ (g.write e).entries, P e') ↔ (∀ e' ∈ g.entries, P e') ∧ P e :=
  List.forall_mem_append.trans (and_congr_right' List.forall_mem_singleton)

/-- Of the jobs on record when a task starts one, only the last is new. -/
theorem latest_start {id other : String} (h : (g.start id w).latest other = some k) :
    (other = id ∧ k = g.works.length) ∨ (other ≠ id ∧ g.latest other = some k) := by
  by_cases hid : other = id
  · subst hid
    have hself : (g.start other w).latest other = some g.works.length := Function.update_self ..
    exact .inl ⟨rfl, (Option.some.inj (hself.symm.trans h)).symm⟩
  · have hother : (g.start id w).latest other = g.latest other := Function.update_of_ne hid _ _
    exact .inr ⟨hid, hother.symm.trans h⟩

theorem work_start {id : String} {w' : Work} (h : (g.start id w).works[k]? = some w') :
    (k = g.works.length ∧ w' = w) ∨ g.works[k]? = some w' := by
  rcases Nat.lt_or_ge k g.works.length with hlt | hge
  · exact .inr ((List.getElem?_append_left hlt).symm.trans h)
  · have hlast : [w][k - g.works.length]? = some w' :=
      (List.getElem?_append_right hge).symm.trans h
    rw [List.getElem?_singleton] at hlast
    split at hlast
    · exact .inl ⟨by omega, (Option.some.inj hlast).symm⟩
    · cases hlast

/-- A task goes on where its job has come to, or the job has come to its end. -/
theorem reaches_settle {id : String} {t : Task} {j j' : Job} {p : Proc (Except String Unit)}
    {events : List Event} (h : Reaches p events j.program)
    (hj : (s.settle id t j).job id = some j') : Reaches p events j'.program := by
  rw [Node.job_settle_self] at hj
  rw [Job.eq_of_running hj]
  exact h

theorem exists_reaches_settle {id : String} {t : Task} {j : Job} {p : Proc (Except String Unit)}
    {events : List Event} (h : Reaches p events j.program)
    (hj : (s.settle id t j).job id = none) : ∃ result, Reaches p events (.ret result) := by
  rw [Node.job_settle_self] at hj
  obtain ⟨result, hret⟩ := Job.ret_of_not_running hj
  exact ⟨result, hret ▸ h⟩

namespace Tracks

/-- The tasks of the node may change, as long as its jobs do not. -/
theorem frame {now : Nat} {tasks : AList fun _ : String => Task} (h : g.Tracks start s)
    (hnow : s.now ≤ now) (hjobs : ∀ id, ({ s with tasks } : Node).job id = s.job id) :
    g.Tracks start { s with now, tasks } := by
  obtain ⟨time, htime, hshared⟩ := h.shared
  refine ⟨⟨time, htime.trans hnow, hshared⟩, h.own, h.known, h.distinct, h.made, h.outside, ?_, ?_⟩
  · intro id j hj
    exact h.running id j ((hjobs id).symm.trans hj)
  · intro k w hw hended
    exact h.ended k w hw ⟨hended.1, fun id hid => (hjobs id).symm.trans (hended.2 id hid)⟩

/-- An id is drawn outside the tasks. -/
theorem exchange (h : g.Tracks start s) :
    (g.write ⟨none, s.now, ⟨.nextId, s.hopByHopIds.nextId.1⟩⟩).Tracks start s.exchanged := by
  have htrace : ∀ k,
      (g.write ⟨none, s.now, ⟨.nextId, s.hopByHopIds.nextId.1⟩⟩).trace k = g.trace k :=
    fun k => trace_write_of_ne (by simp)
  obtain ⟨time, htime, hshared⟩ := h.shared
  refine ⟨⟨s.now, Nat.le_refl _, ?_⟩, h.own, h.known, h.distinct, ?_, ?_, ?_, ?_⟩
  · exact hshared.snoc ⟨htime, rfl⟩
  · exact forall_entries_write.mpr ⟨h.made, fun k hk => by cases hk⟩
  · exact forall_entries_write.mpr ⟨h.outside, fun _ => ⟨_, rfl⟩⟩
  · intro id j hj
    obtain ⟨k, w, hk, hw, hreaches⟩ := h.running id j hj
    exact ⟨k, w, hk, hw, by rw [htrace]; exact hreaches⟩
  · intro k w hw hended
    rw [htrace]
    exact h.ended k w hw hended

/-- A task starts a job. -/
theorem startJob {id : String} {t : Task} {j : Job} (h : g.Tracks start s) (hnone : s.job id = none)
    (hprogram : j.program = w.program) (hhost : w.context.myHost = s.myHost)
    (hrealm : w.context.myRealm = s.myRealm) :
    (g.start id w).Tracks start (s.settle id t j) := by
  have hother : ∀ other, other ≠ id → (s.settle id t j).job other = s.job other :=
    fun _ hne => Node.job_settle_of_ne s id t j hne
  have hgrows : (g.start id w).works.length = g.works.length + 1 := List.length_append
  have hnew : (g.start id w).works[g.works.length]? = some w := List.getElem?_concat_length
  -- the new job has made no calls yet
  have hreaches : Reaches w.program ((g.start id w).trace g.works.length) j.program := by
    rw [show (g.start id w).trace g.works.length = [] from trace_eq_nil h.made, hprogram]
    exact .refl _
  have hgoesOn : ∀ {j'}, (s.settle id t j).job id = some j' → _ := reaches_settle hreaches
  have hstopped : (s.settle id t j).job id = none → _ := exists_reaches_settle hreaches
  obtain ⟨tasks, heq⟩ := Node.settle_eq s id t j
  rw [heq] at hgoesOn hstopped hother ⊢
  refine ⟨h.shared, ?_, ?_, ?_, ?_, h.outside, ?_, ?_⟩
  · exact List.forall_mem_append.mpr ⟨h.own, List.forall_mem_singleton.mpr ⟨hhost, hrealm⟩⟩
  · intro other k hk
    rw [hgrows]
    obtain ⟨-, rfl⟩ | ⟨-, hbefore⟩ := latest_start hk
    · omega
    · exact Nat.lt_succ_of_lt (h.known other k hbefore)
  · intro other other' k hk hk'
    obtain ⟨rfl, rfl⟩ | ⟨-, hbefore⟩ := latest_start hk <;>
      obtain ⟨rfl, hlast⟩ | ⟨-, hbefore'⟩ := latest_start hk'
    · rfl
    · exact absurd (h.known other' _ hbefore') (Nat.lt_irrefl _)
    · exact absurd (hlast ▸ h.known other k hbefore) (Nat.lt_irrefl _)
    · exact h.distinct other other' k hbefore hbefore'
  · intro e he k hk
    rw [hgrows]
    exact Nat.lt_succ_of_lt (h.made e he k hk)
  · intro other j' hj'
    by_cases hid : other = id
    · subst hid
      exact ⟨_, w, Function.update_self .., hnew, hgoesOn hj'⟩
    · rw [hother other hid] at hj'
      obtain ⟨k, w', hk, hw', hreaches'⟩ := h.running other j' hj'
      have hlt := (List.getElem?_eq_some_iff.mp hw').1
      exact ⟨k, w', (Function.update_of_ne hid _ _).trans hk,
        (List.getElem?_append_left hlt).trans hw', hreaches'⟩
  · intro k w' hw' hended
    obtain ⟨rfl, rfl⟩ | hw := work_start hw'
    · exact hstopped (hended.2 id (Function.update_self ..))
    · refine h.ended k w' hw ⟨(List.getElem?_eq_some_iff.mp hw).1, fun other hk => ?_⟩
      by_cases hid : other = id
      · rw [hid]
        exact hnone
      · exact (hother other hid).symm.trans
          (hended.2 other ((Function.update_of_ne hid _ _).trans hk))

/-- A job makes its next call. -/
theorem call {id : String} {t : Task} {j j' : Job} {answer : (c : Call) → c.Reply} {c : Call}
    {next : c.Reply → Proc (Except String Unit)} {r : c.Reply} (h : g.Tracks start s)
    (hjob : s.job id = some j) (hprogram : j.program = .call c next)
    (hperform : s.perform j answer c = some (r, j', s')) :
    (g.write ⟨g.latest id, s.now, ⟨c, r⟩⟩).Tracks start
      (s'.settle id t { j' with program := next r }) := by
  obtain ⟨k, w, hk, hw, hreaches⟩ := h.running id j hjob
  obtain ⟨time, htime, hshared⟩ := h.shared
  obtain ⟨hnow, hallows, hnext⟩ := Node.perform_shared (k := g.latest id) htime hperform
  have hframe := Node.perform_frame hperform
  rw [hprogram] at hreaches
  have hother : ∀ other, other ≠ id →
      (s'.settle id t { j' with program := next r }).job other = s.job other := by
    intro other hne
    rw [Node.job_settle_of_ne s' id t _ hne, Node.job, hframe.tasks, Node.job]
  rw [hk] at hnext hallows ⊢
  have htrace : ∀ k', k' ≠ k → (g.write ⟨some k, s.now, ⟨c, r⟩⟩).trace k' = g.trace k' :=
    fun k' hne => trace_write_of_ne fun heq => hne (Option.some.inj heq).symm
  have hsnoc : Reaches w.program ((g.write ⟨some k, s.now, ⟨c, r⟩⟩).trace k) (next r) := by
    rw [trace_write_self rfl]
    exact hreaches.snoc r
  have hgoesOn : ∀ {j''}, (s'.settle id t { j' with program := next r }).job id = some j'' → _ :=
    reaches_settle hsnoc
  have hstopped : (s'.settle id t { j' with program := next r }).job id = none → _ :=
    exists_reaches_settle hsnoc
  obtain ⟨tasks, heq⟩ := Node.settle_eq s' id t { j' with program := next r }
  rw [heq] at hgoesOn hstopped hother ⊢
  refine ⟨⟨s.now, by rw [hnow], ?_⟩, ?_, h.known, h.distinct, ?_, ?_, ?_, ?_⟩
  · have hrecorded := hshared.snoc hallows
    rw [hnext] at hrecorded
    exact hrecorded
  · intro w' hw'
    rw [hframe.host, hframe.realm]
    exact h.own w' hw'
  · refine forall_entries_write.mpr ⟨h.made, fun k' hk' => ?_⟩
    cases hk'
    exact h.known id k hk
  · exact forall_entries_write.mpr ⟨h.outside, fun hnone => by cases hnone⟩
  · intro other j'' hj''
    by_cases hid : other = id
    · subst hid
      exact ⟨k, w, hk, hw, hgoesOn hj''⟩
    · rw [hother other hid] at hj''
      obtain ⟨k', w', hk', hw', hreaches'⟩ := h.running other j'' hj''
      -- another task is at another job
      have hne : k' ≠ k := fun heq => hid (h.distinct id other k' (heq ▸ hk) hk')
      exact ⟨k', w', hk', hw', (htrace k' hne).symm ▸ hreaches'⟩
  · intro k' w' hw' hended
    by_cases hsame : k' = k
    · subst hsame
      obtain rfl : w = w' := Option.some.inj (hw.symm.trans hw')
      exact hstopped (hended.2 id hk)
    · rw [htrace k' hsame]
      refine h.ended k' w' hw' ⟨hended.1, fun other hother' => ?_⟩
      by_cases hid : other = id
      · subst hid
        exact absurd (Option.some.inj (hother'.symm.trans hk)) hsame
      · exact (hother other hid).symm.trans (hended.2 other hother')

theorem step {label : Node.Label} (h : g.Tracks start s) (hstep : Node.Writes s g label s' g') :
    g'.Tracks start s' := by
  cases hstep with
  | idle hnow hjobs => exact h.frame hnow hjobs
  | exchange => exact h.exchange
  | start hnone hprogram hhost hrealm => exact h.startJob hnone hprogram hhost hrealm
  | call hjob hprogram hperform => exact h.call hjob hprogram hperform

end Tracks

theorem tracks_empty (settings : SendSettings) (myHost myRealm : String) :
    empty.Tracks start (.new settings myHost myRealm start) where
  shared := ⟨start, Nat.le_refl _, .nil⟩
  own _ h := by cases h
  known _ _ h := by cases h
  distinct _ _ _ h := by cases h
  made _ h := by cases h
  outside _ h := by cases h
  running _ _ h := by cases h
  ended _ _ h := by cases h

/-- **The journal after every run.** -/
theorem tracks_of_run {settings : SendSettings} {myHost myRealm : String} {labels : List Node.Label}
    (hrun : run Node.journalStep (.new settings myHost myRealm start, empty) labels = some (s, g)) :
    g.Tracks start s := by
  exact run_invariant (I := fun sg : Node × Journal => sg.2.Tracks start sg.1)
    (fun htracks hstep => htracks.step (Node.journalStep_cases hstep))
    (tracks_empty settings myHost myRealm) hrun

namespace Tracks

variable {before after : List Entry}

/-- At every point of the record, the calls of a job are on its course. -/
theorem path (h : g.Tracks start s) (hw : g.works[k]? = some w)
    (hentries : g.entries = before ++ after) :
    ∃ p, Path (Course w.context) w.start (RestDiameterBridge.trace before k) p := by
  have hreaches : ∃ q, Reaches w.program (g.trace k) q := by
    by_cases hended : g.Ended s k
    · obtain ⟨result, hresult⟩ := h.ended k w hw hended
      exact ⟨_, hresult⟩
    · have hlt : k < g.works.length := (List.getElem?_eq_some_iff.mp hw).1
      have hrunning : ∃ id, g.latest id = some k ∧ s.job id ≠ none := by
        by_contra hnone
        refine hended ⟨hlt, fun id hid => ?_⟩
        by_contra hjob
        exact hnone ⟨id, hid, hjob⟩
      obtain ⟨id, hid, hjob⟩ := hrunning
      obtain ⟨j, hj⟩ := Option.ne_none_iff_exists'.mp hjob
      obtain ⟨k', w', hk', hw', hreaches⟩ := h.running id j hj
      obtain rfl : k = k' := Option.some.inj (hid.symm.trans hk')
      obtain rfl : w = w' := Option.some.inj (hw.symm.trans hw')
      exact ⟨_, hreaches⟩
  obtain ⟨q, hq⟩ := hreaches
  obtain ⟨p, hpath, -⟩ := w.keeps.path hq
  rw [trace, hentries, trace_append] at hpath
  obtain ⟨p', hbefore, -⟩ := hpath.of_append
  exact ⟨p', hbefore⟩

/-- A job that has ended has come to the end of its course. -/
theorem path_ended (h : g.Tracks start s) (hw : g.works[k]? = some w) (hended : g.Ended s k) :
    ∃ p result, Path (Course w.context) w.start (g.trace k) p ∧ p.Ends result := by
  obtain ⟨result, hreaches⟩ := h.ended k w hw hended
  obtain ⟨p, hpath, hends⟩ := w.keeps.path hreaches
  exact ⟨p, result, hpath, hends⟩

/-- What is no draw of an id is a call of a job on record. -/
theorem exists_work (h : g.Tracks start s) (he : e ∈ g.entries) (hdrawn : e.drawn = none) :
    ∃ k w, e.job = some k ∧ g.works[k]? = some w := by
  cases hjob : e.job with
  | none =>
    obtain ⟨id, hid⟩ := h.outside e he hjob
    rw [hdrawn] at hid
    cases hid
  | some k =>
    have hlt := h.made e he k hjob
    exact ⟨k, g.works[k], rfl, List.getElem?_eq_getElem hlt⟩

end Tracks

end Journal

/-! ### What the calls of a job say of it -/

namespace Work

variable {w : Work} {trace : List Event} {p : Point}

/-- What kind of job it is. -/
inductive Performs (w : Work) (trace : List Event) (p : Point) : Prop
  | control : (∀ e ∈ trace, e.1.Control) → Performs w trace p
  | issue (command : Command) : w.transport = .rest → Issuing w.context command trace p →
      Performs w trace p
  | request (command : Command) : w.command = some command → w.transport ≠ .rest →
      command.isRequest = true → Requested w.context command trace p → Performs w trace p
  | answer (command : Command) : w.command = some command → w.transport ≠ .rest →
      command.isRequest = false → Answering w.context command trace p → Performs w trace p

theorem performs (h : Path (Course w.context) w.start trace p) : w.Performs trace p := by
  unfold start at h
  split at h
  · rename_i command hcommand
    by_cases hrest : w.transport = .rest
    · rw [Point.start, if_pos hrest] at h
      exact .issue command hrest (path_own h)
    · cases hrequest : command.isRequest with
      | true =>
        by_cases happlication : command.IsApplication
        · exact .request command hcommand hrest hrequest
            (path_application hrest hrequest happlication h)
        · exact .control (path_control_request hrest hrequest happlication h)
      | false =>
        rw [Point.start, if_neg hrest] at h
        split at h
        · exact .control (path_control h).2
        · rw [CommandProcessorContext.isLoopedRequest, hrequest] at h
          exact .answer command hcommand hrest hrequest (path_answer h)
  · exact .control (path_control h).2

/-- Where the answer to a request of the job goes. -/
def origin (w : Work) : String × String × String :=
  if w.transport = .rest then ("", w.context.myHost, w.context.myRealm)
  else (w.context.connectionId, w.context.peerHost, w.context.peerRealm)

variable {id : UInt32}

/-- A job prepares for an answer under an id it has drawn, and to its own origin, once. -/
theorem Performs.prepared {connectionId host realm : String} {timeout : Nat} {u : Unit}
    (h : w.Performs trace p)
    (he : ⟨.prepareForAnswer timeout id connectionId host realm, u⟩ ∈ trace) :
    ⟨.nextId, id⟩ ∈ trace ∧ (connectionId, host, realm) = w.origin ∧ Timed trace timeout := by
  cases h with
  | control hall => exact (hall _ he).elim
  | issue command hrest hissuing =>
    cases hissuing.event he with
    | prepare id hid htimed => exact ⟨hid, by simp [origin, hrest], htimed⟩
    | cleanUp hclean => exact hclean.elim
    | sends hsend => exact hsend.call.elim
  | request command _ hrest _ hrequested =>
    cases hrequested.event he with
    | prepare id _ _ hid htimed => exact ⟨hid, by simp [origin, hrest], htimed⟩
    | cleanUp hclean => exact hclean.elim
    | sends _ _ _ _ hsend => exact hsend.call.elim
    | responds hcall => exact hcall.elim
  | answer command _ _ _ hanswering =>
    cases hanswering.event he with
    | responds _ _ hcall => exact hcall.elim

/-- A job maps an id it has drawn to that of the request it forwards. -/
theorem Performs.mapped {original : UInt32} {u : Unit} (h : w.Performs trace p)
    (he : ⟨.addMapping id original, u⟩ ∈ trace) :
    ⟨.nextId, id⟩ ∈ trace ∧ w.transport ≠ .rest ∧
      ∃ command, w.command = some command ∧ original = command.hopByHopId := by
  cases h with
  | control hall => exact (hall _ he).elim
  | issue command hrest hissuing =>
    cases hissuing.event he with
    | cleanUp hclean => exact hclean.elim
    | sends hsend => exact hsend.call.elim
  | request command hcommand hrest _ hrequested =>
    cases hrequested.event he with
    | addMapping id _ _ hid => exact ⟨hid, hrest, command, hcommand, rfl⟩
    | cleanUp hclean => exact hclean.elim
    | sends _ _ _ _ hsend => exact hsend.call.elim
    | responds hcall => exact hcall.elim
  | answer command _ _ _ hanswering =>
    cases hanswering.event he with
    | responds _ _ hcall => exact hcall.elim

/-- A job that maps an id is at a request that it forwards. -/
theorem Performs.forwarding {original : UInt32} {u : Unit} (h : w.Performs trace p)
    (he : ⟨.addMapping id original, u⟩ ∈ trace) : ∃ command, w.command = some command ∧
      original = command.hopByHopId ∧ Forwarding w.context command trace p := by
  obtain ⟨-, hrest, command, hcommand, horiginal⟩ := h.mapped he
  cases h with
  | control hall => exact (hall _ he).elim
  | issue _ hrest' => exact absurd hrest' hrest
  | request command' hcommand' _ _ hrequested =>
    obtain rfl := Option.some.inj (hcommand.symm.trans hcommand')
    have hforwarded : w.context.isLoopedRequest command = false ∧
        w.context.isMyCommand command = false := by
      cases hrequested.event he with
      | addMapping _ hlooped hmine => exact ⟨hlooped, hmine⟩
      | cleanUp hclean => exact hclean.elim
      | sends _ hlooped hmine => exact ⟨hlooped, hmine⟩
      | responds hcall => exact hcall.elim
    refine ⟨command, hcommand, horiginal, ?_⟩
    cases hrequested with
    | looped hlooped => rw [hforwarded.1] at hlooped; cases hlooped
    | start => cases he
    | handled _ hmine => rw [hforwarded.2] at hmine; cases hmine
    | forwarding _ _ hforwarding => exact hforwarding
  | answer command' hcommand' _ _ hanswering =>
    cases hanswering.event he with
    | responds _ _ hcall => exact hcall.elim

/-- A job waits for an info that it has found under the id. -/
theorem Performs.waited {deadline info : Nat} {r : Option (Option Command)} (h : w.Performs trace p)
    (he : ⟨.notified deadline id info, r⟩ ∈ trace) : ⟨.getAnswerInfo id, some info⟩ ∈ trace := by
  cases h with
  | control hall => exact (hall _ he).elim
  | issue command hrest hissuing =>
    cases hissuing.event he with
    | cleanUp hclean => exact hclean.elim
    | sends hsend => exact hsend.waited _ _ _ _ rfl
  | request command _ _ _ hrequested =>
    cases hrequested.event he with
    | cleanUp hclean => exact hclean.elim
    | sends _ _ _ _ hsend => exact hsend.waited _ _ _ _ rfl
    | responds hcall => exact hcall.elim
  | answer command _ _ _ hanswering =>
    cases hanswering.event he with
    | responds _ _ hcall => exact hcall.elim

/-- Calls that match answers to requests. -/
def Matches : Call → Prop
  | .removeMapping _ | .answerReceived _ => True
  | _ => False

/-- They are those of a job on an answer. -/
theorem Performs.answering {e : Event} (h : w.Performs trace p) (he : e ∈ trace)
    (hmatches : Matches e.1) : ∃ command, w.command = some command ∧ command.isRequest = false ∧
      Answering w.context command trace p := by
  obtain ⟨c, r⟩ := e
  have hcalls : ∀ {request : Command}, c.Sends request → False := by
    intro request hcall
    cases c with
    | removeMapping | answerReceived => exact hcall
    | _ => exact hmatches
  have hcleans : ¬c.CleansUp := by
    intro hclean
    cases c with
    | removeMapping | answerReceived => exact hclean
    | _ => exact hmatches
  cases h with
  | control hall =>
    have hcall := hall _ he
    cases c with
    | removeMapping | answerReceived => exact hcall.elim
    | _ => exact hmatches.elim
  | issue command hrest hissuing =>
    cases hissuing.event he with
    | cleanUp hclean => exact absurd hclean hcleans
    | sends hsend => exact (hcalls hsend.call).elim
    | _ => exact hmatches.elim
  | request command hcommand hrest _ hrequested =>
    cases hrequested.event he with
    | cleanUp hclean => exact absurd hclean hcleans
    | sends _ _ _ _ hsend => exact (hcalls hsend.call).elim
    | responds hcall =>
      cases c with
      | removeMapping | answerReceived => exact hcall.elim
      | _ => exact hmatches.elim
    | _ => exact hmatches.elim
  | answer command hcommand _ hanswer hanswering => exact ⟨command, hcommand, hanswer, hanswering⟩

end Work

end RestDiameterBridge
