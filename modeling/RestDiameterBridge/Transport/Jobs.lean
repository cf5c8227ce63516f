import RestDiameterBridge.Transport.Exchange

/-!
# RestDiameterBridge.Transport.Jobs

What a call does to a node (`perform_frame`, `perform_job`), and what a step does (`moves`),
each said once: `step_cases` and `mem_inbox_of_step` say what becomes of the jobs of its tasks
and of their inboxes.

`TaskInvariant` is an invariant of a node in terms of its shared state and of what each job
knows at its stage of the protocol, with ghost state of any kind. `TaskInvariant.Kept.step`
is the rule: such an invariant is kept by every step, if it is kept by every call that the
protocol allows. The programs themselves do not show.
-/

namespace RestDiameterBridge

open Program

/-- The job as it is put on record: none, if its program has ended. -/
def Job.running (job : Job) : Option Job :=
  match job.program with
  | .call .. => some job
  | .ret _ => none

theorem Job.eq_of_running {j j' : Job} (h : j.running = some j') : j' = j := by
  unfold running at h
  split at h <;> cases h
  rfl

theorem Job.ret_of_not_running {j : Job} (h : j.running = none) :
    ∃ result, j.program = .ret result := by
  unfold running at h
  split at h
  · cases h
  · rename_i result hret
    exact ⟨result, hret⟩

/-- The request a call sends, and on which connection. -/
def Call.sentOn : Call → Option (Connection × Command)
  | sendWithin _ connection request => some (connection, request)
  | _ => none

/-- The job is new, at the stage where its work starts. -/
structure Job.Starts (job : Job) (stage : Stage) : Prop where
  draw : job.draw = none
  stage : stage = (job.command.map Stage.start).getD .done

namespace Node

/-- The job a task is at. -/
def job (s : Node) (id : String) : Option Job :=
  (s.tasks.lookup id).bind Task.job

/-- The commands a task has received and not taken. -/
def inbox (s : Node) (id : String) : List Command :=
  ((s.tasks.lookup id).map Task.inbox).getD []

/-- The job a task is at, and the call it makes next. -/
def nextCall (s : Node) (id : String) : Option (Job × Call) :=
  (s.job id).bind fun (job : Job) =>
    match job.program with
    | .call c _ => some (job, c)
    | .ret _ => none

theorem nextCall_eq {s : Node} {id : String} {job : Job} {c : Call}
    {next : c.Reply → Proc (Except String Unit)} (hjob : s.job id = some job)
    (hprogram : job.program = .call c next) : s.nextCall id = some (job, c) := by
  simp [nextCall, hjob, hprogram]

section
variable (s : Node) (id : String) (t : Task) (j : Job)

theorem settle_eq : ∃ tasks, s.settle id t j = { s with tasks } := by
  unfold settle
  split
  · exact ⟨_, rfl⟩
  · exact ⟨_, rfl⟩
  · split <;> exact ⟨_, rfl⟩

theorem job_settle_self : (s.settle id t j).job id = j.running := by
  unfold settle Job.running job
  split <;> rename_i hprogram
  · simp [hprogram]
  · simp [hprogram]
  · split <;> simp [hprogram]

theorem lookup_settle_of_ne {other : String} (hne : other ≠ id) :
    (s.settle id t j).tasks.lookup other = s.tasks.lookup other := by
  unfold settle
  split
  · exact AList.lookup_insert_ne hne
  · exact AList.lookup_insert_ne hne
  · split
    · exact AList.lookup_erase_ne hne
    · exact AList.lookup_insert_ne hne

theorem job_settle_of_ne {other : String} (hne : other ≠ id) :
    (s.settle id t j).job other = s.job other := by
  rw [job, lookup_settle_of_ne s id t j hne, job]

/-- With its job, a task's inbox may be cut down. -/
theorem mem_inbox_of_settle {other : String} {command : Command}
    (ht : ∀ command ∈ t.inbox, command ∈ s.inbox id)
    (h : command ∈ (s.settle id t j).inbox other) : command ∈ s.inbox other := by
  by_cases hother : other = id
  · subst hother
    refine ht command ?_
    revert h
    unfold settle inbox
    split
    · simp
    · simp
    · split <;> simp
  · rwa [inbox, lookup_settle_of_ne s id t j hother] at h

end

variable {s s' : Node} {label : Label} {command : Command} {answer : (c : Call) → c.Reply}

/-- What a call returns, one part at a time. -/
theorem reply_inj {R : Type} {r r' : R} {j j' : Job}
    (h : some (r, j, s) = some (r', j', s')) : r = r' ∧ j = j' ∧ s = s' := by
  simpa using h

/-! ### What a call does -/

section
variable {j j' : Job}

/-- A wait ends with the answer, or at its deadline. -/
theorem perform_notified {deadline info : Nat} {id : UInt32} {r : Option (Option Command)}
    (h : s.perform j answer (.notified deadline id info) = some (r, j', s')) :
    j' = j ∧
      ((∃ command answers, s.answers.notified info = some (command, answers) ∧
          r = some command ∧ s' = { s with answers }) ∨
        (s.answers.notified info = none ∧ r = none ∧ s' = s)) := by
  unfold perform at h
  dsimp only at h
  split at h
  · rename_i command answers hnotified
    obtain ⟨rfl, rfl, rfl⟩ := reply_inj h
    exact ⟨rfl, .inl ⟨command, answers, hnotified, rfl, rfl⟩⟩
  · rename_i hnone
    split at h
    · obtain ⟨rfl, rfl, rfl⟩ := reply_inj h
      exact ⟨rfl, .inr ⟨hnone, rfl, rfl⟩⟩
    · cases h

/-- A send under a deadline is an attempt. -/
theorem perform_sendWithin {deadline : Nat} {connection : Connection} {command : Command}
    {r : Option (Except String Unit)}
    (h : s.perform j answer (.sendWithin deadline connection command) = some (r, j', s')) :
    j' = j ∧ s' = { s with
      history := { s.history with
        attempts := s.history.attempts ++ [⟨j.draw, connection, command⟩] } } := by
  unfold perform at h
  dsimp only at h
  split at h
  · obtain ⟨-, rfl, rfl⟩ := reply_inj h
    exact ⟨rfl, rfl⟩
  · split at h
    · obtain ⟨-, rfl, rfl⟩ := reply_inj h
      exact ⟨rfl, rfl⟩
    · cases h

end

/-! ### What a step is -/

/-- What every call leaves alone, and the attempts it makes. -/
structure Frame (s : Node) (j : Job) (c : Call) (s' : Node) : Prop where
  tasks : s'.tasks = s.tasks
  host : s'.myHost = s.myHost
  realm : s'.myRealm = s.myRealm
  draws : c ≠ .nextId → s'.history.draws = s.history.draws
  ids : c ≠ .nextId → s'.hopByHopIds = s.hopByHopIds
  attempts : s'.history.attempts = s.history.attempts ++
    (c.sentOn.map fun sent => (⟨j.draw, sent.1, sent.2⟩ : Attempt)).toList

theorem perform_frame {j j' : Job} {c : Call} {r : c.Reply}
    (h : s.perform j answer c = some (r, j', s')) : Frame s j c s' := by
  have hrefl : c.sentOn = none → ∀ {attempts : List Attempt}, attempts = attempts ++
      (c.sentOn.map fun sent => (⟨j.draw, sent.1, sent.2⟩ : Attempt)).toList := by
    intro hnone attempts
    simp [hnone]
  cases c with
  | nextId =>
    obtain ⟨-, -, rfl⟩ := reply_inj h
    exact ⟨rfl, rfl, rfl, fun h => absurd rfl h, fun h => absurd rfl h, hrefl rfl⟩
  | notified deadline id info =>
    obtain ⟨-, ⟨_, _, -, -, rfl⟩ | ⟨-, -, rfl⟩⟩ := perform_notified h <;>
      exact ⟨rfl, rfl, rfl, fun _ => rfl, fun _ => rfl, hrefl rfl⟩
  | sendWithin deadline connection command =>
    obtain ⟨-, rfl⟩ := perform_sendWithin h
    exact ⟨rfl, rfl, rfl, fun _ => rfl, fun _ => rfl, rfl⟩
  | _ =>
    obtain ⟨-, -, rfl⟩ := reply_inj h
    exact ⟨rfl, rfl, rfl, fun _ => rfl, fun _ => rfl, hrefl rfl⟩

/-- Only drawing an id changes the job's record. -/
theorem perform_job {j j' : Job} {c : Call} {r : c.Reply} (hc : c ≠ .nextId)
    (h : s.perform j answer c = some (r, j', s')) : j' = j := by
  cases c with
  | nextId => exact absurd rfl hc
  | notified deadline id info => exact (perform_notified h).1
  | sendWithin deadline connection command => exact (perform_sendWithin h).1
  | _ => exact (reply_inj h).2.1.symm

/-- The node after an id is drawn outside the tasks. -/
def exchanged (s : Node) : Node :=
  { s with
    hopByHopIds := s.hopByHopIds.nextId.2
    history := { s.history with draws := s.history.draws ++ [none] } }

/-- Labels that start no job and make no call. -/
def Label.Idle : Label → Prop
  | elapse _ | connect .. | deliver .. | disconnect _ => True
  | _ => False

/-- The steps of a node. -/
inductive Moves (s : Node) : Label → Node → Prop
  /-- No job changes, and nothing but what is delivered gets into an inbox. -/
  | idle {label : Label} {now : Nat} {tasks : AList fun _ : String => Task} : label.Idle →
      s.now ≤ now → (∀ id, ({ s with tasks } : Node).job id = s.job id) →
      (∀ id command, command ∈ ({ s with tasks } : Node).inbox id →
        command ∈ s.inbox id ∨ label = .deliver id command) →
      Moves s label { s with now, tasks }
  | exchange : Moves s .exchange s.exchanged
  | process {id : String} {t : Task} {command : Command} {inbox : List Command} :
      s.tasks.lookup id = some t → t.job = none → t.inbox = command :: inbox →
      Moves s (.process id) (s.settle id { t with inbox }
        { command := some command
          program := t.transport.processCommand s.settings (s.context id t) command
          draw := none })
  | tick {id : String} {t : Task} {program : Proc (Except String Unit)} :
      s.tasks.lookup id = some t → t.job = none →
      t.transport.sendDwr (s.context id t) = some program →
      Moves s (.tick id) (s.settle id t { command := none, program, draw := none })
  | run {id : String} {t : Task} {j j' : Job} {answer : (c : Call) → c.Reply} {c : Call}
      {next : c.Reply → Proc (Except String Unit)} {r : c.Reply} {s' : Node} :
      s.tasks.lookup id = some t → t.job = some j → j.program = .call c next →
      s.perform j answer c = some (r, j', s') →
      Moves s (.run id answer) (s'.settle id t { j' with program := next r })

theorem moves (h : s.step label = some s') : Moves s label s' := by
  unfold step at h
  cases label with
  | elapse time =>
    obtain rfl := Option.some.inj h
    exact .idle trivial (Nat.le_add_right ..) (fun _ => rfl) fun _ _ hmem => .inl hmem
  | connect id transport peerHost peerRealm =>
    dsimp only at h
    split at h
    · cases h
    · rename_i hnone
      obtain rfl := Option.some.inj h
      refine .idle trivial (Nat.le_refl _) (fun other => ?_) fun other command hmem => ?_
      · by_cases hother : other = id
        · subst hother
          simp [job, hnone]
        · simp [job, AList.lookup_insert_ne hother]
      · by_cases hother : other = id
        · subst hother
          simp [inbox] at hmem
        · exact .inl (by simpa [inbox, AList.lookup_insert_ne hother] using hmem)
  | exchange =>
    obtain rfl := Option.some.inj h
    exact .exchange
  | deliver id command =>
    obtain ⟨t, ht, rfl⟩ := Option.map_eq_some_iff.mp h
    refine .idle trivial (Nat.le_refl _) (fun other => ?_) fun other command' hmem => ?_
    · by_cases hother : other = id
      · subst hother
        simp [job, ht]
      · simp [job, AList.lookup_insert_ne hother]
    · by_cases hother : other = id
      · subst hother
        have hor : command' ∈ t.inbox ∨ command' = command := by simpa [inbox] using hmem
        rcases hor with hold | rfl
        · exact .inl (by simpa [inbox, ht] using hold)
        · exact .inr rfl
      · exact .inl (by simpa [inbox, AList.lookup_insert_ne hother] using hmem)
  | process id =>
    dsimp only at h
    split at h
    · rename_i t ht
      split at h
      · rename_i hjob hinbox
        obtain rfl := Option.some.inj h
        exact .process ht hjob hinbox
      · cases h
    · cases h
  | tick id =>
    dsimp only at h
    split at h
    · rename_i t ht
      split at h
      · rename_i hjob _ hsend
        obtain rfl := Option.some.inj h
        exact .tick ht hjob hsend
      · cases h
    · cases h
  | run id answer =>
    dsimp only at h
    split at h
    · rename_i t ht
      split at h
      · rename_i j hjob
        unfold runTask at h
        split at h
        · cases h
        · rename_i c next hprogram
          obtain ⟨⟨r, j', s''⟩, hperform, rfl⟩ := Option.map_eq_some_iff.mp h
          exact .run ht hjob hprogram hperform
      · cases h
    · cases h
  | disconnect id =>
    dsimp only at h
    split at h
    · rename_i t ht
      split at h
      · rename_i hjob _
        obtain rfl := Option.some.inj h
        refine .idle trivial (Nat.le_refl _) (fun other => ?_) fun other command hmem => ?_
        · by_cases hother : other = id
          · subst hother
            simp [job, ht, hjob]
          · simp [job, AList.lookup_erase_ne hother]
        · by_cases hother : other = id
          · subst hother
            simp [inbox] at hmem
          · exact .inl (by simpa [inbox, AList.lookup_erase_ne hother] using hmem)
      · cases h
    · cases h

/-- The steps of a node, as far as jobs go. -/
inductive Steps (s : Node) : Label → Node → Prop
  /-- No job changes. -/
  | idle {label : Label} {now : Nat} {tasks : AList fun _ : String => Task} :
      (∀ id, ({ s with tasks } : Node).job id = s.job id) → Steps s label { s with now, tasks }
  | exchange : Steps s .exchange s.exchanged
  | start {label : Label} {id : String} {t : Task} {j : Job} {stage : Stage} :
      s.job id = none → j.Starts stage → Conforms s.myHost s.myRealm stage j.program →
      Steps s label (s.settle id t j)
  | call {id : String} {t : Task} {j j' : Job} {answer : (c : Call) → c.Reply} {c : Call}
      {next : c.Reply → Proc (Except String Unit)} {r : c.Reply} {s' : Node} :
      s.job id = some j → j.program = .call c next → s.perform j answer c = some (r, j', s') →
      Steps s (.run id answer) (s'.settle id t { j' with program := next r })

theorem step_cases (h : s.step label = some s') : Steps s label s' := by
  cases moves h with
  | idle _ _ hjobs => exact .idle hjobs
  | exchange => exact .exchange
  | @process id t command inbox ht hjob _ =>
    have hconforms : Conforms (s.context id t).myHost (s.context id t).myRealm (.start command)
        (t.transport.processCommand s.settings (s.context id t) command) :=
      t.transport.processCommand_conforms
    exact .start (by simp [job, ht, hjob]) ⟨rfl, rfl⟩ hconforms
  | tick ht hjob hsend =>
    exact .start (by simp [job, ht, hjob]) ⟨rfl, rfl⟩ (Transport.sendDwr_conforms hsend)
  | run ht hjob hprogram hperform => exact .call (by simp [job, ht, hjob]) hprogram hperform

/-- A command in an inbox was there before or has just been delivered. -/
theorem mem_inbox_of_step {id : String} (h : s.step label = some s')
    (hmem : command ∈ s'.inbox id) : command ∈ s.inbox id ∨ label = .deliver id command := by
  cases moves h with
  | idle _ _ _ hinboxes => exact hinboxes id command hmem
  | exchange => exact .inl hmem
  | process ht _ hinbox =>
    refine .inl (mem_inbox_of_settle _ _ _ _ (fun command hrest => ?_) hmem)
    simp only [inbox, ht, Option.map_some, Option.getD_some, hinbox]
    exact List.mem_cons_of_mem _ hrest
  | tick ht _ _ =>
    exact .inl (mem_inbox_of_settle _ _ _ _ (fun _ hrest => by simpa [inbox, ht]) hmem)
  | @run _ _ _ _ _ _ _ _ s'' ht _ _ hperform =>
    have hsame : ∀ id, s''.inbox id = s.inbox id := by
      intro id
      rw [inbox, (perform_frame hperform).tasks, inbox]
    rw [← hsame]
    refine .inl (mem_inbox_of_settle _ _ _ _ (fun _ hrest => ?_) hmem)
    rw [hsame]
    simpa [inbox, ht]

/-! ### Invariants of jobs -/

/-- An invariant in terms of the shared state and of what a task's job knows at its stage,
with ghost state of type `G`. -/
structure TaskInvariant (G : Type) where
  shared : Node → G → Prop
  knows : Node → G → String → Job → Stage → Prop

namespace TaskInvariant

variable {G : Type} {I : TaskInvariant G}

/-- The invariant holds of a node: of what is shared, and of every job, which follows the
protocol from its stage on. -/
structure Holds (I : TaskInvariant G) (s : Node) (g : G) (stages : String → Stage) : Prop where
  shared : I.shared s g
  jobs : ∀ id j, s.job id = some j →
    Conforms s.myHost s.myRealm (stages id) j.program ∧ I.knows s g id j (stages id)

/-- The invariant is kept by new jobs, by ids drawn outside the tasks and by calls, as long
as these are allowed. It does not read the clock or the tasks. -/
structure Kept (I : TaskInvariant G) (exchanges : Node → Prop) (calls : Node → Job → Call → Prop) :
    Prop where
  shared_frame : ∀ {s g now tasks}, I.shared s g → I.shared { s with now, tasks } g
  knows_frame : ∀ {s g id j stage now tasks program}, I.knows s g id j stage →
    I.knows { s with now, tasks } g id { j with program } stage
  start : ∀ {s g id j stage}, Job.Starts j stage → I.knows s g id j stage
  exchange : ∀ {s g}, exchanges s → I.shared s g →
    ∃ g', I.shared s.exchanged g' ∧
      ∀ id j stage, I.knows s g id j stage → I.knows s.exchanged g' id j stage
  call : ∀ {s s' : Node} {g id} {j j' : Job} {answer : (c : Call) → c.Reply} {c : Call}
    {r : c.Reply} {stage stage'}, calls s j c → I.shared s g → I.knows s g id j stage →
    Exchange s.myHost s.myRealm stage c r stage' → s.perform j answer c = some (r, j', s') →
    ∃ g', I.shared s' g' ∧ I.knows s' g' id j' stage' ∧
      ∀ other j stage, other ≠ id → I.knows s g other j stage → I.knows s' g' other j stage

/-- The step draws ids and makes calls only as allowed. -/
def Obeys (exchanges : Node → Prop) (calls : Node → Job → Call → Prop) (s : Node) : Label → Prop
  | .exchange => exchanges s
  | .run id _ => ∀ next ∈ s.nextCall id, calls s next.1 next.2
  | _ => True

/-- A job is put on record at its stage; the other jobs are as they were. -/
theorem Kept.settle {exchanges : Node → Prop} {calls : Node → Job → Call → Prop}
    (hkept : I.Kept exchanges calls) {s : Node} {g : G} {stages : String → Stage} {id : String}
    {t : Task} {j : Job} {stage : Stage} (hshared : I.shared s g)
    (hothers : ∀ other j, other ≠ id → s.job other = some j →
      Conforms s.myHost s.myRealm (stages other) j.program ∧ I.knows s g other j (stages other))
    (hconforms : Conforms s.myHost s.myRealm stage j.program) (hknows : I.knows s g id j stage) :
    I.Holds (s.settle id t j) g (Function.update stages id stage) := by
  have hself := job_settle_self s id t j
  have hother : ∀ other, other ≠ id → (s.settle id t j).job other = s.job other :=
    fun _ hne => job_settle_of_ne s id t j hne
  obtain ⟨tasks, heq⟩ := settle_eq s id t j
  rw [heq] at hself hother ⊢
  refine ⟨hkept.shared_frame hshared, fun other j' hj' => ?_⟩
  by_cases hid : other = id
  · subst hid
    rw [hself] at hj'
    obtain rfl := Job.eq_of_running hj'
    rw [Function.update_self]
    exact ⟨hconforms, hkept.knows_frame hknows⟩
  · rw [Function.update_of_ne hid]
    rw [hother other hid] at hj'
    obtain ⟨hconforms', hknows'⟩ := hothers other j' hid hj'
    exact ⟨hconforms', hkept.knows_frame hknows'⟩

/-- **The rule.** An invariant kept by calls is kept by steps. -/
theorem Kept.step {exchanges : Node → Prop} {calls : Node → Job → Call → Prop}
    (hkept : I.Kept exchanges calls) {s s' : Node} {label : Label} {g : G}
    {stages : String → Stage} (h : I.Holds s g stages) (hobeys : Obeys exchanges calls s label)
    (hstep : s.step label = some s') : ∃ g' stages', I.Holds s' g' stages' := by
  cases step_cases hstep with
  | idle hjobs =>
    refine ⟨g, stages, hkept.shared_frame h.shared, fun id j hj => ?_⟩
    obtain ⟨hconforms, hknows⟩ := h.jobs id j ((hjobs id).symm.trans hj)
    exact ⟨hconforms, hkept.knows_frame hknows⟩
  | exchange =>
    obtain ⟨g', hshared, hknows⟩ := hkept.exchange hobeys h.shared
    refine ⟨g', stages, hshared, fun id j hj => ?_⟩
    obtain ⟨hconforms, hknows'⟩ := h.jobs id j hj
    exact ⟨hconforms, hknows id j (stages id) hknows'⟩
  | start hnone hstarts hconforms =>
    exact ⟨g, _, hkept.settle h.shared (fun other j _ hj => h.jobs other j hj) hconforms
      (hkept.start hstarts)⟩
  | @call id t j j' answer c next r s'' hjob hprogram hperform =>
    have hcall : calls s j c := hobeys (j, c) (nextCall_eq hjob hprogram)
    obtain ⟨hconforms, hknows⟩ := h.jobs id j hjob
    rw [hprogram] at hconforms
    obtain ⟨stage', hexchange, hnext⟩ := follows_call.mp hconforms r
    obtain ⟨g', hshared, hknows', hothers⟩ := hkept.call hcall h.shared hknows hexchange hperform
    have hframe := perform_frame hperform
    refine ⟨g', Function.update stages id stage', hkept.settle hshared
      (fun other j hne hj => ?_) ?_ (hkept.knows_frame hknows')⟩
    · rw [job, hframe.tasks] at hj
      rw [hframe.host, hframe.realm]
      obtain ⟨hconforms', hknows''⟩ := h.jobs other j hj
      exact ⟨hconforms', hothers other j _ hne hknows''⟩
    · rw [hframe.host, hframe.realm]
      exact hnext

end TaskInvariant

end Node

end RestDiameterBridge
