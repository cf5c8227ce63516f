import RestDiameterBridge.Alarm
import RestDiameterBridge.Lib.Transition
import Mathlib.Data.List.Induction

/-!
# RestDiameterBridge.Transport.InboundAlarms

The alarms about inbound peers (`TcpServerConnection::new` in `src/transport/tcp_transport.rs`,
and the same task in `sctp_transport.rs`).

The task of a connection clears the alarm when the connection is up and raises it when it is
lost, both under the address the connection came from. `clear_iff` says in which runs no
peer that is up has an active alarm, and `clear_iff_sameAddress` says it of the events of a run
alone: all connections of a peer come from one address.
-/

namespace RestDiameterBridge

/-- A peer, by its host and realm. -/
structure Peer where
  peerHost : String
  peerRealm : String
  deriving Repr, DecidableEq

/-- A connection of a peer. -/
structure InboundConnection where
  /-- The address it came from. -/
  id : String
  /-- It has been added and its alarm cleared. -/
  setUp : Bool
  deriving Repr, DecidableEq

/-- The alarms and the connection of each peer. -/
structure InboundAlarms where
  alarmSender : AlarmSender
  connections : Peer → Option InboundConnection

namespace InboundAlarms

/-- What happens to the connection of a peer. -/
inductive Event
  | connect (peer : Peer) (peerAddr : String)
  | setUp (peer : Peer) (now : Nat)
  | disconnect (peer : Peer) (now : Nat)

/-- `TcpServerConnection::clear_alarm`. -/
def clearAlarm (alarmSender : AlarmSender) (now : Nat) (peer : Peer) (c : InboundConnection) :
    AlarmSender :=
  alarmSender.clearAlarm now c.id peer.peerHost peer.peerRealm

/-- `TcpServerConnection::raise_alarm` when the connection is lost. -/
def raiseAlarm (alarmSender : AlarmSender) (now : Nat) (peer : Peer) (c : InboundConnection) :
    AlarmSender :=
  alarmSender.raiseAlarm now c.id peer.peerHost peer.peerRealm
    ("Lost connection from diameter peer " ++ peer.peerHost ++ "@" ++ peer.peerRealm ++ " at " ++ c.id)

/-- A peer has one connection at a time. -/
def step (s : InboundAlarms) : Event → Option InboundAlarms
  | .connect peer peerAddr =>
      match s.connections peer with
      | none => some { s with
          connections := Function.update s.connections peer (some ⟨peerAddr, false⟩) }
      | some _ => none
  | .setUp peer now =>
      -- the capabilities have been exchanged
      match s.connections peer with
      | some ⟨id, false⟩ => some
          { alarmSender := clearAlarm s.alarmSender now peer ⟨id, false⟩
            connections := Function.update s.connections peer (some ⟨id, true⟩) }
      | _ => none
  | .disconnect peer now =>
      match s.connections peer with
      | some ⟨id, true⟩ => some
          { alarmSender := raiseAlarm s.alarmSender now peer ⟨id, true⟩
            connections := Function.update s.connections peer none }
      | _ => none

/-- No connections yet. -/
def start (alarmSender : AlarmSender) : InboundAlarms where
  alarmSender := alarmSender
  connections := fun _ => none

/-- The alarm is about the peer. -/
def About (peer : Peer) (alarm : Alarm) : Prop :=
  alarm.diameterHost = peer.peerHost ∧ alarm.diameterRealm = peer.peerRealm

/-- No alarm about the peer is active. -/
def NoAlarm (s : InboundAlarms) (peer : Peer) : Prop :=
  ∀ alarm ∈ s.alarmSender.store.getActiveAlarms, ¬About peer alarm

/-- No peer that is up has an active alarm. -/
def Clear (s : InboundAlarms) : Prop :=
  ∀ peer id, s.connections peer = some ⟨id, true⟩ → s.NoAlarm peer

/-- When a connection is set up, the active alarms about its peer have the id that the
connection clears. -/
def SameId (s : InboundAlarms) : Event → InboundAlarms → Prop
  | .setUp peer _, _ => ∀ id, s.connections peer = some ⟨id, false⟩ →
      ∀ alarm ∈ s.alarmSender.store.getActiveAlarms, About peer alarm →
        alarm.alarmId = peerAlarmId id peer.peerHost
  | _, _ => True

variable {s t : InboundAlarms} {l : Event}

/-- What can happen to a connection. -/
theorem step_cases (h : s.step l = some t) :
    (∃ peer peerAddr, l = .connect peer peerAddr ∧ s.connections peer = none ∧
      t = { s with connections := Function.update s.connections peer (some ⟨peerAddr, false⟩) }) ∨
    (∃ peer now id, l = .setUp peer now ∧ s.connections peer = some ⟨id, false⟩ ∧
      t = { alarmSender := clearAlarm s.alarmSender now peer ⟨id, false⟩
            connections := Function.update s.connections peer (some ⟨id, true⟩) }) ∨
    ∃ peer now id, l = .disconnect peer now ∧ s.connections peer = some ⟨id, true⟩ ∧
      t = { alarmSender := raiseAlarm s.alarmSender now peer ⟨id, true⟩
            connections := Function.update s.connections peer none } := by
  cases l with
  | connect peer peerAddr =>
    simp only [step] at h
    split at h
    next hnone => exact .inl ⟨peer, peerAddr, rfl, hnone, (Option.some.inj h).symm⟩
    · cases h
  | setUp peer now =>
    simp only [step] at h
    split at h
    next id hid => exact .inr (.inl ⟨peer, now, id, rfl, hid, (Option.some.inj h).symm⟩)
    · cases h
  | disconnect peer now =>
    simp only [step] at h
    split at h
    next id hid => exact .inr (.inr ⟨peer, now, id, rfl, hid, (Option.some.inj h).symm⟩)
    · cases h

theorem mem_clearAlarm {alarmSender : AlarmSender} {now : Nat} {peer : Peer}
    {c : InboundConnection} {alarm : Alarm} :
    alarm ∈ (clearAlarm alarmSender now peer c).store.getActiveAlarms ↔
      alarm ∈ alarmSender.store.getActiveAlarms ∧ alarm.alarmId ≠ peerAlarmId c.id peer.peerHost := by
  rw [clearAlarm, AlarmSender.clearAlarm, AlarmSender.sendAlarm_store,
    AlarmStore.mem_getActiveAlarms_clear]
  rfl

/-- The alarm of a lost connection. -/
def lost (now : Nat) (peer : Peer) (c : InboundConnection) : Alarm :=
  .new now c.id peer.peerHost peer.peerRealm .major
    ("Lost connection from diameter peer " ++ peer.peerHost ++ "@" ++ peer.peerRealm ++ " at " ++ c.id)

theorem mem_raiseAlarm {alarmSender : AlarmSender} {now : Nat} {peer : Peer}
    {c : InboundConnection} {alarm : Alarm} :
    alarm ∈ (raiseAlarm alarmSender now peer c).store.getActiveAlarms ↔
      alarm = lost now peer c ∨
        alarm ∈ alarmSender.store.getActiveAlarms ∧ alarm.alarmId ≠ (lost now peer c).alarmId := by
  rw [raiseAlarm, AlarmSender.raiseAlarm, AlarmSender.sendAlarm_store,
    AlarmStore.mem_getActiveAlarms_raise]
  rfl

theorem about_lost (now : Nat) (peer : Peer) (c : InboundConnection) :
    About peer (lost now peer c) := ⟨rfl, rfl⟩

theorem peer_eq_of_about {p q : Peer} {alarm : Alarm} (hp : About p alarm) (hq : About q alarm) :
    p = q := by
  obtain ⟨hphost, hprealm⟩ := hp
  obtain ⟨hqhost, hqrealm⟩ := hq
  cases p
  cases q
  simp_all

/-- A connection that comes in is not up yet. -/
theorem Clear.connect (hs : s.Clear) (peer : Peer) (peerAddr : String) :
    Clear { s with
      connections := Function.update s.connections peer (some ⟨peerAddr, false⟩) } := by
  intro other id hother
  by_cases hne : other = peer
  · simp [hne] at hother
  · replace hother := (Function.update_of_ne hne _ _).symm.trans hother
    exact hs other id hother

/-- A lost connection raises an alarm about its own peer only, which is up no more. -/
theorem Clear.disconnect (hs : s.Clear) (peer : Peer) (now : Nat) (c : InboundConnection) :
    Clear { alarmSender := raiseAlarm s.alarmSender now peer c
            connections := Function.update s.connections peer none } := by
  intro other id hother alarm halarm habout
  by_cases hne : other = peer
  · simp [hne] at hother
  · replace hother := (Function.update_of_ne hne _ _).symm.trans hother
    rcases mem_raiseAlarm.mp halarm with rfl | ⟨hbefore, -⟩
    · exact hne (peer_eq_of_about habout (about_lost now peer c))
    · exact hs other id hother alarm hbefore habout

/-- Setting a connection up clears the alarms about its peer if they all have its id. -/
theorem clear_setUp_iff (hs : s.Clear) (peer : Peer) (now : Nat) (c : InboundConnection) :
    Clear { alarmSender := clearAlarm s.alarmSender now peer c
            connections := Function.update s.connections peer (some ⟨c.id, true⟩) } ↔
      ∀ alarm ∈ s.alarmSender.store.getActiveAlarms, About peer alarm →
        alarm.alarmId = peerAlarmId c.id peer.peerHost := by
  constructor
  · intro hclear alarm halarm habout
    -- an alarm with another id is still there, and the peer is up
    by_contra hne
    exact hclear peer c.id (Function.update_self ..) alarm (mem_clearAlarm.mpr ⟨halarm, hne⟩) habout
  · intro hsame other id hother alarm halarm habout
    obtain ⟨hbefore, hne⟩ := mem_clearAlarm.mp halarm
    by_cases hpeer : other = peer
    · exact hne (hsame alarm hbefore (hpeer ▸ habout))
    · replace hother := (Function.update_of_ne hpeer _ _).symm.trans hother
      exact hs other id hother alarm hbefore habout

theorem clear_step_iff (hs : s.Clear) (h : s.step l = some t) : t.Clear ↔ SameId s l t := by
  obtain ⟨peer, peerAddr, rfl, -, rfl⟩ | ⟨peer, now, id, rfl, hid, rfl⟩ |
    ⟨peer, now, id, rfl, -, rfl⟩ := step_cases h
  · exact iff_of_true (hs.connect peer peerAddr) trivial
  · rw [clear_setUp_iff hs peer now ⟨id, false⟩]
    constructor
    · intro hsame id' hid'
      obtain rfl : id = id' := by simpa [hid] using hid'
      exact hsame
    · intro hsame
      exact hsame id hid
  · exact iff_of_true (hs.disconnect peer now ⟨id, true⟩) trivial

/-- No peer that is up ever has an active alarm, exactly in the runs in which each connection
is set up under the id of every active alarm about its peer. -/
theorem clear_iff (alarmSender : AlarmSender) (ls : List Event) :
    Transition.Always step (fun _ _ t => t.Clear) (start alarmSender) ls ↔
      Transition.Always step SameId (start alarmSender) ls := by
  refine Transition.always_congr (I := Clear) ?_ ?_ ?_
  · intro s l t hs hsame h
    exact (clear_step_iff hs h).mpr hsame
  · intro s l t hs h
    exact clear_step_iff hs h
  · intro peer id h
    cases h

/-! ### The addresses of a peer -/

/-- An alarm about the peer under an address. -/
def HasAlarm (s : InboundAlarms) (peer : Peer) (peerAddr : String) : Prop :=
  ∃ alarm ∈ s.alarmSender.store.getActiveAlarms,
    About peer alarm ∧ alarm.alarmId = peerAlarmId peerAddr peer.peerHost

/-- No two peers share the id of an alarm. -/
def OwnIds (ls : List Event) : Prop :=
  ∀ p q addr addr', .connect p addr ∈ ls → .connect q addr' ∈ ls →
    peerAlarmId addr p.peerHost = peerAlarmId addr' q.peerHost → p = q

/-- A peer has had one address. -/
def OneAddress (ls : List Event) (peer : Peer) : Prop :=
  ∀ addr addr', .connect peer addr ∈ ls → .connect peer addr' ∈ ls → addr = addr'

/-- Whenever a connection is set up, it and all that its peer had before came from one address. -/
def SameAddress (ls : List Event) : Prop :=
  ∀ past peer now, past ++ [.setUp peer now] <+: ls → OneAddress past peer

/-- What the events so far say about the alarms. -/
structure Follows (ls : List Event) (s : InboundAlarms) : Prop where
  known : ∀ peer c, s.connections peer = some c → .connect peer c.id ∈ ls
  raised : ∀ alarm ∈ s.alarmSender.store.getActiveAlarms, ∀ peer, About peer alarm →
    ∃ addr, .connect peer addr ∈ ls ∧ alarm.alarmId = peerAlarmId addr peer.peerHost
  up : ∀ peer id, s.connections peer = some ⟨id, true⟩ → OneAddress ls peer
  /-- A connection that is no more has left its alarm. -/
  down : ∀ peer, s.connections peer = none → ∀ addr, .connect peer addr ∈ ls → s.HasAlarm peer addr
  pending : ∀ peer id, s.connections peer = some ⟨id, false⟩ → ∀ addr, .connect peer addr ∈ ls →
    addr = id ∨ s.HasAlarm peer addr

variable {ls : List Event}

theorem peerAlarmId_inj {host addr addr' : String} :
    peerAlarmId addr host = peerAlarmId addr' host ↔ addr = addr' :=
  String.append_right_inj _

theorem OwnIds.of_snoc (h : OwnIds (ls ++ [l])) : OwnIds ls :=
  fun p q addr addr' hp hq => h p q addr addr' (by simp [hp]) (by simp [hq])

theorem sameAddress_snoc : SameAddress (ls ++ [l]) ↔
    SameAddress ls ∧ ∀ peer now, l = .setUp peer now → OneAddress ls peer := by
  constructor
  · intro h
    refine ⟨fun past peer now hpre => h past peer now (hpre.trans (List.prefix_append _ _)), ?_⟩
    rintro peer now rfl
    exact h ls peer now List.prefix_rfl
  · rintro ⟨hbefore, hlast⟩ past peer now hpre
    rcases List.prefix_concat_iff.mp hpre with heq | hpre
    · obtain ⟨rfl, hl⟩ := List.append_inj' heq rfl
      exact hlast peer now (List.cons.inj hl).1.symm
    · exact hbefore past peer now hpre

/-- Where a connection is set up, the alarms have its id exactly if its peer has had no other
address. -/
theorem Follows.sameId_iff (h : Follows ls s) (hstep : s.step l = some t) :
    SameId s l t ↔ ∀ peer now, l = .setUp peer now → OneAddress ls peer := by
  obtain ⟨peer, peerAddr, rfl, -, rfl⟩ | ⟨peer, now, id, rfl, hid, rfl⟩ |
    ⟨peer, now, id, rfl, -, rfl⟩ := step_cases hstep
  · exact iff_of_true trivial fun _ _ heq => by cases heq
  · have hone : OneAddress ls peer ↔ ∀ addr, .connect peer addr ∈ ls → addr = id :=
      ⟨fun hone addr haddr => hone addr id haddr (h.known peer _ hid),
        fun hall addr addr' haddr haddr' => (hall addr haddr).trans (hall addr' haddr').symm⟩
    have hsetUp : (∀ peer' now', Event.setUp peer now = .setUp peer' now' → OneAddress ls peer') ↔
        OneAddress ls peer :=
      ⟨fun hall => hall peer now rfl, fun hall peer' now' heq => by cases heq; exact hall⟩
    rw [hsetUp, hone]
    constructor
    · intro hsame addr haddr
      rcases h.pending peer id hid addr haddr with heq | ⟨alarm, halarm, habout, halarmId⟩
      · exact heq
      · exact peerAlarmId_inj.mp (halarmId.symm.trans (hsame id hid alarm halarm habout))
    · intro hall id' hid' alarm halarm habout
      obtain rfl : id = id' := by simpa [hid] using hid'
      obtain ⟨addr, haddr, halarmId⟩ := h.raised alarm halarm peer habout
      rw [halarmId, hall addr haddr]
  · exact iff_of_true trivial fun _ _ heq => by cases heq

/-- An alarm stays when another id is cleared. -/
theorem HasAlarm.clear {peer : Peer} {addr : String} (h : s.HasAlarm peer addr) {now : Nat}
    {other : Peer} {c : InboundConnection} {connections : Peer → Option InboundConnection}
    (hne : peerAlarmId addr peer.peerHost ≠ peerAlarmId c.id other.peerHost) :
    HasAlarm ⟨clearAlarm s.alarmSender now other c, connections⟩ peer addr := by
  obtain ⟨alarm, halarm, habout, halarmId⟩ := h
  exact ⟨alarm, mem_clearAlarm.mpr ⟨halarm, halarmId ▸ hne⟩, habout, halarmId⟩

theorem HasAlarm.raise {peer : Peer} {addr : String} (h : s.HasAlarm peer addr) {now : Nat}
    {other : Peer} {c : InboundConnection} {connections : Peer → Option InboundConnection}
    (hne : peerAlarmId addr peer.peerHost ≠ peerAlarmId c.id other.peerHost) :
    HasAlarm ⟨raiseAlarm s.alarmSender now other c, connections⟩ peer addr := by
  obtain ⟨alarm, halarm, habout, halarmId⟩ := h
  exact ⟨alarm, mem_raiseAlarm.mpr (.inr ⟨halarm, halarmId ▸ hne⟩), habout, halarmId⟩

theorem Follows.connect {peer : Peer} {peerAddr : String} (h : Follows ls s)
    (hnone : s.connections peer = none) :
    Follows (ls ++ [.connect peer peerAddr]) { s with
      connections := Function.update s.connections peer (some ⟨peerAddr, false⟩) } := by
  have hother : ∀ {q addr}, q ≠ peer → .connect q addr ∈ ls ++ [.connect peer peerAddr] →
      .connect q addr ∈ ls := fun hne hmem => by simpa [hne] using hmem
  refine ⟨fun q c hc => ?_, fun alarm halarm q habout => ?_, fun q id hid => ?_,
    fun q hq addr haddr => ?_, fun q id hid addr haddr => ?_⟩
  · by_cases hne : q = peer
    · obtain rfl := hne
      obtain rfl : (⟨peerAddr, false⟩ : InboundConnection) = c := by simpa using hc
      simp
    · exact List.mem_append_left _ (h.known q c ((Function.update_of_ne hne _ _).symm.trans hc))
  · obtain ⟨addr, haddr, halarmId⟩ := h.raised alarm halarm q habout
    exact ⟨addr, List.mem_append_left _ haddr, halarmId⟩
  · by_cases hne : q = peer
    · simp [hne] at hid
    · have hup := h.up q id ((Function.update_of_ne hne _ _).symm.trans hid)
      exact fun addr addr' haddr haddr' => hup addr addr' (hother hne haddr) (hother hne haddr')
  · by_cases hne : q = peer
    · simp [hne] at hq
    · exact h.down q ((Function.update_of_ne hne _ _).symm.trans hq) addr (hother hne haddr)
  · by_cases hne : q = peer
    · obtain rfl := hne
      obtain rfl : peerAddr = id := by simpa using hid
      rcases List.mem_append.mp haddr with hbefore | hnew
      · exact .inr (h.down q hnone addr hbefore)
      · exact .inl (by simpa using hnew)
    · exact h.pending q id ((Function.update_of_ne hne _ _).symm.trans hid) addr (hother hne haddr)

theorem Follows.setUp {peer : Peer} {now : Nat} {id : String} (h : Follows ls s)
    (hids : OwnIds ls) (hid : s.connections peer = some ⟨id, false⟩) (hone : OneAddress ls peer) :
    Follows (ls ++ [.setUp peer now])
      ⟨clearAlarm s.alarmSender now peer ⟨id, false⟩,
        Function.update s.connections peer (some ⟨id, true⟩)⟩ := by
  have hmem : ∀ {q addr}, .connect q addr ∈ ls ++ [.setUp peer now] ↔ .connect q addr ∈ ls := by simp
  have hkeeps : ∀ {q addr}, q ≠ peer → .connect q addr ∈ ls → s.HasAlarm q addr →
      HasAlarm ⟨clearAlarm s.alarmSender now peer ⟨id, false⟩,
        Function.update s.connections peer (some ⟨id, true⟩)⟩ q addr := fun hne haddr halarm =>
    halarm.clear fun heq => hne (hids _ _ _ _ haddr (h.known peer _ hid) heq)
  refine ⟨fun q c hc => hmem.mpr ?_, fun alarm halarm q habout => ?_, fun q id' hid' => ?_,
    fun q hq addr haddr => ?_, fun q id' hid' addr haddr => ?_⟩
  · by_cases hne : q = peer
    · obtain rfl := hne
      obtain rfl : (⟨id, true⟩ : InboundConnection) = c := by simpa using hc
      have hknown : .connect q id ∈ ls := h.known q _ hid
      exact hknown
    · exact h.known q c ((Function.update_of_ne hne _ _).symm.trans hc)
  · obtain ⟨addr, haddr, halarmId⟩ := h.raised alarm (mem_clearAlarm.mp halarm).1 q habout
    exact ⟨addr, hmem.mpr haddr, halarmId⟩
  · have hall : OneAddress ls q := by
      by_cases hne : q = peer
      · exact hne ▸ hone
      · exact h.up q id' ((Function.update_of_ne hne _ _).symm.trans hid')
    exact fun addr addr' haddr haddr' => hall addr addr' (hmem.mp haddr) (hmem.mp haddr')
  · by_cases hne : q = peer
    · simp [hne] at hq
    · exact hkeeps hne (hmem.mp haddr)
        (h.down q ((Function.update_of_ne hne _ _).symm.trans hq) addr (hmem.mp haddr))
  · by_cases hne : q = peer
    · simp [hne] at hid'
    · exact (h.pending q id' ((Function.update_of_ne hne _ _).symm.trans hid') addr
        (hmem.mp haddr)).imp_right (hkeeps hne (hmem.mp haddr))

theorem Follows.disconnect {peer : Peer} {now : Nat} {id : String} (h : Follows ls s)
    (hids : OwnIds ls) (hid : s.connections peer = some ⟨id, true⟩) :
    Follows (ls ++ [.disconnect peer now])
      ⟨raiseAlarm s.alarmSender now peer ⟨id, true⟩, Function.update s.connections peer none⟩ := by
  have hmem : ∀ {q addr}, .connect q addr ∈ ls ++ [.disconnect peer now] ↔ .connect q addr ∈ ls := by
    simp
  have hkeeps : ∀ {q addr}, q ≠ peer → .connect q addr ∈ ls → s.HasAlarm q addr →
      HasAlarm ⟨raiseAlarm s.alarmSender now peer ⟨id, true⟩,
        Function.update s.connections peer none⟩ q addr := fun hne haddr halarm =>
    halarm.raise fun heq => hne (hids _ _ _ _ haddr (h.known peer _ hid) heq)
  refine ⟨fun q c hc => hmem.mpr ?_, fun alarm halarm q habout => ?_, fun q id' hid' => ?_,
    fun q hq addr haddr => ?_, fun q id' hid' addr haddr => ?_⟩
  · by_cases hne : q = peer
    · simp [hne] at hc
    · exact h.known q c ((Function.update_of_ne hne _ _).symm.trans hc)
  · rcases mem_raiseAlarm.mp halarm with rfl | ⟨hbefore, -⟩
    · obtain rfl := peer_eq_of_about habout (about_lost now peer ⟨id, true⟩)
      exact ⟨id, hmem.mpr (h.known q _ hid), rfl⟩
    · obtain ⟨addr, haddr, halarmId⟩ := h.raised alarm hbefore q habout
      exact ⟨addr, hmem.mpr haddr, halarmId⟩
  · by_cases hne : q = peer
    · simp [hne] at hid'
    · have hup := h.up q id' ((Function.update_of_ne hne _ _).symm.trans hid')
      exact fun addr addr' haddr haddr' => hup addr addr' (hmem.mp haddr) (hmem.mp haddr')
  · by_cases hne : q = peer
    · -- the peer has had no other address than this
      obtain rfl := hne
      obtain rfl := h.up q id hid addr id (hmem.mp haddr) (h.known q _ hid)
      exact ⟨lost now q ⟨addr, true⟩, mem_raiseAlarm.mpr (.inl rfl), about_lost _ _ _, rfl⟩
    · exact hkeeps hne (hmem.mp haddr)
        (h.down q ((Function.update_of_ne hne _ _).symm.trans hq) addr (hmem.mp haddr))
  · by_cases hne : q = peer
    · simp [hne] at hid'
    · exact (h.pending q id' ((Function.update_of_ne hne _ _).symm.trans hid') addr
        (hmem.mp haddr)).imp_right (hkeeps hne (hmem.mp haddr))

theorem Follows.step (h : Follows ls s) (hids : OwnIds ls) (hstep : s.step l = some t)
    (hsame : SameId s l t) : Follows (ls ++ [l]) t := by
  have hone := (h.sameId_iff hstep).mp hsame
  obtain ⟨peer, peerAddr, rfl, hnone, rfl⟩ | ⟨peer, now, id, rfl, hid, rfl⟩ |
    ⟨peer, now, id, rfl, hid, rfl⟩ := step_cases hstep
  · exact h.connect hnone
  · exact h.setUp hids hid (hone peer now rfl)
  · exact h.disconnect hids hid

theorem follows_of_run {alarmSender : AlarmSender}
    (hnone : alarmSender.store.getActiveAlarms = []) (hids : OwnIds ls)
    (hrun : Transition.run step (start alarmSender) ls = some s) (hsame : SameAddress ls) :
    s.Clear ∧ Follows ls s := by
  induction ls using List.reverseRecOn generalizing s with
  | nil =>
    obtain rfl := Option.some.inj hrun
    have hno : ∀ peer c, (start alarmSender).connections peer ≠ some c := fun _ _ h => by cases h
    refine ⟨fun peer id h => absurd h (hno peer _), fun peer c h => absurd h (hno peer c),
      fun alarm halarm => ?_, fun peer id h => absurd h (hno peer _),
      fun _ _ _ haddr => absurd haddr List.not_mem_nil, fun peer id h => absurd h (hno peer _)⟩
    simp [start, hnone] at halarm
  | append_singleton ls l ih =>
    rw [Transition.run_snoc] at hrun
    obtain ⟨u, hu, hstep⟩ := Option.bind_eq_some_iff.mp hrun
    obtain ⟨hbefore, hlast⟩ := sameAddress_snoc.mp hsame
    obtain ⟨hclear, hfollows⟩ := ih hids.of_snoc hu hbefore
    have hid := (hfollows.sameId_iff hstep).mpr hlast
    exact ⟨(clear_step_iff hclear hstep).mpr hid, hfollows.step hids.of_snoc hstep hid⟩

/-- From a store without alarms, and where no two peers share the id of an alarm, no peer that is
up has one exactly in the runs in which all connections of a peer come from one address. -/
theorem clear_iff_sameAddress {alarmSender : AlarmSender}
    (hnone : alarmSender.store.getActiveAlarms = []) (hids : OwnIds ls)
    (hrun : Transition.run step (start alarmSender) ls = some s) :
    Transition.Always step (fun _ _ t => t.Clear) (start alarmSender) ls ↔ SameAddress ls := by
  induction ls using List.reverseRecOn generalizing s with
  | nil =>
    refine iff_of_true trivial fun past peer now hpre => ?_
    exact absurd (List.prefix_nil.mp hpre) (by simp)
  | append_singleton ls l ih =>
    rw [Transition.run_snoc] at hrun
    obtain ⟨u, hu, hstep⟩ := Option.bind_eq_some_iff.mp hrun
    rw [Transition.always_snoc, sameAddress_snoc, ih hids.of_snoc hu]
    refine and_congr_right fun hbefore => ?_
    obtain ⟨hclear, hfollows⟩ := follows_of_run hnone hids.of_snoc hu hbefore
    rw [← hfollows.sameId_iff hstep, ← clear_step_iff hclear hstep]
    constructor
    · exact fun hall => hall u s hu hstep
    · intro hs u' t hu' hstep'
      obtain rfl := Option.some.inj (hu.symm.trans hu')
      obtain rfl := Option.some.inj (hstep.symm.trans hstep')
      exact hs

def peer1 : Peer := ⟨"peer1", "realm"⟩

def noAlarms : AlarmSender where
  url := none
  store := .new ⟨∅, []⟩ 0
  sent := []

def reconnect : List Event :=
  [.connect peer1 "10.0.0.1:4001", .setUp peer1 0, .disconnect peer1 1,
    .connect peer1 "10.0.0.1:4002", .setUp peer1 2]

/-- A peer comes back from another port, and the alarm of its lost connection stays. -/
theorem not_clear_reconnect :
    ¬∀ (alarmSender : AlarmSender) (ls : List Event),
      Transition.Always step (fun _ _ t => t.Clear) (start alarmSender) ls := by
  intro h
  have hrun := h noAlarms reconnect
  simp only [reconnect, Transition.Always, step, start, Function.update_self, Option.some.injEq,
    forall_eq', Function.update_idem] at hrun
  have hclear := hrun.2.2.2.2.1 peer1 "10.0.0.1:4002" (by simp)
  refine hclear (lost 1 peer1 ⟨"10.0.0.1:4001", true⟩) ?_ (about_lost _ _ _)
  refine mem_clearAlarm.mpr ⟨mem_raiseAlarm.mpr (.inl rfl), ?_⟩
  decide

end InboundAlarms

end RestDiameterBridge
