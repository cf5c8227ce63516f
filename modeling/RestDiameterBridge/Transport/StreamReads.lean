import Mathlib.Data.Fintype.Basic
import RestDiameterBridge.Transport.ClientStreams

/-!
# RestDiameterBridge.Transport.StreamReads

What the peer reads off the streams of a TCP client, with the read loop of the bridge
(`CommandBuffer`), however the bytes are cut on the way.

A stream carries its commands one behind the other as long as no write was cut off; the one
under way is at its end. `feed_of_whole` reads such a stream. `Tidy` is what the steps keep that
neither cut a write off (`Cuts`) nor replace the writer under a task that has been let write
(`Overtakes`), and `read_by_peer` puts the two together.
-/

namespace RestDiameterBridge

open Program Transition

/-! ### Reading a stream -/

/-- The command arrives as it was made, up to what is not sent of its AVPs. -/
structure Command.Sendable (c : Command) : Prop where
  code : c.code.toNat < 2 ^ 24
  avps : ∀ a ∈ c.avps, RestDiameterBridge.Arrives a
  size : c.encode.length < 2 ^ 24

theorem Command.Sendable.isFrame {c : Command} (h : c.Sendable) :
    CommandBuffer.commandFraming.IsFrame c.encode c.received :=
  isFrame_received h.code h.avps h.size

/-- Commands of plain values arrive. -/
theorem Command.sendable_of_plain {c : Command} (hcode : c.code.toNat < 2 ^ 24)
    (havps : ∀ a ∈ c.avps, a.data.isSome ∧ (a.flags &&& 0x80) = 0)
    (hsize : c.encode.length < 2 ^ 24) : c.Sendable := by
  refine ⟨hcode, fun a ha => ?_, hsize⟩
  obtain ⟨hdata, hflags⟩ := havps a ha
  have hvendor : (a.flags &&& 0x80 != 0) = true → a.vendorId.isSome = true := by simp [hflags]
  refine arrives_of_mem ?_ hvendor hsize ha
  match a, hdata, hvendor with
  | ⟨_, _, _, some data, _⟩, _, hvendor => exact Avp.Counted.scalar hvendor

section
variable {τ : Type} {stream : PeerStream τ}

theorem StreamWrite.bytes_of_whole {w : StreamWrite τ} (h : w.Whole) :
    w.bytes = w.command.encode :=
  List.take_of_length_le h

theorem StreamWrite.not_complete_bytes {w : StreamWrite τ} (hsendable : w.command.Sendable)
    (h : ¬w.Whole) : ¬CommandBuffer.commandFraming.Complete w.bytes := by
  rw [Whole, Nat.not_le] at h
  have hlength : w.bytes.length < w.command.encode.length := by
    rw [StreamWrite.bytes, List.length_take]
    omega
  exact hsendable.isFrame.not_complete_of_prefix (List.take_append_drop _ _).symm hlength

theorem flatMap_bytes {writes : List (StreamWrite τ)} (h : ∀ w ∈ writes, w.Whole) :
    writes.flatMap StreamWrite.bytes = (writes.map fun w => w.command.encode).flatten := by
  rw [List.flatMap_def]
  exact congrArg List.flatten (List.map_congr_left fun w hw => StreamWrite.bytes_of_whole (h w hw))

/-- The whole commands are in front, and behind them is less than a command. -/
theorem PeerStream.Sound.bytes_eq (h : stream.Sound) (hwhole : ∀ w ∈ stream.writes, w.Whole)
    (hsendable : ∀ w ∈ stream.begun, w.command.Sendable) :
    ∃ rest, stream.bytes =
        ((stream.begun.filter fun w => w.Whole).map fun w => w.command.encode).flatten ++ rest ∧
      ¬CommandBuffer.commandFraming.Complete rest := by
  have hwrites : (stream.writes.filter fun w => w.Whole) = stream.writes :=
    List.filter_eq_self.mpr fun w hw => by simpa using hwhole w hw
  rw [h.bytes]
  rw [begun] at hsendable ⊢
  rw [List.flatMap_append, List.filter_append, hwrites, List.map_append, List.flatten_append,
    flatMap_bytes hwhole]
  cases hcurrent : stream.current with
  | none => exact ⟨[], by simp, Framing.not_complete_nil⟩
  | some w =>
    by_cases hw : w.Whole
    · refine ⟨[], ?_, Framing.not_complete_nil⟩
      simp [hw, StreamWrite.bytes_of_whole hw]
    · refine ⟨w.bytes, ?_, StreamWrite.not_complete_bytes (hsendable w (by simp [hcurrent])) hw⟩
      simp [hw]

/-- **The read loop takes the whole commands off the stream**, in the order of their locks and
however the stream is cut into chunks. -/
theorem PeerStream.Sound.feed_eq (h : stream.Sound) (hwhole : ∀ w ∈ stream.writes, w.Whole)
    (hsendable : ∀ w ∈ stream.begun, w.command.Sendable) {chunks : List (List UInt8)}
    (hchunks : chunks.flatten = stream.bytes) :
    (CommandBuffer.new.feed chunks).1 =
      (stream.begun.filter fun w => w.Whole).map fun w => w.command.received := by
  obtain ⟨rest, hbytes, hrest⟩ := h.bytes_eq hwhole hsendable
  have hframes : List.Forall₂ CommandBuffer.commandFraming.IsFrame
      ((stream.begun.filter fun w => w.Whole).map fun w => w.command.encode)
      ((stream.begun.filter fun w => w.Whole).map fun w => w.command.received) := by
    rw [List.forall₂_map_left_iff, List.forall₂_map_right_iff, List.forall₂_same]
    exact fun w hw => (hsendable w (List.mem_of_mem_filter hw)).isFrame
  have hfeed := Framing.feed_flatten_append hframes hrest Framing.not_complete_nil
    (hchunks.trans hbytes)
  rw [CommandBuffer.feed_eq, CommandBuffer.new, hfeed]

/-- The first whole command on a sound stream is a CER, unless a task was let write before. -/
theorem PeerStream.Sound.head_eq (h : stream.Sound)
    (hfresh : ∀ w ∈ stream.begun, w.task.isSome → stream.number < w.opened) {w : StreamWrite τ}
    (hw : w ∈ (stream.begun.filter fun w => w.Whole).head?) :
    w.command.code = CommandCode.capabilitiesExchange.asU32 := by
  obtain ⟨writes, hfilter⟩ : ∃ writes, (stream.begun.filter fun w => w.Whole) = w :: writes :=
    List.head?_eq_some_iff.mp hw
  obtain ⟨before, after, hbegun, hbefore, -, -⟩ := List.filter_eq_cons_iff.mp hfilter
  have hmem : w ∈ stream.begun := by rw [hbegun]; simp
  rcases h.orderly before w after hbegun with ⟨hother, hstale⟩ | hcode | ⟨⟨cer, hcer, -, hout⟩, -⟩
  · exact absurd (hfresh w hmem hother) (Nat.not_lt.mpr hstale)
  · exact hcode
  · exact absurd hout (by simpa using hbefore cer hcer)

/-- In front of the CEA there are only CERs and the DPR that gives the stream up. -/
theorem PeerStream.Sound.code_of_not_accepted (h : stream.Sound)
    (hfresh : ∀ w ∈ stream.begun, w.task.isSome → stream.number < w.opened)
    (haccepted : stream.accepted = false) {w : StreamWrite τ} (hw : w ∈ stream.begun) :
    w.command.code = CommandCode.capabilitiesExchange.asU32 ∨
      w.task = none ∧ w.command.code = CommandCode.disconnectPeer.asU32 := by
  obtain ⟨before, after, hbegun⟩ := List.append_of_mem hw
  rcases h.orderly before w after hbegun with ⟨hother, hstale⟩ | hcode | ⟨-, hin | hdpr⟩
  · exact absurd (hfresh w hw hother) (Nat.not_lt.mpr hstale)
  · exact .inl hcode
  · cases haccepted.symm.trans (h.session w hw hin)
  · exact .inr hdpr

end

/-! ### Runs -/

def Call.isWrite : Call → Bool
  | .write _ => true
  | _ => false

namespace ClientStreams

variable {τ : Type} {s s' : ClientStreams τ}

/-- The step lets go of the lock in front of the last byte: a write fails, or a `timeout` drops
its task. -/
def Cuts (s : ClientStreams τ) : Label τ → Prop
  | .leave task => ∃ w ∈ s.writing, w.task = some task ∧ ¬w.Whole
  | .own (.reply _) => s.ownCall.any Call.isWrite ∧ ∃ w ∈ s.writing, ¬w.Whole
  | _ => False

/-- The writer is replaced under a task that has been let write. -/
def Overtakes (s : ClientStreams τ) : Label τ → Prop
  | .replace => ∃ task, (s.senders task).isSome
  | _ => False

instance [DecidableEq τ] : DecidablePred s.Cuts
  | .leave task => inferInstanceAs (Decidable (∃ w ∈ s.writing, w.task = some task ∧ ¬w.Whole))
  | .own (.reply _) => inferInstanceAs (Decidable (_ ∧ ∃ w ∈ s.writing, ¬w.Whole))
  | .own (.connect _) | .own .wake | .own (.secure _) | .own (.sendCer _)
  | .own (.receiveCea ..) | .own .panic | .own .cerTimeout | .own .tick | .own (.read _) | .replace
  | .send .. | .lock _ | .write _ =>
    inferInstanceAs (Decidable False)

instance [Fintype τ] : DecidablePred s.Overtakes
  | .replace => inferInstanceAs (Decidable (∃ task, (s.senders task).isSome))
  | .own _ | .send .. | .lock _ | .write _ | .leave _ => inferInstanceAs (Decidable False)

/-- No write was cut off, and nobody was let write on an earlier stream. -/
structure Tidy (s : ClientStreams τ) : Prop where
  whole : ∀ stream ∈ s.streams, ∀ w ∈ stream.writes, w.Whole
  fresh : ∀ stream ∈ s.streams, ∀ w ∈ stream.begun, w.task.isSome → stream.number < w.opened
  senders : ∀ {task command opened}, s.senders task = some (command, opened) →
    opened = s.streams.length

section
variable {stream stream' : PeerStream τ} {earlier : List (PeerStream τ)}

theorem Tidy.setStream (h : s.Tidy) (hstreams : s.streams = stream :: earlier)
    (hwhole : ∀ w ∈ stream'.writes, w.Whole)
    (hfresh : ∀ w ∈ stream'.begun, w.task.isSome → stream'.number < w.opened) :
    ({ s with streams := stream' :: earlier } : ClientStreams τ).Tidy := by
  have hlength : s.streams.length = (stream' :: earlier).length := by rw [hstreams]; rfl
  refine ⟨fun other hother => ?_, fun other hother => ?_, fun hsender =>
    (h.senders hsender).trans hlength⟩
  · rcases List.mem_cons.mp hother with rfl | hother
    · exact hwhole
    · exact h.whole other (by rw [hstreams]; exact List.mem_cons_of_mem _ hother)
  · rcases List.mem_cons.mp hother with rfl | hother
    · exact hfresh
    · exact h.fresh other (by rw [hstreams]; exact List.mem_cons_of_mem _ hother)

theorem runCer_tidy (h : s.Tidy) {task : Proc (OrPanic (Except String Unit))}
    (hrun : s.runCer task = some s') : s'.Tidy := by
  match task with
  | .ret none =>
    obtain rfl := Option.some.inj hrun
    exact ⟨h.whole, h.fresh, h.senders⟩
  | .ret (some result) =>
    obtain ⟨client, -, rfl⟩ := Option.map_eq_some_iff.mp hrun
    exact ⟨h.whole, h.fresh, h.senders⟩
  | .call c next =>
    obtain rfl := Option.some.inj hrun
    exact ⟨h.whole, h.fresh, h.senders⟩

theorem runClose_tidy (h : s.Tidy) (task : Proc (Except String Unit)) :
    (s.runClose task).Tidy := by
  match task with
  | .ret result => exact ⟨h.whole, h.fresh, h.senders⟩
  | .call c next => exact ⟨h.whole, h.fresh, h.senders⟩

theorem follow_tidy (h : s.Tidy) {client : TcpClient} (hfollow : s.follow client = some s') :
    s'.Tidy := by
  rw [follow] at hfollow
  split at hfollow
  · obtain ⟨stream, earlier, stream', hstreams, haccept, rfl⟩ := onStream_eq_some hfollow
    obtain rfl := Option.some.inj haccept
    have hmem : stream ∈ s.streams := by
      rw [show s.streams = stream :: earlier from hstreams]
      exact List.mem_cons_self
    have htidy : ({ s with streams := stream.accept :: earlier } : ClientStreams τ).Tidy :=
      h.setStream hstreams (h.whole stream hmem) (h.fresh stream hmem)
    exact ⟨htidy.whole, htidy.fresh, htidy.senders⟩
  · obtain rfl := Option.some.inj hfollow
    have hgone : ({ s with client } : ClientStreams τ).Tidy := ⟨h.whole, h.fresh, h.senders⟩
    exact runClose_tidy hgone _
  · obtain rfl := Option.some.inj hfollow
    exact ⟨h.whole, h.fresh, h.senders⟩
  · obtain rfl := Option.some.inj hfollow
    exact ⟨h.whole, h.fresh, h.senders⟩

theorem resume_tidy (h : s.Tidy) {answer : (c : Call) → c.Reply}
    (hresume : s.resume answer = some s') : s'.Tidy := by
  rw [resume] at hresume
  split at hresume
  · exact runCer_tidy h hresume
  · obtain rfl := Option.some.inj hresume
    exact runClose_tidy h _
  · obtain ⟨client, -, hfollow⟩ := Option.bind_eq_some_iff.mp hresume
    exact follow_tidy h hfollow
  · cases hresume

/-- The lock is let go of behind the last byte. -/
theorem unlock_tidy (h : s.Tidy) (hwhole : ∀ w ∈ s.writing, w.Whole)
    (hunlock : s.onStream (fun stream => some stream.unlock) = some s') : s'.Tidy := by
  obtain ⟨stream, earlier, stream', hstreams, hunlocked, rfl⟩ := onStream_eq_some hunlock
  obtain rfl := Option.some.inj hunlocked
  have hmem : stream ∈ s.streams := by rw [hstreams]; exact List.mem_cons_self
  refine h.setStream hstreams ?_ (by rw [PeerStream.begun_unlock]; exact h.fresh stream hmem)
  refine List.forall_mem_append.mpr ⟨h.whole stream hmem, fun w hw => hwhole w ?_⟩
  rw [writing, hstreams]
  exact Option.mem_toList.mp hw

theorem lock_tidy (h : s.Tidy) {task : Option τ} {command : Command} {opened : Nat}
    (hfresh : task.isSome → ∀ stream ∈ s.streams.head?, stream.number < opened)
    (hlock : s.onStream (fun stream => stream.lock task command opened) = some s') : s'.Tidy := by
  obtain ⟨stream, earlier, stream', hstreams, hlocked, rfl⟩ := onStream_eq_some hlock
  have hmem : stream ∈ s.streams := by rw [hstreams]; exact List.mem_cons_self
  have hbegun := h.fresh stream hmem
  obtain ⟨hfree, rfl⟩ := PeerStream.lock_eq_some hlocked
  refine h.setStream hstreams (h.whole stream hmem) (List.forall_mem_append.mpr ⟨?_, ?_⟩)
  · rw [PeerStream.begun, hfree] at hbegun
    exact (List.forall_mem_append.mp hbegun).1
  · exact List.forall_mem_singleton.mpr fun htask => hfresh htask stream (by rw [hstreams]; rfl)

theorem reply_tidy (h : s.Tidy) {answer : (c : Call) → c.Reply}
    (hcuts : ∀ command, s.ownCall = some (.write command) → ∀ w ∈ s.writing, w.Whole)
    (hreply : s.reply answer = some s') : s'.Tidy := by
  rw [reply] at hreply
  split at hreply
  · rename_i command hcall
    split at hreply
    · split at hreply
      · cases hreply
      · obtain ⟨t, hunlock, hresume⟩ := Option.bind_eq_some_iff.mp hreply
        exact resume_tidy (unlock_tidy h (hcuts command hcall) hunlock) hresume
    · cases hreply
  · split at hreply
    · exact resume_tidy h hreply
    · cases hreply
  · exact resume_tidy h hreply
  · cases hreply

variable [DecidableEq τ]

/-- A sender comes or goes. -/
theorem Tidy.setSender (h : s.Tidy) (task : τ) {sender : Option (Command × Nat)}
    (hsender : ∀ command opened, sender = some (command, opened) → opened = s.streams.length) :
    ({ s with senders := Function.update s.senders task sender } : ClientStreams τ).Tidy := by
  refine ⟨h.whole, h.fresh, ?_⟩
  intro other command opened hother
  change Function.update s.senders task sender other = _ at hother
  by_cases hsame : other = task
  · rw [hsame, Function.update_self] at hother
    exact hsender command opened hother
  · rw [Function.update_of_ne hsame] at hother
    exact h.senders hother

theorem step_tidy {l : Label τ} (hinv : s.Inv) (h : s.Tidy) (hcuts : ¬s.Cuts l)
    (hovertakes : ¬s.Overtakes l) (hstep : s.step l = some s') : s'.Tidy := by
  unfold step at hstep
  split at hstep
  case h_1 answer =>
    refine reply_tidy h (fun command hcall w hw => ?_) hstep
    by_contra hcut
    exact hcuts ⟨by rw [hcall]; rfl, w, hw, hcut⟩
  case h_2 => cases hstep
  case h_3 =>
    split at hstep
    · split at hstep
      · cases hstep
      · obtain ⟨client, -, hfollow⟩ := Option.bind_eq_some_iff.mp hstep
        exact follow_tidy h hfollow
    · split at hstep
      · cases hstep
      · obtain rfl := Option.some.inj hstep
        exact ⟨h.whole, h.fresh, h.senders⟩
    · cases hstep
  case h_4 =>
    split at hstep
    · obtain ⟨client, -, hfollow⟩ := Option.bind_eq_some_iff.mp hstep
      exact follow_tidy h hfollow
    · cases hstep
  case h_5 =>
    split at hstep
    · have hnone : ∀ task, s.senders task = none := fun task => by
        by_contra hsome
        exact hovertakes ⟨task, Option.isSome_iff_ne_none.mpr hsome⟩
      have htidy :
          ({ s with streams := .new s.streams.length :: s.streams } : ClientStreams τ).Tidy := by
        refine ⟨fun stream hstream => ?_, fun stream hstream => ?_, fun {task} _ _ hsender => ?_⟩
        · rcases List.mem_cons.mp hstream with rfl | hstream
          · exact nofun
          · exact h.whole stream hstream
        · rcases List.mem_cons.mp hstream with rfl | hstream
          · exact nofun
          · exact h.fresh stream hstream
        · cases (hnone task).symm.trans hsender
      exact runCer_tidy htidy hstep
    · cases hstep
  case h_6 task command =>
    split at hstep
    · obtain rfl := Option.some.inj hstep
      exact h.setSender task fun _ _ heq => (Prod.mk.inj (Option.some.inj heq)).2.symm
    · cases hstep
  case h_7 =>
    split at hstep
    · exact lock_tidy h (fun hnone => absurd hnone (by simp)) hstep
    · cases hstep
  case h_8 task =>
    split at hstep
    · rename_i command opened hsender
      refine lock_tidy h (fun _ stream hstream => ?_) hstep
      have hnumber := hinv.number stream hstream
      have hopened := h.senders hsender
      omega
    · cases hstep
  case h_9 n =>
    obtain ⟨stream, earlier, stream', hstreams, hpush, rfl⟩ := onStream_eq_some hstep
    have hmem : stream ∈ s.streams := by rw [hstreams]; exact List.mem_cons_self
    have hbegun := h.fresh stream hmem
    obtain ⟨w, hcurrent, rfl⟩ := PeerStream.push_eq_some hpush
    rw [PeerStream.begun, hcurrent, Option.toList_some, List.forall_mem_append,
      List.forall_mem_singleton] at hbegun
    exact h.setStream hstreams (h.whole stream hmem)
      (List.forall_mem_append.mpr ⟨hbegun.1, List.forall_mem_singleton.mpr hbegun.2⟩)
  case h_10 task =>
    have hleft :
        ({ s with senders := Function.update s.senders task none } : ClientStreams τ).Tidy :=
      h.setSender task fun _ _ hnone => by cases hnone
    dsimp only at hstep
    split at hstep
    · rename_i hheld
      refine unlock_tidy hleft (fun w hw => ?_) hstep
      have hw' : s.writing = some w := hw
      rw [hw', Option.any_some, decide_eq_true_eq] at hheld
      by_contra hcut
      exact hcuts ⟨w, hw', hheld, hcut⟩
    · obtain rfl := Option.some.inj hstep
      exact hleft

/-- **What the peer reads off a stream**: in every run in which no write is cut off and no writer
is replaced under a task that has been let write, the peer reads the whole commands of the stream,
in the order of their locks and however the bytes are cut into chunks; the first one is a CER,
and until the CEA is accepted there is nothing behind it but CERs and the DPR of the client. -/
theorem read_by_peer (config : DiameterClient) (ctx : CommandProcessorContext)
    (settings : SendSettings) (tls : Bool) {labels : List (Label τ)}
    (hrun : run step (new config ctx settings tls) labels = some s)
    (hsteps : Always step (fun s l _ => ¬s.Cuts l ∧ ¬s.Overtakes l) (new config ctx settings tls)
      labels)
    {stream : PeerStream τ} (hstream : stream ∈ s.streams)
    (hsendable : ∀ w ∈ stream.begun, w.command.Sendable) {chunks : List (List UInt8)}
    (hchunks : chunks.flatten = stream.bytes) :
    (CommandBuffer.new.feed chunks).1 =
        (stream.begun.filter fun w => w.Whole).map (fun w => w.command.received) ∧
      (∀ c ∈ (CommandBuffer.new.feed chunks).1.head?,
        c.code = CommandCode.capabilitiesExchange.asU32) ∧
      (stream.accepted = false → ∀ c ∈ (CommandBuffer.new.feed chunks).1,
        c.code = CommandCode.capabilitiesExchange.asU32 ∨
          c.code = CommandCode.disconnectPeer.asU32) := by
  obtain ⟨hinv, htidy⟩ : s.Inv ∧ s.Tidy := by
    refine Always.invariant (I := fun s => s.Inv ∧ s.Tidy) (fun h hgood hstep => ?_)
      ⟨inv_new config ctx settings tls, nofun, nofun, nofun⟩ hsteps hrun
    exact ⟨step_inv h.1 hstep, step_tidy h.1 h.2 hgood.1 hgood.2 hstep⟩
  have hsound := hinv.sound stream hstream
  have hread := hsound.feed_eq (htidy.whole stream hstream) hsendable hchunks
  refine ⟨hread, fun c hc => ?_, fun haccepted c hc => ?_⟩
  · rw [hread, List.head?_map, Option.mem_def] at hc
    obtain ⟨w, hw, rfl⟩ := Option.map_eq_some_iff.mp hc
    exact hsound.head_eq (htidy.fresh stream hstream) hw
  · rw [hread] at hc
    obtain ⟨w, hw, rfl⟩ := List.mem_map.mp hc
    have hcode := hsound.code_of_not_accepted (htidy.fresh stream hstream) haccepted
      (List.mem_of_mem_filter hw)
    exact hcode.imp_right And.right

end

/-- A connection of a stack without vendor-specific applications. -/
def plainSample : ClientStreams Unit :=
  new { Handshake.client with
      capability := { Handshake.capability with vendorSpecificApplicationIds := none }
      logsInfo := false }
    sampleContext ⟨60000, 10000, []⟩ false

/-- A request is sent in a session. -/
def sentInSession : List (Label Unit) :=
  [.own (.connect (.ok ())), .replace, .own (.reply sampleReplies), .own (.reply sampleReplies),
    .own (.reply sampleReplies), .lock none, .write 100, .write 924, .own (.reply sampleReplies),
    .own (.receiveCea false "early eof" TcpClient.sampleCea.encode),
    .send () (deviceWatchdogRequest sampleContext 7 9), .lock (some ()), .write 1024, .leave ()]

theorem read_by_peer_sample : ∃ stream : PeerStream Unit,
    stream.begun.map (fun w => w.command.code) = [257, 280] ∧
      (CommandBuffer.new.feed [stream.bytes.take 3, stream.bytes.drop 3]).1 =
        (stream.begun.filter fun w => w.Whole).map fun w => w.command.received := by
  have hruns : (run step plainSample sentInSession).map (fun s => s.streams.head?.map fun stream =>
      (stream.begun.map (fun w => w.command.code), stream.begun.all fun w =>
        w.command.code.toNat < 2 ^ 24 ∧ w.command.encode.length < 2 ^ 24 ∧
          ∀ a ∈ w.command.avps, a.data.isSome ∧ (a.flags &&& 0x80) = 0)) =
      some (some ([257, 280], true)) := by
    decide +kernel
  obtain ⟨s, hrun, hstreams⟩ := Option.map_eq_some_iff.mp hruns
  obtain ⟨stream, hstream, hbegun⟩ := Option.map_eq_some_iff.mp hstreams
  obtain ⟨hcodes, hplain⟩ := Prod.mk.inj hbegun
  have hsendable : ∀ w ∈ stream.begun, w.command.Sendable := fun w hw => by
    obtain ⟨hcode, hsize, havps⟩ := of_decide_eq_true (List.all_eq_true.mp hplain w hw)
    exact Command.sendable_of_plain hcode havps hsize
  have hcut : [stream.bytes.take 3, stream.bytes.drop 3].flatten = stream.bytes := by simp
  have hread := read_by_peer _ _ _ _ hrun (by decide +kernel) (List.mem_of_mem_head? hstream)
    hsendable hcut
  exact ⟨stream, hcodes, hread.1⟩

end ClientStreams

end RestDiameterBridge
