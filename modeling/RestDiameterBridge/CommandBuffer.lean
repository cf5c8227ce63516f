import Mathlib.Data.List.Forall2
import RestDiameterBridge.CommandCodec
import RestDiameterBridge.Lib.Framing

/-!
# RestDiameterBridge.CommandBuffer

The receive buffer of every transport (`CommandBuffer` in `src/command.rs`): bytes are
appended as they arrive and complete commands are taken off the front.

The buffer is the instance `commandFraming` of `Framing`: `readCommand` is its `read`
(`readCommand_eq`), `readCommands` its `drain` (`readCommands_eq`), and the transports'
read loop its `feed`. A frame that does not decode is taken off the buffer like any
other but makes `readCommand` return `none`, the value it also returns for want of
data, so `readCommands` stops there.
-/

namespace RestDiameterBridge

open Bytes

/-- Received bytes not yet turned into commands. -/
structure CommandBuffer where
  buffer : List UInt8
  deriving Repr, DecidableEq

namespace CommandBuffer

/-- An empty buffer. -/
def new : CommandBuffer := ⟨[]⟩

/-- Append received bytes. -/
def append (b : CommandBuffer) (data : List UInt8) : CommandBuffer := ⟨b.buffer ++ data⟩

/-- Take the command in front of the buffer off it, if all its bytes are there. The
bytes of a frame that does not decode are consumed too. -/
def readCommand (b : CommandBuffer) : Option Command × CommandBuffer :=
  if h : b.buffer.length < 20 then (none, b)
  else
    let length :=
      fromBeBytes [b.buffer[0], b.buffer[1], b.buffer[2], b.buffer[3]] &&& 0x00FFFFFF
    if b.buffer.length < length.toNat then (none, b)
    else
      let commandData := b.buffer.take length.toNat
      let rest : CommandBuffer := ⟨b.buffer.drop length.toNat⟩
      match Command.decode commandData with
      | .ok cmd => (some cmd, rest)
      | .error _ => (none, rest)

/-! ### The framing -/

/-- The length the header in front of the bytes declares: the low 24 bits of its first
word. -/
def declaredLength : List UInt8 → Nat
  | b0 :: b1 :: b2 :: b3 :: _ => (fromBeBytes [b0, b1, b2, b3] &&& 0x00FFFFFF).toNat
  | _ => 0

theorem declaredLength_append {s : List UInt8} (t : List UInt8) (h : 20 ≤ s.length) :
    declaredLength (s ++ t) = declaredLength s := by
  match s, h with
  | b0 :: b1 :: b2 :: b3 :: s, _ => rfl

theorem declaredLength_eq {s : List UInt8} (h : 20 ≤ s.length) :
    declaredLength s = (fromBeBytes [s[0], s[1], s[2], s[3]] &&& 0x00FFFFFF).toNat := by
  match s, h with
  | b0 :: b1 :: b2 :: b3 :: s, _ => rfl
  | [], h | [_], h | [_, _], h | [_, _, _], h => simp at h

theorem length_of_decode_ok {data : List UInt8} {c : Command} (h : Command.decode data = .ok c) :
    20 ≤ data.length := by
  unfold Command.decode at h
  split at h
  · cases h
  · omega

/-- Diameter's framing: a 20-byte header whose first word declares the length. -/
def commandFraming : Framing UInt8 Command where
  headerLen := 20
  frameLen := declaredLength
  decode f := (Command.decode f).toOption
  headerLen_pos := by omega
  frameLen_append := declaredLength_append
  headerLen_le {f c} h := by
    cases hd : Command.decode f with
    | ok c' => exact length_of_decode_ok hd
    | error e => rw [hd] at h; cases h

theorem readCommand_eq (b : CommandBuffer) :
    b.readCommand = ((commandFraming.read b.buffer).1, ⟨(commandFraming.read b.buffer).2⟩) := by
  unfold readCommand
  by_cases hshort : b.buffer.length < 20
  · have hnc : ¬commandFraming.Complete b.buffer := fun hc => by
      have : 20 ≤ b.buffer.length := hc.1
      omega
    rw [dif_pos hshort, Framing.read_of_not_complete hnc]
  · rw [dif_neg hshort]
    simp only [← declaredLength_eq (Nat.not_lt.mp hshort)]
    by_cases hlen : b.buffer.length < declaredLength b.buffer
    · have hnc : ¬commandFraming.Complete b.buffer := fun hc => by
        have : declaredLength b.buffer ≤ b.buffer.length := hc.2
        omega
      rw [if_pos hlen, Framing.read_of_not_complete hnc]
    · have hc : commandFraming.Complete b.buffer := ⟨Nat.not_lt.mp hshort, Nat.not_lt.mp hlen⟩
      rw [if_neg hlen, Framing.read_of_complete hc]
      show _ = ((Command.decode _).toOption, _)
      cases hd : Command.decode (b.buffer.take (declaredLength b.buffer)) <;>
        simp only [commandFraming, hd] <;> rfl

theorem length_readCommand_lt {b b' : CommandBuffer} {c : Command}
    (h : b.readCommand = (some c, b')) : b'.buffer.length < b.buffer.length := by
  rw [readCommand_eq, Prod.mk.injEq] at h
  obtain ⟨hc, rfl⟩ := h
  exact Framing.length_read_lt (Prod.ext hc rfl)

/-- Take commands off the buffer until `readCommand` yields none. -/
def readCommands (b : CommandBuffer) : List Command × CommandBuffer :=
  match _h : b.readCommand with
  | (some cmd, rest) => (cmd :: rest.readCommands.1, rest.readCommands.2)
  | (none, rest) => ([], rest)
termination_by b.buffer.length
decreasing_by all_goals exact length_readCommand_lt _h

theorem readCommands_eq (b : CommandBuffer) :
    b.readCommands =
      ((commandFraming.drain b.buffer).1, ⟨(commandFraming.drain b.buffer).2⟩) := by
  induction hn : b.buffer.length using Nat.strongRecOn generalizing b with
  | ind n ih =>
    have hread := readCommand_eq b
    rw [readCommands]
    split
    · rename_i cmd rest h
      rw [h, Prod.mk.injEq] at hread
      obtain ⟨hcmd, rfl⟩ := hread
      have hdrain := Framing.drain_of_some (F := commandFraming) (Prod.ext hcmd.symm rfl)
      rw [ih _ (hn ▸ length_readCommand_lt h) _ rfl, hdrain]
    · rename_i rest h
      rw [h, Prod.mk.injEq] at hread
      obtain ⟨hnone, rfl⟩ := hread
      rw [Framing.drain_of_none (F := commandFraming) (Prod.ext hnone.symm rfl)]

/-! ### Well-formed commands, cut anywhere -/

theorem declaredLength_encode {c : Command} (hwf : c.WellFormed) :
    declaredLength c.encode = c.encode.length := by
  obtain ⟨l1, l2, l3, hl, hlength⟩ := Command.exists_toBeBytes_length hwf
  have hbytes : ∃ rest, c.encode = [1, l1, l2, l3] ++ rest := by
    simp only [Command.encode, hl, List.append_assoc]
    exact ⟨_, rfl⟩
  obtain ⟨rest, hrest⟩ := hbytes
  rw [← hlength, hrest]
  rfl

/-- The wire form of a well-formed command is a frame. -/
theorem isFrame_encode {c : Command} (hwf : c.WellFormed) :
    commandFraming.IsFrame c.encode c.wire where
  length := declaredLength_encode hwf
  decode := by
    show (Command.decode c.encode).toOption = some c.wire
    rw [Command.decode_encode hwf]
    rfl

/-- The read loop of the transports: append each received chunk and take the complete
commands off. -/
def feed (b : CommandBuffer) : List (List UInt8) → List Command × CommandBuffer
  | [] => ([], b)
  | chunk :: chunks =>
      let (commands, b) := (b.append chunk).readCommands
      let (commands', b) := b.feed chunks
      (commands ++ commands', b)

theorem feed_eq (b : CommandBuffer) (chunks : List (List UInt8)) :
    b.feed chunks =
      ((commandFraming.feed b.buffer chunks).1, ⟨(commandFraming.feed b.buffer chunks).2⟩) := by
  induction chunks generalizing b with
  | nil => rfl
  | cons chunk chunks ih =>
    rw [feed, Framing.feed, readCommands_eq]
    simp only [ih]
    rfl

/-- However the encodings of well-formed commands are cut into chunks, the read loop
yields their decodings, in order, and ends with an empty buffer. -/
theorem feed_encodings (commands : List Command) (hwf : ∀ c ∈ commands, c.WellFormed)
    (chunks : List (List UInt8)) (hcut : chunks.flatten = commands.flatMap Command.encode) :
    (new.feed chunks).1.map Except.ok = commands.map (fun c => Command.decode c.encode) ∧
      (new.feed chunks).2 = new := by
  have hframes : List.Forall₂ commandFraming.IsFrame (commands.map Command.encode)
      (commands.map Command.wire) := by
    rw [List.forall₂_map_left_iff, List.forall₂_map_right_iff, List.forall₂_same]
    exact fun c hc => isFrame_encode (hwf c hc)
  have hcut' : [] ++ chunks.flatten = (commands.map Command.encode).flatten := by
    rw [List.nil_append, hcut, List.flatMap_def]
  have hfeed := Framing.feed_flatten hframes Framing.not_complete_nil hcut'
  have heq : new.feed chunks = (commands.map Command.wire, new) := by
    rw [feed_eq, new, hfeed]
  rw [heq, List.map_map]
  refine ⟨?_, rfl⟩
  exact List.map_congr_left fun c hc => (Command.decode_encode (hwf c hc)).symm

/-- Two well-formed commands, cut inside the first length field, inside the second
header, and with an empty chunk. -/
theorem feed_encodings_sample :
    let commands := [Command.sampleRequest, Command.sampleRequest]
    let bytes := commands.flatMap Command.encode
    let chunks := [bytes.take 2, [], (bytes.drop 2).take 70, bytes.drop 72]
    (new.feed chunks).1.map Except.ok = commands.map (fun c => Command.decode c.encode) ∧
      (new.feed chunks).2 = new :=
  feed_encodings _ (fun c hc => by
    simp only [List.mem_cons, List.not_mem_nil, or_false, or_self] at hc
    exact hc ▸ Command.sampleRequest_wellFormed) _ (by decide)

/-! ### Frames that do not decode -/

/-- No complete frame is left: fewer bytes than a header, or fewer than the header
declares. -/
def Drained (b : CommandBuffer) : Prop :=
  b.buffer.length < 20 ∨ b.buffer.length < declaredLength b.buffer

instance (b : CommandBuffer) : Decidable b.Drained := inferInstanceAs (Decidable (_ ∨ _))

theorem drained_iff (b : CommandBuffer) : b.Drained ↔ ¬commandFraming.Complete b.buffer := by
  show _ ↔ ¬(20 ≤ _ ∧ declaredLength _ ≤ _)
  rw [Drained, not_and_or, Nat.not_le, Nat.not_le]

/-- A frame that does not decode, with only decodable frames before it, is directly
followed by a complete frame. A frame of declared length 0 is followed by itself. -/
def Blocked (b : CommandBuffer) : Prop := commandFraming.Blocked b.buffer

/-- `readCommands` takes every complete frame off the buffer exactly if no undecodable
frame blocks a later one. -/
theorem drained_readCommands_iff (b : CommandBuffer) :
    b.readCommands.2.Drained ↔ ¬b.Blocked := by
  rw [drained_iff, readCommands_eq, Blocked]
  exact not_congr (Framing.complete_drain_iff b.buffer)

/-- A Device-Watchdog-Request whose only AVP declares a length below its header. -/
def malformedFrame : List UInt8 :=
  [1, 0, 0, 28, 0x80, 0, 1, 24, 0, 0, 0, 0, 0, 0, 0, 1, 0, 0, 0, 1, 0, 0, 0, 1, 0, 0, 0, 4]

/-- A Device-Watchdog-Request without AVPs. -/
def watchdogFrame : List UInt8 :=
  [1, 0, 0, 20, 0x80, 0, 1, 24, 0, 0, 0, 0, 0, 0, 0, 2, 0, 0, 0, 2]

theorem decode_malformedFrame :
    Command.decode malformedFrame =
      .error "Failed to decode AVP at offset 20: Failed to decode AVP header" := by
  have havp : Avp.decode (malformedFrame.drop 20) = .error "Failed to decode AVP header" := rfl
  have hloop : Command.decodeAvps malformedFrame 28 20 [] = _ :=
    Command.decodeAvps_of_error (by omega) havp
  unfold Command.decode
  rw [dif_neg (by decide)]
  simp only [show (fromBeBytes [malformedFrame[0], malformedFrame[1], malformedFrame[2],
    malformedFrame[3]] &&& 0x00FFFFFF).toNat = 28 by decide]
  rw [hloop]
  rfl

/-- The complete watchdog behind the malformed one stays in the buffer. -/
theorem readCommands_malformedFrame :
    (⟨malformedFrame ++ watchdogFrame⟩ : CommandBuffer).readCommands = ([], ⟨watchdogFrame⟩) ∧
      ¬(⟨watchdogFrame⟩ : CommandBuffer).Drained := by
  refine ⟨?_, by decide⟩
  have hread : commandFraming.read (malformedFrame ++ watchdogFrame) = (none, watchdogFrame) := by
    have hframe : (malformedFrame ++ watchdogFrame).take
        (commandFraming.frameLen (malformedFrame ++ watchdogFrame)) = malformedFrame := by decide
    rw [Framing.read_of_complete (by decide), hframe]
    show ((Command.decode malformedFrame).toOption, _) = _
    rw [decode_malformedFrame]
    exact Prod.ext rfl (by decide)
  rw [readCommands_eq, Framing.drain_of_none hread]

end CommandBuffer

end RestDiameterBridge
