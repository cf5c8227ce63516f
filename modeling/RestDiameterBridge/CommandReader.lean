import RestDiameterBridge.CommandBuffer
import RestDiameterBridge.Lib.OrPanic

/-!
# RestDiameterBridge.CommandReader

The handshake reader (`read_command` in `src/transport/command_handler.rs`), which takes
the CER or CEA of a new connection straight off the stream: first the length, then as many
bytes as it declares beyond its own four.

Behind the subtraction the reader hands the frame to a `CommandBuffer`, so the two framings
can only part in front of it; `readsFirstFrame_iff` says on which streams they do.
-/

namespace RestDiameterBridge

open Bytes

/-- `a - b` on a `usize`. -/
def subUsize (overflowChecks : Bool) (a b : Nat) : OrPanic Nat :=
  if overflowChecks ∧ a < b then none else some ((a + (2 ^ 64 - b)) % 2 ^ 64)

/-- `vec![0; len]`: an allocation holds less than 2 ^ 63 bytes. -/
def zeroed (len : Nat) : OrPanic (List UInt8) :=
  if 2 ^ 63 ≤ len then none else some (List.replicate len 0)

/-- `read_exact` into a buffer of `len` bytes: its new contents, and the rest of the stream. -/
def readExact (len : Nat) (stream : List UInt8) : Option (List UInt8 × List UInt8) :=
  if len ≤ stream.length then some (stream.take len, stream.drop len) else none

/-- A buffer with the bytes in it. -/
def CommandBuffer.fromBytes (data : List UInt8) : CommandBuffer := ⟨data⟩

/-- The first command of a stream and what follows it. The stream ends with the error
`eof`. -/
def readCommand (overflowChecks : Bool) (eof : String) (stream : List UInt8) :
    OrPanic (Except String (Command × List UInt8)) :=
  match readExact 4 stream with
  | none => some (.error s!"Failed to read message length: {eof}")
  | some (lengthBuffer, stream) => do
      let messageLength := fromBeBytes lengthBuffer &&& 0x00FFFFFF
      let buffer ← zeroed (← subUsize overflowChecks messageLength.toNat 4)
      match readExact buffer.length stream with
      | none => some (.error s!"Failed to read message body: {eof}")
      | some (buffer, stream) =>
          match ((CommandBuffer.fromBytes lengthBuffer).append buffer).readCommand.1 with
          | some command => some (.ok (command, stream))
          | none => some (.error "Failed to parse CEA command")

section
variable {overflowChecks : Bool} {eof : String} {stream : List UInt8}

theorem readExact_of_le {len : Nat} (h : len ≤ stream.length) :
    readExact len stream = some (stream.take len, stream.drop len) :=
  if_pos h

theorem readExact_of_lt {len : Nat} (h : stream.length < len) : readExact len stream = none :=
  if_neg (Nat.not_le.mpr h)

theorem declaredLength_lt (stream : List UInt8) : CommandBuffer.declaredLength stream < 2 ^ 24 := by
  unfold CommandBuffer.declaredLength
  split
  · rw [toNat_and_low24]
    exact Nat.mod_lt _ (by decide)
  · decide

theorem declaredLength_take (h : 4 ≤ stream.length) :
    CommandBuffer.declaredLength stream = (fromBeBytes (stream.take 4) &&& 0x00FFFFFF).toNat := by
  match stream, h with
  | b0 :: b1 :: b2 :: b3 :: s, _ => rfl
  | [], h | [_], h | [_, _], h | [_, _, _], h => simp at h

/-- The size of the body, where the declared length covers its own field. -/
theorem body_of_le {length : Nat} (hle : 4 ≤ length) (hlt : length < 2 ^ 24) :
    (subUsize overflowChecks length 4).bind zeroed = some (List.replicate (length - 4) 0) := by
  have hsub : subUsize overflowChecks length 4 = some (length - 4) := by
    rw [subUsize, if_neg (by omega)]
    exact congrArg some (by omega)
  rw [hsub, Option.bind_some, zeroed, if_neg (by omega)]

/-- Otherwise the subtraction panics, or the wrapped size is too large to allocate. -/
theorem body_of_lt {length : Nat} (hlt : length < 4) :
    (subUsize overflowChecks length 4).bind zeroed = none := by
  rw [subUsize]
  split
  · rfl
  · rw [Option.bind_some, zeroed, if_pos (by omega)]

theorem readCommand_of_short (h : stream.length < 4) :
    readCommand overflowChecks eof stream =
      some (.error s!"Failed to read message length: {eof}") := by
  rw [readCommand, readExact_of_lt h]

/-- The body is read once there is a buffer for it. -/
theorem readCommand_of_le (h : 4 ≤ stream.length) :
    readCommand overflowChecks eof stream =
      ((subUsize overflowChecks (CommandBuffer.declaredLength stream) 4).bind zeroed).bind
        fun buffer =>
          match readExact buffer.length (stream.drop 4) with
          | none => some (.error s!"Failed to read message body: {eof}")
          | some (buffer, rest) =>
              match ((CommandBuffer.fromBytes (stream.take 4)).append buffer).readCommand.1 with
              | some command => some (.ok (command, rest))
              | none => some (.error "Failed to parse CEA command") := by
  rw [readCommand, readExact_of_le h, declaredLength_take h, Option.bind_assoc]
  rfl

/-- A panic comes from a length that does not cover its own field. -/
theorem readCommand_of_declared_lt (h : 4 ≤ stream.length)
    (hlt : CommandBuffer.declaredLength stream < 4) :
    readCommand overflowChecks eof stream = none := by
  rw [readCommand_of_le h, body_of_lt hlt, Option.bind_none]

/-- Too few bytes for the declared length are an error. -/
theorem readCommand_of_cut (h : 4 ≤ stream.length)
    (hle : 4 ≤ CommandBuffer.declaredLength stream)
    (hcut : stream.length < CommandBuffer.declaredLength stream) :
    readCommand overflowChecks eof stream =
      some (.error s!"Failed to read message body: {eof}") := by
  rw [readCommand_of_le h, body_of_le hle (declaredLength_lt stream), Option.bind_some,
    List.length_replicate, readExact_of_lt (by rw [List.length_drop]; omega)]

/-- A whole frame is what the receive buffer makes of it. -/
theorem readCommand_of_frame (hle : 4 ≤ CommandBuffer.declaredLength stream)
    (hframe : CommandBuffer.declaredLength stream ≤ stream.length) :
    readCommand overflowChecks eof stream =
      match (CommandBuffer.fromBytes
        (stream.take (CommandBuffer.declaredLength stream))).readCommand.1 with
      | some command => some (.ok (command, stream.drop (CommandBuffer.declaredLength stream)))
      | none => some (.error "Failed to parse CEA command") := by
  have hfour : 4 + (CommandBuffer.declaredLength stream - 4) =
      CommandBuffer.declaredLength stream := by omega
  have hbytes : (CommandBuffer.fromBytes (stream.take 4)).append
      ((stream.drop 4).take (CommandBuffer.declaredLength stream - 4)) =
        CommandBuffer.fromBytes (stream.take (CommandBuffer.declaredLength stream)) := by
    rw [← hfour, List.take_add, hfour]
    rfl
  rw [readCommand_of_le (by omega), body_of_le hle (declaredLength_lt stream), Option.bind_some,
    List.length_replicate, readExact_of_le (by rw [List.length_drop]; omega), List.drop_drop, hfour]
  simp only [hbytes]

end

/-- The reader does not fail on the arithmetic, and takes a whole first frame for what the
receive buffer takes it for. -/
structure ReadsFirstFrame (overflowChecks : Bool) (eof : String) (stream : List UInt8) : Prop where
  counts : (readCommand overflowChecks eof stream).isSome
  accepts : max 4 (CommandBuffer.declaredLength stream) ≤ stream.length → ∀ command,
    (∃ rest, readCommand overflowChecks eof stream = some (.ok (command, rest))) ↔
      (CommandBuffer.fromBytes
        (stream.take (CommandBuffer.declaredLength stream))).readCommand.1 = some command
  refuses : max 4 (CommandBuffer.declaredLength stream) ≤ stream.length →
    ((∃ error, readCommand overflowChecks eof stream = some (.error error)) ↔
      (CommandBuffer.fromBytes
        (stream.take (CommandBuffer.declaredLength stream))).readCommand.1 = none)

section
variable {overflowChecks : Bool} {eof : String} {stream : List UInt8}

theorem readsFirstFrame_of_short (h : stream.length < 4) :
    ReadsFirstFrame overflowChecks eof stream where
  counts := by
    rw [readCommand_of_short h]
    rfl
  accepts hle := absurd (le_of_max_le_left hle) (Nat.not_le.mpr h)
  refuses hle := absurd (le_of_max_le_left hle) (Nat.not_le.mpr h)

theorem readsFirstFrame_of_le (hle : 4 ≤ CommandBuffer.declaredLength stream)
    (h : 4 ≤ stream.length) : ReadsFirstFrame overflowChecks eof stream := by
  rcases Nat.lt_or_ge stream.length (CommandBuffer.declaredLength stream) with hcut | hframe
  · refine ⟨?_, ?_, ?_⟩
    · rw [readCommand_of_cut h hle hcut]
      rfl
    · intro hmax
      exact absurd (le_of_max_le_right hmax) (Nat.not_le.mpr hcut)
    · intro hmax
      exact absurd (le_of_max_le_right hmax) (Nat.not_le.mpr hcut)
  · have hread := @readCommand_of_frame overflowChecks eof stream hle hframe
    cases hbuffered : (CommandBuffer.fromBytes
        (stream.take (CommandBuffer.declaredLength stream))).readCommand.1 with
    | some command =>
      rw [hbuffered] at hread
      exact ⟨by simp [hread], fun _ => by simp [hread, hbuffered], fun _ => by simp [hread, hbuffered]⟩
    | none =>
      rw [hbuffered] at hread
      exact ⟨by simp [hread], fun _ => by simp [hread, hbuffered], fun _ => by simp [hread, hbuffered]⟩

end

/-- **The two framings agree** on a stream, and the reader survives it, exactly if the stream
ends within its first word or that word declares a length that covers the word itself. -/
theorem readsFirstFrame_iff (overflowChecks : Bool) (eof : String) (stream : List UInt8) :
    ReadsFirstFrame overflowChecks eof stream ↔
      stream.length < 4 ∨ 4 ≤ CommandBuffer.declaredLength stream := by
  constructor
  · intro hreads
    by_contra hneither
    rw [not_or, Nat.not_lt, Nat.not_le] at hneither
    have hcounts := hreads.counts
    rw [readCommand_of_declared_lt hneither.1 hneither.2] at hcounts
    cases hcounts
  · intro hcases
    rcases Nat.lt_or_ge stream.length 4 with hshort | h
    · exact readsFirstFrame_of_short hshort
    · exact readsFirstFrame_of_le (hcases.resolve_left (Nat.not_lt.mpr h)) h

/-- Four bytes that declare a length of 3 bring the reader down, with or without overflow
checks. To the receive buffer they only are no command. -/
theorem not_readsFirstFrame_three :
    let stream := [1, 0, 0, 3]
    (∀ overflowChecks, readCommand overflowChecks "early eof" stream = none) ∧
      (CommandBuffer.fromBytes (stream.take 3)).readCommand.1 = none ∧
      ¬∀ overflowChecks eof stream, ReadsFirstFrame overflowChecks eof stream := by
  have hpanics : ∀ overflowChecks, readCommand overflowChecks "early eof" [1, 0, 0, 3] = none :=
    fun _ => readCommand_of_declared_lt (by decide) (by decide)
  refine ⟨hpanics, rfl, ?_⟩
  intro hall
  have hcounts := (hall true "early eof" [1, 0, 0, 3]).counts
  rw [hpanics] at hcounts
  cases hcounts

end RestDiameterBridge
