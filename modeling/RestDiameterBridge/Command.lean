import RestDiameterBridge.AvpCodec

/-!
# RestDiameterBridge.Command

The Diameter command (`src/command.rs`): header fields, AVP list, the accessors the
routing and answering code reads, and the wire encoder and decoder.

`Command.encode` writes a 20-byte header and the wire forms of the AVPs;
`Command.decode` checks the declared length and then runs `decodeAvps`, the source's
`while` loop, which moves its offset by one padded AVP per turn.
-/

namespace RestDiameterBridge

open Bytes

/-- Codes of the commands the transports treat themselves. -/
inductive CommandCode
  | capabilitiesExchange
  | deviceWatchdog
  | disconnectPeer
  deriving Repr, DecidableEq

/-- The numeric command code. -/
def CommandCode.asU32 : CommandCode → UInt32
  | .capabilitiesExchange => 257
  | .deviceWatchdog => 280
  | .disconnectPeer => 282

/-- Bits of the command flags octet. -/
inductive CommandFlags
  | request
  | proxiable
  | error
  | potentiallyRetransmitted
  deriving Repr, DecidableEq

/-- The flag's bit value. -/
def CommandFlags.asU8 : CommandFlags → UInt8
  | .request => 0x80
  | .proxiable => 0x40
  | .error => 0x20
  | .potentiallyRetransmitted => 0x10

/-- Codes of the AVPs the bridge itself reads or writes. -/
inductive AvpCode
  | destinationHost
  | destinationRealm
  | disconnectCause
  | originHost
  | originRealm
  | redirectHost
  | redirectHostUsage
  | redirectMaxCacheTime
  | resultCode
  | routeRecord
  | sessionId
  | userName
  deriving Repr, DecidableEq

/-- The numeric AVP code. -/
def AvpCode.asU32 : AvpCode → UInt32
  | .destinationHost => 293
  | .destinationRealm => 283
  | .disconnectCause => 273
  | .originHost => 264
  | .originRealm => 296
  | .redirectHost => 292
  | .redirectHostUsage => 261
  | .redirectMaxCacheTime => 262
  | .resultCode => 268
  | .routeRecord => 282
  | .sessionId => 263
  | .userName => 1

/-- Result codes the bridge itself reads or writes. -/
inductive ResultCode
  | diameterSuccess
  | diameterUnableToDeliver
  | diameterLoopDetected
  | diameterRedirectIndication
  deriving Repr, DecidableEq

/-- The numeric result code. -/
def ResultCode.asU32 : ResultCode → UInt32
  | .diameterSuccess => 2001
  | .diameterUnableToDeliver => 3002
  | .diameterLoopDetected => 3005
  | .diameterRedirectIndication => 3006

/-- A Diameter command, request or answer. -/
structure Command where
  code : UInt32
  flags : UInt8
  applicationId : UInt32
  hopByHopId : UInt32
  endToEndId : UInt32
  avps : List Avp
  deriving Repr

namespace Command

/-! ### Accessors -/

/-- Is the Request bit set? -/
def isRequest (c : Command) : Bool := c.flags &&& 0x80 != 0

/-- Is the command an answer? -/
def isAnswer (c : Command) : Bool := !c.isRequest

/-- The first AVP with the given code. -/
def getAvp (c : Command) (code : UInt32) : Option Avp := c.avps.find? (·.code == code)

/-- All AVPs with the given code, in order. -/
def getAvps (c : Command) (code : UInt32) : List Avp := c.avps.filter (·.code == code)

/-- Result-Code as a number, if present. -/
def getResultCode (c : Command) : Option UInt32 :=
  (c.getAvp AvpCode.resultCode.asU32).bind Avp.asUnsigned32

/-- The first AVP with the given code as text: the shape of the four host and realm
getters. -/
def getText (c : Command) (code : AvpCode) : Option String :=
  (c.getAvp code.asU32).bind Avp.asUtf8String

def getOriginHost (c : Command) : Option String := c.getText .originHost
def getOriginRealm (c : Command) : Option String := c.getText .originRealm
def getDestinationHost (c : Command) : Option String := c.getText .destinationHost
def getDestinationRealm (c : Command) : Option String := c.getText .destinationRealm

/-- The texts of all Redirect-Host AVPs. The source wraps the list in an `Option` that
is never `None`. -/
def getRedirectHosts (c : Command) : Option (List String) :=
  some ((c.getAvps AvpCode.redirectHost.asU32).filterMap Avp.asUtf8String)

/-- Does the AVP record `host` as a hop of the route? -/
def isRecordRoute (host : String) (a : Avp) : Bool :=
  a.code == AvpCode.routeRecord.asU32 && a.asUtf8String.elim false (· == host)

/-- Does any Route-Record name `host`? -/
def hasRecordRoute (c : Command) (host : String) : Bool := c.avps.any (isRecordRoute host)

/-! ### Updates -/

/-- Update the first AVP with the given code, or append a new mandatory one. -/
def setAvp (c : Command) (code : UInt32) (update : Avp → Avp) (fresh : Avp) : Command :=
  match c.avps.findIdx? (·.code == code) with
  | some i => { c with avps := c.avps.modify i update }
  | none => { c with avps := c.avps ++ [fresh] }

def setResultCode (c : Command) (resultCode : UInt32) : Command :=
  c.setAvp AvpCode.resultCode.asU32 (·.setUnsigned32 resultCode)
    (Avp.fromUnsigned32 AvpCode.resultCode.asU32 AvpFlags.mandatory.asU8 none resultCode)

/-- Update or append a text AVP: the shape of the four host and realm setters. -/
def setText (c : Command) (code : AvpCode) (value : String) : Command :=
  c.setAvp code.asU32 (·.setUtf8String value)
    (Avp.fromUtf8String code.asU32 AvpFlags.mandatory.asU8 none value)

def setOriginHost (c : Command) (host : String) : Command := c.setText .originHost host
def setOriginRealm (c : Command) (realm : String) : Command := c.setText .originRealm realm
def setDestinationHost (c : Command) (host : String) : Command := c.setText .destinationHost host
def setDestinationRealm (c : Command) (realm : String) : Command :=
  c.setText .destinationRealm realm

section
variable {c : Command} {code : UInt32} {update : Avp → Avp} {fresh : Avp} {avpCode : AvpCode}
  {value : String} {resultCode : UInt32}

/-- An update leaves the header as it is. -/
theorem setAvp_eq : c.setAvp code update fresh =
    { c with avps := (c.setAvp code update fresh).avps } := by
  unfold setAvp
  split <;> rfl

@[simp] theorem code_setAvp : (c.setAvp code update fresh).code = c.code := by rw [setAvp_eq]
@[simp] theorem flags_setAvp : (c.setAvp code update fresh).flags = c.flags := by rw [setAvp_eq]
@[simp] theorem hopByHopId_setAvp : (c.setAvp code update fresh).hopByHopId = c.hopByHopId := by
  rw [setAvp_eq]
@[simp] theorem endToEndId_setAvp : (c.setAvp code update fresh).endToEndId = c.endToEndId := by
  rw [setAvp_eq]

@[simp] theorem header_setText : (c.setText avpCode value).code = c.code ∧
    (c.setText avpCode value).flags = c.flags ∧
    (c.setText avpCode value).hopByHopId = c.hopByHopId ∧
    (c.setText avpCode value).endToEndId = c.endToEndId :=
  ⟨code_setAvp, flags_setAvp, hopByHopId_setAvp, endToEndId_setAvp⟩

@[simp] theorem header_setOriginHost : (c.setOriginHost value).code = c.code ∧
    (c.setOriginHost value).flags = c.flags ∧ (c.setOriginHost value).hopByHopId = c.hopByHopId ∧
    (c.setOriginHost value).endToEndId = c.endToEndId :=
  header_setText

@[simp] theorem header_setOriginRealm : (c.setOriginRealm value).code = c.code ∧
    (c.setOriginRealm value).flags = c.flags ∧ (c.setOriginRealm value).hopByHopId = c.hopByHopId ∧
    (c.setOriginRealm value).endToEndId = c.endToEndId :=
  header_setText

theorem isRequest_setOrigin {host realm : String} :
    ((c.setOriginHost host).setOriginRealm realm).isRequest = c.isRequest := by
  simp [isRequest]

/-- The AVP that is read after an update is the updated one, or the new one. -/
theorem getAvp_setAvp (hupdate : ∀ a, (update a).code = a.code) (hfresh : fresh.code = code) :
    (c.setAvp code update fresh).getAvp code = some ((c.getAvp code).elim fresh update) := by
  obtain ⟨_, _, _, _, _, avps⟩ := c
  simp only [setAvp, getAvp]
  induction avps with
  | nil => simp [hfresh]
  | cons a avps ih =>
    by_cases ha : a.code = code
    · simp [List.findIdx?_cons, ha, hupdate]
    · have hskip : (a.code == code) = false := by simpa using ha
      simp only [List.findIdx?_cons, List.find?_cons, hskip]
      rw [← ih]
      cases List.findIdx? (fun b => b.code == code) avps with
      | none => simp [hskip]
      | some i => simp [hskip]

/-- Of the AVPs with the code the first is updated, and a new one stands alone. -/
theorem getAvps_setAvp (hupdate : ∀ a, (update a).code = a.code) (hfresh : fresh.code = code) :
    (c.setAvp code update fresh).getAvps code =
      match c.getAvps code with
      | [] => [fresh]
      | a :: rest => update a :: rest := by
  obtain ⟨_, _, _, _, _, avps⟩ := c
  simp only [setAvp, getAvps]
  induction avps with
  | nil => simp [hfresh]
  | cons a avps ih =>
    by_cases ha : a.code = code
    · simp [List.findIdx?_cons, ha, hupdate]
    · have hskip : (a.code == code) = false := by simpa using ha
      simp only [List.findIdx?_cons, List.filter_cons, hskip]
      cases hfind : List.findIdx? (fun b => b.code == code) avps with
      | none => simpa [hfind, hskip] using ih
      | some i => simpa [hfind, hskip] using ih

/-- The AVPs with other codes stay. -/
theorem getAvps_setAvp_of_ne {other : UInt32} (hne : other ≠ code)
    (hupdate : ∀ a, (update a).code = a.code) (hfresh : fresh.code = code) :
    (c.setAvp code update fresh).getAvps other = c.getAvps other := by
  obtain ⟨_, _, _, _, _, avps⟩ := c
  simp only [setAvp, getAvps]
  induction avps with
  | nil => simp [hfresh, hne.symm]
  | cons a avps ih =>
    by_cases ha : a.code = code
    · simp [List.findIdx?_cons, ha, hupdate, hne.symm]
    · have hskip : (a.code == code) = false := by simpa using ha
      simp only [List.findIdx?_cons, hskip]
      cases hfind : List.findIdx? (fun b => b.code == code) avps with
      | none =>
        have hnew : [fresh].filter (·.code == other) = [] := by simp [hfresh, hne.symm]
        show ((a :: avps) ++ [fresh]).filter (·.code == other) = _
        rw [List.filter_append, hnew, List.append_nil]
      | some i =>
        simp only [hfind] at ih
        simp [List.filter_cons, ih]

/-- An AVP of the updated command was there, or is the updated one, or is new. -/
theorem mem_setAvp {a : Avp} (h : a ∈ (c.setAvp code update fresh).avps) :
    a ∈ c.avps ∨ (∃ b ∈ c.avps, b.code = code ∧ a = update b) ∨ a = fresh := by
  unfold setAvp at h
  split at h
  · rename_i i hi
    obtain ⟨hlt, hfound, -⟩ := List.findIdx?_eq_some_iff_getElem.mp hi
    obtain ⟨j, hj, rfl⟩ := List.mem_iff_getElem.mp h
    simp only [List.length_modify] at hj
    simp only [List.getElem_modify]
    split
    · rename_i heq
      subst heq
      exact .inr (.inl ⟨c.avps[i], List.getElem_mem hlt, by simpa using hfound, rfl⟩)
    · exact .inl (List.getElem_mem hj)
  · rcases List.mem_append.mp h with h | h
    · exact .inl h
    · exact .inr (.inr (List.mem_singleton.mp h))

@[simp] theorem getResultCode_setResultCode :
    (c.setResultCode resultCode).getResultCode = some resultCode := by
  have hget : (c.setResultCode resultCode).getAvp AvpCode.resultCode.asU32 = _ :=
    getAvp_setAvp (fun _ => rfl) rfl
  unfold getResultCode
  rw [hget]
  cases c.getAvp AvpCode.resultCode.asU32 <;>
    simp [Avp.asUnsigned32, Avp.setUnsigned32, Avp.fromUnsigned32, Avp.new]

end

/-- Append a Route-Record naming `host`. -/
def addRecordRoute (c : Command) (host : String) : Command :=
  { c with avps := c.avps ++
      [Avp.fromUtf8String AvpCode.routeRecord.asU32 AvpFlags.mandatory.asU8 none host] }

/-- Drop every Route-Record naming `host`. -/
def removeRecordRoute (c : Command) (host : String) : Command :=
  { c with avps := c.avps.filter fun a => !isRecordRoute host a }

/-- The skeleton of an answer: the request's header with the Request bit cleared, and
the destination as origin. -/
def createResponse (c : Command) : Command :=
  let command : Command :=
    { code := c.code, flags := c.flags &&& 0x7F ||| 0x00, applicationId := c.applicationId,
      hopByHopId := c.hopByHopId, endToEndId := c.endToEndId, avps := [] }
  let command := match c.getDestinationHost with
    | some host => command.setOriginHost host
    | none => command
  match c.getDestinationRealm with
  | some realm => command.setOriginRealm realm
  | none => command

section
variable {c : Command}

@[simp] theorem header_createResponse : c.createResponse.code = c.code ∧
    c.createResponse.flags = c.flags &&& 0x7F ∧ c.createResponse.hopByHopId = c.hopByHopId ∧
    c.createResponse.endToEndId = c.endToEndId := by
  unfold createResponse
  cases c.getDestinationHost <;> cases c.getDestinationRealm <;> simp

/-- A command whose flags have the Request bit cleared is none. -/
theorem isRequest_of_flags (flags : UInt8) (h : c.flags = flags &&& 0x7F) : c.isRequest = false := by
  rw [isRequest, h]
  exact Avp.forall_uint8 (p := fun f => (f &&& 0x7F &&& 0x80 != 0) = false) (by decide +kernel) flags

end

/-- The answer belongs to the request. -/
structure Answers (answer request : Command) : Prop where
  isRequest : answer.isRequest = false
  code : answer.code = request.code
  hopByHopId : answer.hopByHopId = request.hopByHopId
  endToEndId : answer.endToEndId = request.endToEndId

section
variable {answer request : Command} {code : UInt32} {update : Avp → Avp} {fresh : Avp}

theorem answers_createResponse : request.createResponse.Answers request where
  isRequest := isRequest_of_flags request.flags (by simp)
  code := by simp
  hopByHopId := by simp
  endToEndId := by simp

/-- AVPs do not matter. -/
theorem Answers.setAvp (h : answer.Answers request) :
    (answer.setAvp code update fresh).Answers request := by
  rw [setAvp_eq]
  exact ⟨h.isRequest, h.code, h.hopByHopId, h.endToEndId⟩

theorem Answers.setOrigin {host realm : String} (h : answer.Answers request) :
    ((answer.setOriginHost host).setOriginRealm realm).Answers request :=
  Answers.setAvp h.setAvp

end

/-! ### Encoding -/

/-- The wire form of the command. -/
def encode (c : Command) : List UInt8 :=
  let length := 20 + (c.avps.map fun a => a.totalLengthIncludingPadding.toNat).sum
  toBeBytes (0x01000000 ||| (length.toUInt32 &&& 0x00FFFFFF)) ++
    toBeBytes (c.flags.toUInt32 <<< 24 ||| (c.code &&& 0x00FFFFFF)) ++
    toBeBytes c.applicationId ++ toBeBytes c.hopByHopId ++ toBeBytes c.endToEndId ++
    c.avps.flatMap Avp.encode

/-! ### Decoding -/

/-- The AVP loop of `Command::decode`: read AVPs until fewer than eight bytes are left
below `length`. -/
def decodeAvps (data : List UInt8) (length offset : Nat) (avps : List Avp) :
    Except String (List Avp) :=
  if offset + 8 ≤ length then
    match _h : Avp.decode (data.drop offset) with
    | .ok avp =>
        decodeAvps data length (offset + avp.totalLengthIncludingPadding.toNat) (avps ++ [avp])
    | .error e => .error s!"Failed to decode AVP at offset {offset}: {e}"
  else .ok avps
termination_by length - offset
decreasing_by
  -- a decoded AVP moves the offset by at least its header
  have := Avp.le_totalLengthIncludingPadding _h
  omega

section
variable {data : List UInt8} {length offset : Nat} {avps : List Avp}

theorem decodeAvps_of_lt (h : length < offset + 8) :
    decodeAvps data length offset avps = .ok avps := by
  rw [decodeAvps, if_neg (by omega)]

theorem decodeAvps_of_ok {avp : Avp} (hle : offset + 8 ≤ length)
    (h : Avp.decode (data.drop offset) = .ok avp) :
    decodeAvps data length offset avps =
      decodeAvps data length (offset + avp.totalLengthIncludingPadding.toNat)
        (avps ++ [avp]) := by
  rw [decodeAvps, if_pos hle]
  split
  · rename_i avp' h'
    obtain rfl := Except.ok.inj (h.symm.trans h')
    rfl
  · rename_i e h'
    rw [h] at h'
    cases h'

theorem decodeAvps_of_error {e : String} (hle : offset + 8 ≤ length)
    (h : Avp.decode (data.drop offset) = .error e) :
    decodeAvps data length offset avps =
      .error s!"Failed to decode AVP at offset {offset}: {e}" := by
  rw [decodeAvps, if_pos hle]
  split
  · rename_i avp' h'
    rw [h] at h'
    cases h'
  · rename_i e' h'
    obtain rfl := Except.error.inj (h.symm.trans h')
    rfl

end

/-- Read a command from the front of `data`. Every index is inside the data by the
length check before it. -/
def decode (data : List UInt8) : Except String Command :=
  if h : data.length < 20 then .error "Data too short for Diameter header"
  else
    let length := fromBeBytes [data[0], data[1], data[2], data[3]] &&& 0x00FFFFFF
    if data.length < length.toNat then .error "Data length mismatch"
    else
      let flags := data[4]
      let code := fromBeBytes [data[4], data[5], data[6], data[7]] &&& 0x00FFFFFF
      let applicationId := fromBeBytes [data[8], data[9], data[10], data[11]]
      let hopByHopId := fromBeBytes [data[12], data[13], data[14], data[15]]
      let endToEndId := fromBeBytes [data[16], data[17], data[18], data[19]]
      match decodeAvps data length.toNat 20 [] with
      | .ok avps => .ok { code, flags, applicationId, hopByHopId, endToEndId, avps }
      | .error e => .error e

end Command

end RestDiameterBridge
