import CppImprovement.Core.Bytes

/-!
# WebSocket client data types

The enumerations, constants and the frame header of the WebSocket client. The
header is the packed struct of the source: one bit for each flag, four bits of
opcode and a *seven bit* payload length, so a length stored into it keeps only
its value modulo 128. The `exPayloadLen` field of the struct is written by no
function and read by none.
-/

namespace CppImprovement.Ws

/-! ## Enumerations -/

/-- `WSOpcode`: every value of the four bit opcode field has a name. -/
inductive WSOpcode
  | continuation | text | binary
  | nonControlRsv3 | nonControlRsv4 | nonControlRsv5 | nonControlRsv6 | nonControlRsv7
  | close | ping | pong
  | controlRsvB | controlRsvC | controlRsvD | controlRsvE | controlRsvF
  deriving DecidableEq, Repr

/-- The enumerator's value. -/
def WSOpcode.toByte : WSOpcode → UInt8
  | .continuation => 0x0 | .text => 0x1 | .binary => 0x2
  | .nonControlRsv3 => 0x3 | .nonControlRsv4 => 0x4 | .nonControlRsv5 => 0x5
  | .nonControlRsv6 => 0x6 | .nonControlRsv7 => 0x7
  | .close => 0x8 | .ping => 0x9 | .pong => 0xA
  | .controlRsvB => 0xB | .controlRsvC => 0xC | .controlRsvD => 0xD
  | .controlRsvE => 0xE | .controlRsvF => 0xF

/-- The enumerator held by the low four bits of a byte. -/
def WSOpcode.ofByte (b : UInt8) : WSOpcode :=
  match (b &&& 0xF).toNat with
  | 0x0 => .continuation | 0x1 => .text | 0x2 => .binary
  | 0x3 => .nonControlRsv3 | 0x4 => .nonControlRsv4 | 0x5 => .nonControlRsv5
  | 0x6 => .nonControlRsv6 | 0x7 => .nonControlRsv7
  | 0x8 => .close | 0x9 => .ping | 0xA => .pong
  | 0xB => .controlRsvB | 0xC => .controlRsvC | 0xD => .controlRsvD
  | 0xE => .controlRsvE | _ => .controlRsvF

/-- `IsControlOpcode`. -/
def isControlOpcode (opcode : WSOpcode) : Bool :=
  decide (WSOpcode.close.toByte ≤ opcode.toByte) &&
    decide (opcode.toByte ≤ WSOpcode.controlRsvF.toByte)

/-- `IsReservedControlOpcode`. -/
def isReservedControlOpcode (opcode : WSOpcode) : Bool :=
  decide (WSOpcode.controlRsvB.toByte ≤ opcode.toByte) &&
    decide (opcode.toByte ≤ WSOpcode.controlRsvF.toByte)

/-- `IsReservedNonControlOpcode`. -/
def isReservedNonControlOpcode (opcode : WSOpcode) : Bool :=
  decide (WSOpcode.nonControlRsv3.toByte ≤ opcode.toByte) &&
    decide (opcode.toByte ≤ WSOpcode.nonControlRsv7.toByte)

/-- `IsReservedOpcode`. -/
def isReservedOpcode (opcode : WSOpcode) : Bool :=
  isReservedControlOpcode opcode || isReservedNonControlOpcode opcode

/-- An opcode that is not reserved is one of the six the protocol defines. -/
theorem isReservedOpcode_eq_false {opcode : WSOpcode} (h : isReservedOpcode opcode = false) :
    opcode = .continuation ∨ opcode = .text ∨ opcode = .binary ∨
      opcode = .close ∨ opcode = .ping ∨ opcode = .pong := by
  cases opcode <;> simp_all [isReservedOpcode, isReservedControlOpcode,
    isReservedNonControlOpcode, WSOpcode.toByte]

/-- `WSSendState`. -/
inductive WSSendState
  | none | messageBegin | inMessage | inMessagePayload
  deriving DecidableEq, Repr

/-- `WSConnectState`. -/
inductive WSConnectState
  | error | none | sentReq | parsedStatus | parsedHeaders | handshakeComplete
  deriving DecidableEq, Repr

/-- `WSParseState`. -/
inductive WSParseState
  | userAbort | error | success | needMore
  deriving DecidableEq, Repr

/-- `WSState`. -/
inductive WSState
  | dnsLookup | closing | closingUncleanly | closedCleanly | closedUncleanly
  | connecting | connected
  deriving DecidableEq, Repr

/-- `WSCloseStatus`: the receive path casts any 16 bit code into the enumeration, so a value
carries its code and the enumerators are constants. -/
structure WSCloseStatus where
  /-- The numeric close code. -/
  code : Nat
  deriving DecidableEq, Repr

namespace WSCloseStatus

def normal1000 : WSCloseStatus := ⟨1000⟩
def goingAway1001 : WSCloseStatus := ⟨1001⟩
def protocolErr1002 : WSCloseStatus := ⟨1002⟩
def unsupportedData1003 : WSCloseStatus := ⟨1003⟩
def statusCodeExpected1005 : WSCloseStatus := ⟨1005⟩
def inconsistentData1007 : WSCloseStatus := ⟨1007⟩
def policyViolation1008 : WSCloseStatus := ⟨1008⟩
def messageTooBig1009 : WSCloseStatus := ⟨1009⟩
def extensionNotNegotiated1010 : WSCloseStatus := ⟨1010⟩
def unexpectedCondition1011 : WSCloseStatus := ⟨1011⟩

/-- `WS_IS_CLOSE_STATUS_NOT_USED`. -/
def notUsed (s : WSCloseStatus) : Bool := decide (s.code < 1000) || decide (4999 < s.code)

/-- `WS_IS_CLOSE_STATUS_IANA_RESERVED`. -/
def ianaReserved (s : WSCloseStatus) : Bool := decide (3000 ≤ s.code) && decide (s.code ≤ 3999)

/-- `WS_IS_CLOSE_STATUS_PRIVATE_USE`. -/
def privateUse (s : WSCloseStatus) : Bool := decide (4000 ≤ s.code) && decide (s.code ≤ 4999)

/-- `WS_IS_PEER_CLOSE_STATUS_VALID`. -/
def peerValid (s : WSCloseStatus) : Bool :=
  s.ianaReserved || s.privateUse ||
    [normal1000, goingAway1001, protocolErr1002, unsupportedData1003, inconsistentData1007,
      policyViolation1008, messageTooBig1009, extensionNotNegotiated1010,
      unexpectedCondition1011].contains s

/-- A code the peer may send is one the client may send. -/
theorem notUsed_of_peerValid {s : WSCloseStatus} (h : s.peerValid = true) : s.notUsed = false := by
  obtain ⟨c⟩ := s
  simp only [peerValid, ianaReserved, privateUse, normal1000, goingAway1001, protocolErr1002,
    unsupportedData1003, inconsistentData1007, policyViolation1008, messageTooBig1009,
    extensionNotNegotiated1010, unexpectedCondition1011, List.contains_cons,
    List.contains_nil, Bool.or_eq_true, Bool.and_eq_true, decide_eq_true_eq, beq_iff_eq,
    WSCloseStatus.mk.injEq, Bool.false_eq_true, or_false] at h
  simp only [notUsed, Bool.or_eq_false_iff, decide_eq_false_iff_not]
  omega

end WSCloseStatus

/-! ## Sizes -/

def WS_HDR_BASE_SIZE : Nat := 2
def WS_HDR_PAYLOAD_LEN_SIZE : Nat := 8
def WS_HDR_MASK_SIZE : Nat := 4
def WS_HDR_MIN_SIZE : Nat := WS_HDR_BASE_SIZE
def WS_HDR_MAX_SIZE : Nat := WS_HDR_BASE_SIZE + WS_HDR_PAYLOAD_LEN_SIZE + WS_HDR_MASK_SIZE
def WS_MAX_PAYLOAD_LEN : Nat := 0x7FFFFFFFFFFFFFFF
def WS_CONTROL_MAX_PAYLOAD_LEN : Nat := 125

/-! ## The frame header -/

/-- The four bytes of a masking key, in memory order. -/
structure Mask where
  b0 : UInt8
  b1 : UInt8
  b2 : UInt8
  b3 : UInt8
  deriving DecidableEq, Repr

namespace Mask

/-- The key of a cleared header. -/
def zero : Mask := ⟨0, 0, 0, 0⟩

/-- The key as it lies in memory. -/
def toBytes (m : Mask) : Bytes := [m.b0, m.b1, m.b2, m.b3]

/-- Read a key from memory. -/
def ofBytes (b : Bytes) : Mask := ⟨b.getD 0 0, b.getD 1 0, b.getD 2 0, b.getD 3 0⟩

/-- The key byte that masks payload position `i`. -/
def byte (m : Mask) (i : Nat) : UInt8 := m.toBytes.getD (i % 4) 0

@[simp] theorem length_toBytes (m : Mask) : m.toBytes.length = 4 := rfl

@[simp] theorem ofBytes_toBytes_append (m : Mask) (rest : Bytes) :
    ofBytes (m.toBytes ++ rest) = m := rfl

end Mask

/-- The values of the seven bit length field are counted modulo 128. -/
instance neZeroPayloadLen : NeZero 128 := ⟨by decide⟩

/-- `WSHeader`. -/
structure WSHeader where
  fin : Bool
  rsv1 : Bool
  rsv2 : Bool
  rsv3 : Bool
  opcode : WSOpcode
  maskBit : Bool
  /-- The seven bit length field. -/
  payloadLen : Fin 128
  mask : Mask
  deriving DecidableEq, Repr

namespace WSHeader

/-- The header after `wsHeader_ = {0}`. -/
def zero : WSHeader :=
  ⟨false, false, false, false, .continuation, false, 0, Mask.zero⟩

/-- `wsHeader_.payloadLen = n`: the field keeps the low seven bits. -/
def setPayloadLen (h : WSHeader) (n : Nat) : WSHeader := { h with payloadLen := Fin.ofNat 128 n }

end WSHeader

end CppImprovement.Ws
