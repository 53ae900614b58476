import SmartTunnel.Model.ByteUtil

/-!
# `TCPFlag`, `TCPOption`, `TCP` and `UDP`

The transport headers. `calculateChecksum` builds the header anew and keeps it in
`mHeader`, `getHeader` writes the checksum into it.
-/

namespace SmartTunnel

open Jvm ByteUtil

/-! ## `TCPFlag` -/

structure TCPFlag where
  CWR : Byte := 0
  ECE : Byte := 0
  URG : Byte := 0
  ACK : Byte := 0
  PSH : Byte := 0
  RST : Byte := 0
  SYN : Byte := 0
  FIN : Byte := 0
  deriving DecidableEq, Repr

namespace TCPFlag

/-- `(byte) ((flags & mask) >> shift)`. -/
def bit (flags : Byte) (mask : BitVec 32) (shift : ℕ) : Byte :=
  ((flags.signExtend 32 &&& mask).sshiftRight shift).setWidth 8

def fromByte (flags : Byte) : TCPFlag where
  CWR := bit flags 0b10000000 7
  ECE := bit flags 0b01000000 6
  URG := bit flags 0b00100000 5
  ACK := bit flags 0b00010000 4
  PSH := bit flags 0b00001000 3
  RST := bit flags 0b00000100 2
  SYN := bit flags 0b00000010 1
  FIN := bit flags 0b00000001 0

def ACKOnly : TCPFlag := { ACK := 1 }

def SYN_ACK : TCPFlag := { SYN := 1, ACK := 1 }

def PSH_ACK : TCPFlag := { PSH := 1, ACK := 1 }

def RST_ACK : TCPFlag := { RST := 1, ACK := 1 }

def FIN_ACK : TCPFlag := { FIN := 1, ACK := 1 }

def getByte (f : TCPFlag) : Byte :=
  ((f.CWR.signExtend 32 <<< 7) ||| (f.ECE.signExtend 32 <<< 6) ||| (f.URG.signExtend 32 <<< 5) |||
    (f.ACK.signExtend 32 <<< 4) ||| (f.PSH.signExtend 32 <<< 3) ||| (f.RST.signExtend 32 <<< 2) |||
    (f.SYN.signExtend 32 <<< 1) ||| f.FIN.signExtend 32).setWidth 8

end TCPFlag

/-! ## `TCPOption` -/

structure SACK where
  leftEdge : BitVec 32
  rightEdge : BitVec 32
  deriving DecidableEq, Repr

structure TCPOption where
  maximumSegmentSizeByte : Option Bytes := none
  windowScale : Byte := 0
  selectiveAcknowledgmentPermitted : Bool := false
  selectiveAcknowledgment : Option Bytes := none
  timeStamp : Option Bytes := none
  options : Option Bytes := none
  deriving DecidableEq, Repr

namespace TCPOption

def KIND_EOL : Byte := 0

def KIND_NO : Byte := 1

def KIND_MSS : Byte := 2

def KIND_WS : Byte := 3

def KIND_SAP : Byte := 4

def KIND_SA : Byte := 5

def KIND_TS : Byte := 8

def generateOptions (op : TCPOption) : Option Bytes :=
  let stream : Bytes :=
    (match op.maximumSegmentSizeByte with
      | some mss => [KIND_MSS, 4] ++ mss
      | none => []) ++
    (if op.windowScale ≠ 0 then [KIND_NO, KIND_WS, 3, op.windowScale] else []) ++
    (if op.selectiveAcknowledgmentPermitted then [KIND_NO, KIND_NO, KIND_SAP, 2] else []) ++
    (match op.selectiveAcknowledgment with
      | some sa => [KIND_NO, KIND_NO, KIND_SA, BitVec.ofNat 8 (sa.length + 2)] ++ sa
      | none => []) ++
    (match op.timeStamp with
      | some ts => [KIND_NO, KIND_NO, KIND_TS] ++ ts
      | none => [])
  if stream.length = 0 then none else some stream

def getBytes (op : TCPOption) : Option Bytes :=
  match op.options with
  | some options => some options
  | none => op.generateOptions

/-- One round of the loop of `fromByte`, at index `i`. A kind the `switch` does not name
leaves `optionLength` at zero. -/
def fromByteRound (option : Bytes) (s : TCPOption × ℤ) : Except JavaException (TCPOption × ℤ) := do
  let (op, i) := s
  let kind ← aget option i
  if kind = KIND_EOL then
    return (op, i + 1)
  else if kind = KIND_NO then
    return (op, i + 1)
  else if kind = KIND_MSS then
    let optionLength := (← aget option (i + 1)).toInt
    let mss ← copyOfRange option (i + 2) (i + optionLength)
    return ({ op with maximumSegmentSizeByte := some mss }, i + optionLength)
  else if kind = KIND_WS then
    let optionLength := (← aget option (i + 1)).toInt
    let scale ← aget option (i + optionLength - 1)
    return ({ op with windowScale := scale }, i + optionLength)
  else if kind = KIND_SAP then
    let optionLength := (← aget option (i + 1)).toInt
    let permitted ← aget option (i + 1)
    return ({ op with selectiveAcknowledgmentPermitted := permitted == 1 }, i + optionLength)
  else if kind = KIND_SA then
    let optionLength := (← aget option (i + 1)).toInt
    let sa ← copyOfRange option (i + 2) (i + optionLength)
    return ({ op with selectiveAcknowledgment := some sa }, i + optionLength)
  else if kind = KIND_TS then
    let optionLength := (← aget option (i + 1)).toInt
    let ts ← copyOfRange option (i + 2) (i + optionLength)
    return ({ op with timeStamp := some ts }, i + optionLength)
  else
    return (op, i + 0)

def fromByte (fuel : ℕ) (option : Bytes) : Fueled TCPOption := do
  let (op, _) ← Fueled.doWhile (fromByteRound option) (fun s => s.2 < option.length) fuel
    ({ options := some option }, 0)
  return op

def getMaximumSegmentSize (op : TCPOption) : Except JavaException (BitVec 32) :=
  match op.maximumSegmentSizeByte with
  | none => .ok 0
  | some mss => getIntValue mss

def setMaximumSegmentSize (op : TCPOption) (maximumSegmentSize : BitVec 32) : TCPOption :=
  { op with maximumSegmentSizeByte := some (getByteFromInt maximumSegmentSize 2) }

def setWindowScale (op : TCPOption) (windowScale : Byte) : TCPOption := { op with windowScale := windowScale }

def setSelectiveAcknowledgmentPermitted (op : TCPOption) (selectiveAcknowledgmentPermitted : Bool) : TCPOption :=
  { op with selectiveAcknowledgmentPermitted := selectiveAcknowledgmentPermitted }

def setTimeStamp (op : TCPOption) (timeStamp : BitVec 64) : TCPOption :=
  { op with timeStamp := some (getByteFromLong timeStamp 8) }

/-- `setSelectiveAcknowledgment(byte[])`. -/
def setSelectiveAcknowledgmentBytes (op : TCPOption) (selectiveAcknowledgment : Option Bytes) : TCPOption :=
  { op with selectiveAcknowledgment := selectiveAcknowledgment }

/-- One round of `getSelectiveAcknowledgmentIntValues`: the `index`-th block. -/
def readBlock (sa : Bytes) (values : List (Option SACK)) (index : ℕ) :
    Except JavaException (List (Option SACK)) := do
  let leftEdge ← getIntValue (← copyOfRange sa (8 * index) (8 * index + 4))
  let rightEdge ← getIntValue (← copyOfRange sa (8 * index + 4) (8 * index + 8))
  if index < values.length then return values.set index (some ⟨leftEdge, rightEdge⟩)
  else throw .arrayIndexOutOfBounds

/-- The blocks of the SACK option. The array has one element for each four bytes, so
the second half of it stays null. -/
def getSelectiveAcknowledgmentIntValues (op : TCPOption) :
    Except JavaException (Option (List (Option SACK))) :=
  match op.selectiveAcknowledgment with
  | none => .ok none
  | some sa => do
    let values ← (List.range ((sa.length + 7) / 8)).foldlM (readBlock sa)
      (List.replicate (sa.length / 4) none)
    return some values

/-- One round of `setSelectiveAcknowledgment`: `index` moves on by four bytes only. -/
def writeBlock (s : Bytes × ℕ) (sack : SACK) : Except JavaException (Bytes × ℕ) := do
  let selectiveACK ← ArrayUtil.replace s.1 s.2 (getByteFromInt sack.leftEdge 4)
  let selectiveACK ← ArrayUtil.replace selectiveACK (s.2 + 4) (getByteFromInt sack.rightEdge 4)
  return (selectiveACK, s.2 + 4)

def setSelectiveAcknowledgment (op : TCPOption) (sacks : List SACK) : Except JavaException TCPOption := do
  let (selectiveACK, _) ← sacks.foldlM writeBlock (List.replicate (sacks.length * 2 * 4) 0, 0)
  return { op with selectiveAcknowledgment := some selectiveACK }

/-- `setSelectiveAcknowledgment(SACK[])` on an array with null elements. -/
def setSelectiveAcknowledgmentArray (op : TCPOption) (sacks : List (Option SACK)) :
    Except JavaException TCPOption := do
  let (selectiveACK, _) ← sacks.foldlM (fun s sack => do writeBlock s (← deref sack))
    (List.replicate (sacks.length * 2 * 4) 0, 0)
  return { op with selectiveAcknowledgment := some selectiveACK }

end TCPOption

/-! ## `TCP` -/

structure TCP where
  mSourcePort : Bytes
  mDestPort : Bytes
  mSequenceNumber : Option Bytes := none
  mAcknowledgmentNumber : Option Bytes := none
  dataOffset : Byte := 0
  mFlag : Option TCPFlag := none
  mChecksum : Option Bytes := none
  mWindowSize : Option Bytes := none
  mUrgentPointer : Option Bytes := none
  mTCPOption : Option TCPOption := none
  mHeader : Option Bytes := none
  deriving DecidableEq, Repr

namespace TCP

def PROTOCOL_NUMBER : Byte := 6

/-- The option bytes the header ends with: none without a `TCPOption`. -/
def optionBytes (t : TCP) : Except JavaException Bytes :=
  match t.mTCPOption with
  | none => .ok []
  | some op => deref op.getBytes

def getHeaderLength (t : TCP) : Except JavaException ℕ := do
  return 5 * 4 + (← t.optionBytes).length

def dataOffsetAndFlags (t : TCP) (optionLength : ℕ) : BitVec 32 :=
  let dataOffset : Byte := BitVec.ofNat 8 (5 + optionLength / 4)
  (dataOffset.signExtend 32 <<< 12) |||
    (match t.mFlag with
      | none => 0
      | some flag => flag.getByte.signExtend 32)

def generateInitialHeader (t : TCP) : Except JavaException Bytes := do
  let options ← t.optionBytes
  ByteBuffer.layout (5 * 4 + options.length)
    ([some t.mSourcePort,
      some t.mDestPort,
      t.mSequenceNumber,
      t.mAcknowledgmentNumber,
      some (getByteFromInt (t.dataOffsetAndFlags options.length) 2),
      t.mWindowSize,
      some [0, 0],
      t.mUrgentPointer] ++
      (if t.mTCPOption.isSome then [some options] else []))

def calculateChecksum (sourceIP destIP : Bytes) (data : Option Bytes) : Java TCP Unit := do
  let dataLength := (data.map List.length).getD 0
  let headerLength ← Java.lift (← get).getHeaderLength
  let pseudoHeader ← Java.lift (ByteBuffer.allocate (12 + headerLength + dataLength))
  let pseudoHeader ← Java.lift (pseudoHeader.putAll
    [some sourceIP, some destIP, some [0, PROTOCOL_NUMBER],
      some (getByteFromInt (BitVec.ofNat 32 (headerLength + dataLength)) 2)])
  let header ← Java.lift (← get).generateInitialHeader
  modify fun t => { t with mHeader := some header }
  let pseudoHeader ← Java.lift (pseudoHeader.putAll
    ([some header] ++ (if data.isSome then [data] else [])))
  modify fun t => { t with mChecksum := some (computeChecksum pseudoHeader.array) }

def getHeader : Java TCP Bytes := do
  if (← get).mChecksum.isNone then throw .illegalState
  if (← get).mHeader.isNone then
    let header ← Java.lift (← get).generateInitialHeader
    modify fun t => { t with mHeader := some header }
  let mHeader ← Java.lift (deref (← get).mHeader)
  let mChecksum ← Java.lift (deref (← get).mChecksum)
  let header ← Java.lift (ArrayUtil.replace mHeader 16 mChecksum)
  modify fun t => { t with mHeader := some header }
  return header

def getSequenceNumberIntValue (t : TCP) : Except JavaException (BitVec 32) := do
  getIntValue (← deref t.mSequenceNumber)

def getAcknowledgmentNumberIntValue (t : TCP) : Except JavaException (BitVec 32) := do
  getIntValue (← deref t.mAcknowledgmentNumber)

def getWindowSize (t : TCP) : Except JavaException (BitVec 32) := do
  getIntValue (← deref t.mWindowSize)

def setSequenceNumber (t : TCP) (sequenceNumber : BitVec 32) : TCP :=
  { t with mSequenceNumber := some (getByteFromInt sequenceNumber 4) }

def setAcknowledgmentNumber (t : TCP) (acknowledgmentNumber : BitVec 32) : TCP :=
  { t with mAcknowledgmentNumber := some (getByteFromInt acknowledgmentNumber 4) }

def setWindowSize (t : TCP) (windowSize : BitVec 32) : TCP :=
  { t with mWindowSize := some (getByteFromInt windowSize 2) }

def setUrgentPointer (t : TCP) (urgentPointer : BitVec 32) : TCP :=
  { t with mUrgentPointer := some (getByteFromInt urgentPointer 2) }

/-- The fixed part of `fromTCPHeader`. -/
def fixedPart (header : Bytes) : Except JavaException TCP := do
  let sPort ← copyOfRange header 0 2
  let dPort ← copyOfRange header 2 4
  let sequenceNumber ← copyOfRange header 4 8
  let acknowledgmentNumber ← copyOfRange header 8 12
  let dataOffset := (((← aget header 12).setWidth 32).sshiftRight 4).setWidth 8
  let flag := TCPFlag.fromByte (← aget header 13)
  let windowSize ← copyOfRange header 14 16
  let checksum ← copyOfRange header 16 18
  let urgentPointer ← copyOfRange header 18 20
  return {
    mSourcePort := sPort
    mDestPort := dPort
    mSequenceNumber := some sequenceNumber
    mAcknowledgmentNumber := some acknowledgmentNumber
    dataOffset := dataOffset
    mFlag := some flag
    mWindowSize := some windowSize
    mChecksum := some checksum
    mUrgentPointer := some urgentPointer }

def fromTCPHeader (fuel : ℕ) (header : Bytes) : Fueled TCP := do
  let tcp ← Fueled.lift (fixedPart header)
  if 20 < header.length ∧ 5 < tcp.dataOffset.toInt then
    let area ← Fueled.lift (copyOfRange header 20 (tcp.dataOffset.toInt * 4))
    let option ← TCPOption.fromByte fuel area
    return { tcp with mTCPOption := some option }
  else
    return tcp

end TCP

/-! ## `UDP` -/

structure UDP where
  mSourcePort : Bytes
  mDestPort : Bytes
  mChecksum : Option Bytes := none
  mDatagramLength : Option Bytes := none
  mHeader : Option Bytes := none
  deriving DecidableEq, Repr

namespace UDP

def PROTOCOL_NUMBER : Byte := 17

def getHeaderLength (_ : UDP) : ℕ := 8

/-- `new UDP(int, int)`. -/
def ofInts (sourcePort destPort : BitVec 32) : UDP where
  mSourcePort := getByteFromInt sourcePort 2
  mDestPort := getByteFromInt destPort 2

def generateInitialHeader (u : UDP) (data : Option Bytes) : Except JavaException Bytes :=
  ByteBuffer.layout 8
    [some u.mSourcePort, some u.mDestPort,
      some (getByteFromInt (BitVec.ofNat 32 (8 + (data.map List.length).getD 0)) 2), some [0, 0]]

def calculateChecksum (sourceIP destIP : Bytes) (data : Option Bytes) : Java UDP Unit := do
  let dataLength := (data.map List.length).getD 0
  let datagramLength := getByteFromInt (BitVec.ofNat 32 ((← get).getHeaderLength + dataLength)) 2
  modify fun u => { u with mDatagramLength := some datagramLength }
  let pseudoHeader ← Java.lift (ByteBuffer.allocate (12 + 8 + dataLength))
  let pseudoHeader ← Java.lift (pseudoHeader.putAll
    [some sourceIP, some destIP, some [0, PROTOCOL_NUMBER], some datagramLength])
  let header ← Java.lift ((← get).generateInitialHeader data)
  modify fun u => { u with mHeader := some header }
  let pseudoHeader ← Java.lift (pseudoHeader.putAll
    ([some header] ++ (if data.isSome then [data] else [])))
  modify fun u => { u with mChecksum := some (computeChecksum pseudoHeader.array) }

def getHeader : Java UDP Bytes := do
  if (← get).mHeader.isNone || (← get).mChecksum.isNone then throw .illegalState
  let mHeader ← Java.lift (deref (← get).mHeader)
  let mChecksum ← Java.lift (deref (← get).mChecksum)
  let header ← Java.lift (ArrayUtil.replace mHeader 6 mChecksum)
  modify fun u => { u with mHeader := some header }
  return header

def fromHeaderBytes (header : Bytes) : Except JavaException UDP := do
  let sPort ← copyOfRange header 0 2
  let dPort ← copyOfRange header 2 4
  let datagramLength ← copyOfRange header 4 6
  let checksum ← copyOfRange header 6 8
  let mHeader ← copyOfRange header 0 8
  return {
    mSourcePort := sPort
    mDestPort := dPort
    mDatagramLength := some datagramLength
    mChecksum := some checksum
    mHeader := some mHeader }

end UDP

end SmartTunnel
