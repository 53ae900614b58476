import SmartTunnel.Model.ByteUtil

/-!
# `IPV4Header`

The IPv4 header object. `mHeader` holds the last serialisation and `mHeaderChecksum`
the last checksum, computed or parsed; `getHeader` uses them when they are there.
-/

namespace SmartTunnel

open Jvm ByteUtil

structure IPV4Header where
  mSourceAddress : Bytes
  mDestAddress : Bytes
  mTypeOfService : Byte := 0
  mTotalLength : Option Bytes := none
  mIdentification : Option Bytes := none
  mFlag : Byte := 0
  mFragmentOffset : BitVec 16 := 0
  mTimeToLive : Byte := 0
  mProtocol : Byte := 0
  mHeaderChecksum : Option Bytes := none
  mOptions : Option Bytes := none
  mHeader : Option Bytes := none
  deriving DecidableEq, Repr

namespace IPV4Header

def optionLength (h : IPV4Header) : ℕ := (h.mOptions.map List.length).getD 0

def getHeaderLength (h : IPV4Header) : ℕ := 5 * 4 + h.optionLength

/-- The first byte: version and IHL. -/
def versionAndIHL (h : IPV4Header) : Byte :=
  (((4 : BitVec 32) <<< 4) ||| BitVec.ofNat 32 (h.getHeaderLength / 4)).setWidth 8

def flagAndFragmentOffset (h : IPV4Header) : BitVec 32 :=
  (h.mFlag.signExtend 32 <<< 13) ||| (h.mFragmentOffset.signExtend 32 &&& 0x1FFF)

def generateInitialHeader (h : IPV4Header) : Except JavaException Bytes :=
  ByteBuffer.layout h.getHeaderLength
    ([some [h.versionAndIHL],
      some [h.mTypeOfService],
      h.mTotalLength,
      h.mIdentification,
      some (getByteFromInt h.flagAndFragmentOffset 2),
      some [h.mTimeToLive],
      some [h.mProtocol],
      some [0, 0],
      some h.mSourceAddress,
      some h.mDestAddress] ++
      (if h.mOptions.isSome then [h.mOptions] else []))

def calculateChecksum : Java IPV4Header Unit := do
  let header ← Java.lift (← get).generateInitialHeader
  modify fun h => { h with mHeader := some header }
  modify fun h => { h with mHeaderChecksum := some (computeChecksum header) }

def getHeader : Java IPV4Header Bytes := do
  if (← get).mHeaderChecksum.isNone then calculateChecksum
  if (← get).mHeader.isNone then
    let header ← Java.lift (← get).generateInitialHeader
    modify fun h => { h with mHeader := some header }
  let mHeader ← Java.lift (deref (← get).mHeader)
  let mHeaderChecksum ← Java.lift (deref (← get).mHeaderChecksum)
  let header ← Java.lift (ArrayUtil.replace mHeader 10 mHeaderChecksum)
  modify fun h => { h with mHeader := some header }
  return header

/-- The loop of `getIPAddress`: octets in decimal, a dot after each but the last. -/
def getIPAddress : Bytes → String
  | [] => ""
  | b :: address => Nat.repr b.toNat ++ (if address.isEmpty then "" else ".") ++ getIPAddress address

def fromHeaderByte (header : Bytes) : Except JavaException IPV4Header := do
  let sourceAddress ← copyOfRange header 12 16
  let destAddress ← copyOfRange header 16 20
  let ipHeaderBytesLength := ((← aget header 0).signExtend 32 &&& 0xF).toNat * 4
  let typeOfService ← aget header 1
  let totalLength ← copyOfRange header 2 4
  let identification ← copyOfRange header 4 6
  let flag := (((← aget header 6).signExtend 32).sshiftRight 5).setWidth 8
  let fragmentOffset := ((← getIntValue (← copyOfRange header 6 8)) &&& 0x1FFF).setWidth 16
  let timeToLive ← aget header 8
  let protocol ← aget header 9
  let headerChecksum ← copyOfRange header 10 12
  let options ←
    if 20 < ipHeaderBytesLength then some <$> copyOfRange header 20 ipHeaderBytesLength else pure none
  return {
    mSourceAddress := sourceAddress
    mDestAddress := destAddress
    mTypeOfService := typeOfService
    mTotalLength := some totalLength
    mIdentification := some identification
    mFlag := flag
    mFragmentOffset := fragmentOffset
    mTimeToLive := timeToLive
    mProtocol := protocol
    mHeaderChecksum := some headerChecksum
    mOptions := options }

end IPV4Header

end SmartTunnel
