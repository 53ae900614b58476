import SmartTunnel.Proof.OptionCodec
import SmartTunnel.Proof.RoundTrip
import SmartTunnel.Proof.Totality

/-!
# Headers that are read back

An IPv4 header is laid out from its fields and the fields are read from it; a TCP header
likewise, with the options walked.

* `headerCodec_iff`: the IPv4 headers whose fields are read back, and the arrays that are
  written back. Flag and offset share two bytes, and the flag is split off with a signed shift.
* `decodesBack_iff`: the TCP segments whose fields are read back. The flags are merged as a
  signed byte.
-/

namespace SmartTunnel

open Jvm BigEndian ByteUtil

theorem exists_pair {l : Bytes} (h : l.length = 2) : ∃ a b, l = [a, b] := List.length_eq_two.1 h

theorem exists_quad {l : Bytes} (h : l.length = 4) : ∃ a b c d, l = [a, b, c, d] := by
  obtain ⟨a, rest, rfl⟩ := List.exists_cons_of_length_eq_add_one h
  obtain ⟨b, c, d, rfl⟩ := List.length_eq_three.1 (Nat.succ.inj h)
  exact ⟨a, b, c, d, rfl⟩

theorem signExtend_positive : ∀ b : Byte, b.toNat < 128 → (b.signExtend 32 : BitVec 32).toNat = b.toNat := by
  decide +kernel

/-! ## The IPv4 header -/

attribute [ext] IPV4Header

namespace IPV4Header

/-- A header with fields of the sizes they have on the wire. Its checksum is reset or it has not been laid
out yet, as `getPacketBytes` and `fromHeaderByte` leave it. -/
structure Codable (h : IPV4Header) : Prop where
  source : h.mSourceAddress.length = 4
  dest : h.mDestAddress.length = 4
  totalLength : ∃ tl, h.mTotalLength = some tl ∧ tl.length = 2
  identification : ∃ id, h.mIdentification = some id ∧ id.length = 2
  flag : h.mFlag.toNat < 8
  fragmentOffset : h.mFragmentOffset.toNat < 8192
  options : ∀ o, h.mOptions = some o → 4 ∣ o.length ∧ 4 ≤ o.length ∧ o.length ≤ 40
  checksum : ∀ c, h.mHeaderChecksum = some c → c.length = 2
  fresh : h.mHeaderChecksum = none ∨ h.mHeader = none

/-- `getHeader` returns twenty bytes and the options, and `fromHeaderByte` reads the fields from them. -/
def ReadsBack (h : IPV4Header) : Prop :=
  ∃ header h₁ h₂, Java.exec getHeader h = (.ok header, h₁) ∧ header.length = 20 + h.optionLength ∧
    fromHeaderByte header = .ok h₂ ∧
    h₂ = { h with mHeaderChecksum := h₂.mHeaderChecksum, mHeader := none } ∧
    ∀ c, h.mHeaderChecksum = some c → h₂.mHeaderChecksum = some c

/-- An array that is a header of version 4. -/
structure IsHeader (p : Bytes) : Prop where
  version : (byteAt p 0).toNat / 16 = 4
  ihl : 5 ≤ (byteAt p 0).toNat % 16
  length : p.length = 4 * ((byteAt p 0).toNat % 16)

/-- `fromHeaderByte(p).getHeader()` is `p`. -/
def WrittenBack (p : Bytes) : Prop :=
  ∃ h h', fromHeaderByte p = .ok h ∧ Java.exec getHeader h = (.ok p, h')

/-- A header that is laid out anew ends up with its checksum, if it has one. -/
theorem getHeader_fresh {h : IPV4Header} {pre post : Bytes} (hfresh : h.mHeaderChecksum = none ∨ h.mHeader = none)
    (hc : ∀ c, h.mHeaderChecksum = some c → c.length = 2)
    (hg : h.generateInitialHeader = .ok (pre ++ 0 :: 0 :: post)) (hpre : pre.length = 10) :
    ∃ x y h', Java.exec getHeader h = (.ok (pre ++ x :: y :: post), h') ∧
      ∀ c, h.mHeaderChecksum = some c → c = [x, y] := by
  cases hsum : h.mHeaderChecksum with
  | none =>
    obtain ⟨x, y, hxy, -⟩ := computeChecksum_pair (pre ++ 0 :: 0 :: post)
    rw [getHeader_exec _ hsum, hg]
    simp only [hxy, ArrayUtil.replace_middle hpre]
    exact ⟨x, y, _, rfl, by simp⟩
  | some c =>
    obtain ⟨x, y, rfl⟩ := exists_pair (hc c hsum)
    have hnone : h.mHeader = none := hfresh.resolve_left (by rw [hsum]; simp)
    unfold getHeader
    simp only [Java.exec_bind, Java.exec_get, hsum, Option.isNone_some, Bool.false_eq_true, if_false,
      Java.exec_pure, hnone, Option.isNone_none, if_true, Java.exec_lift, hg, Java.exec_modify, deref_some,
      ArrayUtil.replace_middle hpre]
    exact ⟨x, y, _, rfl, by simp⟩

/-! ### From fields to bytes and back -/

/-- The flag that is split off the upper byte: a set top bit makes it negative. -/
theorem flag_split : ∀ b : Byte, (((b.signExtend 32).sshiftRight 5).setWidth 8 : Byte).toNat =
    if b.toNat < 128 then b.toNat / 32 else b.toNat / 32 + 248 := by decide +kernel

theorem versionAndIHL_toNat : ∀ n < 16,
    ((((4 : BitVec 32) <<< 4) ||| BitVec.ofNat 32 n).setWidth 8 : Byte).toNat = 64 + n := by decide +kernel

section Codable

variable {h : IPV4Header} {tl id : Bytes}

theorem Codable.optionLength_le (hc : Codable h) :
    4 ∣ h.optionLength ∧ h.optionLength ≤ 40 ∧ h.optionLength = (h.mOptions.getD []).length := by
  unfold optionLength
  cases ho : h.mOptions with
  | none => simp
  | some o =>
    obtain ⟨hfour, -, hle⟩ := hc.options o ho
    simpa using ⟨hfour, hle⟩

/-- Flag and fragment offset take two bytes, with the flag in the upper three bits. -/
theorem Codable.flagBytes (hc : Codable h) :
    ∃ a b : Byte, getByteFromInt h.flagAndFragmentOffset 2 = [a, b] ∧ a.toNat / 32 = h.mFlag.toNat ∧
      (a.toNat * 256 + b.toNat) % 8192 = h.mFragmentOffset.toNat := by
  have hflag := hc.flag
  have hoff := hc.fragmentOffset
  have hsign := signExtend_positive _ (by omega : h.mFlag.toNat < 128)
  have hword := flagAndFragmentOffset_eq (h := h) (by omega) hoff
  rw [hsign] at hword
  obtain ⟨upper, hupper⟩ : ∃ a : Byte, a.toNat = h.mFlag.toNat * 32 + h.mFragmentOffset.toNat / 256 :=
    ⟨BitVec.ofNat 8 _, by rw [BitVec.toNat_ofNat]; exact Nat.mod_eq_of_lt (by omega)⟩
  obtain ⟨lower, hlower⟩ : ∃ b : Byte, b.toNat = h.mFragmentOffset.toNat % 256 := ⟨BitVec.ofNat 8 _, BitVec.toNat_ofNat _ _⟩
  refine ⟨upper, lower, getByteFromInt_two (by rw [hword, hupper, hlower]; omega), ?_, ?_⟩
  · rw [hupper]
    omega
  · rw [hupper, hlower]
    omega

theorem Codable.sized (hc : Codable h) : h.Sized := by
  obtain ⟨id, hid, hid2⟩ := hc.identification
  refine ⟨hc.source, hc.dest, fun id' hid' => ?_, fun o ho => ?_⟩
  · rw [← Option.some.inj (hid.symm.trans hid')]
    exact hid2
  · obtain ⟨hfour, -, hle⟩ := hc.options o ho
    exact ⟨hfour, hle⟩

/-- The bytes that `fromHeaderByte` reads its fields from. -/
theorem Codable.header_bytes (hc : Codable h) (x y : Byte) (htl2 : tl.length = 2) (hid2 : id.length = 2) :
    let p := h.beforeChecksum tl id ++ x :: y :: h.afterChecksum
    byteAt p 0 = h.versionAndIHL ∧ byteAt p 1 = h.mTypeOfService ∧ pairAt p 2 = tl ∧ pairAt p 4 = id ∧
      pairAt p 6 = getByteFromInt h.flagAndFragmentOffset 2 ∧ byteAt p 8 = h.mTimeToLive ∧
      byteAt p 9 = h.mProtocol ∧ pairAt p 10 = [x, y] ∧ quadAt p 12 = h.mSourceAddress ∧
      quadAt p 16 = h.mDestAddress ∧ p.drop 20 = h.mOptions.getD [] := by
  obtain ⟨a, b, hflag, -, -⟩ := hc.flagBytes
  obtain ⟨t₀, t₁, rfl⟩ := exists_pair htl2
  obtain ⟨i₀, i₁, rfl⟩ := exists_pair hid2
  obtain ⟨s₀, s₁, s₂, s₃, hs⟩ := exists_quad hc.source
  obtain ⟨d₀, d₁, d₂, d₃, hd⟩ := exists_quad hc.dest
  unfold beforeChecksum afterChecksum
  rw [hflag, hs, hd]
  exact ⟨rfl, rfl, rfl, rfl, rfl, rfl, rfl, rfl, rfl, rfl, rfl⟩

/-- **What `fromHeaderByte` reads from a header that was laid out**: its fields, but for the flag. -/
theorem Codable.fromHeaderByte (hc : Codable h) (x y : Byte) (htl : h.mTotalLength = some tl) (htl2 : tl.length = 2)
    (hid : h.mIdentification = some id) (hid2 : id.length = 2) :
    IPV4Header.fromHeaderByte (h.beforeChecksum tl id ++ x :: y :: h.afterChecksum) = .ok
      { h with
        mFlag := if h.mFlag.toNat < 4 then h.mFlag else BitVec.ofNat 8 (h.mFlag.toNat + 248)
        mHeaderChecksum := some [x, y]
        mHeader := none } := by
  obtain ⟨hfour, hle, hopt⟩ := hc.optionLength_le
  obtain ⟨-, hbefore, hafter⟩ := hc.sized.generateInitialHeader_fits htl htl2 hid hc.flag
  obtain ⟨h0, h1, h2, h4, h6, h8, h9, h10, h12, h16, h20⟩ := hc.header_bytes x y htl2 hid2
  obtain ⟨a, b, hflag, ha, hab⟩ := hc.flagBytes
  set p := h.beforeChecksum tl id ++ x :: y :: h.afterChecksum with hp
  have hlen : p.length = 20 + h.optionLength := by
    rw [hp, List.length_append, List.length_cons, List.length_cons, hbefore, hafter]
    omega
  have hihl : ipHeaderLength p = 20 + h.optionLength := by
    unfold ipHeaderLength versionAndIHL at *
    rw [h0, versionAndIHL_toNat _ (by unfold getHeaderLength; omega)]
    unfold getHeaderLength
    omega
  rw [fromHeaderByte_eq (by omega) (by omega)]
  -- the fields, one by one
  have hflags : [byteAt p 6, byteAt p 7] = [a, b] := h6.trans hflag
  simp only [List.cons.injEq, and_true] at hflags
  have hsplit : (parsedHeader p).mFlag = if h.mFlag.toNat < 4 then h.mFlag else BitVec.ofNat 8 (h.mFlag.toNat + 248) := by
    have hfl := hc.flag
    apply BitVec.eq_of_toNat_eq
    unfold parsedHeader
    rw [hflags.1, flag_split]
    by_cases hsmall : h.mFlag.toNat < 4
    · rw [if_pos hsmall, if_pos (by omega), ha]
    · rw [if_neg hsmall, if_neg (by omega), ha, BitVec.toNat_ofNat, Nat.mod_eq_of_lt (by omega)]
  have hoffset : (parsedHeader p).mFragmentOffset = h.mFragmentOffset := by
    apply BitVec.eq_of_toNat_eq
    change ((BitVec.ofNat 32 (wordAt p 6) &&& 0x1FFF : BitVec 32).setWidth 16).toNat = _
    rw [BitVec.toNat_setWidth, low_bits (wordAt_lt p 6)]
    unfold wordAt
    rw [hflags.1, hflags.2, hab]
    exact Nat.mod_eq_of_lt h.mFragmentOffset.isLt
  have hoptions : (parsedHeader p).mOptions = h.mOptions := by
    unfold parsedHeader
    rw [hihl, List.take_of_length_le hlen.le, h20]
    unfold optionLength
    cases ho : h.mOptions with
    | none => simp
    | some o =>
      obtain ⟨-, hpos, -⟩ := hc.options o ho
      simp only [Option.map_some, Option.getD_some]
      rw [if_pos (by omega)]
  congr 1
  exact IPV4Header.ext h12 h16 h1 ((congrArg some h2).trans htl.symm) ((congrArg some h4).trans hid.symm) hsplit hoffset
    h8 h9 (congrArg some h10) hoptions rfl

/-- **The fields of a header are read back iff its flag is below four.** -/
theorem Codable.header_readsBack_iff (hc : Codable h) : ReadsBack h ↔ h.mFlag.toNat < 4 := by
  obtain ⟨tl, htl, htl2⟩ := hc.totalLength
  obtain ⟨id, hid, hid2⟩ := hc.identification
  obtain ⟨hg, hbefore, hafter⟩ := hc.sized.generateInitialHeader_fits htl htl2 hid hc.flag
  obtain ⟨x, y, h', hexec, hsum⟩ := getHeader_fresh hc.fresh hc.checksum hg hbefore
  have hread := hc.fromHeaderByte x y htl htl2 hid hid2
  constructor
  · rintro ⟨header, h₁, h₂, hexec', -, hread', heq, -⟩
    obtain rfl := Except.ok.inj (Prod.mk.inj (hexec.symm.trans hexec')).1
    obtain rfl := Except.ok.inj (hread.symm.trans hread')
    by_contra hlarge
    -- the flag that is read is negative
    have hflag := congrArg IPV4Header.mFlag heq
    simp only [if_neg hlarge] at hflag
    have hval := congrArg BitVec.toNat hflag
    have hfl := hc.flag
    rw [BitVec.toNat_ofNat, Nat.mod_eq_of_lt (by omega)] at hval
    omega
  · intro hsmall
    refine ⟨_, _, _, hexec, ?_, hread, ?_, ?_⟩
    · rw [List.length_append, List.length_cons, List.length_cons, hbefore, hafter, ← hc.optionLength_le.2.2]
      omega
    · simp only [if_pos hsmall]
    · intro c hcs
      rw [hsum c hcs]

end Codable

/-! ### From bytes to fields and back -/

section Bytes

variable {p : Bytes}

theorem IsHeader.ipHeaderLength_eq (hp : IsHeader p) : 20 ≤ ipHeaderLength p ∧ ipHeaderLength p = p.length := by
  have hihl := hp.ihl
  have hlen := hp.length
  unfold ipHeaderLength
  omega

/-- The header that was read has fields of their sizes. -/
theorem IsHeader.sized (hp : IsHeader p) : (parsedHeader p).Sized := by
  obtain ⟨hihl, hlen⟩ := hp.ipHeaderLength_eq
  have hlength := parsedHeader_getHeaderLength hihl hlen.le
  refine ⟨rfl, rfl, ?_, ?_⟩
  · rintro _ ⟨⟩
    rfl
  · intro o ho
    rw [getHeaderLength_eq, ho] at hlength
    simp only [Option.getD_some] at hlength
    unfold ipHeaderLength at hlength
    omega

/-- **With the top bit of the flags set the header buffer overflows.** -/
theorem IsHeader.generateInitialHeader_raises (hp : IsHeader p) (hres : 128 ≤ (byteAt p 6).toNat) (b : Bytes) :
    (parsedHeader p).generateInitialHeader ≠ .ok b := by
  have hflag : (parsedHeader p).mFlag.toNat = _ := flag_split (byteAt p 6)
  rw [if_neg (not_lt.2 hres)] at hflag
  exact hp.sized.generateInitialHeader_overflow rfl rfl rfl (by omega) b

/-- **An array is written back iff the top bit of its flags is clear.** -/
theorem IsHeader.writtenBack_iff (hp : IsHeader p) : WrittenBack p ↔ (byteAt p 6).toNat < 128 := by
  obtain ⟨hihl, hlen⟩ := hp.ipHeaderLength_eq
  have hread := fromHeaderByte_eq (p := p) (by omega) (by omega)
  constructor
  · rintro ⟨h, h', hread', hexec⟩
    obtain rfl := Except.ok.inj (hread.symm.trans hread')
    by_contra hres
    have hsum : (parsedHeader p).mHeaderChecksum = some (pairAt p 10) := rfl
    have hnone : (parsedHeader p).mHeader = none := rfl
    cases hg : (parsedHeader p).generateInitialHeader with
    | error e =>
      unfold getHeader at hexec
      simp only [Java.exec_bind, Java.exec_get, hsum, hnone, Option.isNone_some, Option.isNone_none,
        Bool.false_eq_true, if_false, if_true, Java.exec_lift, hg] at hexec
      cases hexec
    | ok b => exact hp.generateInitialHeader_raises (not_lt.1 hres) b hg
  · intro hres
    have hg := generateInitialHeader_header hp.version hihl hlen.le hres
    obtain ⟨x, y, h', hexec, hsum⟩ := getHeader_fresh (h := parsedHeader p) (.inr rfl)
      (fun c hc => by cases hc; rfl) hg rfl
    refine ⟨_, h', hread, ?_⟩
    have hxy : [byteAt p 10, byteAt p 11] = [x, y] := hsum _ rfl
    have htake := take_ipHeader hihl hlen.le
    rw [List.take_of_length_le hlen.ge] at htake
    simp only [List.cons.injEq, and_true] at hxy
    rw [hexec, ← hxy.1, ← hxy.2, ← htake]

end Bytes

/-- **Which headers are read back, and which arrays are written back**: flags below four, and a clear top
bit. -/
theorem headerCodec_iff (h : IPV4Header) (hc : Codable h) (p : Bytes) (hp : IsHeader p) :
    (ReadsBack h ↔ h.mFlag.toNat < 4) ∧ (WrittenBack p ↔ (byteAt p 6).toNat < 128) :=
  ⟨hc.header_readsBack_iff, hp.writtenBack_iff⟩

/-- A header from 10.0.0.2 to 93.184.216.34 that may not be fragmented. -/
def dontFragment : IPV4Header where
  mSourceAddress := [10, 0, 0, 2]
  mDestAddress := [93, 184, 216, 34]
  mTotalLength := some [0, 40]
  mIdentification := some [0, 1]
  mFlag := 2
  mTimeToLive := 64
  mProtocol := 6

/-- The header with the flag set to `flag`, as an array. -/
def headerWith (flag : Byte) : Bytes :=
  [0x45, 0, 0, 40, 0, 1, flag, 0, 64, 6, 0, 0, 10, 0, 0, 2, 93, 184, 216, 34]

theorem dontFragment_codable : Codable dontFragment :=
  ⟨rfl, rfl, ⟨_, rfl, rfl⟩, ⟨_, rfl, rfl⟩, by decide, by decide, by simp [dontFragment],
    by simp [dontFragment], .inl rfl⟩

theorem headerWith_isHeader (flag : Byte) : IsHeader (headerWith flag) := by
  have hfirst : byteAt (headerWith flag) 0 = 0x45 := rfl
  exact ⟨by rw [hfirst]; decide, by rw [hfirst]; decide, by rw [hfirst]; rfl⟩

/-- The header that may not be fragmented is read back and written back. -/
theorem dontFragment_readsBack : ReadsBack dontFragment ∧ WrittenBack (headerWith 0x40) := by
  obtain ⟨hread, hwrite⟩ := headerCodec_iff dontFragment dontFragment_codable (headerWith 0x40) (headerWith_isHeader _)
  exact ⟨hread.2 (by decide), hwrite.2 (by decide)⟩

/-- **With the reserved bit set neither is.** -/
theorem reservedFlag_not_readBack : Codable { dontFragment with mFlag := 4 } ∧
    ¬ ReadsBack { dontFragment with mFlag := 4 } ∧ IsHeader (headerWith 0x80) ∧ ¬ WrittenBack (headerWith 0x80) := by
  have hc : Codable { dontFragment with mFlag := 4 } := { dontFragment_codable with flag := by decide }
  refine ⟨hc, fun h => ?_, headerWith_isHeader _, fun h => ?_⟩
  · exact absurd (hc.header_readsBack_iff.1 h) (by decide)
  · exact absurd ((headerWith_isHeader _).writtenBack_iff.1 h) (by decide)

end IPV4Header

/-! ## The TCP header -/

namespace TCPFlag

/-- Eight flags, each of them zero or one. -/
def ofBits (cwr ece urg ack psh rst syn fin : Bool) : TCPFlag where
  CWR := cwr.toNat
  ECE := ece.toNat
  URG := urg.toNat
  ACK := ack.toNat
  PSH := psh.toNat
  RST := rst.toNat
  SYN := syn.toNat
  FIN := fin.toNat

/-- Each flag is zero or one. -/
structure IsBits (f : TCPFlag) : Prop where
  cwr : f.CWR = 0 ∨ f.CWR = 1
  ece : f.ECE = 0 ∨ f.ECE = 1
  urg : f.URG = 0 ∨ f.URG = 1
  ack : f.ACK = 0 ∨ f.ACK = 1
  psh : f.PSH = 0 ∨ f.PSH = 1
  rst : f.RST = 0 ∨ f.RST = 1
  syn : f.SYN = 0 ∨ f.SYN = 1
  fin : f.FIN = 0 ∨ f.FIN = 1

theorem fromByte_getByte_ofBits : ∀ cwr ece urg ack psh rst syn fin : Bool,
    fromByte (ofBits cwr ece urg ack psh rst syn fin).getByte = ofBits cwr ece urg ack psh rst syn fin ∧
      ((ofBits cwr ece urg ack psh rst syn fin).getByte.toNat < 128 ↔ (ofBits cwr ece urg ack psh rst syn fin).CWR = 0) := by
  decide +kernel

theorem IsBits.exists_ofBits {f : TCPFlag} (h : f.IsBits) :
    ∃ cwr ece urg ack psh rst syn fin, f = ofBits cwr ece urg ack psh rst syn fin := by
  have hbit : ∀ b : Byte, b = 0 ∨ b = 1 → ∃ c : Bool, b = c.toNat := by
    rintro b (rfl | rfl)
    · exact ⟨false, rfl⟩
    · exact ⟨true, rfl⟩
  obtain ⟨CWR, ECE, URG, ACK, PSH, RST, SYN, FIN⟩ := f
  obtain ⟨cwr, hcwr⟩ := hbit _ h.cwr
  obtain ⟨ece, hece⟩ := hbit _ h.ece
  obtain ⟨urg, hurg⟩ := hbit _ h.urg
  obtain ⟨ack, hack⟩ := hbit _ h.ack
  obtain ⟨psh, hpsh⟩ := hbit _ h.psh
  obtain ⟨rst, hrst⟩ := hbit _ h.rst
  obtain ⟨syn, hsyn⟩ := hbit _ h.syn
  obtain ⟨fin, hfin⟩ := hbit _ h.fin
  simp only at hcwr hece hurg hack hpsh hrst hsyn hfin
  exact ⟨cwr, ece, urg, ack, psh, rst, syn, fin, by simp [ofBits, hcwr, hece, hurg, hack, hpsh, hrst, hsyn, hfin]⟩

/-- **The flags are read back from their byte**, which is negative with CWR. -/
theorem IsBits.fromByte_getByte {f : TCPFlag} (h : f.IsBits) :
    fromByte f.getByte = f ∧ (f.getByte.toNat < 128 ↔ f.CWR = 0) := by
  obtain ⟨cwr, ece, urg, ack, psh, rst, syn, fin, rfl⟩ := h.exists_ofBits
  exact fromByte_getByte_ofBits cwr ece urg ack psh rst syn fin

end TCPFlag

namespace TCP

/-- What a segment is built from with the setters of `TCP`. -/
structure Settings where
  sourcePort : Bytes
  destPort : Bytes
  sequenceNumber : BitVec 32
  acknowledgmentNumber : BitVec 32
  flag : TCPFlag
  windowSize : BitVec 32
  urgentPointer : BitVec 32
  option : Option TCPOption
  source_length : sourcePort.length = 2
  dest_length : destPort.length = 2
  flag_bits : flag.IsBits
  window_fits : windowSize.toNat ≤ 65535
  urgent_fits : urgentPointer.toNat ≤ 65535
  /-- The option bytes are a well-formed option area. -/
  option_area : ∀ op, option = some op → ∃ area : TCPOption.OptionArea, op.getBytes = some area.bytes ∧
    4 ∣ area.bytes.length ∧ area.bytes.length ≤ 40

namespace Settings

/-- `new TCP(sourcePort, destPort)` and the setters. -/
def build (s : Settings) : TCP :=
  let t : TCP := { mSourcePort := s.sourcePort, mDestPort := s.destPort }
  let t := (t.setSequenceNumber s.sequenceNumber).setAcknowledgmentNumber s.acknowledgmentNumber
  let t := { t with mFlag := some s.flag }
  let t := (t.setWindowSize s.windowSize).setUrgentPointer s.urgentPointer
  { t with mTCPOption := s.option }

/-- The option bytes of the segment. -/
def options (s : Settings) : Bytes := (s.option.bind TCPOption.getBytes).getD []

variable (s : Settings)

theorem optionBytes_build : s.build.optionBytes = .ok s.options ∧ 4 ∣ s.options.length ∧ s.options.length ≤ 40 := by
  unfold optionBytes options build
  cases ho : s.option with
  | none => simp
  | some op =>
    obtain ⟨area, harea, hfour, hle⟩ := s.option_area op ho
    simp [harea, hfour, hle]

theorem sized_build : s.build.Sized := by
  have hw := getByteFromInt_two_length (v := s.windowSize) (by have := s.window_fits; omega)
  have hu := getByteFromInt_two_length (v := s.urgentPointer) (by have := s.urgent_fits; omega)
  refine ⟨s.source_length, s.dest_length, ?_, ?_, ?_, ?_⟩
  · rintro _ ⟨⟩
    exact getByteFromInt_four_length _
  · rintro _ ⟨⟩
    exact getByteFromInt_four_length _
  · rintro _ ⟨⟩
    exact hw
  · rintro _ ⟨⟩
    exact hu

/-- The header bytes before the checksum. -/
def front : Bytes :=
  s.build.beforeChecksum (getByteFromInt s.sequenceNumber 4) (getByteFromInt s.acknowledgmentNumber 4)
    (getByteFromInt s.windowSize 2) s.options

/-- The header bytes after the checksum. -/
def back : Bytes := getByteFromInt s.urgentPointer 2 ++ s.options

theorem signExtend_negative : ∀ b : Byte, 128 ≤ b.toNat → 2 ^ 16 ≤ (b.signExtend 32 : BitVec 32).toNat := by
  decide +kernel

theorem offset_shifted : ∀ n < 16, ((BitVec.ofNat 8 n).signExtend 32 <<< 12 : BitVec 32).toNat = n * 4096 := by
  decide +kernel

/-- Without CWR, data offset and flags take two bytes. -/
theorem flagBytes (hcwr : s.flag.CWR = 0) :
    ∃ a : Byte, getByteFromInt (s.build.dataOffsetAndFlags s.options.length) 2 = [a, s.flag.getByte] ∧
      a.toNat = (5 + s.options.length / 4) * 16 := by
  obtain ⟨-, hfour, hle⟩ := s.optionBytes_build
  have hbyte := (s.flag_bits.fromByte_getByte.2).2 hcwr
  have hword : (s.build.dataOffsetAndFlags s.options.length).toNat =
      (5 + s.options.length / 4) * 4096 + s.flag.getByte.toNat := by
    have heq : s.build.dataOffsetAndFlags s.options.length =
        ((BitVec.ofNat 8 (5 + s.options.length / 4)).signExtend 32 <<< 12) ||| s.flag.getByte.signExtend 32 := rfl
    rw [heq, BitVec.toNat_or, offset_shifted _ (by omega), signExtend_positive _ hbyte,
      show (5 + s.options.length / 4) * 4096 = 2 ^ 12 * (5 + s.options.length / 4) by omega,
      ← Nat.two_pow_add_eq_or_of_lt (by omega)]
  obtain ⟨a, ha⟩ : ∃ a : Byte, a.toNat = (5 + s.options.length / 4) * 16 :=
    ⟨BitVec.ofNat 8 _, by rw [BitVec.toNat_ofNat]; exact Nat.mod_eq_of_lt (by omega)⟩
  exact ⟨a, getByteFromInt_two (by rw [hword, ha]; omega), ha⟩

theorem generateInitialHeader_build : s.build.generateInitialHeader = ByteBuffer.layout (20 + s.options.length)
    ((s.build.parts (getByteFromInt s.sequenceNumber 4) (getByteFromInt s.acknowledgmentNumber 4)
      (getByteFromInt s.windowSize 2) (getByteFromInt s.urgentPointer 2) s.options).map some) :=
  generateInitialHeader_eq s.optionBytes_build.1 rfl rfl rfl rfl

/-- The header without data offset and flags has 18 bytes and the options. -/
theorem parts_length :
    (s.build.parts (getByteFromInt s.sequenceNumber 4) (getByteFromInt s.acknowledgmentNumber 4)
      (getByteFromInt s.windowSize 2) (getByteFromInt s.urgentPointer 2) s.options).flatten.length =
      18 + (getByteFromInt (s.build.dataOffsetAndFlags s.options.length) 2).length + s.options.length := by
  have hw := getByteFromInt_two_length (v := s.windowSize) (by have := s.window_fits; omega)
  have hu := getByteFromInt_two_length (v := s.urgentPointer) (by have := s.urgent_fits; omega)
  have hs : s.build.mSourcePort.length = 2 := s.source_length
  have hd : s.build.mDestPort.length = 2 := s.dest_length
  rw [parts_flatten s.optionBytes_build.1]
  simp only [beforeChecksum, List.length_append, List.length_cons, getByteFromInt_four_length, hw, hu, hs, hd]
  omega

/-- **Without CWR the header is laid out.** -/
theorem generateInitialHeader_front (hcwr : s.flag.CWR = 0) :
    s.build.generateInitialHeader = .ok (s.front ++ 0 :: 0 :: s.back) := by
  obtain ⟨-, -, hle⟩ := s.optionBytes_build
  obtain ⟨a, hflag, -⟩ := s.flagBytes hcwr
  have hlen := s.parts_length
  rw [hflag] at hlen
  rw [generateInitialHeader_build, ByteBuffer.layout_full _ (by omega), parts_flatten s.optionBytes_build.1]
  · rfl
  · rw [hlen]
    simp only [List.length_cons, List.length_nil]

/-- **With CWR the header buffer overflows.** -/
theorem generateInitialHeader_overflow (hcwr : s.flag.CWR ≠ 0) (b : Bytes) : s.build.generateInitialHeader ≠ .ok b := by
  have hbyte : 128 ≤ s.flag.getByte.toNat := not_lt.1 fun h => hcwr (s.flag_bits.fromByte_getByte.2.1 h)
  have hbig : 2 ^ 16 ≤ (s.build.dataOffsetAndFlags s.options.length).toNat := by
    unfold dataOffsetAndFlags
    rw [BitVec.toNat_or]
    exact le_trans (signExtend_negative _ hbyte) Nat.right_le_or
  have hlong := two_lt_getByteFromInt_length hbig
  have hlen := s.parts_length
  rw [generateInitialHeader_build]
  apply ByteBuffer.layout_overflow
  omega

/-- The bytes that `fromTCPHeader` reads its fields from. -/
theorem segment_bytes (hcwr : s.flag.CWR = 0) (x y : Byte) (data : Bytes) :
    let q := s.front ++ x :: y :: s.back ++ data
    pairAt q 0 = s.sourcePort ∧ pairAt q 2 = s.destPort ∧ quadAt q 4 = getByteFromInt s.sequenceNumber 4 ∧
      quadAt q 8 = getByteFromInt s.acknowledgmentNumber 4 ∧
      (byteAt q 12).toNat = (5 + s.options.length / 4) * 16 ∧ byteAt q 13 = s.flag.getByte ∧
      pairAt q 14 = getByteFromInt s.windowSize 2 ∧ q.drop 20 = s.options ++ data ∧ (q.take 20).length = 20 := by
  obtain ⟨a, hflag, ha⟩ := s.flagBytes hcwr
  obtain ⟨s₀, s₁, hs⟩ := exists_pair s.source_length
  obtain ⟨d₀, d₁, hd⟩ := exists_pair s.dest_length
  obtain ⟨q₀, q₁, q₂, q₃, hq⟩ := exists_quad (getByteFromInt_four_length s.sequenceNumber)
  obtain ⟨a₀, a₁, a₂, a₃, hack⟩ := exists_quad (getByteFromInt_four_length s.acknowledgmentNumber)
  obtain ⟨w₀, w₁, hw⟩ := exists_pair (getByteFromInt_two_length (v := s.windowSize) (by have := s.window_fits; omega))
  obtain ⟨u₀, u₁, hu⟩ := exists_pair (getByteFromInt_two_length (v := s.urgentPointer) (by have := s.urgent_fits; omega))
  have hfront : s.front = [s₀, s₁, d₀, d₁, q₀, q₁, q₂, q₃, a₀, a₁, a₂, a₃, a, s.flag.getByte, w₀, w₁] := by
    unfold front beforeChecksum
    rw [show s.build.mSourcePort = [s₀, s₁] from hs, show s.build.mDestPort = [d₀, d₁] from hd, hq, hack, hflag, hw]
    rfl
  have hback : s.back = u₀ :: u₁ :: s.options := by
    unfold back
    rw [hu]
    rfl
  rw [hfront, hback, hs, hd, hq, hack, hw]
  exact ⟨rfl, rfl, rfl, rfl, ha, rfl, rfl, rfl, rfl⟩

end Settings

/-- `calculateChecksum` and `getHeader` make a header of twenty bytes and the options, and `fromTCPHeader`
reads the same fields from it and the payload behind it. -/
def DecodesBack (t : TCP) (source dest : Bytes) (data : Option Bytes) : Prop :=
  ∃ t₁ header t₂ t' options, Java.exec (calculateChecksum source dest data) t = (.ok (), t₁) ∧
    Java.exec getHeader t₁ = (.ok header, t₂) ∧ t.optionBytes = .ok options ∧ header.length = 20 + options.length ∧
    Fueled.Ends (fun n => fromTCPHeader n (header ++ data.getD [])) (.ok t') ∧
    t'.mSourcePort = t.mSourcePort ∧ t'.mDestPort = t.mDestPort ∧ t'.mSequenceNumber = t.mSequenceNumber ∧
    t'.mAcknowledgmentNumber = t.mAcknowledgmentNumber ∧ t'.mFlag = t.mFlag ∧ t'.mWindowSize = t.mWindowSize ∧
    t'.optionBytes = .ok options ∧ t'.getHeaderLength = t.getHeaderLength

/-- **When `fromTCPHeader` returns**: without options, or if the walk over them does. -/
theorem fromTCPHeader_returns_iff {s : Bytes} (h20 : 20 ≤ tcpHeaderLength s) (hin : tcpHeaderLength s ≤ s.length) :
    (∃ t, Fueled.Ends (fun n => fromTCPHeader n s) (.ok t)) ↔
      tcpHeaderLength s = 20 ∨ TCPOption.WalkReturns (optionArea s) := by
  simp only [fromTCPHeader_some_iff, paddedArea_eq hin, ← TCPOption.fromByte_returns_iff]
  constructor
  · rintro ⟨t, -, ⟨-, op, hop, -⟩ | ⟨hopt, -⟩⟩
    · exact .inr ⟨op, hop⟩
    · left
      unfold HasOptions at hopt
      omega
  · intro h
    by_cases hopt : HasOptions s
    · obtain ⟨op, hop⟩ := h.resolve_left (by have := hopt.2; omega)
      exact ⟨_, by omega, .inl ⟨hopt, op, hop, rfl⟩⟩
    · exact ⟨_, by omega, .inr ⟨hopt, rfl⟩⟩

namespace Settings

variable (s : Settings)

/-- Where the parser finds the options of the segment. -/
theorem segment_header (hcwr : s.flag.CWR = 0) (x y : Byte) (data : Bytes) :
    let q := s.front ++ x :: y :: s.back ++ data
    tcpHeaderLength q = 20 + s.options.length ∧ tcpHeaderLength q ≤ q.length ∧ optionArea q = s.options := by
  intro q
  obtain ⟨-, hfour, hle⟩ := s.optionBytes_build
  obtain ⟨-, -, -, -, h12, -, -, h20, htake⟩ := s.segment_bytes hcwr x y data
  have hlen : tcpHeaderLength q = 20 + s.options.length := by
    unfold tcpHeaderLength
    rw [h12]
    omega
  have hsize : q.length = 20 + (s.options.length + data.length) := by
    rw [← List.take_append_drop 20 q, List.length_append, htake, h20, List.length_append]
  refine ⟨hlen, by omega, ?_⟩
  unfold optionArea
  rw [List.drop_take, h20, hlen, Nat.add_sub_cancel_left, List.take_left']
  rfl

theorem header_length (hcwr : s.flag.CWR = 0) (x y : Byte) :
    s.front.length = 16 ∧ (s.front ++ x :: y :: s.back).length = 20 + s.options.length := by
  have hu := getByteFromInt_two_length (v := s.urgentPointer) (by have := s.urgent_fits; omega)
  have hlen := s.parts_length
  obtain ⟨a, hflag, -⟩ := s.flagBytes hcwr
  rw [parts_flatten s.optionBytes_build.1, hflag] at hlen
  unfold front back
  simp only [List.length_append, List.length_cons, List.length_nil, hu] at hlen ⊢
  omega

theorem getHeaderLength_build : s.build.getHeaderLength = .ok (20 + s.options.length) := by
  unfold getHeaderLength
  rw [s.optionBytes_build.1]
  rfl

/-- Without CWR, what `getHeader` returns after `calculateChecksum` has returned. -/
theorem getHeader_build (hcwr : s.flag.CWR = 0) {source dest : Bytes} {data : Option Bytes} {t₁ : TCP}
    (hs : source.length = 4) (hd : dest.length = 4)
    (h : Java.exec (calculateChecksum source dest data) s.build = (.ok (), t₁)) :
    ∃ x y t₂, Java.exec getHeader t₁ = (.ok (s.front ++ x :: y :: s.back), t₂) := by
  obtain ⟨b, hb, rfl⟩ := calculateChecksum_ok s.sized_build hs hd h
  obtain rfl := Except.ok.inj ((s.generateInitialHeader_front hcwr).symm.trans hb)
  obtain ⟨x, y, hxy, -⟩ := computeChecksum_pair (pseudoHeader source dest PROTOCOL_NUMBER
    (s.front ++ 0 :: 0 :: s.back ++ data.getD []).length ++ (s.front ++ 0 :: 0 :: s.back ++ data.getD []))
  rw [getHeader_exec rfl rfl, hxy, ArrayUtil.replace_middle (s.header_length hcwr 0 0).1]
  exact ⟨x, y, _, rfl⟩

/-- The parser returns for a segment without CWR iff the walk over its options does. -/
theorem fromTCPHeader_build (hcwr : s.flag.CWR = 0) (x y : Byte) (data : Bytes) :
    (∃ t, Fueled.Ends (fun n => fromTCPHeader n (s.front ++ x :: y :: s.back ++ data)) (.ok t)) ↔
      s.options = [] ∨ TCPOption.WalkReturns s.options := by
  obtain ⟨hlen, hin, harea⟩ := s.segment_header hcwr x y data
  rw [fromTCPHeader_returns_iff (by omega) hin, harea, hlen, ← List.length_eq_zero_iff]
  simp

/-- What the parser returns for a segment without CWR. -/
theorem parsed_build (hcwr : s.flag.CWR = 0) (x y : Byte) (data : Bytes) {t : TCP}
    (h : Fueled.Ends (fun n => fromTCPHeader n (s.front ++ x :: y :: s.back ++ data)) (.ok t)) :
    t.mSourcePort = s.build.mSourcePort ∧ t.mDestPort = s.build.mDestPort ∧
      t.mSequenceNumber = s.build.mSequenceNumber ∧ t.mAcknowledgmentNumber = s.build.mAcknowledgmentNumber ∧
      t.mFlag = s.build.mFlag ∧ t.mWindowSize = s.build.mWindowSize ∧ t.optionBytes = .ok s.options ∧
      t.getHeaderLength = s.build.getHeaderLength := by
  obtain ⟨hlen, hin, harea⟩ := s.segment_header hcwr x y data
  obtain ⟨h0, h2, h4, h8, -, h13, h14, -, -⟩ := s.segment_bytes hcwr x y data
  obtain ⟨n, hn⟩ := h
  have hp := fromTCPHeader_parsed (by omega) hin hn
  have hbytes : t.optionBytes = .ok s.options := by rw [hp.optionBytes, harea]
  have hflag : t.mFlag = some (TCPFlag.fromByte (byteAt _ 13)) := congrArg TCP.mFlag hp.fixed
  refine ⟨?_, ?_, ?_, ?_, ?_, ?_, hbytes, ?_⟩
  · exact (congrArg TCP.mSourcePort hp.fixed).trans h0
  · exact (congrArg TCP.mDestPort hp.fixed).trans h2
  · exact (congrArg TCP.mSequenceNumber hp.fixed).trans (congrArg some h4)
  · exact (congrArg TCP.mAcknowledgmentNumber hp.fixed).trans (congrArg some h8)
  · rw [hflag, h13, s.flag_bits.fromByte_getByte.1]
    rfl
  · exact (congrArg TCP.mWindowSize hp.fixed).trans (congrArg some h14)
  · rw [hp.getHeaderLength (by omega) hin, hlen, getHeaderLength_build]

/-- With CWR `calculateChecksum` does not return. -/
theorem cwr_of_decodesBack {s : Settings} {source dest : Bytes} {data : Option Bytes} (hs : source.length = 4)
    (hd : dest.length = 4) (h : DecodesBack s.build source dest data) : s.flag.CWR = 0 := by
  obtain ⟨t₁, header, t₂, t', options, hcalc, -⟩ := h
  by_contra hcwr
  obtain ⟨b, hb, -⟩ := calculateChecksum_ok s.sized_build hs hd hcalc
  exact s.generateInitialHeader_overflow hcwr b hb

/-- **The segments that are read back**: those without CWR, whose options the walk gets through, and whose
length fits the pseudo-header. -/
theorem decodesBack_iff (s : Settings) {source dest : Bytes} (hs : source.length = 4) (hd : dest.length = 4)
    (data : Option Bytes) :
    DecodesBack s.build source dest data ↔
      s.flag.CWR = 0 ∧ (s.options = [] ∨ TCPOption.WalkReturns s.options) ∧
        20 + s.options.length + (data.getD []).length < 2 ^ 16 := by
  constructor
  · intro h
    have hcwr := cwr_of_decodesBack hs hd h
    obtain ⟨t₁, header, t₂, t', options, hcalc, hget, -, -, hends, -⟩ := h
    obtain ⟨x, y, t₂', hget'⟩ := s.getHeader_build hcwr hs hd hcalc
    obtain rfl := Except.ok.inj (Prod.mk.inj (hget'.symm.trans hget)).1
    have hsmall := calculateChecksum_small s.sized_build hs hd (s.generateInitialHeader_front hcwr) hcalc
    rw [List.length_append, (s.header_length hcwr 0 0).2] at hsmall
    exact ⟨hcwr, (s.fromTCPHeader_build hcwr x y _).1 ⟨_, hends⟩, hsmall⟩
  · rintro ⟨hcwr, hwalk, hsmall⟩
    have hlen := (s.header_length hcwr 0 0).2
    have hfits : (s.front ++ 0 :: 0 :: s.back ++ data.getD []).length < 2 ^ 16 := by
      rw [List.length_append, hlen]
      exact hsmall
    have hcalc := calculateChecksum_returns hs hd (by rw [hlen]; exact s.getHeaderLength_build)
      (s.generateInitialHeader_front hcwr) hfits
    obtain ⟨x, y, t₂, hget⟩ := s.getHeader_build hcwr hs hd hcalc
    obtain ⟨t', hends⟩ := (s.fromTCPHeader_build hcwr x y (data.getD [])).2 hwalk
    obtain ⟨hsrc, hdst, hseq, hack, hflag, hwin, hopt, hhl⟩ := s.parsed_build hcwr x y (data.getD []) hends
    exact ⟨_, _, t₂, t', s.options, hcalc, hget, s.optionBytes_build.1, (s.header_length hcwr x y).2, hends, hsrc, hdst,
      hseq, hack, hflag, hwin, hopt, hhl⟩

/-- A segment of the flags that announces a maximum segment size of 1460. -/
def segmentWith (flag : TCPFlag) (hflag : flag.IsBits) : Settings where
  sourcePort := [0xC0, 1]
  destPort := [1, 187]
  sequenceNumber := 1000
  acknowledgmentNumber := 0
  flag := flag
  windowSize := 65535
  urgentPointer := 0
  option := some { options := some [2, 4, 5, 180] }
  source_length := rfl
  dest_length := rfl
  flag_bits := hflag
  window_fits := by decide
  urgent_fits := by decide
  option_area := by
    rintro op ⟨⟩
    exact ⟨⟨[.option TCPOption.KIND_MSS [5, 180] (by decide) (by decide)], none⟩, rfl, by decide, by decide⟩

theorem syn_isBits : TCPFlag.IsBits { SYN := 1 } :=
  ⟨.inl rfl, .inl rfl, .inl rfl, .inl rfl, .inl rfl, .inl rfl, .inr rfl, .inl rfl⟩

theorem synCwr_isBits : TCPFlag.IsBits { CWR := 1, ECE := 1, SYN := 1 } :=
  ⟨.inr rfl, .inr rfl, .inl rfl, .inl rfl, .inl rfl, .inl rfl, .inr rfl, .inl rfl⟩

/-- A SYN is read back. -/
theorem syn_decodesBack : DecodesBack (segmentWith _ syn_isBits).build [10, 0, 0, 2] [93, 184, 216, 34] none := by
  refine (decodesBack_iff (segmentWith _ syn_isBits) rfl rfl none).2 ⟨rfl, .inr ?_, by decide⟩
  exact ⟨0, .refl, by decide, ⟨by decide, by decide, by decide⟩, by decide⟩

/-- **A SYN that asks for congestion notification is not.** -/
theorem synCwr_not_decodesBack :
    ¬ DecodesBack (segmentWith _ synCwr_isBits).build [10, 0, 0, 2] [93, 184, 216, 34] none := by
  intro h
  exact absurd (cwr_of_decodesBack rfl rfl h) (by decide)

end Settings

end TCP

end SmartTunnel
