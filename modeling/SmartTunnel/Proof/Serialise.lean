import SmartTunnel.Model.PacketV4

/-!
# What serialising a header writes

One lemma for each step of `getPacketBytes`: which bytes `generateInitialHeader` lays
out when it returns, and that `getHeader` after `calculateChecksum` puts the checksum
of exactly these bytes (and the pseudo-header and payload) into its place. The cached
`mHeader`, `mChecksum` and `mHeaderChecksum` of earlier calls do not occur in them.
-/

namespace SmartTunnel

open Jvm BigEndian ByteUtil

theorem ArrayUtil.replace_middle {pre post : Bytes} {x y a b : Byte} {n : ℕ} (hn : pre.length = n) :
    ArrayUtil.replace (pre ++ x :: y :: post) n [a, b] = .ok (pre ++ a :: b :: post) := by
  subst hn
  unfold ArrayUtil.replace
  rw [if_neg (by simp)]
  simp [List.drop_append]

/-- The checksum of an array is two bytes that complement its sum. -/
theorem computeChecksum_pair (data : Bytes) :
    ∃ a b : Byte, computeChecksum data = [a, b] ∧
      a.toNat * 256 + b.toNat = 0xFFFF - OnesComplement.sum data := by
  obtain ⟨h1, h2⟩ := computeChecksum_eq data
  obtain ⟨a, b, hab⟩ := List.length_eq_two.1 h2
  refine ⟨a, b, hab, ?_⟩
  rw [← h1, hab, beNat_two]

/-! ## The IPv4 header -/

namespace IPV4Header

/-- The sizes a header is built with. -/
structure Sized (h : IPV4Header) : Prop where
  source : h.mSourceAddress.length = 4
  dest : h.mDestAddress.length = 4
  identification : ∀ id, h.mIdentification = some id → id.length = 2
  options : ∀ o, h.mOptions = some o → 4 ∣ o.length ∧ o.length ≤ 40

/-- The header bytes before the checksum. -/
def beforeChecksum (h : IPV4Header) (totalLength identification : Bytes) : Bytes :=
  [h.versionAndIHL, h.mTypeOfService] ++ totalLength ++ identification ++
    getByteFromInt h.flagAndFragmentOffset 2 ++ [h.mTimeToLive, h.mProtocol]

/-- The header bytes after the checksum. -/
def afterChecksum (h : IPV4Header) : Bytes :=
  h.mSourceAddress ++ h.mDestAddress ++ h.mOptions.getD []

/-- What `generateInitialHeader` puts, part by part. -/
def parts (h : IPV4Header) (totalLength identification : Bytes) : List Bytes :=
  [[h.versionAndIHL], [h.mTypeOfService], totalLength, identification,
    getByteFromInt h.flagAndFragmentOffset 2, [h.mTimeToLive], [h.mProtocol], [0, 0],
    h.mSourceAddress, h.mDestAddress] ++ h.mOptions.toList

theorem getHeaderLength_eq (h : IPV4Header) : h.getHeaderLength = 20 + (h.mOptions.getD []).length := by
  unfold getHeaderLength optionLength
  cases h.mOptions <;> simp

theorem parts_flatten (h : IPV4Header) (tl id : Bytes) :
    (h.parts tl id).flatten = h.beforeChecksum tl id ++ 0 :: 0 :: h.afterChecksum := by
  unfold parts beforeChecksum afterChecksum
  cases h.mOptions <;> simp

theorem parts_flatten_length {h : IPV4Header} {id : Bytes} (tl : Bytes) (hsz : h.Sized)
    (hid : h.mIdentification = some id) :
    (h.parts tl id).flatten.length = h.getHeaderLength - 4 + tl.length +
      (getByteFromInt h.flagAndFragmentOffset 2).length := by
  have hs := hsz.source
  have hd := hsz.dest
  have hi := hsz.identification id hid
  rw [parts_flatten, getHeaderLength_eq]
  simp only [beforeChecksum, afterChecksum, List.length_append, List.length_cons, List.length_nil]
  omega

theorem generateInitialHeader_eq {h : IPV4Header} {tl id : Bytes} (htl : h.mTotalLength = some tl)
    (hid : h.mIdentification = some id) :
    h.generateInitialHeader = ByteBuffer.layout h.getHeaderLength ((h.parts tl id).map some) := by
  unfold generateInitialHeader parts
  rw [htl, hid]
  cases h.mOptions <;> rfl

/-- **What `generateInitialHeader` returned.** -/
theorem generateInitialHeader_ok {h : IPV4Header} {b tl : Bytes} (hsz : h.Sized)
    (htl : h.mTotalLength = some tl) (htl2 : 2 ≤ tl.length) (hb : h.generateInitialHeader = .ok b) :
    ∃ id, h.mIdentification = some id ∧ b = h.beforeChecksum tl id ++ 0 :: 0 :: h.afterChecksum ∧
      (h.beforeChecksum tl id).length = 10 ∧ b.length = h.getHeaderLength := by
  have hf := two_le_getByteFromInt_length h.flagAndFragmentOffset
  have hl := getHeaderLength_eq h
  cases hid : h.mIdentification with
  | none =>
    unfold generateInitialHeader at hb
    obtain ⟨bs, hbs, -⟩ := ByteBuffer.layout_ok hb (fun bs hbs => by
      exfalso
      have : (none : Option Bytes) ∈ bs.map some := by rw [← hbs, hid]; simp
      simp at this)
    have : (none : Option Bytes) ∈ bs.map some := by rw [← hbs, hid]; simp
    simp at this
  | some id =>
    have hi := hsz.identification id hid
    have hlen := parts_flatten_length tl hsz hid
    rw [generateInitialHeader_eq htl hid] at hb
    obtain ⟨bs, hbs, rfl, hn, -⟩ := ByteBuffer.layout_ok hb (fun bs hbs => by
      rw [← List.map_injective_iff.2 (Option.some_injective _) hbs]; omega)
    obtain rfl := List.map_injective_iff.2 (Option.some_injective _) hbs
    refine ⟨id, rfl, parts_flatten h tl id, ?_, hn⟩
    simp only [beforeChecksum, List.length_append, List.length_cons, List.length_nil]
    omega

/-- The flag and the fragment offset fit two bytes iff the flag has three bits. -/
theorem flagAndFragmentOffset_fits (h : IPV4Header) : h.flagAndFragmentOffset.toNat < 2 ^ 16 ↔ h.mFlag.toNat < 8 := by
  have hsmall : ∀ b : Byte, b.toNat < 8 → (b.signExtend 32 <<< 13 : BitVec 32).toNat < 2 ^ 16 := by decide +kernel
  have hlarge : ∀ b : Byte, 8 ≤ b.toNat → 2 ^ 16 ≤ (b.signExtend 32 <<< 13 : BitVec 32).toNat := by decide +kernel
  have hoffset : (h.mFragmentOffset.signExtend 32 &&& 0x1FFF : BitVec 32).toNat < 2 ^ 16 := by
    rw [BitVec.toNat_and]
    exact lt_of_le_of_lt Nat.and_le_right (by decide)
  unfold flagAndFragmentOffset
  rw [BitVec.toNat_or]
  constructor
  · intro hfits
    by_contra hflag
    exact absurd (lt_of_le_of_lt Nat.left_le_or hfits) (not_lt.2 (hlarge _ (not_lt.1 hflag)))
  · intro hflag
    exact Nat.or_lt_two_pow (hsmall _ hflag) hoffset

section Layout

variable {h : IPV4Header} {tl id : Bytes}

/-- **A header whose flag has three bits is laid out**, in as many bytes as it says. -/
theorem Sized.generateInitialHeader_fits (hsz : h.Sized) (htl : h.mTotalLength = some tl) (htl2 : tl.length = 2)
    (hid : h.mIdentification = some id) (hflag : h.mFlag.toNat < 8) :
    h.generateInitialHeader = .ok (h.beforeChecksum tl id ++ 0 :: 0 :: h.afterChecksum) ∧
      (h.beforeChecksum tl id).length = 10 ∧ h.afterChecksum.length = 8 + (h.mOptions.getD []).length := by
  have htwo := getByteFromInt_two_length ((flagAndFragmentOffset_fits h).2 hflag)
  have hi := hsz.identification id hid
  have hs := hsz.source
  have hd := hsz.dest
  have hlen := parts_flatten_length tl hsz hid
  have hheader := getHeaderLength_eq h
  have hsmall : (h.mOptions.getD []).length ≤ 40 := by
    cases ho : h.mOptions with
    | none => simp
    | some o => exact (hsz.options o ho).2
  refine ⟨?_, ?_, ?_⟩
  · rw [generateInitialHeader_eq htl hid, ByteBuffer.layout_full (by omega) (by omega), parts_flatten]
  · simp only [beforeChecksum, List.length_append, List.length_cons, List.length_nil]
    omega
  · simp only [afterChecksum, List.length_append]
    omega

/-- **Any other flag makes the header buffer overflow.** -/
theorem Sized.generateInitialHeader_overflow (hsz : h.Sized) (htl : h.mTotalLength = some tl) (htl2 : tl.length = 2)
    (hid : h.mIdentification = some id) (hflag : 8 ≤ h.mFlag.toNat) (b : Bytes) : h.generateInitialHeader ≠ .ok b := by
  have hbig := not_lt.1 (mt (flagAndFragmentOffset_fits h).1 (not_lt.2 hflag))
  have hlong := two_lt_getByteFromInt_length hbig
  have hlen := parts_flatten_length tl hsz hid
  have hheader := getHeaderLength_eq h
  rw [generateInitialHeader_eq htl hid]
  apply ByteBuffer.layout_overflow
  omega

end Layout

/-- With the checksum reset, `getHeader` computes it from the fields. -/
theorem getHeader_exec (h : IPV4Header) (hc : h.mHeaderChecksum = none) :
    Java.exec getHeader h = match h.generateInitialHeader with
      | .error e => (.error e, h)
      | .ok b => match ArrayUtil.replace b 10 (computeChecksum b) with
        | .error e => (.error e,
            { h with mHeader := some b, mHeaderChecksum := some (computeChecksum b) })
        | .ok r => (.ok r,
            { h with mHeader := some r, mHeaderChecksum := some (computeChecksum b) }) := by
  unfold getHeader calculateChecksum
  simp only [Java.exec_bind, Java.exec_get, Java.exec_ite, hc, Option.isNone_none, if_true,
    Java.exec_lift]
  cases hg : h.generateInitialHeader with
  | error e => rfl
  | ok b =>
    simp only [Java.exec_modify, Option.isNone_some, Bool.false_eq_true, if_false, deref_some]
    cases hr : ArrayUtil.replace b 10 (computeChecksum b) <;> rfl

end IPV4Header

/-! ## The transport headers -/

/-- The pseudo-header of RFC 793 and RFC 768. -/
def pseudoHeader (source dest : Bytes) (protocol : Byte) (length : ℕ) : Bytes :=
  source ++ dest ++ [0, protocol, BitVec.ofNat 8 (length / 256), BitVec.ofNat 8 length]

theorem pseudoHeader_length {source dest : Bytes} (hs : source.length = 4) (hd : dest.length = 4)
    (protocol : Byte) (length : ℕ) : (pseudoHeader source dest protocol length).length = 12 := by
  simp [pseudoHeader, hs, hd]

theorem getByteFromInt_length_bytes {n : ℕ} (h : n < 2 ^ 16) :
    getByteFromInt (BitVec.ofNat 32 n) 2 = [BitVec.ofNat 8 (n / 256), BitVec.ofNat 8 n] := by
  apply getByteFromInt_two
  simp only [BitVec.toNat_ofNat]
  omega

section Pseudo

variable {source dest b : Bytes} {protocol : Byte} {data : Option Bytes} {b₀ b₁ b₂ : ByteBuffer}

theorem payloadLength_eq (data : Option Bytes) : (data.map List.length).getD 0 = (data.getD []).length := by
  cases data <;> simp

/-- What the checksum buffer of `calculateChecksum` holds when every `put` returned. -/
theorem pseudoHeader_content (hs : source.length = 4) (hd : dest.length = 4)
    (h₀ : ByteBuffer.allocate (12 + b.length + (data.map List.length).getD 0) = .ok b₀)
    (h₁ : b₀.putAll [some source, some dest, some [0, protocol],
      some (getByteFromInt (BitVec.ofNat 32 (b.length + (data.map List.length).getD 0)) 2)] = .ok b₁)
    (h₂ : b₁.putAll ([some b] ++ (if data.isSome then [data] else [])) = .ok b₂) :
    (b ++ data.getD []).length < 2 ^ 16 ∧ b₂.capacity ≤ 12 + (b ++ data.getD []).length ∧
      b₂.content = pseudoHeader source dest protocol (b ++ data.getD []).length ++ (b ++ data.getD []) ∧
      b₂.content.length ≤ b₂.capacity := by
  have hparts : ([some b] ++ (if data.isSome then [data] else [])) = (b :: data.toList).map some := by
    cases data <;> simp
  have hflat : (b :: data.toList).flatten = b ++ data.getD [] := by cases data <;> simp
  rw [hparts] at h₂
  rw [payloadLength_eq] at h₀ h₁
  set n := b.length + (data.getD []).length with hn
  have hlen : (b ++ data.getD []).length = n := List.length_append
  obtain ⟨hc₀, hle₀, hlt₀⟩ := ByteBuffer.allocate_ok h₀
  obtain ⟨bs, hbs, rfl, hfit₁⟩ := ByteBuffer.putAll_ok (by simp [hc₀]) h₁
  have hbs' : bs = [source, dest, [0, protocol], getByteFromInt (BitVec.ofNat 32 n) 2] :=
    (List.map_injective_iff.2 (Option.some_injective _) (by rw [← hbs]; rfl)).symm
  obtain ⟨cs, hcs, rfl, hfit⟩ := ByteBuffer.putAll_ok (by simpa [hc₀] using hfit₁) h₂
  obtain rfl := List.map_injective_iff.2 (Option.some_injective _) hcs
  subst hbs'
  have hg2 := two_le_getByteFromInt_length (BitVec.ofNat 32 n)
  simp only [hflat, hc₀, List.nil_append, List.flatten_cons, List.flatten_nil, List.append_nil,
    List.length_append, List.length_cons, List.length_nil, hs, hd] at hfit
  -- the length field took two bytes, or the buffer would have overflowed
  have hsmall : n < 2 ^ 16 := by
    have h2 := (getByteFromInt_length_le (BitVec.ofNat 32 n) (n := 2) (k := 2) le_rfl (by omega)).1
      (by omega)
    rw [BitVec.toNat_ofNat, Nat.mod_eq_of_lt (by omega)] at h2
    exact h2
  have hbytes := getByteFromInt_length_bytes hsmall
  rw [hbytes] at hfit
  simp only [List.length_cons, List.length_nil] at hfit
  refine ⟨by omega, by simp only; omega, ?_, ?_⟩
  · simp only [hc₀, hflat, List.nil_append, List.flatten_cons, List.flatten_nil, List.append_nil,
      pseudoHeader, hlen, hbytes, List.append_assoc, List.cons_append]
  · simp only [hflat, hc₀, hbytes, List.nil_append, List.flatten_cons, List.flatten_nil, List.append_nil,
      List.length_append, List.length_cons, List.length_nil, hs, hd]
    omega

/-- **The array of the checksum buffer**: the pseudo-header, the header `b` and the payload. -/
theorem pseudoHeader_array (hs : source.length = 4) (hd : dest.length = 4)
    (h₀ : ByteBuffer.allocate (12 + b.length + (data.map List.length).getD 0) = .ok b₀)
    (h₁ : b₀.putAll [some source, some dest, some [0, protocol],
      some (getByteFromInt (BitVec.ofNat 32 (b.length + (data.map List.length).getD 0)) 2)] = .ok b₁)
    (h₂ : b₁.putAll ([some b] ++ (if data.isSome then [data] else [])) = .ok b₂) :
    b₂.array = pseudoHeader source dest protocol (b ++ data.getD []).length ++ (b ++ data.getD []) := by
  obtain ⟨-, hle, hcontent, hfit⟩ := pseudoHeader_content hs hd h₀ h₁ h₂
  obtain ⟨capacity, content⟩ := b₂
  simp only at hle hcontent hfit
  subst hcontent
  apply ByteBuffer.array_full
  rw [List.length_append, pseudoHeader_length hs hd] at hfit ⊢
  omega

end Pseudo

namespace TCP

structure Sized (t : TCP) : Prop where
  source : t.mSourcePort.length = 2
  dest : t.mDestPort.length = 2
  seq : ∀ s, t.mSequenceNumber = some s → s.length = 4
  ack : ∀ a, t.mAcknowledgmentNumber = some a → a.length = 4
  window : ∀ w, t.mWindowSize = some w → w.length = 2
  urgent : ∀ u, t.mUrgentPointer = some u → u.length = 2

/-- The header bytes before the checksum. -/
def beforeChecksum (t : TCP) (seq ack window options : Bytes) : Bytes :=
  t.mSourcePort ++ t.mDestPort ++ seq ++ ack ++
    getByteFromInt (t.dataOffsetAndFlags options.length) 2 ++ window

/-- What `generateInitialHeader` puts, part by part. -/
def parts (t : TCP) (seq ack window urgent options : Bytes) : List Bytes :=
  [t.mSourcePort, t.mDestPort, seq, ack, getByteFromInt (t.dataOffsetAndFlags options.length) 2,
    window, [0, 0], urgent] ++ (if t.mTCPOption.isSome then [options] else [])

theorem parts_flatten {t : TCP} {options : Bytes} (ho : t.optionBytes = .ok options)
    (seq ack window urgent : Bytes) :
    (t.parts seq ack window urgent options).flatten =
      t.beforeChecksum seq ack window options ++ 0 :: 0 :: (urgent ++ options) := by
  unfold parts beforeChecksum
  unfold optionBytes at ho
  cases hop : t.mTCPOption with
  | none => rw [hop] at ho; obtain rfl := Except.ok.inj ho; simp
  | some op => simp

theorem generateInitialHeader_eq {t : TCP} {seq ack window urgent options : Bytes}
    (ho : t.optionBytes = .ok options) (hs : t.mSequenceNumber = some seq)
    (ha : t.mAcknowledgmentNumber = some ack) (hw : t.mWindowSize = some window)
    (hu : t.mUrgentPointer = some urgent) :
    t.generateInitialHeader =
      ByteBuffer.layout (20 + options.length) ((t.parts seq ack window urgent options).map some) := by
  unfold generateInitialHeader parts
  rw [ho, hs, ha, hw, hu]
  cases t.mTCPOption <;> rfl

/-- **What `generateInitialHeader` returned.** -/
theorem generateInitialHeader_ok {t : TCP} {b : Bytes} (hsz : t.Sized)
    (hb : t.generateInitialHeader = .ok b) :
    ∃ pre post, b = pre ++ 0 :: 0 :: post ∧ pre.length = 16 ∧ t.getHeaderLength = .ok b.length := by
  unfold generateInitialHeader at hb
  rcases ho : t.optionBytes with e | options
  · rw [ho] at hb; cases hb
  rw [ho] at hb
  simp only [bind, Except.bind] at hb
  -- a null field is a part that cannot be put
  have key : ∀ bs : List Bytes, ([some t.mSourcePort, some t.mDestPort, t.mSequenceNumber,
      t.mAcknowledgmentNumber, some (getByteFromInt (t.dataOffsetAndFlags options.length) 2),
      t.mWindowSize, some [0, 0], t.mUrgentPointer] ++
        (if t.mTCPOption.isSome then [some options] else [])) = bs.map some →
      ∃ seq ack window urgent, seq.length = 4 ∧ ack.length = 4 ∧ window.length = 2 ∧
        urgent.length = 2 ∧ bs.flatten =
          t.beforeChecksum seq ack window options ++ 0 :: 0 :: (urgent ++ options) := by
    intro bs hbs
    have hnn : (none : Option Bytes) ∉ bs.map some := by simp
    rw [← hbs] at hnn
    cases hs : t.mSequenceNumber with
    | none => simp [hs] at hnn
    | some seq =>
    cases ha : t.mAcknowledgmentNumber with
    | none => simp [ha] at hnn
    | some ack =>
    cases hw : t.mWindowSize with
    | none => simp [hw] at hnn
    | some window =>
    cases hu : t.mUrgentPointer with
    | none => simp [hu] at hnn
    | some urgent =>
      refine ⟨seq, ack, window, urgent, hsz.seq _ hs, hsz.ack _ ha, hsz.window _ hw,
        hsz.urgent _ hu, ?_⟩
      rw [← parts_flatten ho]
      congr 1
      apply List.map_injective_iff.2 (Option.some_injective _)
      rw [← hbs, hs, ha, hw, hu]
      unfold parts
      cases t.mTCPOption <;> rfl
  have hf := two_le_getByteFromInt_length (t.dataOffsetAndFlags options.length)
  have h1 := hsz.source
  have h2 := hsz.dest
  obtain ⟨bs, hbs, rfl, hn, -⟩ := ByteBuffer.layout_ok hb (fun bs hbs => by
    obtain ⟨seq, ack, window, urgent, h3, h4, h5, h6, hfl⟩ := key bs hbs
    rw [hfl]
    simp only [beforeChecksum, List.length_append, List.length_cons]
    omega)
  obtain ⟨seq, ack, window, urgent, h3, h4, h5, h6, hfl⟩ := key bs hbs
  refine ⟨_, _, hfl, ?_, ?_⟩
  · rw [hfl] at hn
    simp only [beforeChecksum, List.length_append, List.length_cons] at hn ⊢
    omega
  · simp only [getHeaderLength, ho, bind, Except.bind, pure, Except.pure, hn]

/-- `getHeader` after `calculateChecksum`. -/
theorem getHeader_exec {t : TCP} {b c : Bytes} (hb : t.mHeader = some b) (hc : t.mChecksum = some c) :
    Java.exec getHeader t = match ArrayUtil.replace b 16 c with
      | .error e => (.error e, t)
      | .ok r => (.ok r, { t with mHeader := some r }) := by
  unfold getHeader
  simp only [Java.exec_bind, Java.exec_get, hb, hc, Option.isNone_some, Bool.false_eq_true,
    if_false, Java.exec_lift, deref_some, Java.exec_pure]
  cases ArrayUtil.replace b 16 c with
  | error e => rfl
  | ok r => simp only [Java.exec_modify, hc]

/-- What `calculateChecksum` leaves behind when it returns. -/
theorem calculateChecksum_ok {t t' : TCP} {source dest : Bytes} {data : Option Bytes}
    (hsz : t.Sized) (hs : source.length = 4) (hd : dest.length = 4)
    (h : Java.exec (calculateChecksum source dest data) t = (.ok (), t')) :
    ∃ b, t.generateInitialHeader = .ok b ∧ t' = { t with
      mHeader := some b
      mChecksum := some (computeChecksum
        (pseudoHeader source dest PROTOCOL_NUMBER (b ++ data.getD []).length ++ (b ++ data.getD []))) } := by
  simp only [calculateChecksum, Java.exec_bind_ok, Java.exec_get_ok, Java.exec_lift_ok,
    Java.exec_modify_ok] at h
  obtain ⟨_, _, ⟨rfl, rfl⟩, n, _, ⟨hl, rfl⟩, b₀, _, ⟨h₀, rfl⟩, b₁, _, ⟨h₁, rfl⟩, _, _, ⟨rfl, rfl⟩,
    b, _, ⟨hg, rfl⟩, -, _, rfl, b₂, _, ⟨h₂, rfl⟩, rfl⟩ := h
  obtain ⟨pre, post, -, -, hbl⟩ := generateInitialHeader_ok hsz hg
  obtain rfl : n = b.length := Except.ok.inj (hl.symm.trans hbl)
  exact ⟨b, hg, by rw [pseudoHeader_array hs hd h₀ h₁ h₂]⟩

/-- `calculateChecksum` returns for a segment whose length fits its field in the pseudo-header. -/
theorem calculateChecksum_small {t t' : TCP} {source dest b : Bytes} {data : Option Bytes}
    (hsz : t.Sized) (hs : source.length = 4) (hd : dest.length = 4) (hb : t.generateInitialHeader = .ok b)
    (h : Java.exec (calculateChecksum source dest data) t = (.ok (), t')) :
    (b ++ data.getD []).length < 2 ^ 16 := by
  simp only [calculateChecksum, Java.exec_bind_ok, Java.exec_get_ok, Java.exec_lift_ok,
    Java.exec_modify_ok] at h
  obtain ⟨_, _, ⟨rfl, rfl⟩, n, _, ⟨hl, rfl⟩, b₀, _, ⟨h₀, rfl⟩, b₁, _, ⟨h₁, rfl⟩, _, _, ⟨rfl, rfl⟩,
    b', _, ⟨hg, rfl⟩, -, _, rfl, b₂, _, ⟨h₂, rfl⟩, rfl⟩ := h
  obtain rfl : b' = b := Except.ok.inj (hg.symm.trans hb)
  obtain ⟨pre, post, -, -, hbl⟩ := generateInitialHeader_ok hsz hb
  obtain rfl : n = b'.length := Except.ok.inj (hl.symm.trans hbl)
  exact (pseudoHeader_content hs hd h₀ h₁ h₂).1

end TCP

namespace UDP

structure Sized (u : UDP) : Prop where
  source : u.mSourcePort.length = 2
  dest : u.mDestPort.length = 2

/-- The header bytes before the checksum, for a payload of `n` bytes. -/
def beforeChecksum (u : UDP) (n : ℕ) : Bytes :=
  u.mSourcePort ++ u.mDestPort ++ getByteFromInt (BitVec.ofNat 32 (8 + n)) 2

/-- What `generateInitialHeader` puts, part by part. -/
def parts (u : UDP) (n : ℕ) : List Bytes :=
  [u.mSourcePort, u.mDestPort, getByteFromInt (BitVec.ofNat 32 (8 + n)) 2, [0, 0]]

theorem generateInitialHeader_eq (u : UDP) (data : Option Bytes) :
    u.generateInitialHeader data =
      ByteBuffer.layout 8 ((u.parts ((data.map List.length).getD 0)).map some) := rfl

/-- **What `generateInitialHeader` returned.** -/
theorem generateInitialHeader_ok {u : UDP} {data : Option Bytes} {b : Bytes} (hsz : u.Sized)
    (hb : u.generateInitialHeader data = .ok b) :
    b = u.beforeChecksum (data.getD []).length ++ 0 :: 0 :: [] ∧
      (u.beforeChecksum (data.getD []).length).length = 6 ∧ b.length = 8 := by
  have h1 := hsz.source
  have h2 := hsz.dest
  rw [generateInitialHeader_eq, payloadLength_eq] at hb
  have hf := two_le_getByteFromInt_length (BitVec.ofNat 32 (8 + (data.getD []).length))
  obtain ⟨bs, hbs, rfl, hn, -⟩ := ByteBuffer.layout_ok hb (fun bs hbs => by
    rw [← List.map_injective_iff.2 (Option.some_injective _) hbs]
    simp only [parts, List.flatten_cons, List.flatten_nil, List.length_append, List.length_cons,
      List.length_nil]
    omega)
  obtain rfl := List.map_injective_iff.2 (Option.some_injective _) hbs
  refine ⟨by simp [parts, beforeChecksum], ?_, hn⟩
  simp only [parts, beforeChecksum, List.flatten_cons, List.flatten_nil, List.length_append, List.length_cons,
    List.length_nil] at hn ⊢
  omega

/-- `getHeader` after `calculateChecksum`. -/
theorem getHeader_exec {u : UDP} {b c : Bytes} (hb : u.mHeader = some b) (hc : u.mChecksum = some c) :
    Java.exec getHeader u = match ArrayUtil.replace b 6 c with
      | .error e => (.error e, u)
      | .ok r => (.ok r, { u with mHeader := some r }) := by
  unfold getHeader
  simp only [Java.exec_bind, Java.exec_get, hb, hc, Option.isNone_some, Bool.or_self,
    Bool.false_eq_true, if_false, Java.exec_lift, deref_some, Java.exec_pure]
  cases ArrayUtil.replace b 6 c with
  | error e => rfl
  | ok r => simp only [Java.exec_modify, hc]

/-- What `calculateChecksum` leaves behind when it returns. -/
theorem calculateChecksum_ok {u u' : UDP} {source dest : Bytes} {data : Option Bytes}
    (hsz : u.Sized) (hs : source.length = 4) (hd : dest.length = 4)
    (h : Java.exec (calculateChecksum source dest data) u = (.ok (), u')) :
    ∃ b, u.generateInitialHeader data = .ok b ∧ u' = { u with
      mDatagramLength := some (getByteFromInt (BitVec.ofNat 32 (8 + (data.map List.length).getD 0)) 2)
      mHeader := some b
      mChecksum := some (computeChecksum
        (pseudoHeader source dest PROTOCOL_NUMBER (b ++ data.getD []).length ++ (b ++ data.getD []))) } := by
  simp only [calculateChecksum, Java.exec_bind_ok, Java.exec_get_ok, Java.exec_lift_ok,
    Java.exec_modify_ok] at h
  obtain ⟨_, _, ⟨rfl, rfl⟩, -, _, rfl, b₀, _, ⟨h₀, rfl⟩, b₁, _, ⟨h₁, rfl⟩, _, _, ⟨rfl, rfl⟩,
    b, _, ⟨hg, rfl⟩, -, _, rfl, b₂, _, ⟨h₂, rfl⟩, rfl⟩ := h
  -- the datagram length just stored is not read by `generateInitialHeader`
  have hg' : generateInitialHeader _ data = .ok b := hg
  obtain ⟨-, -, hbl⟩ := generateInitialHeader_ok hsz hg'
  simp only [getHeaderLength, ← hbl] at h₀ h₁
  refine ⟨b, hg', ?_⟩
  rw [pseudoHeader_array hs hd h₀ h₁ h₂]
  rfl

end UDP

end SmartTunnel
