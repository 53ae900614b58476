import SmartTunnel.Model.ConfigsUtil

/-!
# Importing a config

`name_iff`: the name is recognised exactly if the stream starts with it and no piece ends
inside it. From there on everything depends on where the stream is cut:

* `import_exported_iff`: an exported file is read back exactly if no cut lies inside the name
  or the type.
* `disciplined_iff`: when exactly one callback is made, and `onComplete` only for a
  well-formed file.
-/

namespace SmartTunnel

open Jvm

/-- What the platform's charset and cipher promise. -/
structure Platform.Lawful (P : Platform) : Prop where
  newString_getBytes : ∀ s, P.newString (P.getBytes s) = s
  /-- Letters of ASCII are single bytes. -/
  getBytes_appName : P.getBytes ConfigsUtil.appName = [83, 109, 97, 114, 116, 84, 117, 110, 110, 101, 108]
  /-- A string of ASCII letters has one encoding. -/
  newString_appName : ∀ bytes, P.newString bytes = ConfigsUtil.appName → bytes = P.getBytes ConfigsUtil.appName
  /-- Bytes before an encoded string decode to something. -/
  newString_append : ∀ d s, d ≠ [] → P.newString (d ++ P.getBytes s) ≠ s
  decrypt_encrypt : ∀ p, ∃ c, P.encryptBytes p = some c ∧ P.decryptBytes c = some p
  /-- Blocks are decrypted one by one. -/
  decrypt_append : ∀ p c x q, P.encryptBytes p = some c → x ≠ [] → P.decryptBytes (x ++ c) = some q →
    ∃ d, d ≠ [] ∧ q = d ++ p

namespace ConfigsUtil

variable {P : Platform} {s : InputStream} {b : Byte} {c : Bytes}

/-- The bytes of the name, behind their length. -/
def appNameBytes : Bytes := [83, 109, 97, 114, 116, 84, 117, 110, 110, 101, 108]

/-! ## Fields -/

theorem content_advance_one (hs : s.content = b :: c) : (s.advance 1).content = c := by
  have hne : s.content ≠ [] := hs ▸ List.cons_ne_nil _ _
  rw [InputStream.content_advance, InputStream.taken_one hne, hs]
  rfl

theorem cutIn_advance_one (hs : s.content = b :: c) (i j : ℕ) :
    (s.advance 1).CutIn i j ↔ s.CutIn (i + 1) (j + 1) := by
  have hne : s.content ≠ [] := hs ▸ List.cons_ne_nil _ _
  rw [InputStream.cutIn_advance, InputStream.taken_one hne]

theorem readField_exec (hs : s.content = b :: c) (hc : b.toNat = 0 ∨ c ≠ []) :
    Java.exec readField s =
      (.ok (c.take ((s.advance 1).taken b.toNat) ++ List.replicate (b.toNat - (s.advance 1).taken b.toNat) 0),
        (s.advance 1).advance b.toNat) := by
  have hone := content_advance_one hs
  simp only [readField, Java.exec_bind, InputStream.readMasked_exec hs]
  rw [InputStream.fill_exec (hone ▸ hc), hone]

theorem readField_exec_short (hs : s.content = [b]) (hb : 0 < b.toNat) :
    Java.exec readField s =
      (if s.fails then .error .ioException else .ok (List.replicate b.toNat 0), s.advance 1) := by
  simp only [readField, Java.exec_bind, InputStream.readMasked_exec hs]
  rw [InputStream.fill_exec_nil hb (content_advance_one hs), InputStream.advance_fails]

theorem readField_exec_nil (hs : s.content = []) :
    Java.exec readField s = (if s.fails then .error .ioException else .ok (List.replicate 255 0), s) := by
  simp only [readField, Java.exec_bind, InputStream.readMasked_exec_nil hs]
  by_cases hf : s.fails = true
  · simp only [hf, if_true]
  · simp only [hf, if_false, Bool.false_eq_true]
    rw [InputStream.fill_exec_nil (by omega) hs]
    simp only [hf, if_false, Bool.false_eq_true]

/-- A field of the file `field` is there, and one call reads it. -/
def FieldRead (field : Bytes) (s : InputStream) : Prop :=
  (BitVec.ofNat 8 field.length :: field) <+: s.content ∧ ¬ s.CutIn 1 (field.length + 1)

/-- The number of bytes that the call takes of a field that is there. -/
theorem taken_field_iff {field : Bytes}
    (hs : s.content = BitVec.ofNat 8 field.length :: (field ++ c)) :
    (s.advance 1).taken field.length = field.length ↔ ¬ s.CutIn 1 (field.length + 1) := by
  have hone := content_advance_one hs
  rcases Nat.eq_zero_or_pos field.length with h0 | hpos
  · rw [h0]
    refine ⟨fun _ => ?_, fun _ => Nat.zero_min _⟩
    rintro ⟨i, h1, h2⟩
    omega
  · rw [InputStream.taken_eq_iff hpos (by rw [hone]; simp), cutIn_advance_one hs]

/-- **A field that one call reads.** -/
theorem readField_of_read {field : Bytes} (hlen : field.length < 256) (h : FieldRead field s) :
    ∃ s', Java.exec readField s = (.ok field, s') ∧ s'.content = s.content.drop (field.length + 1) ∧
      s'.fails = s.fails ∧ ∀ i j, s'.CutIn i j ↔ s.CutIn (i + (field.length + 1)) (j + (field.length + 1)) := by
  obtain ⟨⟨c, hc⟩, hcut⟩ := h
  have hs : s.content = BitVec.ofNat 8 field.length :: (field ++ c) := hc.symm
  have hnat : (BitVec.ofNat 8 field.length).toNat = field.length := by
    rw [BitVec.toNat_ofNat]
    omega
  have hone := content_advance_one hs
  have htaken := (taken_field_iff hs).2 hcut
  refine ⟨(s.advance 1).advance field.length, ?_, ?_, rfl, ?_⟩
  · rw [readField_exec hs, hnat, htaken]
    · simp
    · rcases Nat.eq_zero_or_pos field.length with h0 | hpos
      · exact .inl (hnat.trans h0)
      · refine .inr fun hnil => ?_
        rw [List.append_eq_nil_iff] at hnil
        rw [hnil.1] at hpos
        exact absurd hpos (by decide)
  · rw [InputStream.content_advance, hone, htaken, hs]
    rfl
  · intro i j
    rw [InputStream.cutIn_advance, htaken, cutIn_advance_one hs, Nat.add_assoc, Nat.add_assoc]

/-- **An array without zeros is read only where the field is.** -/
theorem fieldRead_of_readField {field : Bytes} (h0 : (0 : Byte) ∉ field) (hpos : field ≠ [])
    (hlen : field.length < 256) {s' : InputStream} (h : Java.exec readField s = (.ok field, s')) :
    FieldRead field s := by
  have hzeros : ∀ n, List.replicate n (0 : Byte) = field → False := by
    rintro n rfl
    cases n with
    | zero => exact hpos rfl
    | succ n => exact h0 (by simp)
  rcases hs : s.content with _ | ⟨b, c⟩
  · rw [readField_exec_nil hs] at h
    by_cases hf : s.fails = true
    · rw [if_pos hf] at h
      cases congrArg Prod.fst h
    · rw [if_neg hf] at h
      exact (hzeros _ (Except.ok.inj (congrArg Prod.fst h))).elim
  · by_cases hc : b.toNat = 0 ∨ c ≠ []
    · rw [readField_exec hs hc] at h
      have harr := Except.ok.inj (congrArg Prod.fst h)
      set k := (s.advance 1).taken b.toNat with hk
      have hkb : k ≤ b.toNat := InputStream.taken_le _ _
      have hkc : (c.take k).length = k := by
        have := InputStream.length_take_taken b.toNat (s.advance 1)
        rwa [content_advance_one hs] at this
      -- a short call leaves a zero at the end
      have hfull : k = b.toNat := by
        by_contra hne
        apply h0
        rw [← harr]
        exact List.mem_append_right _ (List.mem_replicate.2 ⟨by omega, rfl⟩)
      rw [hfull, Nat.sub_self, List.replicate_zero, List.append_nil] at harr
      have hblen : b.toNat = field.length := by
        rw [← harr, ← hfull, hkc]
      have hb : b = BitVec.ofNat 8 field.length := by
        apply BitVec.eq_of_toNat_eq
        rw [BitVec.toNat_ofNat, hblen]
        omega
      have hcontent : s.content = BitVec.ofNat 8 field.length :: (field ++ c.drop b.toNat) := by
        rw [hs, ← hb, ← harr, List.take_append_drop]
      refine ⟨⟨c.drop b.toNat, hcontent.symm⟩, ?_⟩
      exact (taken_field_iff hcontent).1 (hblen ▸ hfull)
    · rw [not_or, not_not] at hc
      obtain ⟨hb, rfl⟩ := hc
      rw [readField_exec_short hs (Nat.pos_of_ne_zero hb)] at h
      by_cases hf : s.fails = true
      · rw [if_pos hf] at h
        cases congrArg Prod.fst h
      · rw [if_neg hf] at h
        exact (hzeros _ (Except.ok.inj (congrArg Prod.fst h))).elim

theorem appNameBytes_eq (hP : P.Lawful) : P.getBytes appName = appNameBytes := hP.getBytes_appName

/-- **The name is recognised exactly if the stream starts with it in one piece.** -/
theorem name_iff (hP : P.Lawful) {arr : Bytes} {s' : InputStream} (h : Java.exec readField s = (.ok arr, s')) :
    P.newString arr = appName ↔ FieldRead appNameBytes s := by
  constructor
  · intro hname
    obtain rfl : arr = appNameBytes := (hP.newString_appName arr hname).trans (appNameBytes_eq hP)
    exact fieldRead_of_readField (by decide) (by decide) (by decide) h
  · intro hread
    obtain ⟨s'', hexec, -⟩ := readField_of_read (by decide) hread
    rw [h] at hexec
    obtain rfl := Except.ok.inj (congrArg Prod.fst hexec)
    rw [← appNameBytes_eq hP, hP.newString_getBytes]

/-! ## The import -/

/-- A field is read from every stream that does not fail. -/
theorem readField_total (hf : s.fails = false) :
    ∃ arr s', Java.exec readField s = (.ok arr, s') ∧ s'.fails = false := by
  have hf' : ¬ s.fails = true := by
    rw [hf]
    exact Bool.false_ne_true
  rcases hs : s.content with _ | ⟨b, c⟩
  · exact ⟨_, s, (readField_exec_nil hs).trans (by rw [if_neg hf']), hf⟩
  · by_cases hc : b.toNat = 0 ∨ c ≠ []
    · exact ⟨_, _, readField_exec hs hc, hf⟩
    · rw [not_or, not_not] at hc
      obtain ⟨hb, rfl⟩ := hc
      exact ⟨_, s.advance 1, (readField_exec_short hs (Nat.pos_of_ne_zero hb)).trans (by rw [if_neg hf']), hf⟩

/-- Nothing more comes before a stream fails in its first field. -/
def FailsAtOnce (s : InputStream) : Prop := s.content = [] ∨ ∃ b : Byte, b ≠ 0 ∧ s.content = [b]

/-- A field is not read from a stream that fails at once. -/
theorem readField_fails (hf : s.fails = true) :
    (FailsAtOnce s ∧ ∃ s', Java.exec readField s = (.error .ioException, s')) ∨
      (¬ FailsAtOnce s ∧ ∃ arr s', Java.exec readField s = (.ok arr, s') ∧ s'.fails = true) := by
  rcases hs : s.content with _ | ⟨b, c⟩
  · exact .inl ⟨.inl hs, s, (readField_exec_nil hs).trans (by rw [if_pos hf])⟩
  · by_cases hc : b.toNat = 0 ∨ c ≠ []
    · refine .inr ⟨?_, _, _, readField_exec hs hc, hf⟩
      rintro (hnil | ⟨b', hb', hone⟩)
      · rw [hs] at hnil
        cases hnil
      · rw [hs] at hone
        cases hone
        rcases hc with hb | hc
        · exact hb' (BitVec.eq_of_toNat_eq hb)
        · exact hc rfl
    · rw [not_or, not_not] at hc
      obtain ⟨hb, rfl⟩ := hc
      refine .inl ⟨.inr ⟨b, ?_, hs⟩, s.advance 1, ?_⟩
      · rintro rfl
        exact hb rfl
      · exact (readField_exec_short hs (Nat.pos_of_ne_zero hb)).trans (by rw [if_pos hf])

/-- What is posted about the name. -/
def nameReport (P : Platform) (appNameBytes : Bytes) : List Callback :=
  if P.newString appNameBytes ≠ appName then [.notSupported] else []

theorem onStream_exec {α : Type} (x : Java InputStream α) (i : Import) :
    Java.exec (onStream x) i = ((Java.exec x i.dis).1, { i with dis := (Java.exec x i.dis).2 }) := rfl

/-- The name was read: what is left to do. -/
theorem importBody_exec {arr : Bytes} {s₁ : InputStream} (h : Java.exec readField s = (.ok arr, s₁)) :
    Java.exec (importBody P) { dis := s } =
      Java.exec (do
        let configTypeBytes ← onStream readField
        let encrypted ← onStream (InputStream.readAll (1024 * 4) ((← get).dis.content.length + 1))
        post (.onComplete (P.newString configTypeBytes) (Util.decrypt P encrypted)))
        { dis := s₁, posted := nameReport P arr } := by
  unfold importBody nameReport
  rw [Java.exec_bind, onStream_exec, h]
  by_cases hname : P.newString arr ≠ appName
  · simp only [if_pos hname, Java.exec_bind, post, Java.exec_modify, List.nil_append]
  · simp only [if_neg hname, Java.exec_bind]

/-- **The callbacks of an import from a stream that does not fail.** -/
theorem importConfig_eq {arr configTypeBytes : Bytes} {s₁ s₂ : InputStream}
    (h : Java.exec readField s = (.ok arr, s₁)) (h₁ : Java.exec readField s₁ = (.ok configTypeBytes, s₂))
    (hf : s₂.fails = false) :
    importConfig P s = nameReport P arr ++
      [.onComplete (P.newString configTypeBytes) (Util.decrypt P s₂.content)] := by
  obtain ⟨s₃, h₂⟩ := InputStream.readAll_exec (n := 1024 * 4) (by omega) (Nat.lt_succ_self s₂.content.length)
  rw [hf, if_neg Bool.false_ne_true] at h₂
  simp only [importConfig, importBody_exec h, Java.exec_bind, onStream_exec, h₁, Java.exec_get]
  rw [h₂]
  rfl

/-- An import from a stream that fails ends with the exception. -/
theorem importConfig_fails {arr : Bytes} {s₁ : InputStream} (h : Java.exec readField s = (.ok arr, s₁))
    (hf : s₁.fails = true) : importConfig P s = nameReport P arr ++ [.ioException] := by
  rcases readField_fails hf with ⟨-, s₂, h₁⟩ | ⟨-, configTypeBytes, s₂, h₁, hf₂⟩
  · simp only [importConfig, importBody_exec h, Java.exec_bind, onStream_exec, h₁]
  · obtain ⟨s₃, h₂⟩ := InputStream.readAll_exec (n := 1024 * 4) (by omega) (Nat.lt_succ_self s₂.content.length)
    rw [hf₂, if_pos rfl] at h₂
    simp only [importConfig, importBody_exec h, Java.exec_bind, onStream_exec, h₁, Java.exec_get]
    rw [h₂]

/-- The type and the body of an exported file, from behind the name. -/
theorem type_stage (hP : P.Lawful) {configJson configType : String} {type body : Bytes}
    (htype : P.getBytes configType = type) (hlen : type.length ≤ 255)
    (henc : P.encryptBytes (P.getBytes configJson) = some body)
    (hs : s.content = BitVec.ofNat 8 type.length :: (type ++ body)) (hf : s.fails = false) :
    ∃ configTypeBytes s₂, Java.exec readField s = (.ok configTypeBytes, s₂) ∧ s₂.fails = false ∧
      (P.newString configTypeBytes = configType ∧ Util.decrypt P s₂.content = some configJson ↔
        ¬ s.CutIn 1 (type.length + 1)) := by
  have hdec : P.decryptBytes body = some (P.getBytes configJson) := by
    obtain ⟨c, hc, hdec⟩ := hP.decrypt_encrypt (P.getBytes configJson)
    rw [henc] at hc
    exact Option.some.inj hc ▸ hdec
  by_cases hcut : s.CutIn 1 (type.length + 1)
  · -- the call is short, and what it left of the type comes before the body
    have hpos : 0 < type.length := by
      obtain ⟨i, h1, h2⟩ := hcut
      omega
    have hnat : (BitVec.ofNat 8 type.length).toNat = type.length := by
      rw [BitVec.toNat_ofNat]
      omega
    have hne : type ++ body ≠ [] := by
      intro hnil
      rw [(List.append_eq_nil_iff.1 hnil).1] at hpos
      exact absurd hpos (by decide)
    have hshort : (s.advance 1).taken type.length < type.length := by
      have hle := InputStream.taken_le type.length (s.advance 1)
      have hnot := mt (taken_field_iff hs).1 (not_not.2 hcut)
      omega
    refine ⟨_, _, readField_exec hs (.inr hne), hf, ?_⟩
    refine ⟨?_, fun hno => absurd hcut hno⟩
    rintro ⟨-, hjson⟩
    rw [hnat, InputStream.content_advance, content_advance_one hs,
      List.drop_append_of_le_length hshort.le] at hjson
    obtain ⟨q, hq, hstring⟩ := Option.map_eq_some_iff.1 hjson
    have hrest : type.drop ((s.advance 1).taken type.length) ≠ [] := by
      rw [ne_eq, List.drop_eq_nil_iff]
      omega
    obtain ⟨d, hd, rfl⟩ := hP.decrypt_append _ _ _ _ henc hrest hq
    exact absurd hstring (hP.newString_append d configJson hd)
  · have hread : FieldRead type s := ⟨⟨body, hs.symm⟩, hcut⟩
    obtain ⟨s₂, h, hcontent, hf₂, -⟩ := readField_of_read (by omega) hread
    refine ⟨type, s₂, h, hf₂.trans hf, ?_⟩
    refine ⟨fun _ => hcut, fun _ => ⟨?_, ?_⟩⟩
    · rw [← htype, hP.newString_getBytes]
    · have hbody : s₂.content = body := by
        rw [hcontent, hs]
        exact List.drop_left
      rw [Util.decrypt, hbody, hdec, Option.map_some, hP.newString_getBytes]

/-- **An exported file is read back exactly if no cut lies inside its name or its type.** -/
theorem import_exported_iff (P : Platform) (hP : P.Lawful) (configJson configType : String)
    (htype : (P.getBytes configType).length ≤ 255) :
    ∃ file, exportConfig P configJson configType = some file ∧
      ∀ s : InputStream, s.content = file → s.fails = false →
        (importConfig P s = [.onComplete configType (some configJson)] ↔
          ¬ s.CutIn 1 12 ∧ ¬ s.CutIn 13 (13 + (P.getBytes configType).length)) := by
  obtain ⟨body, henc, -⟩ := hP.decrypt_encrypt (P.getBytes configJson)
  set type := P.getBytes configType with htypeBytes
  refine ⟨(BitVec.ofNat 8 appNameBytes.length :: appNameBytes) ++ (BitVec.ofNat 8 type.length :: type) ++ body,
    ?_, ?_⟩
  · simp only [exportConfig, Util.encrypt, henc, ← htypeBytes, appNameBytes_eq hP, Option.bind_eq_bind,
      Option.bind_some]
    simp
  intro s hs hf
  obtain ⟨arr, s₁, h, hf₁⟩ := readField_total hf
  have hbegins : (BitVec.ofNat 8 appNameBytes.length :: appNameBytes) <+: s.content :=
    ⟨(BitVec.ofNat 8 type.length :: type) ++ body, by rw [hs, List.append_assoc]⟩
  have hname := name_iff hP h
  by_cases hcut : s.CutIn 1 12
  · -- the name is not recognised, and that is reported
    have hnot : P.newString arr ≠ appName := fun heq => (hname.1 heq).2 hcut
    obtain ⟨configTypeBytes, s₂, h₁, hf₂⟩ := readField_total hf₁
    rw [importConfig_eq h h₁ hf₂, nameReport, if_pos hnot]
    refine ⟨fun heq => ?_, fun hno => absurd hcut hno.1⟩
    cases congrArg List.length heq
  · obtain ⟨s₁', h', hcontent, hf₁', hcuts⟩ :=
      readField_of_read (by decide) (⟨hbegins, hcut⟩ : FieldRead appNameBytes s)
    obtain ⟨rfl, rfl⟩ : arr = appNameBytes ∧ s₁ = s₁' := by
      rw [h] at h'
      exact ⟨Except.ok.inj (congrArg Prod.fst h'), congrArg Prod.snd h'⟩
    have hnil : nameReport P appNameBytes = [] := by
      rw [nameReport, if_neg]
      exact not_not.2 (hname.2 ⟨hbegins, hcut⟩)
    have hs₁ : s₁.content = BitVec.ofNat 8 type.length :: (type ++ body) := by
      rw [hcontent, hs]
      rfl
    have hcut₁ : s₁.CutIn 1 (type.length + 1) ↔ s.CutIn 13 (13 + type.length) := by
      rw [hcuts, show type.length + 1 + (appNameBytes.length + 1) = 13 + type.length by simp [appNameBytes]; omega]
      rfl
    obtain ⟨configTypeBytes, s₂, h₁, hf₂, hiff⟩ := type_stage hP htypeBytes.symm htype henc hs₁ hf₁
    rw [importConfig_eq h h₁ hf₂, hnil, List.nil_append, List.singleton_inj, Callback.onComplete.injEq, hiff,
      hcut₁]
    exact ⟨fun hno => ⟨hcut, hno⟩, fun hno => hno.2⟩

/-! ## A platform -/

/-- The bytes of a string in UTF-8. -/
def utf8 (s : String) : Bytes := s.toUTF8.data.toList.map UInt8.toBitVec

def ofBytes (bytes : Bytes) : ByteArray := ⟨(bytes.map UInt8.ofBitVec).toArray⟩

def sampleJson : String := "\x7b\"name\":\"a\"\x7d"

/-- `sampleJson` under AES with the key of `Util`. -/
def sampleBody : Bytes := [168, 70, 134, 66, 33, 140, 239, 61, 34, 226, 236, 18, 168, 92, 160, 213]

/-- UTF-8, with replacement characters for malformed bytes, and a cipher that is AES on
`sampleJson`. -/
def samplePlatform : Platform where
  getBytes := utf8
  newString bytes :=
    (String.fromUTF8? (ofBytes bytes)).getD (String.ofList (List.replicate bytes.length (Char.ofNat 0xFFFD)))
  encryptBytes p := if p = utf8 sampleJson then some sampleBody else some (p ++ [0])
  decryptBytes c :=
    if c = sampleBody then some (utf8 sampleJson)
    else if c.getLast? = some 0 ∧ c.dropLast ≠ utf8 sampleJson then some c.dropLast
    else none

theorem fromUTF8?_utf8 (s : String) : String.fromUTF8? (ofBytes (utf8 s)) = some s := by
  have hbytes : ofBytes (utf8 s) = s.toUTF8 := by
    simp [ofBytes, utf8, Function.comp_def]
  have hvalid : s.toUTF8.IsValidUTF8 := s.isValidUTF8
  rw [hbytes, String.fromUTF8?, dif_pos hvalid]
  rfl

theorem utf8_of_fromUTF8? {bytes : Bytes} {s : String} (h : String.fromUTF8? (ofBytes bytes) = some s) :
    utf8 s = bytes := by
  unfold String.fromUTF8? at h
  split at h
  · cases h
    simp [utf8, String.toUTF8, String.fromUTF8, ofBytes, Function.comp_def]
  · cases h

theorem length_le_utf8 (l : List Char) : l.length ≤ (utf8 (String.ofList l)).length := by
  have hsize : ∀ s : String, (utf8 s).length = s.utf8ByteSize := by
    intro s
    simp [utf8]
  rw [hsize]
  induction l with
  | nil => exact Nat.zero_le _
  | cons c l ih =>
    have happend : String.ofList (c :: l) = String.ofList [c] ++ String.ofList l := by
      rw [← String.ofList_append]
      rfl
    have hc : 0 < (String.ofList [c]).utf8ByteSize := by
      rw [Nat.pos_iff_ne_zero, ne_eq, String.utf8ByteSize_eq_zero_iff]
      simp
    rw [happend, String.utf8ByteSize_append, List.length_cons]
    omega

theorem sampleBody_ne (p : Bytes) : p ++ [0] ≠ sampleBody := by
  intro heq
  have hlast := congrArg List.getLast? heq
  rw [List.getLast?_concat] at hlast
  exact absurd hlast (by decide)

theorem sample_decrypt {c : Bytes} (hc : c ≠ sampleBody) :
    samplePlatform.decryptBytes c =
      if c.getLast? = some 0 ∧ c.dropLast ≠ utf8 sampleJson then some c.dropLast else none :=
  if_neg hc

theorem samplePlatform_lawful : samplePlatform.Lawful where
  newString_getBytes s := by
    simp only [samplePlatform, fromUTF8?_utf8, Option.getD_some]
  getBytes_appName := by decide +kernel
  newString_appName bytes h := by
    simp only [samplePlatform] at h ⊢
    rcases hdec : String.fromUTF8? (ofBytes bytes) with _ | s
    · rw [hdec, Option.getD_none] at h
      have hlist := congrArg String.toList h
      rw [String.toList_ofList] at hlist
      cases bytes with
      | nil => exact absurd hlist (by decide)
      | cons b bytes =>
        rw [List.length_cons, List.replicate_succ] at hlist
        have hhead := congrArg List.head? hlist
        rw [List.head?_cons] at hhead
        exact absurd hhead (by decide)
    · rw [hdec, Option.getD_some] at h
      rw [← h, utf8_of_fromUTF8? hdec]
  newString_append d s hd h := by
    simp only [samplePlatform] at h
    have hpos := List.length_pos_iff.2 hd
    rcases hdec : String.fromUTF8? (ofBytes (d ++ utf8 s)) with _ | t
    · rw [hdec, Option.getD_none] at h
      have hle := length_le_utf8 (List.replicate (d ++ utf8 s).length (Char.ofNat 0xFFFD))
      rw [h, List.length_replicate, List.length_append] at hle
      omega
    · rw [hdec, Option.getD_some] at h
      have hlen := congrArg List.length (utf8_of_fromUTF8? hdec)
      rw [h, List.length_append] at hlen
      omega
  decrypt_encrypt p := by
    by_cases hp : p = utf8 sampleJson
    · subst hp
      exact ⟨sampleBody, by simp [samplePlatform], by simp [samplePlatform]⟩
    · refine ⟨p ++ [0], if_neg hp, ?_⟩
      rw [sample_decrypt (sampleBody_ne p), if_pos]
      · rw [List.dropLast_concat]
      · rw [List.getLast?_concat, List.dropLast_concat]
        exact ⟨rfl, hp⟩
  decrypt_append p c x q henc hx hdec := by
    by_cases hp : p = utf8 sampleJson
    · obtain rfl : sampleBody = c := Option.some.inj ((if_pos hp).symm.trans henc)
      -- a longer text with this last byte is not one of the cipher's
      have hne : x ++ sampleBody ≠ sampleBody := by
        intro heq
        have hlen := congrArg List.length heq
        rw [List.length_append] at hlen
        have hpos := List.length_pos_iff.2 hx
        omega
      have hlast : (x ++ sampleBody).getLast? = some 213 := by
        rw [List.getLast?_append]
        rfl
      rw [sample_decrypt hne, hlast, if_neg (fun h => absurd h.1 (by decide))] at hdec
      cases hdec
    · obtain rfl : p ++ [0] = c := Option.some.inj ((if_neg hp).symm.trans henc)
      rw [← List.append_assoc, sample_decrypt (sampleBody_ne _), List.dropLast_concat] at hdec
      split_ifs at hdec
      exact ⟨x, hx, (Option.some.inj hdec).symm⟩

/-- What `exportConfig` writes for `sampleJson`. -/
def sampleFile : Bytes := [11] ++ appNameBytes ++ [3, 83, 83, 72] ++ sampleBody

theorem not_cutIn_single {bytes : Bytes} (hne : ∀ p ∈ [bytes], p ≠ []) {i j : ℕ} (hj : j ≤ bytes.length) :
    ¬ InputStream.CutIn i j { pieces := [bytes], nonempty := hne } := by
  rintro ⟨n, h1, h2⟩
  rcases n with _ | n
  · simp at h1
  · simp at h2
    omega

theorem sampleFile_read_back :
    importConfig samplePlatform { pieces := [sampleFile], nonempty := by decide } =
      [.onComplete "SSH" (some sampleJson)] := by
  obtain ⟨file, hfile, hread⟩ :=
    import_exported_iff samplePlatform samplePlatform_lawful sampleJson "SSH" (by decide +kernel)
  have hlen : (samplePlatform.getBytes "SSH").length = 3 := by decide +kernel
  obtain rfl : sampleFile = file := by
    have hexport : exportConfig samplePlatform sampleJson "SSH" = some sampleFile := by decide +kernel
    exact Option.some.inj (hexport.symm.trans hfile)
  refine (hread _ (by decide) rfl).2 ⟨not_cutIn_single _ (by decide), ?_⟩
  rw [hlen]
  exact not_cutIn_single _ (by decide)

/-- The stream is cut inside the name: the import of an exported file is reported as not
supported, and completes with something else. -/
theorem split_file_not_read_back :
    let s : InputStream := { pieces := [sampleFile.take 6, sampleFile.drop 6], nonempty := by decide }
    exportConfig samplePlatform sampleJson "SSH" = some s.content ∧
      importConfig samplePlatform s ≠ [.onComplete "SSH" (some sampleJson)] := by
  decide +kernel

/-! ## What is rejected -/

/-- A config file: the name, a complete type, and a body that decrypts. -/
def WellFormed (P : Platform) (content : Bytes) : Prop :=
  ∃ type body : Bytes, type.length ≤ 255 ∧ (P.decryptBytes body).isSome ∧
    content = (BitVec.ofNat 8 appNameBytes.length :: appNameBytes) ++ (BitVec.ofNat 8 type.length :: type) ++ body

/-- One callback is made, and `onComplete` only for a config file. -/
structure Disciplined (P : Platform) (s : InputStream) : Prop where
  once : (importConfig P s).length = 1
  sound : ∀ configType configJson, .onComplete configType configJson ∈ importConfig P s → WellFormed P s.content

theorem nameReport_eq (hP : P.Lawful) {arr : Bytes} {s₁ : InputStream} (h : Java.exec readField s = (.ok arr, s₁)) :
    nameReport P arr = [] ↔ FieldRead appNameBytes s := by
  rw [← name_iff hP h, nameReport]
  by_cases hname : P.newString arr = appName
  · simp [hname]
  · simp [hname]

/-- **When an import makes one callback, and completes only for a config file.** -/
theorem disciplined_iff (P : Platform) (hP : P.Lawful) (s : InputStream) :
    Disciplined P s ↔
      if s.fails then FailsAtOnce s ∨ FieldRead appNameBytes s
      else FieldRead appNameBytes s ∧ WellFormed P s.content := by
  by_cases hf : s.fails = true
  · rw [if_pos hf]
    rcases readField_fails hf with ⟨hnow, s₁, h⟩ | ⟨hnow, arr, s₁, h, hf₁⟩
    · have himport : importConfig P s = [.ioException] := by
        simp only [importConfig, importBody, Java.exec_bind, onStream_exec, h, List.nil_append]
      refine ⟨fun _ => .inl hnow, fun _ => ⟨by rw [himport]; rfl, ?_⟩⟩
      intro configType configJson hmem
      rw [himport, List.mem_singleton] at hmem
      cases hmem
    · have himport := importConfig_fails (P := P) h hf₁
      constructor
      · intro hd
        have honce := hd.once
        rw [himport, List.length_append, List.length_singleton] at honce
        exact .inr ((nameReport_eq hP h).1 (List.length_eq_zero_iff.1 (by omega)))
      · intro hor
        rw [(nameReport_eq hP h).2 (hor.resolve_left hnow), List.nil_append] at himport
        refine ⟨by rw [himport]; rfl, ?_⟩
        intro configType configJson hmem
        rw [himport, List.mem_singleton] at hmem
        cases hmem
  · rw [if_neg hf]
    obtain ⟨arr, s₁, h, hf₁⟩ := readField_total (by simpa using hf)
    obtain ⟨configTypeBytes, s₂, h₁, hf₂⟩ := readField_total hf₁
    have himport := importConfig_eq (P := P) h h₁ hf₂
    constructor
    · intro hd
      have honce := hd.once
      rw [himport, List.length_append, List.length_singleton] at honce
      refine ⟨(nameReport_eq hP h).1 (List.length_eq_zero_iff.1 (by omega)), ?_⟩
      -- the import always completes
      apply hd.sound
      rw [himport]
      exact List.mem_append_right _ (List.mem_singleton_self _)
    · rintro ⟨hread, hwell⟩
      rw [(nameReport_eq hP h).2 hread, List.nil_append] at himport
      exact ⟨by rw [himport]; rfl, fun _ _ _ => hwell⟩

theorem sampleFile_disciplined :
    Disciplined samplePlatform { pieces := [sampleFile], nonempty := by decide } := by
  refine (disciplined_iff samplePlatform samplePlatform_lawful _).2 ⟨⟨?_, ?_⟩, ?_⟩
  · exact ⟨[3, 83, 83, 72] ++ sampleBody, by decide⟩
  · exact not_cutIn_single _ (by decide)
  · exact ⟨[83, 83, 72], sampleBody, by decide, by decide +kernel, by decide⟩

/-- A foreign file is reported as not supported and completes as well; a file of which the
last byte is missing completes. -/
theorem foreign_file_not_disciplined :
    let foreign : InputStream := { pieces := [[3, 71, 73, 70, 1, 65, 1, 2, 3]], nonempty := by decide }
    let truncated : InputStream := { pieces := [sampleFile.dropLast], nonempty := by decide }
    importConfig samplePlatform foreign = [.notSupported, .onComplete "A" none] ∧
      ¬ Disciplined samplePlatform foreign ∧
      importConfig samplePlatform truncated = [.onComplete "SSH" none] := by
  intro foreign truncated
  have hforeign : importConfig samplePlatform foreign = [.notSupported, .onComplete "A" none] := by decide +kernel
  refine ⟨hforeign, fun h => ?_, by decide +kernel⟩
  have honce := h.once
  rw [hforeign] at honce
  cases honce

end ConfigsUtil

end SmartTunnel
