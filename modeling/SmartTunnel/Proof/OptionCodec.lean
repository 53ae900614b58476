import SmartTunnel.Proof.OptionWalk

/-!
# What the option walk makes of an option area

An option area is a list of no-operations and options (`Item`), up to its end or to an
end-of-list byte with any bytes behind it (`OptionArea`). A round of `TCPOption.fromByte` at
an item is `Item.taken`, so the walk over known items folds it (`fromByte_followed_iff`).

* `walksExactly_iff`: the areas that are read as they are written.
* `readsBack_iff`: the options that `getBytes` writes and `fromByte` reads back.
* `sackRoundTrip_iff`: the SACK blocks that are read back, and the bytes that are written back.
-/

namespace SmartTunnel

open Jvm ByteUtil

namespace TCPOption

/-! ## Items -/

/-- A no-operation, or an option of any other kind but end-of-list. -/
inductive Item
  | noOperation
  | option (kind : Byte) (value : Bytes) (hkind : kind ≠ KIND_EOL ∧ kind ≠ KIND_NO) (hfits : value.length ≤ 253)

namespace Item

def bytes : Item → Bytes
  | noOperation => [KIND_NO]
  | option kind value _ _ => kind :: BitVec.ofNat 8 (value.length + 2) :: value

/-- The value of an option of the kind. -/
def valueOf (kind : Byte) : Item → Option Bytes
  | noOperation => none
  | option kind' value _ _ => if kind' = kind then some value else none

/-- The `switch` names its kind, and its length byte is not negative. -/
def Followed : Item → Prop
  | noOperation => True
  | option kind value _ _ => Known kind ∧ value.length + 2 < 128

/-- What a round at the item sets. The byte before its end is the window scale, and the length
of an option is never the `1` that means permitted. -/
def taken (op : TCPOption) : Item → TCPOption
  | noOperation => op
  | option kind value _ _ =>
    if kind = KIND_MSS then { op with maximumSegmentSizeByte := some value }
    else if kind = KIND_WS then { op with windowScale := value.getLastD 2 }
    else if kind = KIND_SAP then { op with selectiveAcknowledgmentPermitted := false }
    else if kind = KIND_SA then { op with selectiveAcknowledgment := some value }
    else if kind = KIND_TS then { op with timeStamp := some value }
    else op

theorem bytes_ne_nil (item : Item) : item.bytes ≠ [] := by
  cases item <;> simp [bytes]

end Item

variable {area pre rest : Bytes} {op : TCPOption} {item : Item} {items : List Item}

/-- The option at the end of `pre`. -/
theorem byteAt_option {kind length : Byte} (hkind : area = pre ++ kind :: length :: rest) :
    byteAt area pre.length = kind ∧ byteAt area (pre.length + 1) = length := by
  subst hkind
  simp [byteAt]

theorem length_toInt {value : Bytes} (h : value.length + 2 < 128) :
    (BitVec.ofNat 8 (value.length + 2)).toInt = value.length + 2 := by
  have hn : (BitVec.ofNat 8 (value.length + 2)).toNat = value.length + 2 := by
    rw [BitVec.toNat_ofNat]
    exact Nat.mod_eq_of_lt (by omega)
  rw [BitVec.toInt_eq_toNat_of_lt (by omega), hn]
  push_cast
  rfl

/-- **A round at a known item** takes it and moves to its end. -/
theorem fromByteRound_item (pre rest : Bytes) (op : TCPOption) (h : item.Followed) :
    fromByteRound (pre ++ item.bytes ++ rest) (op, (pre.length : ℤ)) =
      .ok (item.taken op, ((pre ++ item.bytes).length : ℤ)) := by
  cases item with
  | noOperation =>
    have hround : fromByteRound (pre ++ KIND_NO :: rest) (op, (pre.length : ℤ)) =
        .ok (op, ((pre ++ [KIND_NO]).length : ℤ)) := fromByteRound_nop
    simpa [Item.bytes, Item.taken] using hround
  | option kind value hkind hfits =>
    obtain ⟨hknown, hsmall⟩ := h
    set length : Byte := BitVec.ofNat 8 (value.length + 2) with hlen
    set area := pre ++ (Item.option kind value hkind hfits).bytes ++ rest with harea
    have hsplit : area = pre ++ kind :: length :: (value ++ rest) := by simp [harea, Item.bytes, hlen]
    have hint : length.toInt = value.length + 2 := length_toInt hsmall
    have hsize : area.length = pre.length + (value.length + 2) + rest.length := by
      rw [hsplit]
      simp only [List.length_append, List.length_cons]
      omega
    have hk : aget area pre.length = .ok kind := by
      rw [hsplit]
      exact aget_append rfl
    have hl : aget area (pre.length + 1) = .ok length := by
      rw [hsplit, show pre ++ kind :: length :: (value ++ rest) = (pre ++ [kind]) ++ length :: (value ++ rest) by simp]
      exact aget_append (by simp)
    have hvalue : copyOfRange area (pre.length + 2) (pre.length + length.toInt) = .ok value := by
      have hslice := copyOfRange_slice (a := area) (i := pre.length + 2) (j := pre.length + (value.length + 2))
        (by omega) (by omega)
      have hdrop : area.drop (pre.length + 2) = value ++ rest := by
        rw [hsplit, List.drop_append]
        simp
      rw [hdrop, show pre.length + (value.length + 2) - (pre.length + 2) = value.length by omega,
        List.take_left'] at hslice
      · rw [hint, ← hslice]
        push_cast
        rfl
      · rfl
    -- without a value the last byte is the length byte
    have hscale : aget area (pre.length + length.toInt - 1) = .ok (value.getLastD 2) := by
      rw [hint, hsplit]
      rcases List.eq_nil_or_concat value with rfl | ⟨front, last, rfl⟩
      · rw [show pre ++ kind :: length :: ([] ++ rest) = (pre ++ [kind]) ++ length :: rest by simp]
        rw [aget_append (by simp; ring)]
        rfl
      · rw [show pre ++ kind :: length :: (front.concat last ++ rest) =
          (pre ++ kind :: length :: front) ++ last :: rest by simp]
        rw [aget_append (by simp; ring)]
        simp
    have hone : (length == 1) = false := by
      have hne : length ≠ 1 := by
        intro h1
        rw [h1] at hint
        have hdec : (1 : Byte).toInt = 1 := by decide
        omega
      simpa using hne
    have hend : ((pre.length : ℤ) + length.toInt) = ((pre ++ (Item.option kind value hkind hfits).bytes).length : ℤ) := by
      rw [hint]
      simp [Item.bytes]
      ring
    rw [← hend]
    simp only [fromByteRound, hk, bind, Except.bind, pure, Except.pure, hl, hvalue, hscale, hone]
    unfold Item.taken
    rw [if_neg hkind.1, if_neg hkind.2]
    rcases hknown with rfl | rfl | rfl | rfl | rfl <;> rfl

/-- At any other option the walk does not move to its end. -/
theorem followed_of_round {pre rest : Bytes} {op op' : TCPOption}
    (h : fromByteRound (pre ++ item.bytes ++ rest) (op, (pre.length : ℤ)) =
      .ok (op', ((pre ++ item.bytes).length : ℤ))) : item.Followed := by
  cases item with
  | noOperation => trivial
  | option kind value hkind hfits =>
    have hsplit : pre ++ (Item.option kind value hkind hfits).bytes ++ rest =
        pre ++ kind :: BitVec.ofNat 8 (value.length + 2) :: (value ++ rest) := by simp [Item.bytes]
    have hend : ((pre ++ (Item.option kind value hkind hfits).bytes).length : ℤ) = pre.length + (value.length + 2) := by
      simp only [Item.bytes, List.length_append, List.length_cons]
      push_cast
      ring
    rw [hend, hsplit] at h
    by_cases hknown : Known kind
    · refine ⟨hknown, ?_⟩
      by_contra hlarge
      -- the length byte is negative, so the walk goes back
      obtain ⟨hk, hl⟩ := byteAt_option (Eq.refl (pre ++ kind :: BitVec.ofNat 8 (value.length + 2) :: (value ++ rest)))
      have hneg : (BitVec.ofNat 8 (value.length + 2)).toInt < 0 := by
        have hn : (BitVec.ofNat 8 (value.length + 2)).toNat = value.length + 2 := by
          rw [BitVec.toNat_ofNat]
          exact Nat.mod_eq_of_lt (by omega)
        rw [BitVec.toInt_eq_toNat_cond, if_neg (by omega)]
        omega
      have hmoves : optionLength (pre ++ kind :: BitVec.ofNat 8 (value.length + 2) :: (value ++ rest)) pre.length =
          (BitVec.ofNat 8 (value.length + 2)).toInt := by
        rw [optionLength_known (by rw [hk]; exact hknown), hl]
      have hin : pre.length < (pre ++ kind :: BitVec.ofNat 8 (value.length + 2) :: (value ++ rest)).length := by simp
      by_cases hread : Readable (pre ++ kind :: BitVec.ofNat 8 (value.length + 2) :: (value ++ rest)) pre.length
      · obtain ⟨op₁, hround⟩ := fromByteRound_readable op hin hread
        rw [hround, hmoves] at h
        simp only [Except.ok.injEq, Prod.mk.injEq] at h
        omega
      · obtain ⟨e, hround⟩ := fromByteRound_unreadable op hin hread
        rw [hround] at h
        cases h
    · rw [fromByteRound_unknown hkind.1 hkind.2 hknown] at h
      simp only [Except.ok.injEq, Prod.mk.injEq] at h
      omega

/-! ## The fields -/

/-- The value of the last option of the kind. -/
def lastValue (kind : Byte) (items : List Item) : Option Bytes := items.reverse.findSome? (Item.valueOf kind)

theorem lastValue_cons (kind : Byte) (item : Item) (items : List Item) :
    lastValue kind (item :: items) = (lastValue kind items).or (item.valueOf kind) := by
  unfold lastValue
  rw [List.reverse_cons, List.findSome?_append, List.findSome?_singleton]

/-- An item sets the field of its kind and no other. -/
theorem taken_fields (op : TCPOption) (item : Item) :
    (item.taken op).maximumSegmentSizeByte = ((item.valueOf KIND_MSS).map some).getD op.maximumSegmentSizeByte ∧
    (item.taken op).windowScale = ((item.valueOf KIND_WS).map fun v => v.getLastD 2).getD op.windowScale ∧
    (item.taken op).selectiveAcknowledgmentPermitted =
      ((item.valueOf KIND_SAP).map fun _ => false).getD op.selectiveAcknowledgmentPermitted ∧
    (item.taken op).selectiveAcknowledgment = ((item.valueOf KIND_SA).map some).getD op.selectiveAcknowledgment ∧
    (item.taken op).timeStamp = ((item.valueOf KIND_TS).map some).getD op.timeStamp := by
  cases item with
  | noOperation => exact ⟨rfl, rfl, rfl, rfl, rfl⟩
  | option kind value hkind hfits =>
    by_cases hknown : Known kind
    · rcases hknown with rfl | rfl | rfl | rfl | rfl <;> exact ⟨rfl, rfl, rfl, rfl, rfl⟩
    · unfold Known at hknown
      push Not at hknown
      obtain ⟨h2, h3, h4, h5, h8⟩ := hknown
      simp [Item.taken, Item.valueOf, h2, h3, h4, h5, h8]

/-- A field that each option of a kind sets from its value holds that of the last one. -/
theorem foldl_taken (items : List Item) {β : Type} {kind : Byte} (field : TCPOption → β) (read : Bytes → β)
    (h : ∀ (op : TCPOption) (item : Item), field (item.taken op) = ((item.valueOf kind).map read).getD (field op)) (op : TCPOption) :
    field (items.foldl Item.taken op) = ((lastValue kind items).map read).getD (field op) := by
  induction items generalizing op with
  | nil => rfl
  | cons item items ih =>
    rw [List.foldl_cons, ih, h, lastValue_cons]
    cases lastValue kind items <;> simp

/-- The fields are those of the options. -/
structure Holds (items : List Item) (op : TCPOption) : Prop where
  maximumSegmentSize : op.maximumSegmentSizeByte = lastValue KIND_MSS items
  windowScale : (lastValue KIND_WS items).getD [0] = [op.windowScale]
  permitted : op.selectiveAcknowledgmentPermitted = (lastValue KIND_SAP items).isSome
  selectiveAcknowledgment : op.selectiveAcknowledgment = lastValue KIND_SA items
  timeStamp : op.timeStamp = lastValue KIND_TS items

/-- **The rounds set the fields right**, but for what says that SACK is permitted and for a window
scale that is not one byte. -/
theorem holds_foldl_iff (options : Option Bytes) :
    Holds items (items.foldl Item.taken { options := options }) ↔
      lastValue KIND_SAP items = none ∧ ∀ v, lastValue KIND_WS items = some v → v.length = 1 := by
  set start : TCPOption := { options := options }
  have hmss := foldl_taken items maximumSegmentSizeByte some (fun op item => (taken_fields op item).1) start
  have hscale := foldl_taken items windowScale (fun v => v.getLastD 2)
    (fun op item => (taken_fields op item).2.1) start
  have hperm := foldl_taken items selectiveAcknowledgmentPermitted (fun _ => false)
    (fun op item => (taken_fields op item).2.2.1) start
  have hsack := foldl_taken items selectiveAcknowledgment some
    (fun op item => (taken_fields op item).2.2.2.1) start
  have hts := foldl_taken items timeStamp some (fun op item => (taken_fields op item).2.2.2.2) start
  have hsome : ∀ v : Option Bytes, (v.map some).getD none = v := by
    intro v
    cases v <;> rfl
  -- a field that is never set by an option keeps its default
  constructor
  · intro h
    constructor
    · have hp := h.permitted
      rw [hperm] at hp
      cases hv : lastValue KIND_SAP items with
      | none => rfl
      | some v =>
        rw [hv] at hp
        cases hp
    · intro v hv
      have hw := h.windowScale
      rw [hv] at hw
      rw [show v = _ from hw]
      rfl
  · rintro ⟨hnone, hone⟩
    refine ⟨hmss.trans (hsome _), ?_, ?_, hsack.trans (hsome _), hts.trans (hsome _)⟩
    · rw [hscale]
      cases hv : lastValue KIND_WS items with
      | none => rfl
      | some v =>
        obtain ⟨b, rfl⟩ := List.length_eq_one_iff.1 (hone v hv)
        rfl
    · rw [hperm, hnone]
      rfl

/-! ## Areas -/

/-- A well-formed option area: items up to its end, or up to an end-of-list byte. -/
structure OptionArea where
  items : List Item
  /-- What stands behind the end-of-list byte, if there is one. -/
  padding : Option Bytes := none

/-- The bytes of the items. -/
def itemBytes (items : List Item) : Bytes := items.flatMap Item.bytes

namespace OptionArea

/-- The end-of-list byte and what stands behind it. -/
def tail (a : OptionArea) : Bytes := (a.padding.map (KIND_EOL :: ·)).getD []

def bytes (a : OptionArea) : Bytes := itemBytes a.items ++ a.tail

/-- The area is read as it is written: `fromByte` returns the fields of the options before the end of
list, each of these is skipped by its length, the walk does not leave the area, and it takes no
option behind the end of list. -/
structure WalksExactly (a : OptionArea) : Prop where
  returns : ∃ op, Fueled.Ends (fun n => fromByte n a.bytes) (.ok op) ∧ Holds a.items op
  skips : ∀ front item back, a.items = front ++ item :: back →
    ∃ op op', Stands a.bytes (op, ((itemBytes front).length : ℤ)) ∧
      fromByteRound a.bytes (op, ((itemBytes front).length : ℤ)) =
        .ok (op', ((itemBytes front ++ item.bytes).length : ℤ))
  inside : ∀ s, Stands a.bytes s → 0 ≤ s.2 ∧ s.2 + optionLength a.bytes s.2.toNat ≤ a.bytes.length
  stops : ∀ s, Stands a.bytes s → ((itemBytes a.items).length : ℤ) ≤ s.2 → ¬ Known (byteAt a.bytes s.2.toNat)

/-- The areas the `switch` can follow: not empty, with options of the kinds it names but for SACK
permitted, shorter than 128 bytes, a window scale of one byte, and nothing but end-of-list and
no-operation bytes behind the end of list. -/
structure Followed (a : OptionArea) : Prop where
  nonempty : a.bytes ≠ []
  known : ∀ item ∈ a.items, item.Followed
  permitted : lastValue KIND_SAP a.items = none
  scale : ∀ v, lastValue KIND_WS a.items = some v → v.length = 1
  padding : ∀ b ∈ a.tail, b = KIND_EOL ∨ b = KIND_NO

/-! An area is cut into its items and the single bytes of its tail. -/

def pieceBytes : Item ⊕ Byte → Bytes := Sum.elim Item.bytes fun b => [b]

def pieceTaken (op : TCPOption) : Item ⊕ Byte → TCPOption := Sum.elim (Item.taken op) fun _ => op

theorem takes_item {item : Item} (h : item.Followed) :
    Fueled.Takes fromByteRound pieceBytes pieceTaken (.inl item) :=
  ⟨item.bytes_ne_nil, fun pre rest op => fromByteRound_item pre rest op h⟩

theorem takes_blank {b : Byte} (h : b = KIND_EOL ∨ b = KIND_NO) :
    Fueled.Takes fromByteRound pieceBytes pieceTaken (.inr b) := by
  refine ⟨by simp [pieceBytes], fun pre rest op => ?_⟩
  rcases h with rfl | rfl
  · have hround : fromByteRound (pre ++ KIND_EOL :: rest) (op, (pre.length : ℤ)) =
        .ok (op, ((pre ++ [KIND_EOL]).length : ℤ)) := fromByteRound_eol
    simpa [pieceBytes, pieceTaken] using hround
  · have hround : fromByteRound (pre ++ KIND_NO :: rest) (op, (pre.length : ℤ)) =
        .ok (op, ((pre ++ [KIND_NO]).length : ℤ)) := fromByteRound_nop
    simpa [pieceBytes, pieceTaken] using hround

/-- Items and single bytes, one after the other. -/
def cutOf (items : List Item) (blanks : Bytes) : List (Item ⊕ Byte) := items.map .inl ++ blanks.map .inr

theorem cutOf_bytes (items : List Item) (blanks : Bytes) :
    (cutOf items blanks).flatMap pieceBytes = itemBytes items ++ blanks := by
  simp [cutOf, pieceBytes, itemBytes, List.flatMap_map]

theorem cutOf_taken (items : List Item) (blanks : Bytes) (op : TCPOption) :
    (cutOf items blanks).foldl pieceTaken op = items.foldl Item.taken op := by
  simp [cutOf, pieceTaken, List.foldl_map]

theorem cutOf_takes {items : List Item} {blanks : Bytes} (hitems : ∀ item ∈ items, item.Followed)
    (hblanks : ∀ b ∈ blanks, b = KIND_EOL ∨ b = KIND_NO) :
    ∀ piece ∈ cutOf items blanks, Fueled.Takes fromByteRound pieceBytes pieceTaken piece := by
  intro piece hmem
  rcases List.mem_append.1 hmem with h | h
  · obtain ⟨item, hi, rfl⟩ := List.mem_map.1 h
    exact takes_item (hitems item hi)
  · obtain ⟨b, hb, rfl⟩ := List.mem_map.1 h
    exact takes_blank (hblanks b hb)

variable {a : OptionArea}

theorem bytes_eq (a : OptionArea) : a.bytes = (cutOf a.items a.tail).flatMap pieceBytes := by
  rw [cutOf_bytes]
  rfl

theorem cutOf_ne_nil (h : a.bytes ≠ []) : cutOf a.items a.tail ≠ [] := by
  intro hnil
  rw [bytes_eq, hnil] at h
  exact h rfl

/-- **What `fromByte` makes of an area it can follow.** -/
theorem fromByte_followed_iff {op : TCPOption} (hne : a.bytes ≠ []) (hitems : ∀ item ∈ a.items, item.Followed)
    (hblanks : ∀ b ∈ a.tail, b = KIND_EOL ∨ b = KIND_NO) :
    Fueled.Ends (fun n => fromByte n a.bytes) (.ok op) ↔
      op = a.items.foldl Item.taken { options := some a.bytes } := by
  have hreturns := fun t => Fueled.returns_pieces_iff (s := { options := some a.bytes }) (t := t)
    (cutOf_takes hitems hblanks) (cutOf_ne_nil hne)
  rw [fromByte_ends_iff]
  simp only [cutOf_taken, ← bytes_eq] at hreturns
  constructor
  · rintro ⟨i, hi⟩
    exact congrArg Prod.fst ((hreturns (op, i)).1 hi)
  · rintro rfl
    exact ⟨_, (hreturns _).2 rfl⟩

/-- The walk stands at an item or behind the items. -/
theorem stands_cases (hitems : ∀ item ∈ a.items, item.Followed)
    (hblanks : ∀ b ∈ a.tail, b = KIND_EOL ∨ b = KIND_NO) (hne : a.bytes ≠ []) {s : TCPOption × ℤ}
    (hs : Stands a.bytes s) :
    ∃ front piece back, cutOf a.items a.tail = front ++ piece :: back ∧
      s.2 = ((front.flatMap pieceBytes).length : ℤ) ∧
      a.bytes = front.flatMap pieceBytes ++ pieceBytes piece ++ back.flatMap pieceBytes := by
  unfold Stands at hs
  rw [bytes_eq] at hs
  obtain ⟨front, piece, back, hsplit, rfl⟩ :=
    Fueled.comes_to_piece (cutOf_takes hitems hblanks) (cutOf_ne_nil hne) hs
  refine ⟨front, piece, back, hsplit, rfl, ?_⟩
  rw [bytes_eq, hsplit]
  simp

/-- An item lies before the tail. -/
theorem item_before_tail {items : List Item} {tail : Bytes} {front back : List (Item ⊕ Byte)} {item : Item}
    (h : cutOf items tail = front ++ .inl item :: back) :
    (front.flatMap pieceBytes).length + item.bytes.length ≤ (itemBytes items).length := by
  induction items generalizing front with
  | nil =>
    have hmem : Sum.inl item ∈ cutOf [] tail := by rw [h]; simp
    simp [cutOf] at hmem
  | cons first items ih =>
    cases front with
    | nil =>
      obtain rfl : first = item := Sum.inl.inj (List.cons.inj h).1
      simp [itemBytes]
    | cons piece front =>
      obtain ⟨hfirst, hrest⟩ := List.cons.inj h
      have hlen := ih hrest
      simp only [← hfirst, itemBytes, List.flatMap_cons, List.length_append, pieceBytes, Sum.elim_inl] at hlen ⊢
      omega

/-- **An area that can be followed is read as it is written.** -/
theorem Followed.walksExactly (h : a.Followed) : a.WalksExactly := by
  have htakes := cutOf_takes h.known h.padding
  refine ⟨⟨_, (fromByte_followed_iff h.nonempty h.known h.padding).2 rfl,
    (holds_foldl_iff _).2 ⟨h.permitted, h.scale⟩⟩, ?_, ?_, ?_⟩
  · intro front item back hsplit
    have hfront : ∀ piece ∈ cutOf front [], Fueled.Takes fromByteRound pieceBytes pieceTaken piece :=
      cutOf_takes (fun i hi => h.known i (by rw [hsplit]; simp [hi])) (by simp)
    have hall : a.bytes = itemBytes front ++ item.bytes ++ (itemBytes back ++ a.tail) := by
      unfold bytes
      rw [hsplit]
      simp [itemBytes]
    have hback : item.bytes ++ (itemBytes back ++ a.tail) ≠ [] := by simp [item.bytes_ne_nil]
    have hcomes := Fueled.comes_pieces hfront hback [] { options := some a.bytes }
    rw [cutOf_bytes] at hcomes
    simp only [List.nil_append, List.append_nil, List.length_nil, Nat.cast_zero] at hcomes
    rw [← List.append_assoc, ← hall] at hcomes
    have hround := fromByteRound_item (itemBytes front) (itemBytes back ++ a.tail)
      ((cutOf front []).foldl pieceTaken { options := some a.bytes }) (h.known item (by rw [hsplit]; simp))
    rw [← hall] at hround
    exact ⟨_, _, hcomes, hround⟩
  · intro s hs
    obtain ⟨front, piece, back, hsplit, hat, hall⟩ := stands_cases h.known h.padding h.nonempty hs
    have hround := (htakes piece (by rw [hsplit]; simp)).round (front.flatMap pieceBytes) (back.flatMap pieceBytes) s.1
    have hpos := List.length_pos_of_ne_nil (htakes piece (by rw [hsplit]; simp)).nonempty
    rw [← hall] at hround
    obtain ⟨i, hi, -, -, hmove⟩ := fromByteRound_ok hround
    obtain rfl := Int.natCast_inj.1 hi
    rw [hat, Int.toNat_natCast, ← hmove, hall]
    simp only [List.length_append]
    omega
  · intro s hs hbehind
    obtain ⟨front, piece, back, hsplit, hat, hall⟩ := stands_cases h.known h.padding h.nonempty hs
    cases piece with
    | inl item =>
      have hbefore := item_before_tail hsplit
      have hpos := List.length_pos_of_ne_nil item.bytes_ne_nil
      omega
    | inr b =>
      have hmem : Sum.inr b ∈ cutOf a.items a.tail := by rw [hsplit]; simp
      have hb : byteAt a.bytes s.2.toNat = b := by
        rw [hat, Int.toNat_natCast, hall]
        simp [byteAt, pieceBytes]
      rw [hb]
      rcases h.padding b (by simpa [cutOf] using hmem) with rfl | rfl
      · decide
      · decide

/-- Behind the items that are followed, the walk goes on to the first byte that is neither an
end-of-list nor a no-operation. -/
theorem stands_behind {q r : Bytes} {b : Byte} (hitems : ∀ item ∈ a.items, item.Followed)
    (hq : ∀ x ∈ q, x = KIND_EOL ∨ x = KIND_NO) (htail : a.tail = q ++ b :: r) :
    ∃ op, Stands a.bytes (op, ((itemBytes a.items ++ q).length : ℤ)) := by
  have hcomes := Fueled.comes_pieces (cutOf_takes hitems hq) (List.cons_ne_nil b r) [] { options := some a.bytes }
  have hall : a.bytes = itemBytes a.items ++ q ++ b :: r := by
    unfold bytes
    rw [htail, List.append_assoc]
  rw [cutOf_bytes] at hcomes
  simp only [List.nil_append, List.length_nil, Nat.cast_zero, ← hall] at hcomes
  exact ⟨_, hcomes⟩

/-- **An area that is read as it is written can be followed.** -/
theorem WalksExactly.followed (h : a.WalksExactly) : a.Followed := by
  obtain ⟨op, hends, hholds⟩ := h.returns
  have hknown : ∀ item ∈ a.items, item.Followed := by
    intro item hmem
    obtain ⟨front, back, hsplit⟩ := List.append_of_mem hmem
    obtain ⟨op₁, op₂, -, hround⟩ := h.skips front item back hsplit
    have hall : a.bytes = itemBytes front ++ item.bytes ++ (itemBytes back ++ a.tail) := by
      unfold bytes
      rw [hsplit]
      simp [itemBytes]
    rw [hall] at hround
    exact followed_of_round hround
  have hne : a.bytes ≠ [] := by
    intro hnil
    have hstart := (h.inside ({ options := some a.bytes }, 0) .refl).2
    rw [hnil] at hstart
    have hlen : optionLength [] (0 : ℤ).toNat = 1 := by decide
    simp only [List.length_nil, Nat.cast_zero, hlen] at hstart
    omega
  have hblank : ∀ b ∈ a.tail, b = KIND_EOL ∨ b = KIND_NO := by
    intro b hb
    by_contra hnot
    -- the walk comes to the first such byte
    obtain ⟨x, hx⟩ : ∃ x, a.tail.find? (fun x => decide ¬ (x = KIND_EOL ∨ x = KIND_NO)) = some x :=
      Option.isSome_iff_exists.1 (List.find?_isSome.2 ⟨b, hb, by simpa using hnot⟩)
    obtain ⟨hxnot, q, r, htail, hq⟩ := List.find?_eq_some_iff_append.1 hx
    have hall : a.bytes = itemBytes a.items ++ q ++ x :: r := by
      unfold bytes
      rw [htail, List.append_assoc]
    obtain ⟨op', hstands⟩ := stands_behind hknown (fun y hy => by simpa using hq y hy) htail
    have hat : byteAt a.bytes (itemBytes a.items ++ q).length = x := by
      rw [hall]
      simp [byteAt]
    have hunknown : ¬ Known x := by
      have hstop := h.stops _ hstands (by simp)
      rwa [Int.toNat_natCast, hat] at hstop
    -- it is of a kind the `switch` does not name, so the walk stays there
    have hx0 : x ≠ KIND_EOL ∧ x ≠ KIND_NO := by simpa using hxnot
    have hround : fromByteRound a.bytes (op', ((itemBytes a.items ++ q).length : ℤ)) =
        .ok (op', ((itemBytes a.items ++ q).length : ℤ)) := by
      rw [hall]
      exact fromByteRound_unknown hx0.1 hx0.2 hunknown
    obtain ⟨i, n, hn⟩ := fromByte_ends_iff.1 hends
    have hnone := Fueled.diverges_of_stuck hstands ⟨hround, by rw [hall]; simp⟩ n
    rw [hnone] at hn
    cases hn
  obtain rfl := (fromByte_followed_iff hne hknown hblank).1 hends
  obtain ⟨hperm, hscale⟩ := (holds_foldl_iff _).1 hholds
  exact ⟨hne, hknown, hperm, hscale, hblank⟩

/-- **The areas that are read as they are written.** -/
theorem walksExactly_iff (a : OptionArea) : a.WalksExactly ↔ a.Followed :=
  ⟨WalksExactly.followed, Followed.walksExactly⟩

/-- The options of a usual SYN: a maximum segment size of 1460, a window scale of 8, SACK permitted. -/
def synOptions : OptionArea where
  items := [.option KIND_MSS [5, 180] (by decide) (by decide), .noOperation,
    .option KIND_WS [8] (by decide) (by decide), .noOperation, .noOperation,
    .option KIND_SAP [] (by decide) (by decide)]

/-- A fast-open option without a cookie. -/
def fastOpenOption : OptionArea where
  items := [.option 34 [] (by decide) (by decide)]

/-- An end-of-list byte before a maximum segment size. -/
def endBeforeOption : OptionArea where
  items := []
  padding := some [KIND_MSS, 4, 5, 180]

/-- **Not every area is read as it is written.** That SACK is permitted is never read, an option of
another kind holds the walk, and options behind the end of list are read. -/
theorem synOptions_not_exact : synOptions.bytes = [2, 4, 5, 180, 1, 3, 3, 8, 1, 1, 4, 2] ∧
    ¬ synOptions.WalksExactly ∧ ¬ fastOpenOption.WalksExactly ∧ ¬ endBeforeOption.WalksExactly := by
  refine ⟨by decide, fun h => ?_, fun h => ?_, fun h => ?_⟩
  · exact absurd h.followed.permitted (by decide)
  · have hknown := h.followed.known (.option 34 [] (by decide) (by decide)) (by simp [fastOpenOption])
    exact absurd hknown.1 (by decide)
  · have hblank := h.followed.padding KIND_MSS (by decide)
    exact absurd hblank (by decide)

end OptionArea

/-! ## Writing and reading options -/

/-- A choice of options, not all absent, for the setters of `TCPOption`. -/
structure Settings where
  maximumSegmentSize : Option (BitVec 32) := none
  /-- Zero when it is not set. -/
  windowScale : Byte := 0
  permitted : Bool := false
  selectiveAcknowledgment : Option Bytes := none
  timeStamp : Option (BitVec 64) := none
  mss_fits : ∀ v, maximumSegmentSize = some v → v.toNat ≤ 65535
  sack_blocks : ∀ sa, selectiveAcknowledgment = some sa → ∃ n, 1 ≤ n ∧ n ≤ 4 ∧ sa.length = 8 * n
  nonempty : maximumSegmentSize.isSome ∨ windowScale ≠ 0 ∨ permitted = true ∨
    selectiveAcknowledgment.isSome ∨ timeStamp.isSome

/-- Bytes that are written as whole words and whose reading does `f`. -/
structure Written (bytes : Bytes) (f : TCPOption → TCPOption) : Prop where
  items : ∃ items : List Item, (∀ item ∈ items, item.Followed) ∧ itemBytes items = bytes ∧
    ∀ op, items.foldl Item.taken op = f op
  words : 4 ∣ bytes.length

theorem Written.nil : Written [] id := ⟨⟨[], by simp, rfl, fun _ => rfl⟩, by simp⟩

/-- **What is written one after the other is read one after the other.** -/
theorem Written.append {bytes bytes' : Bytes} {f g : TCPOption → TCPOption} (h : Written bytes f)
    (h' : Written bytes' g) : Written (bytes ++ bytes') (g ∘ f) := by
  obtain ⟨⟨items, hknown, rfl, hf⟩, hwords⟩ := h
  obtain ⟨⟨items', hknown', rfl, hg⟩, hwords'⟩ := h'
  refine ⟨⟨items ++ items', ?_, ?_, ?_⟩, ?_⟩
  · intro item hmem
    rcases List.mem_append.1 hmem with hm | hm
    · exact hknown item hm
    · exact hknown' item hm
  · simp [itemBytes]
  · intro op
    rw [List.foldl_append, hf, hg]
    rfl
  · rw [List.length_append]
    exact Nat.dvd_add hwords hwords'

/-- An option behind the no-operations that make it whole words. -/
theorem Written.option (kind : Byte) (value : Bytes) (n : ℕ) (hknown : Known kind) (hsmall : value.length + 2 < 128)
    (hwords : 4 ∣ n + (value.length + 2)) {f : TCPOption → TCPOption}
    (hf : ∀ op hkind hfits, (Item.option kind value hkind hfits).taken op = f op) :
    Written (List.replicate n KIND_NO ++ kind :: BitVec.ofNat 8 (value.length + 2) :: value) f := by
  have hkind : kind ≠ KIND_EOL ∧ kind ≠ KIND_NO := by rcases hknown with rfl | rfl | rfl | rfl | rfl <;> decide
  refine ⟨⟨List.replicate n .noOperation ++ [.option kind value hkind (by omega)], ?_, ?_, ?_⟩, ?_⟩
  · intro item hmem
    rcases List.mem_append.1 hmem with hm | hm
    · rw [(List.mem_replicate.1 hm).2]
      trivial
    · rw [List.mem_singleton.1 hm]
      exact ⟨hknown, hsmall⟩
  · have hnops : ∀ n, itemBytes (List.replicate n .noOperation) = List.replicate n KIND_NO := by
      intro n
      induction n with
      | zero => rfl
      | succ n ih => exact congrArg (KIND_NO :: ·) ih
    rw [itemBytes, List.flatMap_append, List.flatMap_singleton]
    exact congrArg (· ++ _) (hnops n)
  · intro op
    have hnop : ∀ n, (List.replicate n Item.noOperation).foldl Item.taken op = op := by
      intro n
      induction n with
      | zero => rfl
      | succ n ih => exact ih
    rw [List.foldl_append, hnop]
    exact hf op hkind (by omega)
  · simp only [List.length_append, List.length_replicate, List.length_cons]
    omega

namespace Settings

/-- `new TCPOption()` and the setters. -/
def build (s : Settings) : TCPOption :=
  let op : TCPOption := {}
  let op := (s.maximumSegmentSize.map op.setMaximumSegmentSize).getD op
  let op := op.setWindowScale s.windowScale
  let op := op.setSelectiveAcknowledgmentPermitted s.permitted
  let op := op.setSelectiveAcknowledgmentBytes s.selectiveAcknowledgment
  (s.timeStamp.map op.setTimeStamp).getD op

/-- `getBytes` writes whole words, and `fromByte` reads the same fields from them. -/
def ReadsBack (op : TCPOption) : Prop :=
  ∃ bytes op', op.getBytes = some bytes ∧ 4 ∣ bytes.length ∧ Fueled.Ends (fun n => fromByte n bytes) (.ok op') ∧
    op'.maximumSegmentSizeByte = op.maximumSegmentSizeByte ∧ op'.windowScale = op.windowScale ∧
    op'.selectiveAcknowledgmentPermitted = op.selectiveAcknowledgmentPermitted ∧
    op'.selectiveAcknowledgment = op.selectiveAcknowledgment ∧ op'.timeStamp = op.timeStamp

variable (s : Settings)

/-! What is written for each option, in the order of `generateOptions`. The timestamp is written without
a length byte. -/

def mssBytes : Bytes := (s.maximumSegmentSize.map fun v => [KIND_MSS, 4] ++ getByteFromInt v 2).getD []

def scaleBytes : Bytes := if s.windowScale ≠ 0 then [KIND_NO, KIND_WS, 3, s.windowScale] else []

def permittedBytes : Bytes := if s.permitted then [KIND_NO, KIND_NO, KIND_SAP, 2] else []

def sackBytes : Bytes :=
  (s.selectiveAcknowledgment.map fun sa =>
    [KIND_NO, KIND_NO, KIND_SA, BitVec.ofNat 8 (sa.length + 2)] ++ sa).getD []

def timeStampBytes : Bytes := (s.timeStamp.map fun t => [KIND_NO, KIND_NO, KIND_TS] ++ getByteFromLong t 8).getD []

/-- What reading all but the timestamp sets. -/
def read (op : TCPOption) : TCPOption :=
  { op with
    maximumSegmentSizeByte :=
      (s.maximumSegmentSize.map fun v => some (getByteFromInt v 2)).getD op.maximumSegmentSizeByte
    windowScale := if s.windowScale ≠ 0 then s.windowScale else op.windowScale
    selectiveAcknowledgmentPermitted := if s.permitted then false else op.selectiveAcknowledgmentPermitted
    selectiveAcknowledgment := (s.selectiveAcknowledgment.map some).getD op.selectiveAcknowledgment }

theorem mss_written : Written s.mssBytes fun op =>
    { op with
      maximumSegmentSizeByte :=
        (s.maximumSegmentSize.map fun v => some (getByteFromInt v 2)).getD op.maximumSegmentSizeByte } := by
  unfold mssBytes
  cases hv : s.maximumSegmentSize with
  | none => exact Written.nil
  | some v =>
    have hfits := s.mss_fits v hv
    have hlen := getByteFromInt_two_length (v := v) (by omega)
    have hopt := Written.option KIND_MSS (getByteFromInt v 2) 0 (by decide) (by omega) (by omega)
      (fun op _ _ => rfl)
    rw [hlen] at hopt
    exact hopt

theorem scale_written : Written s.scaleBytes fun op =>
    { op with windowScale := if s.windowScale ≠ 0 then s.windowScale else op.windowScale } := by
  unfold scaleBytes
  by_cases hw : s.windowScale ≠ 0
  · simp only [if_pos hw]
    exact Written.option KIND_WS [s.windowScale] 1 (by decide) (by simp) (by simp)
      (fun op _ _ => rfl)
  · simp only [if_neg hw]
    exact Written.nil

theorem permitted_written : Written s.permittedBytes fun op =>
    { op with
      selectiveAcknowledgmentPermitted := if s.permitted then false else op.selectiveAcknowledgmentPermitted } := by
  unfold permittedBytes
  by_cases hp : s.permitted
  · simp only [if_pos hp]
    exact Written.option KIND_SAP [] 2 (by decide) (by decide) (by decide) (fun op _ _ => rfl)
  · simp only [if_neg hp]
    exact Written.nil

theorem sack_written : Written s.sackBytes fun op =>
    { op with selectiveAcknowledgment := (s.selectiveAcknowledgment.map some).getD op.selectiveAcknowledgment } := by
  unfold sackBytes
  cases hsa : s.selectiveAcknowledgment with
  | none => exact Written.nil
  | some sa =>
    obtain ⟨n, -, hn, hlen⟩ := s.sack_blocks sa hsa
    exact Written.option KIND_SA sa 2 (by decide) (by omega) (by omega) (fun op _ _ => rfl)

/-- **All but the timestamp is written as options that are read.** -/
theorem front_written : Written (s.mssBytes ++ s.scaleBytes ++ s.permittedBytes ++ s.sackBytes) s.read :=
  ((s.mss_written.append s.scale_written).append s.permitted_written).append s.sack_written

theorem timeStampBytes_length : s.timeStampBytes.length = if s.timeStamp.isSome then 11 else 0 := by
  unfold timeStampBytes
  cases s.timeStamp with
  | none => rfl
  | some t => simp

/-- Something is set, so something is written. -/
theorem written_length_pos :
    (s.mssBytes ++ s.scaleBytes ++ s.permittedBytes ++ s.sackBytes ++ s.timeStampBytes).length ≠ 0 := by
  intro hzero
  rcases s.nonempty with h | h | h | h | h
  · obtain ⟨v, hv⟩ := Option.isSome_iff_exists.1 h
    simp [mssBytes, hv] at hzero
  · rw [List.length_eq_zero_iff] at hzero
    simp [scaleBytes] at hzero
    exact h hzero.2.1
  · simp [permittedBytes, h] at hzero
  · obtain ⟨sa, hsa⟩ := Option.isSome_iff_exists.1 h
    simp [sackBytes, hsa] at hzero
  · obtain ⟨t, ht⟩ := Option.isSome_iff_exists.1 h
    simp [timeStampBytes, ht] at hzero

/-- **What `getBytes` writes.** -/
theorem getBytes_build : s.build.getBytes =
    some (s.mssBytes ++ s.scaleBytes ++ s.permittedBytes ++ s.sackBytes ++ s.timeStampBytes) := by
  have hgen : s.build.getBytes = s.build.generateOptions := by
    unfold getBytes build
    cases s.timeStamp <;> cases s.maximumSegmentSize <;> rfl
  have hstream : s.build.generateOptions =
      if (s.mssBytes ++ s.scaleBytes ++ s.permittedBytes ++ s.sackBytes ++ s.timeStampBytes).length = 0 then none
      else some (s.mssBytes ++ s.scaleBytes ++ s.permittedBytes ++ s.sackBytes ++ s.timeStampBytes) := by
    unfold generateOptions build mssBytes scaleBytes permittedBytes sackBytes timeStampBytes
    cases s.timeStamp <;> cases s.maximumSegmentSize <;> cases s.selectiveAcknowledgment <;> rfl
  rw [hgen, hstream, if_neg s.written_length_pos]

/-- A timestamp leaves the length one byte short of whole words. -/
theorem words_iff {bytes : Bytes} (hbytes : s.build.getBytes = some bytes) :
    4 ∣ bytes.length ↔ s.timeStamp = none := by
  rw [getBytes_build, Option.some.injEq] at hbytes
  have hwords := s.front_written.words
  rw [← hbytes, List.length_append, timeStampBytes_length]
  cases s.timeStamp with
  | none => simpa using hwords
  | some t =>
    simp only [Option.isSome_some, if_true, reduceCtorEq, iff_false]
    omega

/-- Without a timestamp, what is written is read as `read` says. -/
theorem fromByte_front {op : TCPOption} {bytes : Bytes} (hbytes : s.build.getBytes = some bytes)
    (hts : s.timeStamp = none) :
    Fueled.Ends (fun n => fromByte n bytes) (.ok op) ↔ op = s.read { options := some bytes } := by
  obtain ⟨items, hknown, hitems, hread⟩ := s.front_written.items
  have hback : s.timeStampBytes = [] := by
    unfold timeStampBytes
    rw [hts]
    rfl
  have hpos := s.written_length_pos
  rw [getBytes_build, hback, List.append_nil, ← hitems, Option.some.injEq] at hbytes
  rw [hback, List.append_nil, ← hitems] at hpos
  have harea : bytes = (⟨items, none⟩ : OptionArea).bytes := by
    rw [← hbytes]
    simp [OptionArea.bytes, OptionArea.tail]
  have hne : (⟨items, none⟩ : OptionArea).bytes ≠ [] := by
    rw [← harea, ← hbytes]
    exact List.ne_nil_of_length_pos (Nat.pos_of_ne_zero hpos)
  rw [harea, OptionArea.fromByte_followed_iff hne hknown (by simp [OptionArea.tail]), hread]

/-- The fields that the setters leave, without a timestamp. -/
theorem build_fields (hts : s.timeStamp = none) :
    s.build.maximumSegmentSizeByte = s.maximumSegmentSize.map (fun v => getByteFromInt v 2) ∧
    s.build.windowScale = s.windowScale ∧ s.build.selectiveAcknowledgmentPermitted = s.permitted ∧
    s.build.selectiveAcknowledgment = s.selectiveAcknowledgment ∧ s.build.timeStamp = none := by
  unfold build
  rw [hts]
  cases s.maximumSegmentSize <;> exact ⟨rfl, rfl, rfl, rfl, rfl⟩

/-- Options that are read back have neither. -/
theorem of_readsBack {s : Settings} (h : ReadsBack s.build) : s.permitted = false ∧ s.timeStamp = none := by
  obtain ⟨bytes, op, hbytes, hwords, hends, -, -, hperm, -, -⟩ := h
  have hts := (s.words_iff hbytes).1 hwords
  refine ⟨?_, hts⟩
  obtain rfl := (s.fromByte_front hbytes hts).1 hends
  obtain ⟨-, -, hset, -, -⟩ := s.build_fields hts
  rw [hset] at hperm
  -- that SACK is permitted is read as false
  cases hp : s.permitted with
  | false => rfl
  | true => simp [read, hp] at hperm

/-- **Which options are read back**: those without a timestamp and without SACK permitted. -/
theorem readsBack_iff (s : Settings) : ReadsBack s.build ↔ s.permitted = false ∧ s.timeStamp = none := by
  refine ⟨of_readsBack, ?_⟩
  rintro ⟨hperm, hts⟩
  have hbytes := s.getBytes_build
  refine ⟨_, _, hbytes, (s.words_iff hbytes).2 hts, (s.fromByte_front hbytes hts).2 rfl, ?_⟩
  obtain ⟨hmss, hscale, hset, hsack, hstamp⟩ := s.build_fields hts
  rw [hmss, hscale, hset, hsack, hstamp, hperm]
  refine ⟨?_, ?_, ?_, ?_, rfl⟩
  · cases hv : s.maximumSegmentSize <;> simp [read, hv]
  · by_cases hw : s.windowScale ≠ 0
    · simp only [read, if_pos hw]
    · simp only [read, if_neg hw]
      exact (not_not.1 hw).symm
  · simp [read, hperm]
  · cases hsa : s.selectiveAcknowledgment <;> simp [read, hsa]

/-- A maximum segment size of 1460, with SACK permitted. -/
def permittedSettings : Settings where
  maximumSegmentSize := some 1460
  permitted := true
  mss_fits := by simp
  sack_blocks := by simp
  nonempty := by simp

/-- A timestamp alone. -/
def timeStampSettings : Settings where
  timeStamp := some 7
  mss_fits := by simp
  sack_blocks := by simp
  nonempty := by simp

/-- **Not all options are read back**: SACK permitted is read as not permitted, and a timestamp is written
without its length byte. -/
theorem permittedSettings_not_readsBack : permittedSettings.build.getBytes = some [2, 4, 5, 180, 1, 1, 4, 2] ∧
    timeStampSettings.build.getBytes = some [1, 1, 8, 0, 0, 0, 0, 0, 0, 0, 7] ∧
    ¬ ReadsBack permittedSettings.build ∧ ¬ ReadsBack timeStampSettings.build := by
  refine ⟨by decide, by decide, fun h => ?_, fun h => ?_⟩
  · exact absurd (of_readsBack h).1 (by decide)
  · exact absurd (of_readsBack h).2 (by decide)

end Settings

/-! ## The blocks of the SACK option -/

theorem replace_length {source data result : Bytes} {startIndex : ℕ}
    (h : ArrayUtil.replace source startIndex data = .ok result) : result.length = source.length := by
  unfold ArrayUtil.replace at h
  split at h
  · cases h
  · obtain rfl := Except.ok.inj h
    simp only [List.length_append, List.length_take, List.length_drop]
    omega

theorem writeBlock_length {s s' : Bytes × ℕ} {sack : SACK} (h : writeBlock s sack = .ok s') :
    s'.1.length = s.1.length := by
  unfold writeBlock at h
  obtain ⟨left, hleft, h⟩ := bind_ok_iff.1 h
  obtain ⟨right, hright, h⟩ := bind_ok_iff.1 h
  obtain rfl := Except.ok.inj h
  exact (replace_length hright).trans (replace_length hleft)

theorem readBlock_length {sa : Bytes} {values values' : List (Option SACK)} {index : ℕ}
    (h : readBlock sa values index = .ok values') : values'.length = values.length := by
  unfold readBlock at h
  obtain ⟨_, -, h⟩ := bind_ok_iff.1 h
  obtain ⟨_, -, h⟩ := bind_ok_iff.1 h
  obtain ⟨_, -, h⟩ := bind_ok_iff.1 h
  obtain ⟨_, -, h⟩ := bind_ok_iff.1 h
  split at h
  · obtain rfl := Except.ok.inj h
    exact List.length_set
  · cases h

/-- The array that is read has one element for each four bytes. -/
theorem getSelectiveAcknowledgmentIntValues_length {sa : Bytes} {values : List (Option SACK)}
    (h : (op.setSelectiveAcknowledgmentBytes (some sa)).getSelectiveAcknowledgmentIntValues = .ok (some values)) :
    values.length = sa.length / 4 := by
  obtain ⟨values', hread, h⟩ := bind_ok_iff.1 h
  obtain rfl := Option.some.inj (Except.ok.inj h)
  exact foldlM_keeps (P := fun l => l.length = sa.length / 4)
    (fun _ _ _ hs hround => (readBlock_length hround).trans hs) List.length_replicate hread

/-- The bytes that are written are eight for each element of the array. -/
theorem setSelectiveAcknowledgmentArray_length {op' : TCPOption} {sacks : List (Option SACK)} {sa : Bytes}
    (h : op.setSelectiveAcknowledgmentArray sacks = .ok op') (hsa : op'.selectiveAcknowledgment = some sa) :
    sa.length = 8 * sacks.length := by
  obtain ⟨s, hwrite, h⟩ := bind_ok_iff.1 h
  obtain rfl := Except.ok.inj h
  obtain rfl := Option.some.inj hsa
  have hkeeps := foldlM_keeps (P := fun s : Bytes × ℕ => s.1.length = 8 * sacks.length) ?_ ?_ hwrite
  · exact hkeeps
  · intro s a s' hs hround
    obtain ⟨_, -, hround⟩ := bind_ok_iff.1 hround
    exact (writeBlock_length hround).trans hs
  · simp only [List.length_replicate]
    omega

/-- Without null elements the array is a list of blocks. -/
theorem setSelectiveAcknowledgmentArray_some (op : TCPOption) (sacks : List SACK) :
    op.setSelectiveAcknowledgmentArray (sacks.map some) = op.setSelectiveAcknowledgment sacks := by
  unfold setSelectiveAcknowledgmentArray setSelectiveAcknowledgment
  rw [List.foldlM_map, List.length_map]
  rfl

/-- The blocks that are set are the blocks that are read. -/
def BlocksReadBack (op : TCPOption) (sacks : List SACK) : Prop :=
  ∃ op', op.setSelectiveAcknowledgment sacks = .ok op' ∧
    op'.getSelectiveAcknowledgmentIntValues = .ok (some (sacks.map some))

/-- To set the blocks that are read from the bytes gives the bytes. -/
def BytesWrittenBack (op : TCPOption) (sa : Bytes) : Prop :=
  ∃ sacks op', (op.setSelectiveAcknowledgmentBytes (some sa)).getSelectiveAcknowledgmentIntValues = .ok (some sacks) ∧
    op.setSelectiveAcknowledgmentArray sacks = .ok op' ∧ op'.selectiveAcknowledgment = some sa

/-- Of `n` blocks, the array that is read has `2 * n` elements. -/
theorem BlocksReadBack.nil {sacks : List SACK} (h : BlocksReadBack op sacks) : sacks = [] := by
  obtain ⟨op', hset, hread⟩ := h
  rw [← setSelectiveAcknowledgmentArray_some] at hset
  obtain ⟨sa, hsa⟩ : ∃ sa, op'.selectiveAcknowledgment = some sa := by
    obtain ⟨s, -, h⟩ := bind_ok_iff.1 hset
    obtain rfl := Except.ok.inj h
    exact ⟨_, rfl⟩
  have hwritten := setSelectiveAcknowledgmentArray_length hset hsa
  have hsame : op' = op'.setSelectiveAcknowledgmentBytes (some sa) := by
    unfold setSelectiveAcknowledgmentBytes
    rw [← hsa]
  rw [hsame] at hread
  have hvalues := getSelectiveAcknowledgmentIntValues_length hread
  rw [List.length_map] at hwritten hvalues
  rw [← List.length_eq_zero_iff]
  omega

/-- The bytes that are written are twice as many as those that were read. -/
theorem BytesWrittenBack.nil {sa : Bytes} (h : BytesWrittenBack op sa) : sa = [] := by
  obtain ⟨sacks, op', hread, hset, hsa⟩ := h
  have hvalues := getSelectiveAcknowledgmentIntValues_length hread
  have hwritten := setSelectiveAcknowledgmentArray_length hset hsa
  rw [← List.length_eq_zero_iff]
  omega

/-- **Which blocks are read back, and which bytes are written back**: none but the empty ones. -/
theorem sackRoundTrip_iff (op : TCPOption) (sacks : List SACK) (sa : Bytes) :
    (BlocksReadBack op sacks ↔ sacks = []) ∧ (BytesWrittenBack op sa ↔ sa = []) := by
  refine ⟨⟨BlocksReadBack.nil, ?_⟩, ⟨BytesWrittenBack.nil, ?_⟩⟩
  · rintro rfl
    exact ⟨_, rfl, rfl⟩
  · rintro rfl
    exact ⟨_, _, rfl, rfl, rfl⟩

/-- **One block is not read back**, nor are its bytes written back: the array has a null element. -/
theorem oneBlock_not_readBack : ¬ BlocksReadBack {} [⟨200, 300⟩] ∧ ¬ BytesWrittenBack {} [0, 0, 0, 200, 0, 0, 1, 44] := by
  refine ⟨fun h => ?_, fun h => ?_⟩
  · exact absurd h.nil (by decide)
  · exact absurd h.nil (by decide)

end TCPOption

end SmartTunnel
