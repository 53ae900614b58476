import Mathlib

/-!
# Lists in ascending order of a key

`upsert w l` puts `w` into an ascending list in the place of the element with its key.
Replacing or appending and then sorting is the same (`insertionSort_eq_upsert`). An
ascending list splits at any key (`below_append_from`). It is a finite map (`lookup`): `upsert` and
taking the head off are updates of it at one key (`lookup_upsert`, `lookup_tail`).
-/

namespace Keyed

variable {α κ : Type} [LinearOrder κ] (key : α → κ)

/-- Strictly ascending keys. -/
def Ascending (l : List α) : Prop := l.Pairwise fun a b => key a < key b

/-- The elements with a key below `n`. -/
def below (n : κ) (l : List α) : List α := l.filter fun a => key a < n

/-- The elements with a key above `n`. -/
def above (n : κ) (l : List α) : List α := l.filter fun a => n < key a

/-- `w` in the place of the element with its key. -/
def upsert (w : α) (l : List α) : List α := below key (key w) l ++ w :: above key (key w) l

variable {key} {l : List α} {w a : α} {n m : κ}

theorem mem_below : a ∈ below key n l ↔ a ∈ l ∧ key a < n := by simp [below]

theorem mem_above : a ∈ above key n l ↔ a ∈ l ∧ n < key a := by simp [above]

theorem mem_upsert : a ∈ upsert key w l ↔ a = w ∨ (a ∈ l ∧ key a ≠ key w) := by
  simp only [upsert, List.mem_append, List.mem_cons, mem_below, mem_above]
  constructor
  · rintro (⟨ha, hlt⟩ | rfl | ⟨ha, hlt⟩)
    · exact .inr ⟨ha, hlt.ne⟩
    · exact .inl rfl
    · exact .inr ⟨ha, hlt.ne'⟩
  · rintro (rfl | ⟨ha, hne⟩)
    · exact .inr (.inl rfl)
    · rcases lt_or_gt_of_ne hne with hlt | hlt
      · exact .inl ⟨ha, hlt⟩
      · exact .inr (.inr ⟨ha, hlt⟩)

theorem Ascending.upsert (h : Ascending key l) (w : α) : Ascending key (upsert key w l) := by
  refine List.pairwise_append.2 ⟨h.filter _, List.pairwise_cons.2 ⟨?_, h.filter _⟩, ?_⟩
  · intro a ha
    exact (mem_above.1 ha).2
  · intro a ha b hb
    have hlt := (mem_below.1 ha).2
    rcases List.mem_cons.1 hb with rfl | hb
    · exact hlt
    · exact hlt.trans (mem_above.1 hb).2

theorem Ascending.tail (h : Ascending key (a :: l)) : Ascending key l := (List.pairwise_cons.1 h).2

/-- An ascending list splits at a key. -/
theorem below_append_from (h : Ascending key l) (n : κ) :
    below key n l ++ l.filter (fun a => n ≤ key a) = l := by
  induction l with
  | nil => rfl
  | cons a l ih =>
    by_cases ha : key a < n
    · simp only [below, List.filter_cons, ha, decide_true, if_true, not_le.2 ha, decide_false,
        Bool.false_eq_true, if_false, List.cons_append]
      rw [show List.filter (fun a => decide (key a < n)) l ++ List.filter (fun a => decide (n ≤ key a)) l = l
        from ih h.tail]
    · -- from the first key at `n` on, nothing is below
      have hrest : ∀ b ∈ l, ¬ key b < n := fun b hb =>
        not_lt.2 ((not_lt.1 ha).trans ((List.pairwise_cons.1 h).1 b hb).le)
      have hnil : below key n (a :: l) = [] := by
        simp only [below, List.filter_eq_nil_iff, decide_eq_true_eq]
        intro b hb
        rcases List.mem_cons.1 hb with rfl | hb
        · exact ha
        · exact hrest b hb
      rw [hnil, List.nil_append, List.filter_eq_self]
      intro b hb
      rcases List.mem_cons.1 hb with rfl | hb
      · simpa using ha
      · simpa using hrest b hb

theorem below_below (h : m ≤ n) (l : List α) : below key n (below key m l) = below key m l := by
  rw [below, List.filter_eq_self]
  intro a ha
  simpa using (mem_below.1 ha).2.trans_le h

/-- What is below a key, cut at a key below it. -/
theorem below_eq_append (hasc : Ascending key l) (h : m ≤ n) :
    below key n l = below key m l ++ below key n (l.filter fun a => m ≤ key a) := by
  conv_lhs => rw [← below_append_from hasc m]
  rw [below, List.filter_append, ← below, below_below h, ← below]

/-- What is below a key, with an element put in below it. -/
theorem below_upsert_of_lt (h : key w < n) (l : List α) :
    below key n (upsert key w l) = below key (key w) l ++ w :: below key n (above key (key w) l) := by
  rw [upsert, below, List.filter_append, ← below, below_below h.le, List.filter_cons_of_pos (by simpa using h), ← below]

theorem below_upsert_of_le (h : n ≤ key w) : below key n (upsert key w l) = below key n l := by
  simp only [below, upsert, above, List.filter_append, List.filter_filter, List.filter_cons,
    not_lt.2 h, decide_false, Bool.false_eq_true, if_false]
  have h1 : ∀ a, (decide (key a < n) && decide (key a < key w)) = decide (key a < n) := by
    intro a
    by_cases ha : key a < n
    · simp [ha, ha.trans_le h]
    · simp [ha]
  have h2 : l.filter (fun a => decide (key a < n) && decide (key w < key a)) = [] := by
    simp only [List.filter_eq_nil_iff, Bool.and_eq_true, decide_eq_true_eq, not_and]
    intro a _ ha
    exact not_lt.2 ((ha.trans_le h).le)
  simp only [h1, h2, List.append_nil]

theorem above_upsert_of_le (h : key w ≤ n) : above key n (upsert key w l) = above key n l := by
  simp only [below, upsert, above, List.filter_append, List.filter_filter, List.filter_cons,
    not_lt.2 h, decide_false, Bool.false_eq_true, if_false]
  have h1 : ∀ a, (decide (n < key a) && decide (key w < key a)) = decide (n < key a) := by
    intro a
    by_cases ha : n < key a
    · simp [ha, h.trans_lt ha]
    · simp [ha]
  have h2 : l.filter (fun a => decide (n < key a) && decide (key a < key w)) = [] := by
    simp only [List.filter_eq_nil_iff, Bool.and_eq_true, decide_eq_true_eq, not_and]
    intro a _ ha
    exact not_lt.2 (h.trans ha.le)
  simp only [h1, h2, List.nil_append]

/-- The second of two elements with one key stays. -/
theorem upsert_upsert_same {v : α} (h : key v = key w) : upsert key w (upsert key v l) = upsert key w l := by
  unfold upsert
  rw [← h]
  change below key (key v) (upsert key v l) ++ w :: above key (key v) (upsert key v l) = _
  rw [below_upsert_of_le le_rfl, above_upsert_of_le le_rfl]

theorem upsert_cons_of_lt (h : key a < key w) : upsert key w (a :: l) = a :: upsert key w l := by
  unfold upsert
  rw [below, below, above, above, List.filter_cons_of_pos (by simpa using h),
    List.filter_cons_of_neg (by simpa using h.le), List.cons_append]

/-- The element with the key of `w` is as good as not there. -/
theorem upsert_cons_of_eq (h : key a = key w) : upsert key w (a :: l) = upsert key w l := by
  unfold upsert
  rw [below, below, above, above, List.filter_cons_of_neg (by simp [h]), List.filter_cons_of_neg (by simp [h])]

/-- Behind the element with a key are the elements above it. -/
theorem drop_findIdx_eq_above {p : α → Bool} {i : ℕ} (h : Ascending key l) (hp : ∀ a ∈ l, p a = true ↔ key a = n)
    (hi : l.findIdx? p = some i) : l.drop (i + 1) = above key n l := by
  induction l generalizing i with
  | nil => cases hi
  | cons a l ih =>
    have hrest := (List.pairwise_cons.1 h).1
    rw [List.forall_mem_cons] at hp
    rw [List.findIdx?_cons] at hi
    by_cases ha : p a = true
    · rw [if_pos ha] at hi
      obtain rfl := Option.some.inj hi
      obtain rfl := hp.1.1 ha
      have hall : above key (key a) l = l := List.filter_eq_self.2 fun b hb => by simpa using hrest b hb
      rw [List.drop_succ_cons, List.drop_zero, above, List.filter_cons_of_neg (by simp)]
      exact hall.symm
    · rw [if_neg ha] at hi
      obtain ⟨j, hj, rfl⟩ := Option.map_eq_some_iff.1 hi
      -- the element with the key is behind `a`
      obtain ⟨b, hb, hpb⟩ : ∃ b ∈ l, p b = true := by
        have := List.findIdx?_eq_some_iff_getElem.1 hj
        exact ⟨_, List.getElem_mem this.1, this.2.1⟩
      have hlt : key a < n := (hp.2 b hb).1 hpb ▸ hrest b hb
      rw [List.drop_succ_cons, ih h.tail hp.2 hj, above, above, List.filter_cons_of_neg (by simpa using hlt.le)]

/-! ## The map of an ascending list -/

/-- The element with the key. -/
def lookup (key : α → κ) (l : List α) (n : κ) : Option α := l.find? fun a => key a = n

theorem Ascending.eq_of_key (h : Ascending key l) {b : α} (ha : a ∈ l) (hb : b ∈ l) (hab : key a = key b) : a = b := by
  induction l with
  | nil => cases ha
  | cons c l ih =>
    have hrest := (List.pairwise_cons.1 h).1
    rcases List.mem_cons.1 ha with rfl | ha'
    · rcases List.mem_cons.1 hb with rfl | hb'
      · rfl
      · exact absurd hab (hrest b hb').ne
    · rcases List.mem_cons.1 hb with rfl | hb'
      · exact absurd hab (hrest a ha').ne'
      · exact ih h.tail ha' hb'

theorem lookup_eq_some_iff (h : Ascending key l) : lookup key l n = some a ↔ a ∈ l ∧ key a = n := by
  unfold lookup
  constructor
  · intro hfind
    exact ⟨List.mem_of_find?_eq_some hfind, by simpa using List.find?_some hfind⟩
  · rintro ⟨ha, hn⟩
    cases hfind : l.find? fun a => key a = n with
    | none => exact absurd hn (by simpa using List.find?_eq_none.1 hfind a ha)
    | some b =>
      have hb : key b = n := by simpa using List.find?_some hfind
      rw [h.eq_of_key (List.mem_of_find?_eq_some hfind) ha (hb.trans hn.symm)]

/-- **`upsert` updates the map at the key.** -/
theorem lookup_upsert (h : Ascending key l) (w : α) :
    lookup key (upsert key w l) = Function.update (lookup key l) (key w) (some w) := by
  funext m
  apply Option.ext
  intro b
  rw [lookup_eq_some_iff (h.upsert w), mem_upsert, Function.update_apply]
  by_cases hm : m = key w
  · rw [if_pos hm, Option.some.injEq]
    constructor
    · rintro ⟨rfl | ⟨-, hne⟩, hb⟩
      · rfl
      · exact absurd (hb.trans hm) hne
    · rintro rfl
      exact ⟨.inl rfl, hm.symm⟩
  · rw [if_neg hm, lookup_eq_some_iff h]
    constructor
    · rintro ⟨rfl | ⟨hb, -⟩, hkey⟩
      · exact absurd hkey.symm hm
      · exact ⟨hb, hkey⟩
    · rintro ⟨hb, rfl⟩
      exact ⟨.inr ⟨hb, hm⟩, rfl⟩

/-- **Taking the head off empties the map at its key.** -/
theorem lookup_tail (h : Ascending key (a :: l)) :
    lookup key l = Function.update (lookup key (a :: l)) (key a) none := by
  have hrest := (List.pairwise_cons.1 h).1
  funext m
  rw [Function.update_apply]
  by_cases hm : m = key a
  · rw [if_pos hm, lookup, List.find?_eq_none]
    intro b hb
    simpa [hm] using (hrest b hb).ne'
  · rw [if_neg hm]
    unfold lookup
    rw [List.find?_cons_of_neg (by simpa using Ne.symm hm)]

/-! ## Sorting -/

/-- **Replacing or appending, then sorting, is `upsert`.** -/
theorem insertionSort_eq_upsert (h : Ascending key l) {l' : List α}
    (hp : l'.Perm (w :: l.filter fun a => key a ≠ key w)) :
    l'.insertionSort (fun a b => key a ≤ key b) = upsert key w l := by
  have hup : (upsert key w l).Perm (w :: l.filter fun a => key a ≠ key w) := by
    refine (List.perm_ext_iff_of_nodup ?_ ?_).2 ?_
    · exact (h.upsert w).imp fun hlt heq => by rw [heq] at hlt; exact lt_irrefl _ hlt
    · refine List.nodup_cons.2 ⟨by simp, List.Nodup.filter _ ?_⟩
      exact h.imp fun hlt heq => by rw [heq] at hlt; exact lt_irrefl _ hlt
    · intro a
      rw [mem_upsert]
      simp
  have hperm := (List.perm_insertionSort (fun a b => key a ≤ key b) l').trans (hp.trans hup.symm)
  have hs1 : (l'.insertionSort fun a b => key a ≤ key b).Pairwise (fun a b => key a ≤ key b) :=
    List.pairwise_insertionSort _ _
  have hs2 : (upsert key w l).Pairwise (fun a b => key a < key b) := h.upsert w
  -- a sorted permutation of a strictly sorted list is that list
  have hnd : (l'.insertionSort fun a b => key a ≤ key b).Pairwise (fun a b => key a ≠ key b) := by
    exact (hperm.pairwise_iff fun h => Ne.symm h).2 (hs2.imp fun hlt => hlt.ne)
  have hs3 : (l'.insertionSort fun a b => key a ≤ key b).Pairwise (fun a b => key a < key b) :=
    (hs1.and hnd).imp fun hab => lt_of_le_of_ne hab.1 hab.2
  exact hperm.eq_of_pairwise (fun a b _ _ h1 h2 => absurd (h1.trans h2) (lt_irrefl _)) hs3 hs2

/-- Replacing the first element with the key of `w`, or appending `w`. -/
theorem set_or_append_perm {p : α → Bool} (h : Ascending key l) (hp : ∀ a, p a = true ↔ key a = key w) :
    (match l.findIdx? p with
      | some i => l.set i w
      | none => l ++ [w]).Perm (w :: l.filter fun a => key a ≠ key w) := by
  induction l with
  | nil => simp
  | cons a l ih =>
    have hrest := (List.pairwise_cons.1 h).1
    rw [List.findIdx?_cons]
    by_cases ha : p a = true
    · have hw := (hp a).1 ha
      have hall : l.filter (fun b => key b ≠ key w) = l := by
        rw [List.filter_eq_self]
        intro b hb
        simpa [← hw] using (hrest b hb).ne'
      simp only [ha, if_true, List.set_cons_zero, List.filter_cons, hw, ne_eq, not_true_eq_false,
        decide_false, Bool.false_eq_true, if_false]
      rw [show l.filter (fun b => decide (¬ key b = key w)) = l from hall]
    · have hne : key a ≠ key w := fun heq => ha ((hp a).2 heq)
      have hstep := (ih h.tail).cons a
      simp only [ha, Bool.false_eq_true, if_false]
      rw [List.filter_cons_of_pos (by simpa using hne)]
      refine List.Perm.trans ?_ (hstep.trans (List.Perm.swap _ _ _))
      cases l.findIdx? p <;> exact List.Perm.refl _

/-- Sorting commutes with a map that keeps the order of the keys. -/
theorem insertionSort_map {β : Type} {key' : β → κ} {f : α → β} {l : List α}
    (h : ∀ a ∈ l, ∀ b ∈ l, key' (f a) ≤ key' (f b) ↔ key a ≤ key b) :
    (l.map f).insertionSort (fun a b => key' a ≤ key' b) =
      (l.insertionSort fun a b => key a ≤ key b).map f :=
  (List.map_insertionSort (r := fun a b => key a ≤ key b) (s := fun a b => key' a ≤ key' b) f l
    (fun a ha b hb => (h a ha b hb).symm)).symm

end Keyed
