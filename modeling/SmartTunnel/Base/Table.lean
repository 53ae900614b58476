import Mathlib

/-!
# Lists without two elements of one key

What happens at an index of such a list happens at a key: to change the element there is to map the list
(`modify_eq_map`, `set_eq_map`), and to take it out is to filter it (`eraseIdx_eq_filter`).
-/

namespace Table

variable {α κ : Type} (key : α → κ)

/-- No two elements have the same key. -/
def Distinct (l : List α) : Prop := (l.map key).Nodup

variable {key} {l l' : List α} {a b : α} {i j : ℕ}

theorem Distinct.eq_of_key (h : Distinct key l) (ha : a ∈ l) (hb : b ∈ l) (hab : key a = key b) : a = b :=
  List.inj_on_of_nodup_map h ha hb hab

/-- A key stands at one index. -/
theorem Distinct.idx_eq (h : Distinct key l) (ha : l[i]? = some a) (hb : l[j]? = some b) (hab : key a = key b) : i = j := by
  obtain ⟨hi, rfl⟩ := List.getElem?_eq_some_iff.1 ha
  obtain ⟨hj, rfl⟩ := List.getElem?_eq_some_iff.1 hb
  have hkeys : (l.map key).get ⟨i, by simpa using hi⟩ = (l.map key).get ⟨j, by simpa using hj⟩ := by simpa using hab
  exact Fin.mk.inj (List.nodup_iff_injective_get.1 h hkeys)

theorem Distinct.perm (h : Distinct key l) (hperm : l.Perm l') : Distinct key l' := (hperm.map key).nodup_iff.1 h

theorem distinct_cons : Distinct key (a :: l) ↔ (∀ b ∈ l, key b ≠ key a) ∧ Distinct key l := by
  unfold Distinct
  rw [List.map_cons, List.nodup_cons]
  simp

theorem Distinct.filter (h : Distinct key l) (p : α → Bool) : Distinct key (l.filter p) :=
  h.sublist (List.filter_sublist.map key)

/-- Elements of one key are one element at most. -/
theorem Distinct.length_le_one (h : Distinct key l) (hall : ∀ a ∈ l, ∀ b ∈ l, key a = key b) : l.length ≤ 1 := by
  match l, h, hall with
  | [], _, _ => simp
  | [a], _, _ => simp
  | a :: b :: l, h, hall => exact absurd (hall b (by simp) a (by simp)) ((distinct_cons.1 h).1 b (by simp))

theorem Distinct.map {f : α → α} (h : Distinct key l) (hf : ∀ a ∈ l, key (f a) = key a) : Distinct key (l.map f) := by
  unfold Distinct
  rw [List.map_map]
  have hkeys : l.map (key ∘ f) = l.map key := List.map_congr_left hf
  rwa [hkeys]

variable [DecidableEq κ]

/-- **A change at an index is a change at a key.** -/
theorem modify_eq_map (h : Distinct key l) (hi : l[i]? = some a) (f : α → α) :
    l.modify i f = l.map fun b => if key b = key a then f b else b := by
  apply List.ext_getElem?
  intro j
  rw [List.getElem?_modify, List.getElem?_map]
  cases hj : l[j]? with
  | none => rfl
  | some b =>
    by_cases hij : i = j
    · subst hij
      obtain rfl := Option.some.inj (hi.symm.trans hj)
      simp
    · have hne : key b ≠ key a := fun hab => hij (h.idx_eq hi hj hab.symm)
      simp [hij, hne]

theorem set_eq_map (h : Distinct key l) (hi : l[i]? = some a) (b : α) :
    l.set i b = l.map fun c => if key c = key a then b else c := by
  rw [← modify_eq_map h hi fun _ => b]
  apply List.ext_getElem?
  intro j
  rw [List.getElem?_set', List.getElem?_modify]
  by_cases hij : i = j
  · subst hij
    cases l[i]? <;> simp
  · simp [hij]

/-- **To take out an index is to take out its key.** -/
theorem eraseIdx_eq_filter (h : Distinct key l) (hi : l[i]? = some a) :
    l.eraseIdx i = l.filter fun b => key b ≠ key a := by
  induction l generalizing i with
  | nil => simp at hi
  | cons c l ih =>
    obtain ⟨hne, hl⟩ := distinct_cons.1 h
    cases i with
    | zero =>
      obtain rfl : c = a := by simpa using hi
      rw [List.eraseIdx_cons_zero, List.filter_cons_of_neg (by simp), List.filter_eq_self.2]
      intro b hb
      simpa using hne b hb
    | succ i =>
      have hi : l[i]? = some a := by simpa using hi
      have hca : key c ≠ key a := (hne a (List.mem_of_getElem? hi)).symm
      rw [List.eraseIdx_cons_succ, List.filter_cons_of_pos (by simpa using hca), ih hl hi]

end Table
