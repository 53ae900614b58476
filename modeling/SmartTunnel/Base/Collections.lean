import SmartTunnel.Base.Halting

/-!
# Ordered collections of the JVM

A `TreeSet` is the ascending list of its elements; an element that compares equal to one of them is not added.
A `PriorityQueue` is the bag of its elements, and a `poll` that takes out one that no other is before: which of
several is not said, so a program that polls has the poll as a parameter. `firstLeast` is a poll that can be run.
A loop that counts down ends (`doWhile_ends`).
-/

namespace Jvm

variable {α : Type} {compareTo : α → α → Ordering}

/-! ## `TreeSet` -/

namespace TreeSet

/-- `add`. -/
def add (compareTo : α → α → Ordering) (a : α) : List α → List α
  | [] => [a]
  | b :: l =>
    match compareTo a b with
    | .lt => a :: b :: l
    | .eq => b :: l
    | .gt => b :: add compareTo a l

variable {a b : α} {l : List α}

theorem of_mem_add (h : b ∈ add compareTo a l) : b = a ∨ b ∈ l := by
  induction l with
  | nil => exact .inl (List.mem_singleton.1 h)
  | cons c l ih =>
    unfold add at h
    split at h
    · exact List.mem_cons.1 h
    · exact .inr h
    · rcases List.mem_cons.1 h with rfl | h
      · exact .inr List.mem_cons_self
      · exact (ih h).imp id (List.mem_cons_of_mem _)

theorem mem_add [Std.LawfulEqCmp compareTo] : b ∈ add compareTo a l ↔ b = a ∨ b ∈ l := by
  refine ⟨of_mem_add, ?_⟩
  induction l with
  | nil => exact fun h => List.mem_singleton.2 (h.resolve_right List.not_mem_nil)
  | cons c l ih =>
    unfold add
    split
    · exact List.mem_cons.2
    · next heq =>
      rintro (rfl | h)
      · exact List.mem_cons.2 (.inl (Std.LawfulEqCmp.eq_of_compare heq))
      · exact h
    · rintro (rfl | h)
      · exact List.mem_cons_of_mem _ (ih (.inl rfl))
      · rcases List.mem_cons.1 h with rfl | h
        · exact List.mem_cons_self
        · exact List.mem_cons_of_mem _ (ih (.inr h))

/-- The elements stay in order. -/
theorem pairwise_add [Std.TransCmp compareTo] (h : l.Pairwise fun b c => compareTo b c = .lt) :
    (add compareTo a l).Pairwise fun b c => compareTo b c = .lt := by
  induction l with
  | nil => exact List.pairwise_singleton _ _
  | cons c l ih =>
    obtain ⟨hc, hl⟩ := List.pairwise_cons.1 h
    unfold add
    split
    · next hlt =>
      refine List.pairwise_cons.2 ⟨?_, h⟩
      rintro d hd
      rcases List.mem_cons.1 hd with rfl | hd
      · exact hlt
      · exact Std.TransCmp.lt_trans hlt (hc d hd)
    · exact h
    · next hgt =>
      refine List.pairwise_cons.2 ⟨?_, ih hl⟩
      intro d hd
      rcases of_mem_add hd with rfl | hd
      · exact Std.OrientedCmp.lt_of_gt hgt
      · exact hc d hd

/-- What is behind all the elements comes last. -/
theorem add_last (h : ∀ b ∈ l, compareTo a b = .gt) : add compareTo a l = l ++ [a] := by
  induction l with
  | nil => rfl
  | cons c l ih =>
    rw [List.forall_mem_cons] at h
    unfold add
    rw [h.1, List.cons_append, ← ih h.2]

end TreeSet

/-! ## `PriorityQueue` -/

/-- The `poll` of a `PriorityQueue`. -/
structure PriorityQueue (compareTo : α → α → Ordering) where
  poll : List α → Option (α × List α)
  poll_nil : poll [] = none
  /-- Something is taken out of a queue that is not empty. -/
  poll_isSome : ∀ q, q ≠ [] → (poll q).isSome
  /-- It was in the queue, and the others stay. -/
  perm : ∀ q a rest, poll q = some (a, rest) → q.Perm (a :: rest)
  /-- None of them is before it. -/
  least : ∀ q a rest, poll q = some (a, rest) → ∀ b ∈ rest, compareTo a b ≠ .gt

namespace PriorityQueue

variable {pq : PriorityQueue compareTo} {q rest : List α} {a b : α}

theorem poll_eq_none : pq.poll q = none ↔ q = [] := by
  constructor
  · intro h
    by_contra hq
    have hsome := pq.poll_isSome q hq
    rw [h] at hsome
    cases hsome
  · rintro rfl
    exact pq.poll_nil

theorem mem_of_poll (h : pq.poll q = some (a, rest)) : b ∈ q ↔ b = a ∨ b ∈ rest := by
  rw [(pq.perm q a rest h).mem_iff, List.mem_cons]

/-- A bag has a least element, for an order that compares any two. -/
theorem exists_least (htrans : ∀ a b c, compareTo a b ≠ .gt → compareTo b c ≠ .gt → compareTo a c ≠ .gt)
    (htotal : ∀ a b, compareTo a b ≠ .gt ∨ compareTo b a ≠ .gt) (hq : q ≠ []) :
    ∃ a ∈ q, ∀ b ∈ q, compareTo a b ≠ .gt := by
  have hrefl : ∀ a, compareTo a a ≠ .gt := fun a => (htotal a a).elim id id
  induction q with
  | nil => exact absurd rfl hq
  | cons c q ih =>
    by_cases hnil : q = []
    · subst hnil
      exact ⟨c, List.mem_cons_self, by simpa using hrefl c⟩
    · obtain ⟨a, ha, hleast⟩ := ih hnil
      rcases htotal c a with h | h
      · refine ⟨c, List.mem_cons_self, List.forall_mem_cons.2 ⟨hrefl c, ?_⟩⟩
        intro b hb
        exact htrans c a b h (hleast b hb)
      · exact ⟨a, List.mem_cons_of_mem _ ha, List.forall_mem_cons.2 ⟨h, hleast⟩⟩

/-- The poll that takes the first of the least elements. -/
def firstLeast (compareTo : α → α → Ordering)
    (htrans : ∀ a b c, compareTo a b ≠ .gt → compareTo b c ≠ .gt → compareTo a c ≠ .gt)
    (htotal : ∀ a b, compareTo a b ≠ .gt ∨ compareTo b a ≠ .gt) : PriorityQueue compareTo where
  poll q :=
    match q.findIdx? fun a => q.all fun b => compareTo a b ≠ .gt with
    | none => none
    | some i => q[i]?.map fun a => (a, q.eraseIdx i)
  poll_nil := rfl
  poll_isSome := by
    intro q hq
    obtain ⟨a, ha, hleast⟩ := exists_least htrans htotal hq
    have hsome : (q.findIdx? fun a => q.all fun b => compareTo a b ≠ .gt).isSome := by
      rw [List.findIdx?_isSome, List.any_eq_true]
      exact ⟨a, ha, by simpa using hleast⟩
    obtain ⟨i, hi⟩ := Option.isSome_iff_exists.1 hsome
    obtain ⟨hlt, -⟩ := List.findIdx?_eq_some_iff_getElem.1 hi
    rw [hi]
    simp [hlt]
  perm := by
    intro q a rest h
    split at h
    · cases h
    · rename_i i hi
      obtain ⟨hlt, -⟩ := List.findIdx?_eq_some_iff_getElem.1 hi
      rw [List.getElem?_eq_getElem hlt, Option.map_some, Option.some.injEq, Prod.mk.injEq] at h
      obtain ⟨rfl, rfl⟩ := h
      exact (List.getElem_cons_eraseIdx_perm hlt).symm
  least := by
    intro q a rest h b hb
    split at h
    · cases h
    · rename_i i hi
      obtain ⟨hlt, hall, -⟩ := List.findIdx?_eq_some_iff_getElem.1 hi
      rw [List.getElem?_eq_getElem hlt, Option.map_some, Option.some.injEq, Prod.mk.injEq] at h
      obtain ⟨rfl, rfl⟩ := h
      simp only [List.all_eq_true, decide_eq_true_eq] at hall
      exact hall b ((List.eraseIdx_sublist q i).subset hb)

end PriorityQueue

/-! ## Loops that raise nothing and count down -/

namespace Fueled

variable {σ : Type}

/-- **A loop ends**, and in a state that its rounds keep, when no round raises and what counts down goes down. -/
theorem doWhile_ends {body : σ → Except JavaException σ} {cond : σ → Bool} {I : σ → Prop} (measure : σ → ℕ)
    (hstep : ∀ s, I s → cond s = true → ∃ s', body s = .ok s' ∧ I s' ∧ measure s' < measure s) {s : σ} (hs : I s)
    (hc : cond s = true) : ∃ t, Ends (fun n => doWhile body cond n s) (.ok t) ∧ I t ∧ cond t = false := by
  induction hm : measure s using Nat.strong_induction_on generalizing s with
  | _ m ih =>
    obtain ⟨s', hb, hs', hlt⟩ := hstep s hs hc
    by_cases hc' : cond s' = true
    · obtain ⟨t, ⟨n, hn⟩, ht⟩ := ih (measure s') (by omega) hs' hc' rfl
      exact ⟨t, ⟨n + 1, by simp only [doWhile_next hb hc']; exact hn⟩, ht⟩
    · have hfalse : cond s' = false := by simpa using hc'
      exact ⟨s', ⟨1, doWhile_last hb hfalse 0⟩, hs', hfalse⟩

end Fueled

end Jvm
