import Mathlib

/-!
# Memory

Cells at addresses. A `store` changes the cells it is for and no others, so a `load` gives what was stored there
last (`load_store`), and what lies apart is as it was (`load_store_apart`).
-/

namespace Memory

variable {β : Type} {mem mem' : ℕ → β} {a b len : ℕ} {data : List β}

/-- The cells from an address on. -/
def load (mem : ℕ → β) (a len : ℕ) : List β := (List.range len).map fun i => mem (a + i)

def store (mem : ℕ → β) (a : ℕ) (data : List β) : ℕ → β :=
  fun i => if a ≤ i then (data[i - a]?).getD (mem i) else mem i

@[simp] theorem length_load (mem : ℕ → β) (a len : ℕ) : (load mem a len).length = len := by
  simp [load]

theorem store_apart {i : ℕ} (h : i < a ∨ a + data.length ≤ i) : store mem a data i = mem i := by
  unfold store
  split_ifs with ha
  · rw [List.getElem?_eq_none (by omega)]
    rfl
  · rfl

theorem load_congr (h : ∀ i, a ≤ i → i < a + len → mem i = mem' i) : load mem a len = load mem' a len := by
  refine List.map_congr_left fun i hi => h _ (Nat.le_add_right a i) ?_
  have := List.mem_range.1 hi
  omega

/-- **What was stored is loaded.** -/
theorem load_store (mem : ℕ → β) (a : ℕ) (data : List β) : load (store mem a data) a data.length = data := by
  refine List.ext_getElem (length_load ..) fun i h1 h2 => ?_
  simp [load, store, h2]

theorem store_load (mem : ℕ → β) (a len : ℕ) : store mem a (load mem a len) = mem := by
  funext i
  unfold store load
  split_ifs with ha
  · rcases lt_or_ge (i - a) len with hlt | hle
    · simp [hlt, Nat.add_sub_cancel' ha]
    · simp [hle]
  · rfl

theorem load_append (mem : ℕ → β) (a len len' : ℕ) : load mem a (len + len') = load mem a len ++ load mem (a + len) len' := by
  unfold load
  rw [List.range_add, List.map_append, List.map_map]
  refine congrArg _ (List.map_congr_left fun i _ => ?_)
  rw [Function.comp_apply, Nat.add_assoc]

/-- **What lies apart stays.** -/
theorem load_store_apart (h : b + len ≤ a ∨ a + data.length ≤ b) : load (store mem a data) b len = load mem b len :=
  load_congr fun i h1 h2 => store_apart (by omega)

end Memory
