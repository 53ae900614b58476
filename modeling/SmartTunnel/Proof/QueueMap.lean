import SmartTunnel.Base.Run
import SmartTunnel.Proof.Queue

/-!
# The queue as a sorted map

For its callers a `TCPPacketQueue` is a map from sequence numbers to wrappers: `put` writes the entry of its
number, and `poll`, when it need not wait, takes the entry with the smallest one. `contents` is that map, from
what was put and polled; the ascending list refines it (`Refines.step`, `queue_refines`).
-/

namespace SmartTunnel

open Jvm Keyed

namespace TCPPacketQueue

variable {π : Type}

/-- A call that returned. -/
inductive Returned (π : Type)
  | put (packetWrapper : TCPPacketWrapper π)
  | poll (packetWrapper : TCPPacketWrapper π)
  deriving DecidableEq, Repr

/-- What a call does to the map. -/
def update (m : BitVec 32 → Option (TCPPacketWrapper π)) : Returned π → BitVec 32 → Option (TCPPacketWrapper π)
  | .put w => Function.update m w.sequenceNumber (some w)
  | .poll w => Function.update m w.sequenceNumber none

/-- The wrapper that was put last under a number since the number was last polled. -/
def contents (history : List (Returned π)) : BitVec 32 → Option (TCPPacketWrapper π) :=
  history.foldl update fun _ => none

/-- A queue, and the calls that returned. -/
structure WithHistory (π : Type) where
  mPackets : List (TCPPacketWrapper π) := []
  history : List (Returned π) := []
  deriving DecidableEq, Repr

inductive Call (π : Type)
  | put (packetWrapper : TCPPacketWrapper π)
  | poll
  deriving DecidableEq, Repr

/-- A `poll` that would wait is not a step. -/
def WithHistory.step (s : WithHistory π) : Call π → WithHistory π
  | .put w => ⟨put w s.mPackets, s.history ++ [.put w]⟩
  | .poll =>
    match poll s.mPackets with
    | some (w, mPackets) => ⟨mPackets, s.history ++ [.poll w]⟩
    | none => s

/-- **The list stands for the map.** -/
structure Refines (s : WithHistory π) : Prop where
  sorted : Sorted s.mPackets
  map : contents s.history = fun n => lookup TCPPacketWrapper.order s.mPackets n.toInt

variable {s : WithHistory π} {w : TCPPacketWrapper π} {rest : List (TCPPacketWrapper π)}

theorem contents_append (history : List (Returned π)) (call : Returned π) :
    contents (history ++ [call]) = update (contents history) call := by
  rw [contents, List.foldl_append]
  rfl

/-- Updates at a number and at its place in the order. -/
theorem update_toInt (m : ℤ → Option (TCPPacketWrapper π)) (w : TCPPacketWrapper π)
    (x : Option (TCPPacketWrapper π)) : (fun n : BitVec 32 => Function.update m w.order x n.toInt) =
      Function.update (fun n : BitVec 32 => m n.toInt) w.sequenceNumber x :=
  Function.update_comp_eq_of_injective m (fun _ _ h => BitVec.toInt_inj.1 h) w.sequenceNumber x

theorem poll_eq_some_iff : poll s.mPackets = some (w, rest) ↔ s.mPackets = w :: rest ∧ w.mPacket.isSome := by
  cases hq : s.mPackets with
  | nil => simp [poll]
  | cons v q =>
    simp only [poll]
    by_cases hv : v.mPacket.isSome
    · rw [if_pos hv]
      constructor
      · rintro ⟨⟩
        exact ⟨rfl, hv⟩
      · rintro ⟨⟨⟩, -⟩
        rfl
    · rw [if_neg hv]
      constructor
      · intro h
        cases h
      · rintro ⟨⟨⟩, hw⟩
        exact absurd hw hv

/-- **A call keeps it.** -/
theorem Refines.step (h : Refines s) (call : Call π) : Refines (s.step call) := by
  cases call with
  | put w =>
    refine ⟨put_sorted h.sorted w, ?_⟩
    change contents (s.history ++ [.put w]) = fun n => lookup TCPPacketWrapper.order (put w s.mPackets) n.toInt
    rw [contents_append, put_eq_upsert h.sorted, lookup_upsert h.sorted, update_toInt, ← h.map]
    rfl
  | poll =>
    unfold WithHistory.step
    cases hpoll : poll s.mPackets with
    | none => exact h
    | some taken =>
      obtain ⟨w, rest⟩ := taken
      -- the map loses the entry of the head
      obtain ⟨hq, -⟩ := poll_eq_some_iff.1 hpoll
      have hsorted := h.sorted
      rw [hq] at hsorted
      refine ⟨hsorted.tail, ?_⟩
      change contents (s.history ++ [.poll w]) = fun n => lookup TCPPacketWrapper.order rest n.toInt
      rw [contents_append, lookup_tail hsorted, update_toInt, ← hq, ← h.map]
      rfl

theorem refines_run (calls : List (Call π)) : Refines (Run.run WithHistory.step ({} : WithHistory π) calls) := by
  have hall : Run.Always WithHistory.step (fun _ _ => True) ({} : WithHistory π) calls := .of_events fun _ _ => trivial
  exact Run.invariant_run (fun _ call h _ => h.step call) ⟨List.Pairwise.nil, rfl⟩ hall

/-- **What `poll` does**: it returns the entry with the smallest number, and the others stay. -/
structure TakesLeast (mPackets : List (TCPPacketWrapper π)) (w : TCPPacketWrapper π)
    (rest : List (TCPPacketWrapper π)) : Prop where
  packet : w.mPacket.isSome
  mem : w ∈ mPackets
  least : ∀ v ∈ mPackets, w.order ≤ v.order
  others : ∀ v, v ∈ rest ↔ v ∈ mPackets ∧ v.sequenceNumber ≠ w.sequenceNumber

theorem Refines.takesLeast (h : Refines s) (hpoll : poll s.mPackets = some (w, rest)) :
    TakesLeast s.mPackets w rest := by
  obtain ⟨hq, hw⟩ := poll_eq_some_iff.1 hpoll
  have hsorted := h.sorted
  rw [hq] at hsorted ⊢
  have hlt := (List.pairwise_cons.1 hsorted).1
  refine ⟨hw, List.mem_cons_self, ?_, ?_⟩
  · intro v hv
    rcases List.mem_cons.1 hv with rfl | hv
    · exact le_rfl
    · exact (hlt v hv).le
  · intro v
    constructor
    · intro hv
      refine ⟨List.mem_cons_of_mem _ hv, ?_⟩
      intro heq
      have hless := hlt v hv
      rw [TCPPacketWrapper.order, TCPPacketWrapper.order, heq] at hless
      exact lt_irrefl _ hless
    · rintro ⟨hv, hne⟩
      rcases List.mem_cons.1 hv with rfl | hv
      · exact absurd rfl hne
      · exact hv

/-- **The queue refines the map.** After any calls it is strictly ascending, has no number twice, and holds what was
put last under each number since that number was polled and nothing else. When the head holds a packet `poll` returns
it, and what `poll` returns is the least entry, which it takes out with no other. -/
theorem queue_refines (calls : List (Call π)) :
    let s := Run.run WithHistory.step ({} : WithHistory π) calls
    Sorted s.mPackets ∧ (s.mPackets.map TCPPacketWrapper.sequenceNumber).Nodup ∧
      (∀ n w, contents s.history n = some w ↔ w ∈ s.mPackets ∧ w.sequenceNumber = n) ∧
      (∀ w, s.mPackets.head? = some w → w.mPacket.isSome → ∃ rest, poll s.mPackets = some (w, rest)) ∧
      ∀ w rest, poll s.mPackets = some (w, rest) → TakesLeast s.mPackets w rest := by
  intro s
  have h : Refines s := refines_run calls
  refine ⟨h.sorted, ?_, ?_, ?_, fun w rest hpoll => h.takesLeast hpoll⟩
  · refine List.pairwise_map.2 (h.sorted.imp ?_)
    intro a b hlt heq
    rw [TCPPacketWrapper.order, TCPPacketWrapper.order, heq] at hlt
    exact lt_irrefl _ hlt
  · intro n w
    rw [h.map, lookup_eq_some_iff h.sorted]
    simp only [TCPPacketWrapper.order, BitVec.toInt_inj]
  · intro w hhead hw
    obtain ⟨rest, hrest⟩ := List.head?_eq_some_iff.1 hhead
    exact ⟨rest, poll_eq_some_iff.2 ⟨hrest, hw⟩⟩

end TCPPacketQueue

end SmartTunnel
