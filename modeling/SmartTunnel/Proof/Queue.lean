import SmartTunnel.Base.Keyed
import SmartTunnel.Model.TCPController

/-!
# The queue as an ascending list

`put` keeps the queue strictly ascending in the signed sequence number, with the new
wrapper in the place of the one with its number (`put_eq_upsert`).
-/

namespace SmartTunnel

open Jvm Keyed

variable {π : Type}

/-- The queue is strictly ascending. -/
abbrev Sorted (q : List (TCPPacketWrapper π)) : Prop := Ascending TCPPacketWrapper.order q

namespace TCPPacketQueue

variable {q : List (TCPPacketWrapper π)} {w : TCPPacketWrapper π}

/-- **`put` replaces or inserts.** -/
theorem put_eq_upsert (h : Sorted q) (w : TCPPacketWrapper π) :
    put w q = upsert TCPPacketWrapper.order w q := by
  refine insertionSort_eq_upsert h (set_or_append_perm h ?_)
  intro a
  simp only [beq_iff_eq, TCPPacketWrapper.order]
  exact BitVec.toInt_inj.symm

theorem put_sorted (h : Sorted q) (w : TCPPacketWrapper π) : Sorted (put w q) := by
  rw [put_eq_upsert h]
  exact h.upsert w

theorem mem_put (h : Sorted q) {a : TCPPacketWrapper π} :
    a ∈ put w q ↔ a = w ∨ (a ∈ q ∧ a.sequenceNumber ≠ w.sequenceNumber) := by
  rw [put_eq_upsert h, mem_upsert]
  simp only [TCPPacketWrapper.order, ne_eq, BitVec.toInt_inj]

end TCPPacketQueue

end SmartTunnel
