/-
What `__send_burst` hands to the driver.

The driver takes any number of the packets it is offered, from the first on.
The loop offers what is left, so at every point the packets taken and the
packets left are the buffer, and `cnt` is the number of the latter
(`SendInv`); no answer of the driver is above it, so the subtraction does not
wrap. When the loop ends nothing is left.
-/
import PktSender.Lib.Lts
import PktSender.Transmitter.Basic

namespace PktSender.Transmitter

variable {α : Type} {buffer : MbufTable} {mTable : List α} {s s' : SendState α}

-- ================================================================== the runs

/-- The packets `rte_eth_tx_burst` is asked to send, a `uint16_t`. -/
def SendState.requested (s : SendState α) : UInt16 := s.cnt.toUInt16

/-- A round of the loop, with an answer the driver may give. -/
def SendState.step (s : SendState α) (ret : UInt16) : Option (SendState α) :=
  if s.cnt > 0 ∧ ret ≤ s.requested then some (s.round ret.toUInt32) else none

/-- The locals before the loop. -/
def sendStart (buffer : MbufTable) (mTable : List α) : SendState α :=
  { pkts := mTable, cnt := buffer.len.toUInt32, sent := [] }

theorem step_cases {ret : UInt16} (h : s.step ret = some s') :
    s.cnt > 0 ∧ ret ≤ s.requested ∧ s' = s.round ret.toUInt32 := by
  unfold SendState.step at h
  split at h
  next hok => exact ⟨hok.1, hok.2, (Option.some.inj h).symm⟩
  next => cases h

/-- The loop stops at the end of a run or asks for one more answer. -/
theorem sendLoop_run {rets : List UInt16} (hrun : Lts.run SendState.step s rets = some s') :
    sendLoop (rets.map UInt16.toUInt32) s = if s'.cnt > 0 then none else some s'.sent := by
  induction rets generalizing s with
  | nil =>
      obtain rfl := Option.some.inj hrun
      rw [List.map_nil, sendLoop]
  | cons ret rets ih =>
      obtain ⟨s₁, hstep, hrest⟩ := Lts.run_cons_eq_some.mp hrun
      obtain ⟨hpos, -, rfl⟩ := step_cases hstep
      rw [List.map_cons, sendLoop, if_pos hpos]
      exact ih hrest

-- ============================================================ the invariant

/-- The packets taken and those left, after any number of rounds. -/
structure SendInv (mTable : List α) (s : SendState α) : Prop where
  all : s.sent ++ s.pkts = mTable
  cnt : s.cnt.toNat = s.pkts.length
  /-- what is left can be asked for at once -/
  fits : s.cnt.toNat < 2 ^ 16

namespace SendInv

theorem start (hlen : mTable.length = buffer.len.toNat) :
    SendInv mTable (sendStart buffer mTable) where
  all := rfl
  cnt := hlen.symm
  fits := buffer.len.toNat_lt

/-- The count of a request does not wrap. -/
theorem requested (h : SendInv mTable s) : s.requested.toNat = s.cnt.toNat := by
  unfold SendState.requested
  rw [UInt32.toNat_toUInt16]
  exact Nat.mod_eq_of_lt h.fits

/-- An answer is not above `cnt`. -/
theorem round_cnt (h : SendInv mTable s) {ret : UInt16} (hret : ret ≤ s.requested) :
    ret.toNat ≤ s.cnt.toNat
      ∧ (s.round ret.toUInt32).cnt.toNat = s.cnt.toNat - ret.toNat := by
  have hle : ret.toNat ≤ s.cnt.toNat := by
    rw [← h.requested]
    exact UInt16.le_iff_toNat_le.mp hret
  refine ⟨hle, ?_⟩
  exact UInt32.toNat_sub_of_le _ _ (UInt32.le_iff_toNat_le.mpr hle)

/-- A round keeps the invariant. -/
theorem round (h : SendInv mTable s) {ret : UInt16} (hret : ret ≤ s.requested) :
    SendInv mTable (s.round ret.toUInt32) := by
  obtain ⟨hle, hcnt⟩ := h.round_cnt hret
  have hfits := h.fits
  refine ⟨?_, ?_, ?_⟩
  · rw [SendState.round, List.append_assoc, List.take_append_drop]
    exact h.all
  · rw [hcnt, h.cnt, SendState.round, List.length_drop]
    rfl
  · omega

theorem run (h : SendInv mTable s) {rets : List UInt16}
    (hrun : Lts.run SendState.step s rets = some s') : SendInv mTable s' := by
  refine Lts.run_invariant_all ?_ h hrun
  intro t ret t' ht hstep
  obtain ⟨-, hret, rfl⟩ := step_cases hstep
  exact ht.round hret

end SendInv

/-- At every point of `__send_burst`, whatever the driver answered: the packets
it has taken are those at the front of the buffer, the others are still to be
offered, and `cnt` is their number, which an answer cannot push below zero.
With these answers the call returns if nothing is left, and then all packets
were taken. -/
theorem sendBurst_complete (hlen : mTable.length = buffer.len.toNat) {rets : List UInt16}
    (hrun : Lts.run SendState.step (sendStart buffer mTable) rets = some s) :
    s.sent = mTable.take s.sent.length
      ∧ s.pkts = mTable.drop s.sent.length
      ∧ s.cnt.toNat + s.sent.length = buffer.len.toNat
      ∧ s.requested.toNat = s.cnt.toNat
      ∧ (∀ ret ≤ s.requested,
          (s.round ret.toUInt32).cnt.toNat + ret.toNat = s.cnt.toNat)
      ∧ sendBurst buffer mTable (rets.map UInt16.toUInt32)
          = if s.cnt = 0 then some mTable else none := by
  have hinv := (SendInv.start hlen).run hrun
  have hall := hinv.all
  have hcnt := hinv.cnt
  refine ⟨?_, ?_, ?_, hinv.requested, fun ret hret => ?_, ?_⟩
  · rw [← hall, List.take_left]
  · rw [← hall, List.drop_left]
  · rw [hcnt, ← hlen, ← hall, List.length_append, Nat.add_comm]
  · obtain ⟨hle, hsub⟩ := hinv.round_cnt hret
    omega
  · rw [sendBurst, show ({ pkts := mTable, cnt := buffer.len.toUInt32, sent := [] }
      : SendState α) = sendStart buffer mTable from rfl, sendLoop_run hrun]
    by_cases hzero : s.cnt = 0
    · have hnil : s.pkts = [] := List.eq_nil_of_length_eq_zero (by rw [← hcnt, hzero]; rfl)
      rw [hnil, List.append_nil] at hall
      rw [hzero, if_neg (by decide), if_pos rfl, hall]
    · have hpos : s.cnt > 0 := UInt32.pos_iff_ne_zero.mpr hzero
      rw [if_pos hpos, if_neg hzero]

/-- Five packets: three are taken, then none, then the last two. -/
theorem sendBurst_complete_five :
    sendBurst { totalSize := 0, len := 5 } ['a', 'b', 'c', 'd', 'e'] [3, 0, 2]
      = some ['a', 'b', 'c', 'd', 'e'] := by
  have hrun : Lts.run SendState.step
      (sendStart { totalSize := 0, len := 5 } ['a', 'b', 'c', 'd', 'e']) [3, 0, 2]
      = some { pkts := [], cnt := 0, sent := ['a', 'b', 'c', 'd', 'e'] } := by
    decide
  have h := sendBurst_complete (by rfl) hrun
  exact h.2.2.2.2.2

end PktSender.Transmitter
