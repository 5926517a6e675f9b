/-
The transmitter never exceeds the configured rate.

# The rounding

`rate_next_cycles` is the reading of the last burst plus its cost with the
fraction dropped, and the next burst needs a reading strictly above it. A
reading is a whole number, so it is at least one above the rounded cost and
with that above the exact one: bursts are `Spaced` by their exact costs
(`runCalls_spaced`), and `Spaced.window` is the bound for any stretch.

# The accumulator

`total_size` is 0 between calls (`Idle`), so a burst pays for its own bytes
and no others; its 32 bits are enough for 32 packets of 65535 bytes.
-/
import PktSender.Lib.Spacing
import PktSender.Transmitter.Basic
import Mathlib.Algebra.BigOperators.Ring.Finset
import Mathlib.Algebra.BigOperators.Ring.List
import Mathlib.Algebra.Order.BigOperators.Group.List
import Mathlib.Algebra.Group.Nat.Defs

namespace PktSender.Transmitter

open PktSender.Lib

-- =============================================================== wire sizes

/-- What a packet takes on the wire, with no bound on the sum. -/
def RteMbuf.wireSize (pkt : RteMbuf) : ℕ :=
  pkt.pktLen.toNat + frameExtraBytes.toNat

def Burst.wireSize (b : Burst) : ℕ :=
  (b.pkts.map RteMbuf.wireSize).sum

/-- Cycles for one byte at the rate of `g`, exactly. -/
def Global.cyclesPerByte (g : Global) (queueid : UInt8) : ℚ :=
  8 * g.cpuHz.toNat / (txCtlInit g queueid).rateBps.toNat

/-- Every packet a call is given has a length of at most 65535. -/
def Call.LengthsOk (call : Call) : Prop :=
  ∀ mbufs, call.mbufs = some mbufs → ∀ pkt ∈ mbufs.toList, pkt.pktLen ≤ 65535

theorem pktWireSize_toNat {pkt : RteMbuf} (h : pkt.pktLen ≤ 65535) :
    (pktWireSize pkt.pktLen).toNat = pkt.wireSize := by
  have hle : pkt.pktLen.toNat ≤ 65535 := UInt32.le_iff_toNat_le.mp h
  have hextra : frameExtraBytes.toNat = 24 := rfl
  simp only [pktWireSize, RteMbuf.wireSize, UInt32.toNat_add]
  omega

/-- No packet's wire size is above 65559. -/
theorem sum_wireSize_le {pkts : List RteMbuf} (h : ∀ pkt ∈ pkts, pkt.pktLen ≤ 65535) :
    (pkts.map RteMbuf.wireSize).sum ≤ pkts.length * 65559 := by
  have hle : ∀ x ∈ pkts.map RteMbuf.wireSize, x ≤ 65559 := by
    intro x hx
    obtain ⟨pkt, hmem, rfl⟩ := List.mem_map.mp hx
    have hlen : pkt.pktLen.toNat ≤ 65535 := UInt32.le_iff_toNat_le.mp (h pkt hmem)
    have hextra : frameExtraBytes.toNat = 24 := rfl
    simp only [RteMbuf.wireSize]
    omega
  simpa using List.sum_le_card_nsmul _ _ hle

/-- Adding up in 32 bits is exact while the sum fits. -/
theorem addWireSizes_toNat {total : UInt32} {pkts : List RteMbuf}
    (hlen : ∀ pkt ∈ pkts, pkt.pktLen ≤ 65535)
    (hfit : total.toNat + (pkts.map RteMbuf.wireSize).sum < 2 ^ 32) :
    (addWireSizes total pkts).toNat
      = total.toNat + (pkts.map RteMbuf.wireSize).sum := by
  induction pkts generalizing total with
  | nil => simp [addWireSizes]
  | cons pkt pkts ih =>
      have hsize := pktWireSize_toNat (hlen pkt (by simp))
      simp only [List.map_cons, List.sum_cons] at hfit ⊢
      have hadd : (total + pktWireSize pkt.pktLen).toNat
          = total.toNat + pkt.wireSize := by
        rw [UInt32.toNat_add, hsize]
        omega
      have htail : (addWireSizes (total + pktWireSize pkt.pktLen) pkts).toNat
          = (total + pktWireSize pkt.pktLen).toNat + (pkts.map RteMbuf.wireSize).sum := by
        apply ih
        · intro p hp
          exact hlen p (by simp [hp])
        · omega
      simp only [addWireSizes, List.foldl_cons] at htail ⊢
      omega

-- ================================================================= one call

/-- What holds of a `tx_ctl` between calls. -/
structure TxCtl.Idle (c : ℚ) (ctl : TxCtl) : Prop where
  totalSize : ctl.txBuffer.totalSize = 0
  rateCycles : ctl.rateCycles = c

theorem txCtlInit_idle (g : Global) (queueid : UInt8) :
    (txCtlInit g queueid).Idle (g.cyclesPerByte queueid) where
  totalSize := rfl
  rateCycles := by
    simp only [txCtlInit, getTxCyclesPerByte, Global.cyclesPerByte]
    ring

/-- What a call that returns does. -/
inductive Returned (ctl : TxCtl) (call : Call) : Return → Prop where
  | early : Returned ctl call { ctl := ctl, ret := 0, sent := none }
  | noMbufs : Returned ctl call { ctl := ctl, ret := -1, sent := none }
  | sent (mbufs : Vector RteMbuf maxPktBurst) (size : UInt32) :
      ctl.rateNextCycles < call.cycles → call.mbufs = some mbufs →
      size = addWireSizes ctl.txBuffer.totalSize mbufs.toList →
      Returned ctl call
        { ctl :=
            { ctl with
              rateNextCycles :=
                call.cycles + UInt64.ofNat ⌊size.toNat * ctl.rateCycles⌋₊
              txBuffer := { totalSize := 0, len := 0 } }
          ret := 0
          sent := some { cycles := call.cycles, pkts := mbufs.toList } }

theorem txCtlTxBurst_returned {ctl : TxCtl} {call : Call} {r : Return}
    (h : txCtlTxBurst ctl call = some r) : Returned ctl call r := by
  unfold txCtlTxBurst at h
  split at h
  case isTrue =>
    cases h
    exact .early
  case isFalse hdue =>
    split at h
    case h_1 =>
      cases h
      exact .noMbufs
    case h_2 mbufs hmbufs =>
      obtain ⟨_, -, rfl⟩ := Option.map_eq_some_iff.mp h
      exact .sent mbufs _ (UInt64.not_le.mp hdue) hmbufs rfl

/-- A call that sends nothing writes nothing. -/
theorem txCtlTxBurst_unsent {ctl : TxCtl} {call : Call} {r : Return}
    (h : txCtlTxBurst ctl call = some r) (hnone : r.sent = none) : r.ctl = ctl := by
  cases txCtlTxBurst_returned h with
  | early => rfl
  | noMbufs => rfl
  | sent => cases hnone

/-- No call changes the queue. -/
theorem txCtlTxBurst_queueid {ctl : TxCtl} {call : Call} {r : Return}
    (h : txCtlTxBurst ctl call = some r) : r.ctl.queueid = ctl.queueid := by
  cases txCtlTxBurst_returned h with
  | early => rfl
  | noMbufs => rfl
  | sent => rfl

/-- The reading from which on the burst is paid for. -/
def Burst.paidUntil (c : ℚ) (b : Burst) : ℕ :=
  b.cycles.toNat + ⌊b.wireSize * c⌋₊

/-- A call that returns either sends nothing and writes nothing, or sends the
burst it got and moves `rate_next_cycles` to the end of what that costs. -/
theorem txCtlTxBurst_cases {c : ℚ} {ctl : TxCtl} {call : Call} {r : Return}
    (h : txCtlTxBurst ctl call = some r) (hidle : ctl.Idle c) (hlen : call.LengthsOk) :
    (r.sent = none ∧ r.ctl = ctl) ∨
    (ctl.rateNextCycles < call.cycles ∧
      ∃ b : Burst, r.sent = some b ∧ b.cycles = call.cycles ∧ r.ctl.Idle c ∧
        (b.paidUntil c < 2 ^ 64 → r.ctl.rateNextCycles.toNat = b.paidUntil c)) := by
  cases txCtlTxBurst_returned h with
  | early =>
      left
      exact ⟨rfl, rfl⟩
  | noMbufs =>
      left
      exact ⟨rfl, rfl⟩
  | sent mbufs size hdue hmbufs hsize =>
      right
      have hlens := hlen mbufs hmbufs
      have hsum := sum_wireSize_le hlens
      have hmax : mbufs.toList.length = 32 := Vector.length_toList
      have hexact : size.toNat = (mbufs.toList.map RteMbuf.wireSize).sum := by
        rw [hsize, hidle.totalSize, addWireSizes_toNat hlens] <;> simp only [UInt32.toNat_zero]
        · omega
        · omega
      refine ⟨hdue, _, rfl, rfl, ⟨rfl, hidle.rateCycles⟩, ?_⟩
      intro hfit
      simp only [Burst.paidUntil, Burst.wireSize] at hfit ⊢
      rw [UInt64.toNat_add, hexact, hidle.rateCycles, UInt64.toNat_ofNat', Nat.add_mod_mod]
      exact Nat.mod_eq_of_lt hfit

-- ================================================================== any run

/-- A reading above the rounded cost is above the exact one. -/
theorem Burst.lt_of_paidUntil_lt {c : ℚ} {a b : Burst}
    (h : a.paidUntil c < b.cycles.toNat) :
    (a.cycles.toNat : ℚ) + a.wireSize * c < b.cycles.toNat := by
  have hsucc : a.cycles.toNat + (⌊a.wireSize * c⌋₊ + 1) ≤ b.cycles.toNat := h
  have hfloor : a.wireSize * c < (⌊a.wireSize * c⌋₊ + 1 : ℕ) := by
    simpa using Nat.lt_floor_add_one (a.wireSize * c)
  calc (a.cycles.toNat : ℚ) + a.wireSize * c
      < a.cycles.toNat + (⌊a.wireSize * c⌋₊ + 1 : ℕ) := by
        apply add_lt_add_right
        exact hfloor
    _ ≤ b.cycles.toNat := by exact_mod_cast hsucc

/-- A run of calls, from any idle `tx_ctl`: the first burst waits for
`rate_next_cycles`, and each one for what its predecessor costs. -/
theorem runCalls_spaced {c : ℚ} {ctl ctl' : TxCtl} {calls : List Call}
    {bursts : List Burst} (hrun : runCalls ctl calls = some (ctl', bursts))
    (hidle : ctl.Idle c) (hlen : ∀ call ∈ calls, call.LengthsOk)
    (hfit : ∀ b ∈ bursts, b.paidUntil c < 2 ^ 64) :
    (∀ b ∈ bursts.head?, ctl.rateNextCycles < b.cycles) ∧
      Spaced (fun b : Burst => (b.cycles.toNat : ℚ)) (fun b => b.wireSize * c) bursts ∧
      ctl'.Idle c := by
  induction calls generalizing ctl bursts with
  | nil =>
      simp only [runCalls, Option.some.injEq, Prod.mk.injEq] at hrun
      obtain ⟨rfl, rfl⟩ := hrun
      exact ⟨by simp, Spaced.nil, hidle⟩
  | cons call calls ih =>
      simp only [runCalls, Option.bind_eq_bind, Option.bind_eq_some_iff,
        Option.pure_def, Option.some.injEq, Prod.mk.injEq] at hrun
      obtain ⟨r, hcall, ⟨ctl₁, rest⟩, hrest, rfl, rfl⟩ := hrun
      have hlen₁ := hlen call (by simp)
      have hlen' : ∀ call ∈ calls, call.LengthsOk := by
        intro call hmem
        exact hlen call (by simp [hmem])
      rcases txCtlTxBurst_cases hcall hidle hlen₁ with
        ⟨hnone, hctl⟩ | ⟨hdue, b, hsent, hcyc, hidle', hnext⟩
      · -- nothing sent: the rest runs from the same state
        rw [hctl] at hrest
        simp only [hnone, Option.toList_none, List.nil_append] at hfit ⊢
        exact ih hrest hidle hlen' hfit
      · simp only [hsent, Option.toList_some, List.singleton_append] at hfit ⊢
        obtain ⟨hhead, hspaced, hend⟩ := ih hrest hidle' hlen'
          (fun b' hmem => hfit b' (by simp [hmem]))
        refine ⟨by simpa [hcyc] using hdue, ?_, hend⟩
        apply hspaced.cons
        intro b' hb'
        apply Burst.lt_of_paidUntil_lt
        rw [← hnext (hfit b (by simp))]
        exact UInt64.lt_iff_toNat_lt.mp (hhead b' hb')

/-- From `tx_ctl_init` on, any calls: between any two bursts more time passes
than the bytes sent from the first up to the second cost at the configured
rate; and a call that sends nothing writes neither `rate_next_cycles` nor
`total_size`, which is 0 between calls. -/
theorem txCtlTxBurst_rate {g : Global} {queueid : UInt8} {calls : List Call}
    {ctl : TxCtl} {bursts : List Burst}
    (hrun : runCalls (txCtlInit g queueid) calls = some (ctl, bursts))
    (hlen : ∀ call ∈ calls, call.LengthsOk)
    (hfit : ∀ b ∈ bursts, b.paidUntil (g.cyclesPerByte queueid) < 2 ^ 64) :
    (∀ i j, (hij : i < j) → (hj : j < bursts.length) →
      (((bursts.drop i).take (j - i)).map Burst.wireSize).sum * g.cyclesPerByte queueid
        < (bursts[j].cycles.toNat : ℚ) - bursts[i].cycles.toNat) ∧
    ctl.txBuffer.totalSize = 0 ∧
    ∀ call r, txCtlTxBurst ctl call = some r → r.sent = none →
      r.ctl.rateNextCycles = ctl.rateNextCycles ∧
      r.ctl.txBuffer.totalSize = ctl.txBuffer.totalSize := by
  obtain ⟨-, hspaced, hidle⟩ :=
    runCalls_spaced hrun (txCtlInit_idle g queueid) hlen hfit
  refine ⟨?_, hidle.totalSize, ?_⟩
  · intro i j hij hj
    have hwindow := hspaced.window hij hj
    rw [List.sum_map_mul_right] at hwindow
    have hcast : ((((bursts.drop i).take (j - i)).map Burst.wireSize).sum : ℚ)
        = (((bursts.drop i).take (j - i)).map fun b => (b.wireSize : ℚ)).sum := by
      rw [Nat.cast_list_sum, List.map_map]
      rfl
    rw [hcast]
    exact hwindow
  · intro call r hcall hnone
    rw [txCtlTxBurst_unsent hcall hnone]
    exact ⟨rfl, rfl⟩

/-- A burst of packets of 40 bytes, every one accepted at once. -/
def Call.minimal (cycles : UInt64) : Call :=
  { cycles := cycles, mbufs := some (Vector.replicate _ ⟨40⟩), accepted := [32] }

/-- At one byte a cycle: a burst of 2048 bytes at 5 lets the call at 2053
pass without a burst, and the next one goes out at 2054. -/
theorem txCtlTxBurst_rate_minimal :
    (Burst.wireSize { cycles := 5, pkts := List.replicate 32 ⟨40⟩ } : ℚ)
        * Global.cyclesPerByte { cpuHz := 8, txRate := 64 } 0
      < (2054 : UInt64).toNat - (5 : UInt64).toNat := by
  have hrun : runCalls (txCtlInit { cpuHz := 8, txRate := 64 } 0)
      [.minimal 5, .minimal 2053, .minimal 2054]
      = some
        ({ txCtlInit { cpuHz := 8, txRate := 64 } 0 with rateNextCycles := 4102 },
          [{ cycles := 5, pkts := List.replicate 32 ⟨40⟩ },
            { cycles := 2054, pkts := List.replicate 32 ⟨40⟩ }]) := by
    decide +kernel
  have hlen : ∀ cycles, (Call.minimal cycles).LengthsOk := by
    intro cycles mbufs hmbufs pkt hmem
    cases hmbufs
    simp only [Vector.toList_replicate, List.mem_replicate] at hmem
    rw [hmem.2]
    decide
  have h := txCtlTxBurst_rate hrun (by simp [hlen]) (by decide +kernel)
  simpa using h.1 0 1 (by decide) (by decide)

end PktSender.Transmitter
