/-
What `trace_hw_tx_prepare` does to the packets of a burst.

It takes a packet for a probe to be prepared if its flag is clear
(`Unmarked`): those get the flag, and one of them is enough for the result 0
and the read of the old timestamp (`traceHwTxPrepareNic_eq`). A burst whose
probes all have the flag, as the ones of `__process_probe` do, is treated
like one without any.
-/
import PktSender.Tracer.Basic
import Mathlib.Data.List.Forall2

namespace PktSender.Tracer

open Probe (Mbuf rteCpuToBe16 probePktEtherType)

variable {flag : UInt64} {pkt : Mbuf} {buf : List Mbuf}

-- ============================================================= the packets

/-- The ether type of a probe. -/
def IsProbe (pkt : Mbuf) : Prop := pkt.data.etherType = rteCpuToBe16 probePktEtherType

instance : DecidablePred IsProbe := fun _ => inferInstanceAs (Decidable (_ = _))

/-- A probe without the flag. -/
def Unmarked (flag : UInt64) (pkt : Mbuf) : Prop := IsProbe pkt ∧ pkt.olFlags &&& flag = 0

instance (flag : UInt64) : DecidablePred (Unmarked flag) :=
  fun _ => inferInstanceAs (Decidable (_ ∧ _))

/-- The packet as the call leaves it. -/
def marked (flag : UInt64) (pkt : Mbuf) : Mbuf :=
  if Unmarked flag pkt then { pkt with olFlags := pkt.olFlags ||| flag } else pkt

theorem prepareRound_eq (ret : Int) (pkt : Mbuf) :
    prepareRound flag ret pkt = (if Unmarked flag pkt then 0 else ret, marked flag pkt) := by
  unfold prepareRound marked Unmarked IsProbe
  by_cases hprobe : pkt.data.etherType = rteCpuToBe16 probePktEtherType
  · by_cases hclear : pkt.olFlags &&& flag = 0
    · simp [hprobe, hclear]
    · simp [hprobe, hclear]
  · simp [hprobe]

/-- The loop marks every packet, and remembers that there was one to mark. -/
theorem prepareLoop_eq (buf : List Mbuf) (ret : Int) :
    prepareLoop flag buf ret
      = (buf.map (marked flag), if ∃ pkt ∈ buf, Unmarked flag pkt then 0 else ret) := by
  induction buf generalizing ret with
  | nil => simp [prepareLoop]
  | cons pkt buf ih =>
      rw [prepareLoop, prepareRound_eq, List.map_cons]
      simp only [ih]
      by_cases hpkt : Unmarked flag pkt
      · simp [hpkt]
      · simp [hpkt]

theorem traceHwTxPrepare_eq (tid : Int32) (buf : List Mbuf) :
    traceHwTxPrepare flag tid buf
      = if tid < 0 then (buf, -1)
        else (buf.map (marked flag), if ∃ pkt ∈ buf, Unmarked flag pkt then 0 else -1) := by
  unfold traceHwTxPrepare
  rw [prepareLoop_eq]
  by_cases htid : tid < 0
  · rw [if_pos htid, if_pos htid]
  · rw [if_neg htid, if_neg htid]
    by_cases hex : ∃ pkt ∈ buf, Unmarked flag pkt
    · simp only [if_pos hex, if_true]
    · simp only [if_neg hex]
      rw [if_neg (by decide)]

/-- The NIC is read exactly when the result is 0. -/
theorem traceHwTxPrepareNic_read {ν : Type} (read : ν → ν) (tid : Int32) (nic : ν)
    (buf : List Mbuf) :
    traceHwTxPrepareNic read flag tid nic buf
      = ((traceHwTxPrepare flag tid buf).1,
          if (traceHwTxPrepare flag tid buf).2 = 0 then read nic else nic,
          (traceHwTxPrepare flag tid buf).2) := by
  unfold traceHwTxPrepareNic traceHwTxPrepare
  by_cases htid : tid < 0
  · simp [htid]
  · simp only [if_neg htid]
    by_cases hret : (prepareLoop flag buf (-1)).2 = 0
    · simp [hret]
    · simp [hret]

theorem traceHwTxPrepareNic_eq {ν : Type} (read : ν → ν) {tid : Int32} (htid : 0 ≤ tid)
    (nic : ν) (buf : List Mbuf) :
    traceHwTxPrepareNic read flag tid nic buf
      = (buf.map (marked flag), if ∃ pkt ∈ buf, Unmarked flag pkt then (read nic, 0)
          else (nic, -1)) := by
  rw [traceHwTxPrepareNic_read, traceHwTxPrepare_eq, if_neg (Int32.not_lt.mpr htid)]
  by_cases hex : ∃ pkt ∈ buf, Unmarked flag pkt
  · simp only [if_pos hex, if_true]
  · simp only [if_neg hex]
    rw [if_neg (by decide)]

/-- Only flags are written. -/
theorem marked_data (flag : UInt64) (pkt : Mbuf) : (marked flag pkt).data = pkt.data := by
  unfold marked
  split
  · rfl
  · rfl

/-- A packet with the flag is left alone, and nothing is read. -/
theorem traceHwTxPrepare_of_flag {tid : Int32} (hmarked : pkt.olFlags &&& flag ≠ 0) :
    traceHwTxPrepare flag tid [pkt] = ([pkt], -1) := by
  have hnot : ¬ Unmarked flag pkt := fun h => hmarked h.2
  rw [traceHwTxPrepare_eq]
  simp [marked, hnot]

-- ================================================================ the flag

theorem or_and_flag (x flag : UInt64) : (x ||| flag) &&& flag = flag := by
  apply UInt64.toBitVec_inj.mp
  ext i hi
  simp only [UInt64.toBitVec_and, UInt64.toBitVec_or, BitVec.getElem_and, BitVec.getElem_or]
  cases flag.toBitVec[i] with
  | false => exact Bool.and_false _
  | true => simp

theorem or_and_not_flag (x flag : UInt64) : (x ||| flag) &&& ~~~flag = x &&& ~~~flag := by
  apply UInt64.toBitVec_inj.mp
  ext i hi
  simp only [UInt64.toBitVec_and, UInt64.toBitVec_or, UInt64.toBitVec_not, BitVec.getElem_and,
    BitVec.getElem_or, BitVec.getElem_not]
  cases flag.toBitVec[i] with
  | false => simp
  | true => simp

/-- A packet before and after: a probe has the flag, and nothing else has
changed. -/
structure Prepared (flag : UInt64) (pkt pkt' : Mbuf) : Prop where
  probe : IsProbe pkt → pkt'.olFlags &&& flag ≠ 0
  notProbe : ¬ IsProbe pkt → pkt' = pkt
  others : pkt'.olFlags &&& ~~~flag = pkt.olFlags &&& ~~~flag
  fields : { pkt' with olFlags := pkt.olFlags } = pkt

theorem prepared_marked (hflag : flag ≠ 0) (pkt : Mbuf) :
    Prepared flag pkt (marked flag pkt) := by
  unfold marked
  by_cases hclear : Unmarked flag pkt
  · rw [if_pos hclear]
    constructor
    case probe =>
      intro _
      rw [or_and_flag]
      exact hflag
    case notProbe => exact fun hno => absurd hclear.1 hno
    case others => exact or_and_not_flag _ _
    case fields => rfl
  · rw [if_neg hclear]
    constructor
    case probe => exact fun hprobe hzero => hclear ⟨hprobe, hzero⟩
    case notProbe => exact fun _ => rfl
    case others => rfl
    case fields => rfl

-- ============================================================== the result

/-- What the call promises, on a NIC that counts its reads: 0 and one read if
there is a probe, -1 and none if there is not; and the packets prepared. -/
structure Recognises (flag : UInt64) (buf : List Mbuf) (out : List Mbuf × ℕ × Int) : Prop where
  found : (∃ pkt ∈ buf, IsProbe pkt) → out.2 = (1, 0)
  notFound : (¬ ∃ pkt ∈ buf, IsProbe pkt) → out.2 = (0, -1)
  packets : List.Forall₂ (Prepared flag) buf out.1

/-- When `trace_hw_tx_prepare` recognises probes: exactly if there is none, or
one without the flag. The packets are prepared in any case. -/
theorem recognises_iff (hflag : flag ≠ 0) {tid : Int32} (htid : 0 ≤ tid) (buf : List Mbuf) :
    Recognises flag buf (traceHwTxPrepareNic Nat.succ flag tid 0 buf)
      ↔ ((∃ pkt ∈ buf, IsProbe pkt) → ∃ pkt ∈ buf, Unmarked flag pkt) := by
  rw [traceHwTxPrepareNic_eq Nat.succ htid]
  constructor
  · intro h hprobe
    have hfound := h.found hprobe
    by_contra hno
    simp only [if_neg hno] at hfound
    exact absurd hfound (by decide)
  · intro hex
    constructor
    case found =>
      intro hprobe
      simp only [if_pos (hex hprobe)]
    case notFound =>
      intro hno
      have hnone : ¬ ∃ pkt ∈ buf, Unmarked flag pkt := by
        intro hclear
        obtain ⟨pkt, hpkt, hprobe, -⟩ := hclear
        exact hno ⟨pkt, hpkt, hprobe⟩
      simp only [if_neg hnone]
    case packets =>
      rw [List.forall₂_map_right_iff, List.forall₂_same]
      exact fun pkt _ => prepared_marked hflag pkt

/-- A packet in zeroed memory, with these flags and ether type. -/
def zeroedPkt (olFlags : UInt64) (etherType : UInt16) : Mbuf :=
  { pktLen := 0, dataLen := 0, olFlags := olFlags
    data :=
      { srcMac := fun _ => 0, dstMac := fun _ => 0, etherType := etherType, ptpMsgId := 0
        ptpVersion := 0, probeIdx := 0, probeSender := 0, probeMagic := 0 } }

/-- A probe with the flag, one without it, and another packet. -/
def threePkts : List Mbuf :=
  [zeroedPkt 0x8000000000000 0xF788, zeroedPkt 4 0xF788, zeroedPkt 0 8]

theorem recognises_iff_threePkts :
    Recognises 0x8000000000000 threePkts
        (traceHwTxPrepareNic Nat.succ 0x8000000000000 7 0 threePkts)
      ↔ ((∃ pkt ∈ threePkts, IsProbe pkt) →
          ∃ pkt ∈ threePkts, Unmarked 0x8000000000000 pkt) :=
  recognises_iff (by decide) (by decide) threePkts

-- ==================================================== the probes of a tick

/-- The packet of `__construct_probe` is a probe with the flag. -/
theorem constructProbe_marked {cfg : Probe.Cfg} {s s' : Probe.ProbeState} {i : UInt8} {m : ℕ}
    (hflag : cfg.pktTxIeee1588Tmst ≠ 0)
    (hcall : Probe.constructProbe cfg s i (some m) = some (s', 0)) :
    IsProbe (s'.mem m) ∧ (s'.mem m).olFlags &&& cfg.pktTxIeee1588Tmst ≠ 0 := by
  unfold Probe.constructProbe at hcall
  simp only at hcall
  split at hcall
  next =>
    cases hcall
    simp only [Probe.ProbeState.setCtl, Probe.ProbeState.setMbuf, Function.update_self]
    refine ⟨rfl, ?_⟩
    rw [or_and_flag]
    exact hflag
  next => cases hcall

/-- So `trace_hw_tx_prepare` does not find it. -/
theorem not_recognises_of_marked {tid : Int32} (hprobe : IsProbe pkt)
    (hmarked : pkt.olFlags &&& flag ≠ 0) :
    ¬ Recognises flag [pkt] (traceHwTxPrepareNic Nat.succ flag tid 0 [pkt]) := by
  intro h
  have hfound := h.found ⟨pkt, List.mem_singleton_self pkt, hprobe⟩
  rw [traceHwTxPrepareNic_read, traceHwTxPrepare_of_flag hmarked] at hfound
  simp at hfound

/-- The first probe of a port, as `__process_probe` hands it over. -/
theorem constructed_not_recognised :
    ∃ (cfg : Probe.Cfg) (s s' : Probe.ProbeState),
      Probe.probeInit cfg true true (fun _ => zeroedPkt 0 0) = .ok s
        ∧ Probe.constructProbe cfg s 0 (some 0) = some (s', 0)
        ∧ ¬ Recognises cfg.pktTxIeee1588Tmst [s'.mem 0]
            (traceHwTxPrepareNic Nat.succ cfg.pktTxIeee1588Tmst 7 0 [s'.mem 0]) := by
  let cfg : Probe.Cfg :=
    { nbPorts := 1, portIsEnabled := fun _ => true
      portGetPktSeq := fun _ => Probe.ProbeCtl.zero.pktConfigure
      pktTxIeee1588Tmst := 0x8000000000000 }
  obtain ⟨s, hinit⟩ : ∃ s, Probe.probeInit cfg true true (fun _ => zeroedPkt 0 0) = .ok s :=
    ⟨_, rfl⟩
  have hmem : 0 ∈ s.probeMp := by
    have hpool : 0 ∈ List.range Probe.probePktMax := List.mem_range.mpr (Nat.succ_pos _)
    unfold Probe.probeInit at hinit
    generalize List.range Probe.probePktMax = pool at hinit hpool
    cases hinit
    exact hpool
  obtain ⟨s', hcall⟩ : ∃ s', Probe.constructProbe cfg s 0 (some 0) = some (s', 0) :=
    ⟨_, if_pos hmem⟩
  have hflag : cfg.pktTxIeee1588Tmst ≠ 0 := by decide
  obtain ⟨hprobe, hmarked⟩ := constructProbe_marked hflag hcall
  exact ⟨cfg, s, s', hinit, hcall, not_recognises_of_marked hprobe hmarked⟩

end PktSender.Tracer
