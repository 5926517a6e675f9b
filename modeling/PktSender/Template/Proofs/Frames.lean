/-
The driver only ever gets the template from a port's traffic queue.

# The mbufs

Steps move mbufs and make none (`Mbuf/Proofs/Moves`), and write to an mbuf of
a TX pool nothing but what `__pktmbuf_reset` sets, which leaves its packet
(`Ready.reset`). So every mbuf of the pool holds the template at every step,
wherever it is, and with it what the driver holds (`Filled.step`).

# The double free

A burst is freed while the driver still holds its packets, and the pool hands
them out again. That does not show on the wire, since whoever gets the mbuf
next sends the same packet: the theorem is about every run, also about those
that are not `Safe`.

# The frame

`readFrame` reads no further than the headers reach, so from the mbuf it reads
what `pkt_seq_construct_pkt` wrote (`readFrame_congr`).
-/
import PktSender.Template.Proofs.Setup
import PktSender.Pkt.Proofs.Frame
import PktSender.Hash.Basic
import PktSender.Mbuf.Proofs.Moves
import PktSender.Mbuf.Proofs.Ownership
import PktSender.Lib.Lts

namespace PktSender.Template

open Circular (load)
open Mbuf (MbufId Pool Act Created InPlace)
open Mbuf.Bulk (RteMbuf pktmbufReset rtePktmbufHeadroom)
open Pkt (Mem FrameView Encodes readFrame pktSeqConstructPkt)
open Probe (PktSeq EtherAddr ipprotoUdp)

-- ============================================================== the receiver

section Congr

open Pkt (netUInt16 netUInt32 macAt readL4)

variable {m m' : Mem} {p p' : ℕ}

/-- What is read depends on the bytes from the address on, and on no more than
128 of them. -/
theorem load_congr (h : ∀ i < 128, m (p + i) = m' (p' + i)) {k n : ℕ} (hk : k + n ≤ 128) :
    load m (p + k) n = load m' (p' + k) n := by
  refine List.map_congr_left fun i hi => ?_
  have hlt := List.mem_range.mp hi
  rw [Nat.add_assoc, Nat.add_assoc]
  exact h (k + i) (by omega)

theorem readL4_congr (h : ∀ i < 128, m (p + i) = m' (p' + i)) {k : ℕ} (hk : k ≤ 74)
    (proto : UInt8) : readL4 m (p + k) proto = readL4 m' (p' + k) proto := by
  have h16 : ∀ j, j ≤ 4 → netUInt16 m (p + (k + j)) = netUInt16 m' (p' + (k + j)) := fun j hj => by
    rw [netUInt16, netUInt16, load_congr h (by omega)]
  unfold readL4
  simp only [Pkt.UdpHdr.srcPort, Pkt.UdpHdr.dstPort, Pkt.UdpHdr.dgramLen, Pkt.TcpHdr.srcPort,
    Pkt.TcpHdr.dstPort, Pkt.TcpHdr.dataOff, Nat.add_assoc, h16 0 (by decide), h16 2 (by decide),
    h16 4 (by decide), h (k + 12) (by omega)]

theorem readFrame_congr (h : ∀ i < 128, m (p + i) = m' (p' + i)) :
    readFrame m p = readFrame m' p' := by
  have h16 : ∀ k, k ≤ 126 → netUInt16 m (p + k) = netUInt16 m' (p' + k) := fun k hk => by
    rw [netUInt16, netUInt16, load_congr h (by omega)]
  have h32 : ∀ k, k ≤ 124 → netUInt32 m (p + k) = netUInt32 m' (p' + k) := fun k hk => by
    rw [netUInt32, netUInt32, load_congr h (by omega)]
  have hmac : ∀ k, k ≤ 122 → macAt m (p + k) = macAt m' (p' + k) := fun k hk => by
    funext i
    have hi := i.isLt
    show m (p + k + i) = m' (p' + k + i)
    rw [Nat.add_assoc, Nat.add_assoc]
    exact h (k + i) (by omega)
  -- the header length of IP has four bits
  have hl4 : ∀ (ihl proto : UInt8), readL4 m (p + (14 + 4 * (ihl &&& 0x0F).toNat)) proto
      = readL4 m' (p' + (14 + 4 * (ihl &&& 0x0F).toNat)) proto := fun ihl proto => by
    have hle : (ihl &&& 0x0F).toNat ≤ 15 := by
      rw [UInt8.toNat_and]
      exact Nat.and_le_right
    exact readL4_congr h (by omega) proto
  unfold readFrame
  simp only [Pkt.EtherHdr.size, Pkt.EtherHdr.dAddr, Pkt.EtherHdr.sAddr, Pkt.EtherHdr.etherType,
    Pkt.Ipv4Hdr.versionIhl, Pkt.Ipv4Hdr.totalLength, Pkt.Ipv4Hdr.nextProtoId,
    Pkt.Ipv4Hdr.srcAddr, Pkt.Ipv4Hdr.dstAddr, Nat.add_assoc, Nat.reduceAdd, h 14 (by decide),
    h 23 (by decide), h16 12 (by decide), h16 16 (by decide), h32 26 (by decide),
    h32 30 (by decide), hmac 0 (by decide), hmac 6 (by decide), hl4]

end Congr

-- ================================================================== the run

section Run

variable {rteHashCrc : List UInt8 → UInt32 → UInt32 → UInt32} {g : Global}
  {mac : UInt8 → EtherAddr} {old : Bool} {pool : UInt8 → List MbufId} {ports : List UInt8}
  {cfg : Mbuf.Cfg} {s s' : System} {seq : PktSeq} {template : Mem} {pkt : Packet}

/-- Handing out an mbuf leaves its packet. -/
theorem Ready.reset (h : Ready seq template pkt) :
    Ready seq template { pkt with toRteMbuf := pktmbufReset pkt.toRteMbuf } where
  dataOff := Blank.reset_dataOff h.room
  room := h.room
  pktLen := h.pktLen
  dataLen := h.dataLen
  data i hi := by
    show pkt.buf ((pktmbufReset pkt.toRteMbuf).dataOff.toNat + i) = template i
    rw [Blank.reset_dataOff h.room, ← h.dataOff]
    exact h.data i hi

theorem Ready.setRefcnt (h : Ready seq template pkt) (n : UInt16) :
    Ready seq template { pkt with refcnt := n } :=
  { dataOff := h.dataOff, room := h.room, pktLen := h.pktLen, dataLen := h.dataLen
    data := h.data }

/-- The pools of these ports hold nothing but their templates. -/
structure Filled (rteHashCrc : List UInt8 → UInt32 → UInt32 → UInt32) (cfg : Mbuf.Cfg)
    (g : Global) (mac : UInt8 → EtherAddr) (ports : List UInt8) (s : System) : Prop where
  inPlace : InPlace cfg s.base
  ready : ∀ p ∈ ports, ∀ m, m.pool = .tx p → Created cfg m →
    Ready (portCtl g mac p).txSeq ((portCtl g mac p).template rteHashCrc) (s.mbufs m)

/-- Every step leaves them so. -/
theorem Filled.step (h : Filled rteHashCrc cfg g mac ports s) {a : Act × Mbufs}
    (hs : Template.step cfg s a = some s') : Filled rteHashCrc cfg g mac ports s' := by
  obtain ⟨base, hbase, rfl⟩ := Option.map_eq_some_iff.mp hs
  refine ⟨h.inPlace.step hbase, fun p hp m hm hcreated => ?_⟩
  have hready := h.ready p hp m hm hcreated
  have hprobe : m.pool ≠ .probe := by
    rw [hm]
    exact fun heq => Pool.noConfusion heq
  simp only [if_neg hprobe]
  split
  · exact hready.reset.setRefcnt _
  · exact hready.setRefcnt _

/-- After the set-up, and then always. -/
theorem setup_filled (hg : g.txPattern = .single) (hports : ports.Nodup)
    (hpool : ∀ p ∈ ports, (pool p).Perm ((Mbuf.start cfg).dpdk.pool (.tx p))) {mbufs : Mbufs}
    (hblank : ∀ p ∈ ports, ∀ m ∈ pool p, Blank (mbufs m)) :
    ∃ mbufs', setupPorts rteHashCrc g mac old pool ports mbufs = some mbufs'
      ∧ ∀ as s, Lts.run (Template.step cfg) { base := Mbuf.start cfg, mbufs := mbufs' } as = some s →
          Filled rteHashCrc cfg g mac ports s := by
  have hmem : ∀ p ∈ ports, ∀ m, m ∈ pool p ↔ m.pool = .tx p ∧ Created cfg m := fun p hp m =>
    (hpool p hp).mem_iff.trans Mbuf.mem_pool_start
  obtain ⟨mbufs', hsetup, hready, -⟩ := @setupPorts_spec rteHashCrc g mac old pool hg ports hports
    (fun p hp => (hpool p hp).nodup_iff.mpr (Mbuf.nodup_pool_start _))
    (fun p hp m hm => ((hmem p hp m).mp hm).1) mbufs hblank
  refine ⟨mbufs', hsetup, fun as s hrun => ?_⟩
  have hstart : Filled rteHashCrc cfg g mac ports { base := Mbuf.start cfg, mbufs := mbufs' } :=
    ⟨.start cfg, fun p hp m hm hcreated => hready p hp m ((hmem p hp m).mpr ⟨hm, hcreated⟩)⟩
  exact Lts.run_invariant_all (fun h hs => Filled.step h hs) hstart hrun

-- ================================================================== the frame

/-- What a receiver reads from a packet of a port. -/
def portView (portMac : EtherAddr) : FrameView :=
  { dstMac := fun _ => 0x21, srcMac := portMac, etherType := 0x0800, versionIhl := 0x45
    totalLength := 46, proto := ipprotoUdp, srcIp := 0xC0A8000C, dstIp := 0xC0A80015
    l4 := .udp 9312 9321 26 }

/-- The template `main` makes for a port: the headers, and then zeros. -/
theorem template_main (p : UInt8) :
    readFrame ((portCtl mainGlobal mac p).template rteHashCrc) 0 = some (portView (mac p))
      ∧ ∀ i, 42 ≤ i → (portCtl mainGlobal mac p).template rteHashCrc i = 0 := by
  have hudp : (portCtl mainGlobal mac p).txSeq.proto = ipprotoUdp := rfl
  have hip : Pkt.ipLen (portCtl mainGlobal mac p).txSeq = 46 := by
    show (60 : UInt16) - UInt16.ofNat 14 = 46
    decide
  have hl4 : Pkt.l4Len (portCtl mainGlobal mac p).txSeq = 26 := by
    show (60 : UInt16) - UInt16.ofNat 14 - UInt16.ofNat 20 = 26
    decide
  obtain ⟨cksum, l4, view, hframe, hsize, hread, hview⟩ :=
    @Pkt.construct_frame rteHashCrc (portCtl mainGlobal mac p).txSeq 0 (fun _ => 0) (.inl hudp)
  have htemplate : (portCtl mainGlobal mac p).template rteHashCrc = _ := hframe
  rw [htemplate]
  refine ⟨?_, fun i hi => ?_⟩
  · rw [Pkt.readFrame_store, hread]
    rcases hview with ⟨rfl, -⟩ | ⟨-, htcp⟩
    · rw [Option.map_some, Pkt.viewOf, hip, hl4]
      rfl
    · exact absurd hudp (Pkt.not_udp htcp)
  · refine Memory.store_outside (.inr ?_)
    rw [← hsize, Nat.zero_add]
    exact hi

/-- Whatever the threads, the driver and the timer do after start-up, in either
build and with the pools in any order: every packet the driver holds from the
pool of a port has 60 bytes inside its buffer, is the port's UDP frame when it
is read, and holds zeros behind the headers. -/
theorem driver_frames (rteHashCrc : List UInt8 → UInt32 → UInt32 → UInt32) (old : Bool)
    (mac : UInt8 → EtherAddr) (hports : ports.Nodup)
    (hpool : ∀ p ∈ ports, (pool p).Perm ((Mbuf.start cfg).dpdk.pool (.tx p))) {mbufs : Mbufs}
    (hblank : ∀ p ∈ ports, ∀ m ∈ pool p, Blank (mbufs m)) :
    ∃ mbufs', setupPorts rteHashCrc mainGlobal mac old pool ports mbufs = some mbufs'
      ∧ ∀ as s, Lts.run (Template.step cfg) { base := Mbuf.start cfg, mbufs := mbufs' } as = some s →
          ∀ m ∈ s.base.dpdk.driver, ∀ p ∈ ports, m.pool = .tx p →
            (s.mbufs m).pktLen = 60 ∧ (s.mbufs m).dataLen = 60
            ∧ (s.mbufs m).dataOff.toNat + 60 ≤ (s.mbufs m).bufLen.toNat
            ∧ readFrame (s.mbufs m).buf (s.mbufs m).dataOff.toNat = some (portView (mac p))
            ∧ ∀ i, 42 ≤ i → i < 60 → (s.mbufs m).buf ((s.mbufs m).dataOff.toNat + i) = 0 := by
  obtain ⟨mbufs', hsetup, hfilled⟩ :=
    @setup_filled rteHashCrc mainGlobal mac old pool ports cfg rfl hports hpool mbufs hblank
  refine ⟨mbufs', hsetup, fun as s hrun m hm p hp hmp => ?_⟩
  have h := hfilled as s hrun
  have hready := h.ready p hp m hmp (h.inPlace.dpdk.driver m hm)
  obtain ⟨hview, hzero⟩ := @template_main rteHashCrc mac p
  refine ⟨hready.pktLen, hready.dataLen, ?_, ?_, fun i hi hlt => ?_⟩
  · rw [hready.dataOff]
    exact (Nat.add_le_add_left (show 60 ≤ 1514 by omega) _).trans hready.room
  · have hbytes : ∀ i < 128, (s.mbufs m).buf ((s.mbufs m).dataOff.toNat + i)
        = (portCtl mainGlobal mac p).template rteHashCrc (0 + i) := fun i hi => by
      rw [Nat.zero_add]
      exact hready.data i (hi.trans (show 128 < 1514 by omega))
    rw [readFrame_congr hbytes, hview]
  · rw [hready.data i (hlt.trans (show 60 < 1514 by omega))]
    exact hzero i hi

/-- Where the mbufs are does not depend on what is in them. -/
theorem run_base {as : List (Act × Mbufs)} :
    (Lts.run (Template.step cfg) s as).map (·.base)
      = Lts.run (Mbuf.step cfg) s.base (as.map (·.1)) := by
  induction as generalizing s with
  | nil => rfl
  | cons a as ih =>
      rw [List.map_cons, Lts.run_cons, Lts.run_cons, Template.step]
      cases Mbuf.step cfg s.base a.1 with
      | none => rfl
      | some base => exact ih

/-- A burst of port 1 that the driver accepts, of which the sender frees two
packets, one of them the driver's second time. -/
def freedBurst : List Act :=
  [.txBurst 1 true (some ((List.range 32).map (MbufId.mk (.tx 1)))), .txSend 1 32, .txFree 1,
    .complete ⟨.tx 1, 3⟩, .txFree 1]

/-- An mbuf of 2048 bytes behind its headroom, never used. -/
def blankMbuf : Packet :=
  { refcnt := 0, next := none, nbSegs := 0, port := 0, dataOff := 128, bufLen := 2176
    pktLen := 0, dataLen := 0, buf := fun _ => 0 }

theorem driver_frames_freedBurst :
    ∃ mbufs' s, setupPorts Hash.hashCrc32c mainGlobal (fun _ _ => 0x42) true
        (fun p => ((Mbuf.start Mbuf.twoPorts).dpdk.pool (.tx p)).reverse) [0, 1]
        (fun _ => blankMbuf) = some mbufs'
      ∧ Lts.run (Template.step Mbuf.twoPorts)
          { base := Mbuf.start Mbuf.twoPorts, mbufs := mbufs' }
          (freedBurst.map fun a => (a, mbufs')) = some s
      ∧ ⟨.tx 1, 0⟩ ∈ s.base.dpdk.driver ∧ ⟨.tx 1, 0⟩ ∈ s.base.dpdk.pool (.tx 1)
      ∧ readFrame (s.mbufs ⟨.tx 1, 0⟩).buf (s.mbufs ⟨.tx 1, 0⟩).dataOff.toNat
          = some (portView fun _ => 0x42) := by
  have hpool : ∀ p ∈ ([0, 1] : List UInt8),
      ((Mbuf.start Mbuf.twoPorts).dpdk.pool (.tx p)).reverse.Perm
        ((Mbuf.start Mbuf.twoPorts).dpdk.pool (.tx p)) := fun p _ => List.reverse_perm _
  have hblank : Blank blankMbuf := ⟨rfl, by decide⟩
  obtain ⟨mbufs', hsetup, hframes⟩ := driver_frames Hash.hashCrc32c true (fun _ _ => 0x42)
    (by decide) hpool (fun _ _ _ _ => hblank)
  have hview : (Lts.run (Mbuf.step Mbuf.twoPorts) (Mbuf.start Mbuf.twoPorts) freedBurst).map
      (fun s => (decide (⟨.tx 1, 0⟩ ∈ s.dpdk.driver), decide (⟨.tx 1, 0⟩ ∈ s.dpdk.pool (.tx 1))))
      = some (true, true) := by
    decide +kernel
  obtain ⟨base, hbase, hin⟩ := Option.map_eq_some_iff.mp hview
  obtain ⟨hdriver, hfreed⟩ := Prod.mk.inj hin
  obtain ⟨s, hrun, rfl⟩ : ∃ s, Lts.run (Template.step Mbuf.twoPorts)
      { base := Mbuf.start Mbuf.twoPorts, mbufs := mbufs' }
      (freedBurst.map fun a => (a, mbufs')) = some s ∧ s.base = base := by
    refine Option.map_eq_some_iff.mp ?_
    rw [run_base, List.map_map]
    exact hbase
  have hm := of_decide_eq_true hdriver
  have hframe := hframes _ s hrun ⟨.tx 1, 0⟩ hm 1 (by decide) rfl
  exact ⟨mbufs', s, hsetup, hrun, hm, of_decide_eq_true hfreed, hframe.2.2.2.1⟩

end Run

end PktSender.Template
