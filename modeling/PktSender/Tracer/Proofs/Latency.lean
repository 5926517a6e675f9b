/-
The latency of a probe, from the callback that sends it to its line in the dump.

# The parties

One run of the probe sender says which frames the NICs accepted; in it no
`rte_pktmbuf_alloc` hands out a frame that is pending (`Probe.Fresh`). Threads
make the calls of probe.c, `trace_hw_tx_record` for the frames they sent and
`trace_hw_rx_record` for the bursts they received, in any order and mixed in any
way, until they are killed. `tools/cmd_dump.c` reads what reached the disks.

# The network

Of what is between the parties this is assumed (`Measured`): every fwrite writes
all it is asked to, `trace_hw_tx_record` is called for accepted frames only, as
`__process_probe` does, and the NIC sets its flag on packets only that carry an
accepted frame. Frames are lost, come late and come twice.

# The argument

The numbering of the probes makes `(probe_sender, probe_idx)` the name of one
accepted frame (`ProbeInv.nodup_ids`). Every entry of a log is from a call
(`mem_log`), so all entries behind a line are of the frame the line names.
-/
import PktSender.Probe.Proofs.Numbering
import PktSender.Tracer.Proofs.Pipeline

namespace PktSender.Probe

variable {cfg : Cfg} {s : ProbeState}

-- ==================================================== the names of the frames

/-- `probe_sender` and `probe_idx`. -/
def PktFmt.id (f : PktFmt) : UInt32 × UInt64 := (f.probeSender, f.probeIdx)

/-- The frames that were taken, of all ports. -/
def ProbeState.taken (s : ProbeState) : List PktFmt := s.accepted.map Prod.snd

/-- A relation on a list from that inside its classes and that between them. -/
theorem pairwise_of_classes {α κ : Type} [DecidableEq κ] {key : α → κ} {R : α → α → Prop}
    {l : List α} (hclass : ∀ k, (l.filter fun x => key x = k).Pairwise R)
    (hcross : ∀ x ∈ l, ∀ y ∈ l, key x ≠ key y → R x y) : l.Pairwise R := by
  induction l with
  | nil => exact .nil
  | cons x l ih =>
      refine List.pairwise_cons.mpr ⟨fun y hy => ?_, ih (fun k => ?_) fun a ha b hb => ?_⟩
      · by_cases hkey : key x = key y
        · have hx := hclass (key x)
          rw [List.filter_cons_of_pos (by simp)] at hx
          refine (List.pairwise_cons.mp hx).1 y (List.mem_filter.mpr ⟨hy, ?_⟩)
          simp [hkey]
        · exact hcross x (.head _) y (.tail _ hy) hkey
      · exact (hclass k).sublist ((List.sublist_cons_self x l).filter _)
      · exact hcross a (.tail _ ha) b (.tail _ hb)

/-- A frame that was taken is one of its port's. -/
theorem ProbeInv.mem_accepted (hi : ProbeInv cfg s) {x : UInt8 × PktFmt}
    (hx : x ∈ s.accepted) :
    x.2.probeSender = x.1.toUInt32 := by
  have hmem : x.2 ∈ s.acceptedBy x.1 :=
    List.mem_map.mpr ⟨x, List.mem_filter.mpr ⟨hx, by simp⟩, rfl⟩
  have hserves := hi.served x.1 (List.ne_nil_of_mem hmem)
  rw [hi.frames x.1] at hmem
  obtain ⟨k, -, hk⟩ := List.mem_map.mp hmem
  rw [← hk]
  exact congrArg UInt8.toUInt32 (startCtl_portid hserves)

/-- The frames of a port have different numbers. -/
theorem ProbeInv.nodup_acceptedBy (hi : ProbeInv cfg s) {i : UInt8}
    (hfew : s.built i < 2 ^ 64) : ((s.acceptedBy i).map PktFmt.id).Nodup := by
  have hlen : (s.acceptedBy i).length < 2 ^ 64 :=
    (Nat.le_add_right _ _).trans_lt hfew
  rw [hi.frames i, List.map_map]
  refine List.Nodup.map_on ?_ List.nodup_range
  intro j hj k hk heq
  have hidx : UInt64.ofNat j = UInt64.ofNat k := congrArg Prod.snd heq
  have hnat := congrArg UInt64.toNat hidx
  rwa [UInt64.toNat_ofNat', UInt64.toNat_ofNat',
    Nat.mod_eq_of_lt ((List.mem_range.mp hj).trans hlen),
    Nat.mod_eq_of_lt ((List.mem_range.mp hk).trans hlen)] at hnat

/-- No two frames that were taken have one name. -/
theorem ProbeInv.nodup_ids (hi : ProbeInv cfg s) (hfew : ∀ i, s.built i < 2 ^ 64) :
    (s.taken.map PktFmt.id).Nodup := by
  rw [ProbeState.taken, List.map_map]
  refine List.pairwise_map.mpr (@pairwise_of_classes _ _ _ Prod.fst _ _ (fun i => ?_) ?_)
  · have hport := hi.nodup_acceptedBy (hfew i)
    rw [ProbeState.acceptedBy, List.map_map] at hport
    exact List.pairwise_map.mp hport
  · intro x hx y hy hne heq
    have hsender : x.2.probeSender = y.2.probeSender := congrArg Prod.fst heq
    rw [hi.mem_accepted hx, hi.mem_accepted hy] at hsender
    exact hne (UInt8.toUInt32_inj.mp hsender)

/-- A name is that of one frame. -/
theorem ProbeInv.eq_of_id (hi : ProbeInv cfg s) (hfew : ∀ i, s.built i < 2 ^ 64)
    {f g : PktFmt} (hf : f ∈ s.taken) (hg : g ∈ s.taken) (hid : f.id = g.id) : f = g :=
  List.inj_on_of_nodup_map (hi.nodup_ids hfew) hf hg hid

end PktSender.Probe

namespace PktSender.Tracer

open Dump (DumpState Row locMax succeeded)
open Probe (Mbuf PktFmt ProbeInv ProbeState)
open PktSender.Ring (CreateEnv)

-- ===================================================== where entries are from

/-- The entries a call can make. -/
def ApiCall.times (cfg : ApiCfg) : ApiCall → List Timed
  | .traceFlush _ => []
  | .traceHandler _ loc pkts => handlerTimes cfg loc pkts
  | .traceHwTxRecord _ _ reads pkt => ((readTx reads 0).2.map (txTime pkt)).toList
  | .traceHwRxRecord pkts => (rxTimes cfg pkts).map Prod.fst

variable {cfg : ApiCfg} {l : TraceLog} {x : Timed}

theorem TraceLog.mem_append {es : List Timed} (h : x ∈ (l.append es).entries) :
    x ∈ l.entries ∨ x ∈ es := by
  unfold TraceLog.append at h
  split at h
  · exact List.mem_append.mp h
  · exact .inl h

theorem TraceLog.mem_attempts {xs : List (Timed × Bool)}
    (h : x ∈ (l.attempts xs).entries) : x ∈ l.entries ∨ x ∈ xs.map Prod.fst := by
  induction xs generalizing l with
  | nil => exact .inl h
  | cons y xs ih =>
      rcases ih h with hattempt | hxs
      · rcases TraceLog.mem_append hattempt with hl | hy
        · exact .inl hl
        · exact .inr (List.mem_cons.mpr (.inl (List.mem_singleton.mp hy)))
      · exact .inr (.tail _ hxs)

/-- A call makes no other entries. -/
theorem TraceLog.mem_step {call : ApiCall} (h : x ∈ (l.step cfg call).entries) :
    x ∈ l.entries ∨ x ∈ call.times cfg := by
  cases call with
  | traceFlush env => exact .inl h
  | traceHandler fopenOk loc pkts =>
      simp only [TraceLog.step] at h
      split at h
      · exact .inl h
      · have happend := TraceLog.mem_append h
        exact happend
  | traceHwTxRecord env env' reads pkt =>
      simp only [TraceLog.step] at h
      split at h
      · exact .inl h
      · split at h
        next => exact .inl h
        next ts hread =>
          rcases TraceLog.mem_append h with hl | hx
          · exact .inl hl
          · right
            rw [ApiCall.times, hread, List.mem_singleton.mp hx]
            exact List.mem_singleton.mpr rfl
  | traceHwRxRecord pkts =>
      simp only [TraceLog.step] at h
      split at h
      · exact .inl h
      · exact TraceLog.mem_attempts h

theorem TraceLog.mem_run {calls : List ApiCall}
    (h : x ∈ (calls.foldl (TraceLog.step cfg) l).entries) :
    x ∈ l.entries ∨ ∃ call ∈ calls, x ∈ call.times cfg := by
  induction calls generalizing l with
  | nil => exact .inl h
  | cons call calls ih =>
      rcases ih h with hstep | ⟨call', hcall', hx⟩
      · rcases TraceLog.mem_step hstep with hl | hx
        · exact .inl hl
        · exact .inr ⟨call, .head _, hx⟩
      · exact .inr ⟨call', .tail _ hcall', hx⟩

/-- Every entry of a thread's log is from one of its calls. -/
theorem mem_log {t : Traced} {e : Entry} (h : e ∈ t.log) :
    e.1 = t.cfg.gettid ∧ ∃ call ∈ t.calls, e.2 ∈ call.times t.cfg := by
  obtain ⟨x, hx, rfl⟩ := List.mem_map.mp h
  refine ⟨rfl, ?_⟩
  rcases TraceLog.mem_run hx with hstart | hcall
  · cases hstart
  · exact hcall

/-- An entry of a received burst is that of a flagged packet. -/
theorem mem_rxTimes {pkts : List (Mbuf × RxAnswer)} (h : x ∈ (rxTimes cfg pkts).map Prod.fst) :
    ∃ p ∈ pkts, p.1.olFlags &&& cfg.pktRxIeee1588Tmst ≠ 0 ∧ ∃ ts, p.2.ts = some ts
      ∧ x = { loc := locHardwareRx, idx := p.1.data.probeIdx, sender := p.1.data.probeSender
              type := timestampTimespec, ts := ts } := by
  obtain ⟨y, hy, rfl⟩ := List.mem_map.mp h
  obtain ⟨p, hp, hmap⟩ := List.mem_filterMap.mp hy
  obtain ⟨hmem, hflag⟩ := List.mem_filter.mp hp
  obtain ⟨ts, hts, rfl⟩ := Option.map_eq_some_iff.mp hmap
  exact ⟨p, hmem, of_decide_eq_true hflag, ts, hts, rfl⟩

-- ================================================================ the parties

/-- The frame of a call of `trace_hw_tx_record`. -/
def ApiCall.sent : ApiCall → Option PktFmt
  | .traceHwTxRecord _ _ _ pkt => pkt
  | _ => none

/-- The packets of a call of `trace_hw_rx_record`. -/
def ApiCall.received : ApiCall → List (Mbuf × RxAnswer)
  | .traceHwRxRecord pkts => pkts
  | _ => []

/-- The calls of probe.c: `__process_probe` never comes without a packet. -/
def ApiCall.ofProbe : ApiCall → Bool
  | .traceHwTxRecord _ _ _ (some _) => true
  | .traceHwRxRecord _ => true
  | _ => false

/-- A packet the NIC gave a time stamp. -/
def Flagged (t : Traced) (p : Mbuf × RxAnswer) : Prop :=
  p.1.olFlags &&& t.cfg.pktRxIeee1588Tmst ≠ 0

/-- What the threads did with the frames that were taken: only calls of probe.c,
for these frames, and no time for a packet with another one. -/
structure Measured (taken : List PktFmt) (threads : List Traced) : Prop where
  ran : ∀ t ∈ threads, t.Ran
  calls : ∀ t ∈ threads, ∀ call ∈ t.calls, call.ofProbe
  sent : ∀ t ∈ threads, ∀ call ∈ t.calls, ∀ f, call.sent = some f → f ∈ taken
  received : ∀ t ∈ threads, ∀ call ∈ t.calls, ∀ p ∈ call.received, Flagged t p →
    p.1.data ∈ taken

/-- A time, in nanoseconds. -/
def Timespec.ns (ts : Timespec) : UInt64 := ts.tvSec * 1000000000 + ts.tvNsec

/-- A thread and the time it read in a call for `f`. -/
def SentAt (threads : List Traced) (f : PktFmt) (column : Int32 × UInt64) : Prop :=
  ∃ t ∈ threads, ∃ env env' reads ts, ApiCall.traceHwTxRecord env env' reads (some f) ∈ t.calls
    ∧ (readTx reads 0).2 = some ts ∧ column = (t.cfg.gettid, ts.ns)

/-- A thread and the time it read for a packet with `f`. -/
def ReceivedAt (threads : List Traced) (f : PktFmt) (column : Int32 × UInt64) : Prop :=
  ∃ t ∈ threads, ∃ call ∈ t.calls, ∃ p ∈ call.received, ∃ ts, Flagged t p ∧ p.1.data = f
    ∧ p.2.ts = some ts ∧ column = (t.cfg.gettid, ts.ns)

variable {taken : List PktFmt} {threads : List Traced} {e : Entry} {pcfg : Probe.Cfg}
  {p : ProbeState}

/-- What an entry of these threads is: a sent frame or a received one. -/
theorem Measured.entry (h : Measured taken threads) {t : Traced} (ht : t ∈ threads)
    (he : e ∈ t.log) :
    ∃ f ∈ taken, e.id = f.id
      ∧ (e.2.loc = locHardwareTx ∧ SentAt threads f (e.1, e.2.ns)
        ∨ e.2.loc = locHardwareRx ∧ ReceivedAt threads f (e.1, e.2.ns)) := by
  obtain ⟨htid, call, hcall, htimes⟩ := mem_log he
  have hof := h.calls t ht call hcall
  cases call with
  | traceFlush env => cases htimes
  | traceHandler fopenOk loc pkts => cases hof
  | traceHwTxRecord env env' reads pkt =>
      cases pkt with
      | none => cases hof
      | some f =>
          obtain ⟨ts, hread, htime⟩ := Option.map_eq_some_iff.mp (Option.mem_toList.mp htimes)
          have hf : f ∈ taken := h.sent t ht _ hcall f rfl
          refine ⟨f, hf, ?_, .inl ⟨?_, t, ht, env, env', reads, ts, hcall, hread, ?_⟩⟩
          · rw [Entry.id, ← htime]
            rfl
          · rw [← htime]
            rfl
          · rw [htid, ← htime]
            rfl
  | traceHwRxRecord pkts =>
      obtain ⟨p, hp, hflag, ts, hts, htime⟩ := mem_rxTimes htimes
      refine ⟨p.1.data, h.received t ht _ hcall p hp hflag, ?_,
        .inr ⟨?_, t, ht, _, hcall, p, hp, ts, hflag, rfl, hts, ?_⟩⟩
      · rw [Entry.id, htime]
        rfl
      · rw [htime]
      · rw [htid, htime]
        rfl

/-- The last of some entries is one of them, with its id and location. -/
theorem lastEntry_mem {es : List Entry} {id : UInt32 × UInt64} {l : Fin locMax}
    (h : lastEntry es id l = some e) : e ∈ es ∧ e.id = id ∧ e.2.loc.toNat = l.val := by
  obtain ⟨hmem, hcell⟩ := List.mem_filter.mp (List.mem_of_getLast? h)
  exact ⟨hmem, of_decide_eq_true hcell⟩

/-- The columns of the two times. -/
def columnTx : Fin locMax := ⟨locHardwareTx.toNat, by decide⟩
def columnRx : Fin locMax := ⟨locHardwareRx.toNat, by decide⟩

variable {es : List Entry} {f : PktFmt}

/-- The last stored entry of a cell is of the frame the cell's id names. -/
theorem Measured.last (h : Measured p.taken threads) (hi : ProbeInv pcfg p)
    (hfew : ∀ i, p.built i < 2 ^ 64) (hes : ∀ e ∈ es, ∃ t ∈ threads, e ∈ t.log)
    (hf : f ∈ p.taken) {l : Fin locMax} (hlast : lastEntry es f.id l = some e) :
    l = columnTx ∧ SentAt threads f (e.1, e.2.ns)
      ∨ l = columnRx ∧ ReceivedAt threads f (e.1, e.2.ns) := by
  obtain ⟨hmem, hid, hloc⟩ := lastEntry_mem hlast
  obtain ⟨t, ht, hlog⟩ := hes e hmem
  obtain ⟨g, hg, hgid, hcase⟩ := h.entry ht hlog
  obtain rfl : f = g := hi.eq_of_id hfew hf hg (hid.symm.trans hgid)
  rcases hcase with ⟨heq, hsent⟩ | ⟨heq, hreceived⟩
  · exact .inl ⟨Fin.ext (by rw [← hloc, heq]; rfl), hsent⟩
  · exact .inr ⟨Fin.ext (by rw [← hloc, heq]; rfl), hreceived⟩

theorem Measured.tx (h : Measured p.taken threads) (hi : ProbeInv pcfg p)
    (hfew : ∀ i, p.built i < 2 ^ 64) (hes : ∀ e ∈ es, ∃ t ∈ threads, e ∈ t.log)
    (hf : f ∈ p.taken) :
    printedOf (lastEntry es f.id columnTx) = (0, 0)
      ∨ SentAt threads f (printedOf (lastEntry es f.id columnTx)) := by
  cases hlast : lastEntry es f.id columnTx with
  | none => exact .inl rfl
  | some e =>
      obtain ⟨-, hsent⟩ | ⟨hcolumn, -⟩ := h.last hi hfew hes hf hlast
      · exact .inr hsent
      · exact absurd hcolumn (by decide)

theorem Measured.rx (h : Measured p.taken threads) (hi : ProbeInv pcfg p)
    (hfew : ∀ i, p.built i < 2 ^ 64) (hes : ∀ e ∈ es, ∃ t ∈ threads, e ∈ t.log)
    (hf : f ∈ p.taken) :
    printedOf (lastEntry es f.id columnRx) = (0, 0)
      ∨ ReceivedAt threads f (printedOf (lastEntry es f.id columnRx)) := by
  cases hlast : lastEntry es f.id columnRx with
  | none => exact .inl rfl
  | some e =>
      obtain ⟨hcolumn, -⟩ | ⟨-, hreceived⟩ := h.last hi hfew hes hf hlast
      · exact absurd hcolumn (by decide)
      · exact .inr hreceived

-- ================================================================== the lines

/-- The line of a frame: when it was sent and when it was received, each with the
thread that read the time, and zeros for what is not known. -/
def LineOf (threads : List Traced) (f : PktFmt) (printed : List (Int32 × UInt64)) : Prop :=
  ∃ tx rx, (printed = [tx] ∧ rx = (0, 0) ∨ printed = [tx, rx])
    ∧ (tx = (0, 0) ∨ SentAt threads f tx) ∧ (rx = (0, 0) ∨ ReceivedAt threads f rx)
    ∧ (SentAt threads f tx ∨ ReceivedAt threads f rx)

theorem exists_lastEntry (he : e ∈ es) {l : Fin locMax} (hloc : e.2.loc.toNat = l.val) :
    ∃ e', lastEntry es e.id l = some e' := by
  have hmem : e ∈ es.filter fun e' => e'.id = e.id ∧ e'.2.loc.toNat = l.val :=
    List.mem_filter.mpr ⟨he, decide_eq_true ⟨rfl, hloc⟩⟩
  exact ⟨_, List.getLast?_eq_some_getLast (List.ne_nil_of_mem hmem)⟩

/-- A list with a first element and room for no more than two. -/
theorem eq_of_getElem? {α : Type} {xs : List α} {x : α} (h : xs[0]? = some x)
    (hlen : xs.length ≤ 2) : xs = [x] ∨ ∃ y, xs = [x, y] ∧ xs[1]? = some y := by
  match xs, h, hlen with
  | [_], rfl, _ => exact .inl rfl
  | [_, y], rfl, _ => exact .inr ⟨y, rfl, rfl⟩

/-- The locations of these threads. -/
theorem Measured.loc (h : Measured taken threads) {t : Traced} (ht : t ∈ threads)
    (he : e ∈ t.log) : e.2.loc = locHardwareTx ∨ e.2.loc = locHardwareRx := by
  obtain ⟨-, -, -, ⟨heq, -⟩ | ⟨heq, -⟩⟩ := h.entry ht he
  · exact .inl heq
  · exact .inr heq

/-- The line of a frame that has a stored entry. -/
theorem Measured.lineOf (h : Measured p.taken threads) (hi : ProbeInv pcfg p)
    (hfew : ∀ i, p.built i < 2 ^ 64) (hes : ∀ e ∈ es, ∃ t ∈ threads, e ∈ t.log)
    {macLoc : UInt8} (habove : ∀ e ∈ es, e.2.loc ≤ macLoc) (hmac : macLoc.toNat ≤ 1)
    (he : e ∈ es) (hf : f ∈ p.taken) (hid : e.id = f.id) {printed : List (Int32 × UInt64)}
    (hlen : printed.length = macLoc.toNat + 1)
    (hcolumns : ∀ l : Fin locMax, l.val ≤ macLoc.toNat →
      printed[l.val]? = some (printedOf (lastEntry es f.id l))) :
    LineOf threads f printed := by
  have htx : printed[0]? = some (printedOf (lastEntry es f.id columnTx)) :=
    hcolumns columnTx (Nat.zero_le _)
  refine ⟨printedOf (lastEntry es f.id columnTx), printedOf (lastEntry es f.id columnRx), ?_,
    h.tx hi hfew hes hf, h.rx hi hfew hes hf, ?_⟩
  · have hshort : printed.length ≤ 2 := hlen.trans_le (Nat.succ_le_succ hmac)
    by_cases hone : 1 ≤ macLoc.toNat
    · have hrx : printed[1]? = some (printedOf (lastEntry es f.id columnRx)) :=
        hcolumns columnRx hone
      rcases eq_of_getElem? htx hshort with rfl | ⟨y, rfl, hy⟩
      · cases hrx
      · rw [hy] at hrx
        cases hrx
        exact .inr rfl
    · -- no entry is at `LOC_HARDWARE_RX`
      have hnone : lastEntry es f.id columnRx = none := by
        refine Option.eq_none_iff_forall_ne_some.mpr fun e' hlast => ?_
        obtain ⟨hmem, -, hloc⟩ := lastEntry_mem hlast
        have hle := UInt8.le_iff_toNat_le.mp (habove e' hmem)
        rw [hloc] at hle
        exact hone hle
      refine .inl ⟨?_, by rw [hnone]; rfl⟩
      rcases eq_of_getElem? htx hshort with heq | ⟨y, rfl, -⟩
      · exact heq
      · rw [List.length_cons, List.length_singleton] at hlen
        omega
  · obtain ⟨t, ht, hlog⟩ := hes e he
    rcases h.loc ht hlog with hloc | hloc
    · obtain ⟨e', hlast⟩ := @exists_lastEntry e es he columnTx (by rw [hloc]; rfl)
      rw [hid] at hlast
      obtain ⟨-, hsent⟩ | ⟨hcolumn, -⟩ := h.last hi hfew hes hf hlast
      · rw [hlast]
        exact .inl hsent
      · exact absurd hcolumn (by decide)
    · obtain ⟨e', hlast⟩ := @exists_lastEntry e es he columnRx (by rw [hloc]; rfl)
      rw [hid] at hlast
      obtain ⟨hcolumn, -⟩ | ⟨-, hreceived⟩ := h.last hi hfew hes hf hlast
      · exact absurd hcolumn (by decide)
      · rw [hlast]
        exact .inr hreceived

variable {mmapOk : UInt32 → Bool} {env env' : CreateEnv} {s₀ : DumpState}

/-- From the callback to the line. Whatever was lost, reordered or came twice
between the probe sender, the threads and the disks: each line is the line of
one accepted frame, there is no other accepted frame with its id, and there is
no other line for it. -/
theorem printed_latency (hinit : Dump.initTraceTbl mmapOk env env' = some (.ok s₀))
    {mallocOk poolCreateOk : Bool} {mem : ℕ → Mbuf} {p₀ : ProbeState}
    (hprobe : Probe.probeInit pcfg mallocOk poolCreateOk mem = .ok p₀) {as : List Probe.Act}
    (hfresh : Lts.AllSteps (Probe.step pcfg) (Probe.Fresh pcfg) p₀ as)
    (hrun : Lts.run (Probe.step pcfg) p₀ as = some p) (hfew : ∀ i, p.built i < 2 ^ 64)
    (h : Measured p.taken threads) (gap : UInt32) :
    ∃ s, Dump.readFilesBytes (fun _ => gap) s₀ (threads.map Traced.disk)
        = some (s, (threads.flatMap Traced.saved).length)
      ∧ ((Dump.dumpAllTraces s).map Row.id).Nodup
      ∧ ∀ row ∈ Dump.dumpAllTraces s, ∃ f ∈ p.taken, f.id = row.id
        ∧ (∀ g ∈ p.taken, g.id = row.id → g = f)
        ∧ ∃ printed, Dump.printRow s.macLoc row = some printed
          ∧ LineOf threads f printed := by
  have hi : ProbeInv pcfg p :=
    Lts.run_invariant (fun hi hf hstep => ProbeInv.step hi hf hstep) (.init hprobe) hfresh
      hrun
  have hsaved : ∀ e ∈ threads.flatMap Traced.saved, ∃ t ∈ threads, e ∈ t.log := by
    intro e he
    obtain ⟨t, ht, hmem⟩ := List.mem_flatMap.mp he
    exact ⟨t, ht, List.mem_of_mem_take hmem⟩
  have hloc : ∀ e ∈ threads.flatMap Traced.saved, e.2.loc.toNat ≤ 1 := by
    intro e he
    obtain ⟨t, ht, hlog⟩ := hsaved e he
    rcases h.loc ht hlog with heq | heq
    · rw [heq]
      decide
    · rw [heq]
      decide
  obtain ⟨s, rets, htrace, hnodup, hids, habove, hseen, hlines⟩ :=
    printed_lines hinit gap (reads_all h.ran) fun e he =>
      (hloc e he).trans_lt (by decide)
  have hmac : s.macLoc.toNat ≤ 1 := by
    rcases hseen with hzero | ⟨e, he, heq⟩
    · rw [hzero]
      decide
    · rw [heq]
      exact hloc e he
  refine ⟨s, readFilesBytes_trace h.ran htrace, hnodup, fun row hrow => ?_⟩
  obtain ⟨e, he, hid⟩ := (hids row.id).mp (List.mem_map_of_mem hrow)
  have hread := Dump.mem_of_mem_succeeded he
  obtain ⟨t, ht, hlog⟩ := hsaved e hread
  obtain ⟨f, hf, hef, -⟩ := h.entry ht hlog
  have hfid : f.id = row.id := hef.symm.trans hid
  obtain ⟨printed, hprinted, hcolumns⟩ := hlines row hrow
  rw [← hfid] at hcolumns ⊢
  exact ⟨f, hf, rfl, fun g hg heq => hi.eq_of_id hfew hg hf heq, printed, hprinted,
    h.lineOf hi hfew (fun e he => hsaved e (Dump.mem_of_mem_succeeded he))
      (fun e he => habove e (Dump.mem_of_mem_succeeded he)) hmac he hf hef
      (Dump.length_printRow hprinted) hcolumns⟩

/-- A thread that sends `f` and then `g`, and one that receives `g` and then `f`. -/
def sendBoth (f g : PktFmt) (info : LocalInfo) : Traced :=
  { cfg := probeCfg
    calls := [.traceHwTxRecord .good .good (readyAt 0) (some f),
      .traceHwTxRecord .good .good (readyAt 0) (some g)]
    info := info, gaps := fun _ => .zero, kept := 96 }

def flagged (f : PktFmt) : Mbuf × RxAnswer :=
  ({ probeMbuf 4 with data := f }, { ts := some ⟨5, 6⟩, env := .good, env' := .good })

def receiveBoth (f g : PktFmt) (info : LocalInfo) : Traced :=
  { cfg := probeCfg
    calls := [.traceHwRxRecord [flagged g, flagged f]]
    info := info, gaps := fun _ => .zero, kept := 96 }

theorem exists_both (f g : PktFmt) :
    ∃ info info', (sendBoth f g info).Ran ∧ (receiveBoth f g info').Ran := by
  have hgettid : 0 ≤ probeCfg.gettid := by decide
  have hgood := Env.good_ok.toFull
  have hsend : ∀ call ∈ (sendBoth f g .start).calls, call.Full := by
    simp [sendBoth, ApiCall.Full, hgood]
  have hreceive : ∀ call ∈ (receiveBoth f g .start).calls, call.Full := by
    intro call hcall
    rw [List.mem_singleton.mp hcall]
    intro x hx
    rcases List.mem_pair.mp hx with rfl | rfl
    · exact ⟨hgood, hgood⟩
    · exact ⟨hgood, hgood⟩
  obtain ⟨info, hrun, -⟩ := @Logs.run probeCfg _ _ _ logs_start hgettid hsend
  obtain ⟨info', hrun', -⟩ := @Logs.run probeCfg _ _ _ logs_start hgettid hreceive
  exact ⟨info, info', ⟨hgettid, hsend, hrun⟩, ⟨hgettid, hreceive, hrun'⟩⟩

/-- Of two ports, the first one's frame is refused once. -/
theorem printed_latency_refusedOnce :
    ∃ s₀ p f g info info' s n,
      Dump.initTraceTbl (fun _ => true) Dump.okEnv Dump.okEnv = some (.ok s₀)
        ∧ ProbeState.taken p = [f, g]
        ∧ Dump.readFilesBytes (fun _ => 0) s₀
            [(receiveBoth f g info').disk, (sendBoth f g info).disk] = some (s, n)
        ∧ ∀ row ∈ Dump.dumpAllTraces s, ∃ frame ∈ [f, g], frame.id = row.id
          ∧ ∃ printed, Dump.printRow s.macLoc row = some printed
            ∧ LineOf [receiveBoth f g info', sendBoth f g info] frame printed := by
  obtain ⟨s₀, hinit⟩ := Dump.init_returns
  obtain ⟨p₀, hprobe⟩ : ∃ p₀, Probe.probeInit Probe.twoPorts true true
      (fun _ => Probe.blankMbuf) = .ok p₀ := ⟨_, rfl⟩
  have hfresh : Lts.AllSteps (Probe.step Probe.twoPorts) (Probe.Fresh Probe.twoPorts) p₀
      Probe.refusedOnce := by
    cases hprobe
    decide +kernel
  have hsome : (Lts.run (Probe.step Probe.twoPorts) p₀ Probe.refusedOnce).map
      (fun p => p.accepted.length) = some 2 := by
    cases hprobe
    decide +kernel
  obtain ⟨p, hrun, hlen⟩ := Option.map_eq_some_iff.mp hsome
  have hfew : ∀ i, p.built i < 2 ^ 64 := by
    intro i
    have hle : (p.acceptedBy i).length ≤ 2 := by
      rw [ProbeState.acceptedBy, List.length_map, ← hlen]
      exact List.length_filter_le _ _
    unfold ProbeState.built
    split <;> omega
  obtain ⟨f, g, htaken⟩ : ∃ f g, p.taken = [f, g] :=
    List.length_eq_two.mp ((List.length_map Prod.snd).trans hlen)
  obtain ⟨info, info', hsend, hreceive⟩ := exists_both f g
  have hmeasured : Measured p.taken [receiveBoth f g info', sendBoth f g info] := by
    refine ⟨by simp [hsend, hreceive], ?_, ?_, ?_⟩
    · simp [sendBoth, receiveBoth, ApiCall.ofProbe]
    · rw [htaken]
      simp [sendBoth, receiveBoth, ApiCall.sent]
    · rw [htaken]
      simp only [sendBoth, receiveBoth, ApiCall.received, List.mem_cons, List.not_mem_nil,
        or_false, forall_eq_or_imp, forall_eq, false_imp_iff, implies_true, and_true]
      exact ⟨fun _ => .inr rfl, fun _ => .inl rfl⟩
  obtain ⟨s, hread, -, hlines⟩ := printed_latency hinit hprobe hfresh hrun hfew hmeasured 0
  refine ⟨s₀, p, f, g, info, info', s, _, hinit, htaken, hread, fun row hrow => ?_⟩
  obtain ⟨frame, hframe, hid, -, hline⟩ := hlines row hrow
  exact ⟨frame, htaken ▸ hframe, hid, hline⟩

end PktSender.Tracer
