/-
The figures of a port add up to what its NIC counted.

# The entries

`stat_init` makes one entry for each enabled port, in their order, and leaves
none over (`statInit_spec`). So a round of the callback prints one line for each
enabled port (`Timed`).

# The registers

A counter of 64 bits wraps, and the differences of the callback are those of
the registers. `Read` says which counts the entries stand for: those of the
last reading. As long as a port has carried fewer than 2^64 bits since the
reset, each difference is the number counted in between, whatever the registers
held, and so is the sum of the lines (`Figures.exact`). A line is the integers
computed for it, before they become doubles: below 2^53 that changes none.
-/
import PktSender.Stat.Basic
import PktSender.Launch.Proofs.Rounds
import PktSender.Port.Proofs.Pools
import PktSender.Lib.RoundRobin
import Mathlib.Algebra.Group.Nat.Defs
import Mathlib.Algebra.BigOperators.Group.List.Basic

namespace PktSender.Stat

open Port (portIds portIsEnabled)
open RoundRobin
open Transmitter (frameExtraBytes)

-- ==================================================================== stat_init

section Init

variable {enabled : UInt8 → Bool} {env : InitEnv} {nbPortEnabled : UInt8}

/-- The entry of a port. -/
def entry (env : InitEnv) (portid : UInt8) : PortStats :=
  { portid := portid
    cycStart := env.rteGetTscCycles portid
    statLast := (env.afterReset portid).regs }

/-- The counters when one more port was reset. -/
theorem reset_cons (nic reset : UInt8 → Counts) (ids : List UInt8) (portid p : UInt8) :
    (if p ∈ ids then reset p else Function.update nic portid (reset portid) p)
      = if p ∈ portid :: ids then reset p else nic p := by
  by_cases hp : p ∈ ids
  · rw [if_pos hp, if_pos (List.mem_cons_of_mem _ hp)]
  · rw [if_neg hp]
    by_cases heq : p = portid
    · subst heq
      rw [Function.update_self, if_pos List.mem_cons_self]
    · rw [Function.update_of_ne heq, if_neg (by simp [heq, hp])]

/-- With room for the enabled ports that are left, and no more. -/
theorem statInitLoop_spec {ids : List UInt8} {portCnt : UInt8} {s : State}
    {done : List PortStats} (hlen : done.length = portCnt.toNat)
    (hcount : portCnt.toNat + (ids.filter enabled).length = nbPortEnabled.toNat)
    (hstat : s.portStat = done ++ List.replicate (ids.filter enabled).length .zero) :
    ∃ nic, statInitLoop enabled env nbPortEnabled ids portCnt s
        = some { s with nic := nic, portStat := done ++ (ids.filter enabled).map (entry env) }
      ∧ ∀ p, nic p = if p ∈ ids.filter enabled then env.afterReset p else s.nic p := by
  induction ids generalizing portCnt s done with
  | nil =>
      refine ⟨s.nic, ?_, fun p => rfl⟩
      rw [statInitLoop, List.filter_nil, List.map_nil, List.append_nil]
      rw [List.filter_nil, List.length_nil, List.replicate_zero, List.append_nil] at hstat
      rw [← hstat]
  | cons portid ids ih =>
      rw [statInitLoop]
      by_cases hon : enabled portid
      case neg =>
        have hfilter : (portid :: ids).filter enabled = ids.filter enabled :=
          List.filter_cons_of_neg hon
        rw [hfilter] at hcount hstat ⊢
        rw [if_pos (by simp [hon])]
        exact ih hlen hcount hstat
      have hfilter : (portid :: ids).filter enabled = portid :: ids.filter enabled :=
        List.filter_cons_of_pos hon
      rw [hfilter] at hcount hstat ⊢
      rw [if_neg (by simp [hon])]
      rw [List.length_cons] at hcount hstat
      -- there is room for this port
      have hwrite : write s.portStat portCnt (entry env portid)
          = some ((done ++ [entry env portid])
              ++ List.replicate (ids.filter enabled).length .zero) := by
        rw [write, hstat, if_pos (by simp [hlen]), ← hlen, List.set_append_right _ _ (Nat.le_refl _),
          Nat.sub_self, List.replicate_succ, List.set_cons_zero, List.append_assoc,
          List.singleton_append]
      have hentry : ({ portid := portid
                       cycStart := env.rteGetTscCycles portid
                       statLast := (Function.update s.nic portid (env.afterReset portid)
                         portid).regs } : PortStats) = entry env portid := by
        rw [Function.update_self]
        rfl
      have hnext : (portCnt + 1).toNat = portCnt.toNat + 1 := by
        have hlt := nbPortEnabled.toNat_lt
        rw [UInt8.toNat_add, UInt8.toNat_one, Nat.mod_eq_of_lt (by omega)]
      simp only [hentry, hwrite, Option.bind_some]
      by_cases hlast : portCnt + 1 ≥ nbPortEnabled
      case pos =>
        -- it was the last one
        have hzero : (ids.filter enabled).length = 0 := by
          have hle := UInt8.le_iff_toNat_le.mp hlast
          omega
        have hnil := List.eq_nil_of_length_eq_zero hzero
        rw [if_pos hlast, hnil]
        refine ⟨Function.update s.nic portid (env.afterReset portid), ?_, fun p =>
          reset_cons s.nic env.afterReset [] portid p⟩
        rw [List.length_nil, List.replicate_zero, List.append_nil]
        rfl
      rw [if_neg hlast]
      obtain ⟨nic, hloop, hnic⟩ := @ih (portCnt + 1)
        { s with
          nic := Function.update s.nic portid (env.afterReset portid)
          portStat := (done ++ [entry env portid])
            ++ List.replicate (ids.filter enabled).length .zero }
        (done ++ [entry env portid])
        (by rw [List.length_append, List.length_singleton, hlen, hnext]) (by omega) rfl
      refine ⟨nic, ?_, fun p => (hnic p).trans (reset_cons s.nic env.afterReset _ portid p)⟩
      rw [hloop, List.append_assoc, List.singleton_append, List.map_cons]

/-- With the number of enabled ports there is an entry for each of them. -/
theorem statInit_spec {nbPorts : UInt8} (nic₀ : UInt8 → Counts) (hmalloc : env.mallocOk)
    (hany : 0 < (portIds nbPorts).countP enabled) :
    ∃ nic, statInit enabled env nbPorts (.ofNat ((portIds nbPorts).countP enabled)) nic₀
        = some ({ nic := nic, portStat := ((portIds nbPorts).filter enabled).map (entry env)
                  pc := .idle, figures := [], totals := [] }, true)
      ∧ ∀ p ∈ (portIds nbPorts).filter enabled, nic p = env.afterReset p := by
  have hle : (portIds nbPorts).countP enabled ≤ nbPorts.toNat := by
    refine List.countP_le_length.trans ?_
    rw [portIds, List.length_map, List.length_range]
  have hnat : (UInt8.ofNat ((portIds nbPorts).countP enabled)).toNat
      = (portIds nbPorts).countP enabled := by
    have hlt := nbPorts.toNat_lt
    rw [UInt8.toNat_ofNat', Nat.mod_eq_of_lt (by omega)]
  have hone : ¬ (UInt8.ofNat ((portIds nbPorts).countP enabled) < 1) := by
    rw [UInt8.lt_iff_toNat_lt, hnat, UInt8.toNat_one]
    omega
  have hports : ¬ nbPorts < 1 := by
    rw [UInt8.lt_iff_toNat_lt, UInt8.toNat_one]
    omega
  obtain ⟨nic, hloop, hnic⟩ := @statInitLoop_spec enabled env
    (.ofNat ((portIds nbPorts).countP enabled)) (portIds nbPorts) 0
    { nic := nic₀
      portStat := List.replicate ((portIds nbPorts).countP enabled) .zero
      pc := .idle, figures := [], totals := [] } [] rfl
    (by rw [hnat, List.countP_eq_length_filter, UInt8.toNat_zero, Nat.zero_add])
    (by rw [List.countP_eq_length_filter, List.nil_append])
  refine ⟨nic, ?_, fun p hp => (hnic p).trans (if_pos hp)⟩
  unfold statInit
  simp only [hnat, hone, hports, decide_false, Bool.or_self, Bool.false_eq_true, if_false,
    hmalloc, Bool.not_true, hloop, Option.map_some, List.nil_append]

end Init

-- ================================================================ the registers

section Registers

variable {a b d : Counts}

/-- No less was counted. -/
structure Counts.Le (a b : Counts) : Prop where
  ipackets : a.ipackets ≤ b.ipackets
  opackets : a.opackets ≤ b.opackets
  ibytes : a.ibytes ≤ b.ibytes
  obytes : a.obytes ≤ b.obytes

theorem Counts.Le.refl (a : Counts) : a.Le a := ⟨le_rfl, le_rfl, le_rfl, le_rfl⟩

theorem Counts.Le.trans (h : a.Le b) (h' : b.Le d) : a.Le d :=
  ⟨h.ipackets.trans h'.ipackets, h.opackets.trans h'.opackets, h.ibytes.trans h'.ibytes,
    h.obytes.trans h'.obytes⟩

theorem Counts.le_add (a n : Counts) : a.Le (a.add n) :=
  ⟨Nat.le_add_right _ _, Nat.le_add_right _ _, Nat.le_add_right _ _, Nat.le_add_right _ _⟩

/-- The bits on the wire, with the extra bytes of each frame. -/
def Counts.txBits (n : Counts) : ℕ := 8 * (n.obytes + n.opackets * frameExtraBytes.toNat)
def Counts.rxBits (n : Counts) : ℕ := 8 * (n.ibytes + n.ipackets * frameExtraBytes.toNat)

theorem Counts.Le.txBits_le (h : a.Le b) : a.txBits ≤ b.txBits :=
  Nat.mul_le_mul_left 8 (Nat.add_le_add h.obytes (Nat.mul_le_mul_right _ h.opackets))

theorem Counts.Le.rxBits_le (h : a.Le b) : a.rxBits ≤ b.rxBits :=
  Nat.mul_le_mul_left 8 (Nat.add_le_add h.ibytes (Nat.mul_le_mul_right _ h.ipackets))

/-- Fewer than 2^64 bits each way between two counts. -/
structure Few (a b : Counts) : Prop where
  tx : b.txBits - a.txBits < 2 ^ 64
  rx : b.rxBits - a.rxBits < 2 ^ 64

theorem Few.of_le (h : Few a d) (hab : a.Le b) (hbd : b.Le d) : Few a b ∧ Few b d := by
  have htx := hab.txBits_le
  have htx' := hbd.txBits_le
  have hrx := hab.rxBits_le
  have hrx' := hbd.rxBits_le
  have h1 := h.tx
  have h2 := h.rx
  exact ⟨⟨by omega, by omega⟩, by omega, by omega⟩

/-- A difference of packets and one of bytes, in the registers. -/
theorem bits_exact {n n' m m' : ℕ} (hn : n ≤ n') (hm : m ≤ m')
    (hfew : 8 * (m' + n' * 24) - 8 * (m + n * 24) < 2 ^ 64) :
    (UInt64.ofNat n' - UInt64.ofNat n).toNat = n' - n
      ∧ ((UInt64.ofNat m' - UInt64.ofNat m + (UInt64.ofNat n' - UInt64.ofNat n) * 24) * 8).toNat
        = 8 * (m' + n' * 24) - 8 * (m + n * 24) := by
  have hsub : ∀ {k k' : ℕ}, k ≤ k' → k' - k < 2 ^ 64 →
      (UInt64.ofNat k' - UInt64.ofNat k).toNat = k' - k := by
    intro k k' hle hlt
    rw [UInt64.toNat_sub, UInt64.toNat_ofNat', UInt64.toNat_ofNat']
    omega
  have hpkts := hsub hn (by omega)
  refine ⟨hpkts, ?_⟩
  rw [UInt64.toNat_mul, UInt64.toNat_add, UInt64.toNat_mul, hpkts, hsub hm (by omega)]
  show ((m' - m + (n' - n) * 24 % 2 ^ 64) % 2 ^ 64 * 8) % 2 ^ 64 = _
  omega

/-- A line is what was counted between two readings. -/
structure Figures.Exact (f : Figures) (a b : Counts) : Prop where
  opkts : f.opkts.toNat = b.opackets - a.opackets
  txBps : f.txBps.toNat = b.txBits - a.txBits
  ipkts : f.ipkts.toNat = b.ipackets - a.ipackets
  rxBps : f.rxBps.toNat = b.rxBits - a.rxBits

theorem calculateStatis_exact (h : a.Le b) (hfew : Few a b) (portid : UInt8) :
    (calculateStatis portid a.regs b.regs).Exact a b := by
  obtain ⟨hopkts, htx⟩ := bits_exact h.opackets h.obytes hfew.tx
  obtain ⟨hipkts, hrx⟩ := bits_exact h.ipackets h.ibytes hfew.rx
  exact ⟨hopkts, htx, hipkts, hrx⟩

end Registers

-- ====================================================================== the run

section Run

variable {ports : List UInt8} {first : UInt8 → Counts} {nbPortEnabled : UInt8} {s s' : State}
  {act : Act}

/-- Which ports were printed. -/
def Timed (ports : List UInt8) (s : State) : Prop :=
  match s.pc with
  | .process i => ∃ n, s.figures.map (·.portid) = rounds ports n i ∧ s.totals = []
  | .idle => ∃ n, s.figures.map (·.portid) = rounds ports n 0 ∧ s.totals = []
  | .stop i =>
      ∃ n, s.figures.map (·.portid) = rounds ports n 0 ∧ s.totals.map (·.1) = ports.take i
  | .stopped => ∃ n, s.figures.map (·.portid) = rounds ports n 0 ∧ s.totals.map (·.1) = ports

/-- What the lines of a port say together. -/
def sumOf (f : Figures → UInt64) (portid : UInt8) (lines : List Figures) : ℕ :=
  ((lines.filter fun line => line.portid = portid).map fun line => (f line).toNat).sum

theorem sumOf_append {f : Figures → UInt64} {portid : UInt8} {lines : List Figures}
    {line : Figures} :
    sumOf f portid (lines ++ [line])
      = sumOf f portid lines + if line.portid = portid then (f line).toNat else 0 := by
  unfold sumOf
  rw [List.filter_append, List.map_append, List.sum_append]
  by_cases h : line.portid = portid
  · simp [h]
  · simp [h]

theorem le_sumOf {f : Figures → UInt64} {portid : UInt8} {lines : List Figures} {line : Figures}
    (hmem : line ∈ lines) (hport : line.portid = portid) :
    (f line).toNat ≤ sumOf f portid lines :=
  List.single_le_sum (fun _ _ => Nat.zero_le _) _
    (List.mem_map.mpr ⟨line, List.mem_filter.mpr ⟨hmem, by simpa using hport⟩, rfl⟩)

/-- The lines of a port say what was counted. -/
structure Sums (lines : List Figures) (portid : UInt8) (first last : Counts) : Prop where
  opkts : sumOf (·.opkts) portid lines = last.opackets - first.opackets
  txBps : sumOf (·.txBps) portid lines = last.txBits - first.txBits
  ipkts : sumOf (·.ipkts) portid lines = last.ipackets - first.ipackets
  rxBps : sumOf (·.rxBps) portid lines = last.rxBits - first.rxBits

/-- One more line of the port. -/
theorem Sums.append {lines : List Figures} {line : Figures} {portid : UInt8} {a b d : Counts}
    (h : Sums lines portid a b) (hline : line.Exact b d) (hport : line.portid = portid)
    (hab : a.Le b) (hbd : b.Le d) : Sums (lines ++ [line]) portid a d := by
  have htx := hab.txBits_le
  have htx' := hbd.txBits_le
  have hrx := hab.rxBits_le
  have hrx' := hbd.rxBits_le
  have ho := hab.opackets
  have ho' := hbd.opackets
  have hi := hab.ipackets
  have hi' := hbd.ipackets
  constructor
  case opkts => rw [sumOf_append, if_pos hport, h.opkts, hline.opkts]; omega
  case txBps => rw [sumOf_append, if_pos hport, h.txBps, hline.txBps]; omega
  case ipkts => rw [sumOf_append, if_pos hport, h.ipkts, hline.ipkts]; omega
  case rxBps => rw [sumOf_append, if_pos hport, h.rxBps, hline.rxBps]; omega

/-- A line of another port. -/
theorem Sums.append_other {lines : List Figures} {line : Figures} {portid : UInt8}
    {a b : Counts} (h : Sums lines portid a b) (hport : line.portid ≠ portid) :
    Sums (lines ++ [line]) portid a b := by
  constructor
  case opkts => rw [sumOf_append, if_neg hport, Nat.add_zero, h.opkts]
  case txBps => rw [sumOf_append, if_neg hport, Nat.add_zero, h.txBps]
  case ipkts => rw [sumOf_append, if_neg hport, Nat.add_zero, h.ipkts]
  case rxBps => rw [sumOf_append, if_neg hport, Nat.add_zero, h.rxBps]

/-- The entries stand for the counts of the last reading. -/
structure Read (ports : List UInt8) (first last : UInt8 → Counts) (s : State) : Prop where
  entries : s.portStat.map (fun stat => (stat.portid, stat.statLast))
    = ports.map fun p => (p, (last p).regs)
  since : ∀ p, (first p).Le (last p)
  until_now : ∀ p, (last p).Le (s.nic p)
  totals : ∀ p r, (p, r) ∈ s.totals → ∃ n, (last p).Le n ∧ n.Le (s.nic p) ∧ r = n.regs

theorem Read.entry_eq {last : UInt8 → Counts} (h : Read ports first last s) {i : ℕ}
    {stat : PortStats} (hstat : s.portStat[i]? = some stat) :
    ports[i]? = some stat.portid ∧ stat.statLast = (last stat.portid).regs := by
  have heq := congrArg (·[i]?) h.entries
  simp only [List.getElem?_map, hstat, Option.map_some] at heq
  obtain ⟨p, hp, heq⟩ := Option.map_eq_some_iff.mp heq.symm
  obtain ⟨rfl, hregs⟩ := Prod.mk.inj heq
  exact ⟨hp, hregs.symm⟩

/-- The entry of a port is written with what was read now. -/
theorem Read.process {last : UInt8 → Counts} (h : Read ports first last s)
    (hnodup : ports.Nodup) {i : ℕ} {stat : PortStats} (hstat : s.portStat[i]? = some stat)
    (htotals : s.totals = []) {pc : StatPc} {figures : List Figures} :
    Read ports first (Function.update last stat.portid (s.nic stat.portid))
      { s with
        portStat := s.portStat.set i { stat with statLast := (s.nic stat.portid).regs }
        pc := pc
        figures := figures } := by
  obtain ⟨hport, -⟩ := h.entry_eq hstat
  constructor
  case entries =>
    show (s.portStat.set i _).map _ = _
    rw [List.map_set, h.entries]
    refine List.ext_getElem? fun j => ?_
    rw [List.getElem?_set, List.getElem?_map, List.getElem?_map, List.length_map]
    by_cases hij : i = j
    · subst hij
      obtain ⟨hlt, -⟩ := List.getElem?_eq_some_iff.mp hport
      rw [if_pos rfl, if_pos hlt, hport, Option.map_some, Function.update_self]
    · rw [if_neg hij]
      cases hj : ports[j]? with
      | none => rfl
      | some p =>
          -- the port of another entry is another one
          have hne : p ≠ stat.portid := by
            rintro rfl
            obtain ⟨hlt, -⟩ := List.getElem?_eq_some_iff.mp hport
            exact hij ((List.getElem?_inj hlt hnodup).mp (hport.trans hj.symm))
          rw [Option.map_some, Option.map_some, Function.update_of_ne hne]
  case since =>
    intro p
    by_cases hp : p = stat.portid
    · subst hp
      rw [Function.update_self]
      exact (h.since _).trans (h.until_now _)
    · rw [Function.update_of_ne hp]
      exact h.since p
  case until_now =>
    intro p
    by_cases hp : p = stat.portid
    · subst hp
      rw [Function.update_self]
      exact .refl _
    · rw [Function.update_of_ne hp]
      exact h.until_now p
  case totals =>
    intro p r hmem
    rw [htotals] at hmem
    cases hmem

/-- What a step keeps. -/
structure Sound (ports : List UInt8) (first : UInt8 → Counts) (s : State) : Prop where
  timed : Timed ports s
  read : ∃ last, Read ports first last s
    ∧ ∀ p, Few (first p) (s.nic p) → Sums s.figures p (first p) (last p)

/-- The NIC counts. -/
theorem Sound.count (h : Sound ports first s) (portid : UInt8) (n : Counts) :
    Sound ports first
      { s with nic := Function.update s.nic portid ((s.nic portid).add n) } := by
  obtain ⟨last, hread, hsums⟩ := h.read
  have hmore : ∀ p, (s.nic p).Le (Function.update s.nic portid ((s.nic portid).add n) p) := by
    intro p
    by_cases hp : p = portid
    · subst hp
      rw [Function.update_self]
      exact Counts.le_add _ n
    · rw [Function.update_of_ne hp]
      exact .refl _
  refine ⟨h.timed, last, ⟨hread.entries, hread.since, fun p => (hread.until_now p).trans (hmore p),
    fun p r hmem => ?_⟩, fun p hfew => ?_⟩
  · obtain ⟨k, hk, hk', rfl⟩ := hread.totals p r hmem
    exact ⟨k, hk, hk'.trans (hmore p), rfl⟩
  · have hsince := (hread.since p).trans (hread.until_now p)
    exact hsums p (hfew.of_le hsince (hmore p)).1

/-- A round of the callback. -/
theorem Sound.processStat (h : Sound ports first s) (hnodup : ports.Nodup) {i : ℕ}
    (hpc : s.pc = .process i) (hs : processStat s i = some s') : Sound ports first s' := by
  obtain ⟨stat, hstat, rfl⟩ := Option.map_eq_some_iff.mp hs
  obtain ⟨last, hread, hsums⟩ := h.read
  obtain ⟨hport, hlast⟩ := hread.entry_eq hstat
  have htimed := h.timed
  rw [Timed, hpc] at htimed
  obtain ⟨n, hfigures, htotals⟩ := htimed
  constructor
  case timed =>
    refine ⟨n, ?_, htotals⟩
    show (s.figures ++ [_]).map _ = _
    rw [List.map_append, hfigures]
    exact rounds_succ hport
  case read =>
    refine ⟨_, hread.process hnodup hstat htotals, fun p hfew => ?_⟩
    replace hfew : Few (first p) (s.nic p) := hfew
    by_cases hp : p = stat.portid
    · subst hp
      rw [Function.update_self]
      have hline : (calculateStatis stat.portid stat.statLast (s.nic stat.portid).regs).Exact
          (last stat.portid) (s.nic stat.portid) := by
        rw [hlast]
        exact calculateStatis_exact (hread.until_now _)
          (hfew.of_le (hread.since _) (hread.until_now _)).2 _
      exact (hsums _ hfew).append hline rfl (hread.since _) (hread.until_now _)
    · rw [Function.update_of_ne hp]
      exact (hsums p hfew).append_other fun heq => hp heq.symm

/-- A round of `stat_stop`. -/
theorem Sound.statStop (h : Sound ports first s) {i : ℕ} (hpc : s.pc = .stop i)
    (hs : statStop s i = some s') : Sound ports first s' := by
  obtain ⟨stat, hstat, rfl⟩ := Option.map_eq_some_iff.mp hs
  obtain ⟨last, hread, hsums⟩ := h.read
  obtain ⟨hport, -⟩ := hread.entry_eq hstat
  have htimed := h.timed
  rw [Timed, hpc] at htimed
  obtain ⟨n, hfigures, htotals⟩ := htimed
  constructor
  case timed =>
    refine ⟨n, hfigures, ?_⟩
    show (s.totals ++ [_]).map _ = _
    rw [List.map_append, htotals, List.take_add_one, hport]
    rfl
  case read =>
    refine ⟨last, ⟨hread.entries, hread.since, hread.until_now, fun p r hmem => ?_⟩, hsums⟩
    rcases List.mem_append.mp hmem with hmem | hmem
    · exact hread.totals p r hmem
    · obtain ⟨rfl, rfl⟩ := Prod.mk.inj (List.mem_singleton.mp hmem)
      exact ⟨s.nic stat.portid, hread.until_now _, .refl _, rfl⟩

/-- What the place in the code is does not matter to the readings. -/
theorem Sound.setPc (h : Sound ports first s) {pc : StatPc}
    (htimed : Timed ports { s with pc := pc }) :
    Sound ports first { s with pc := pc } := by
  obtain ⟨last, hread, hsums⟩ := h.read
  exact ⟨htimed, last, ⟨hread.entries, hread.since, hread.until_now, hread.totals⟩, hsums⟩

theorem Sound.step (h : Sound ports first s) (hnodup : ports.Nodup)
    (hlen : ports.length = nbPortEnabled.toNat) (hs : step nbPortEnabled s act = some s') :
    Sound ports first s' := by
  have htimed := h.timed
  unfold Timed at htimed
  cases act with
  | count portid n =>
      cases hs
      exact h.count portid n
  | fire =>
      obtain ⟨hpc, hs⟩ := Option.ite_none_right_eq_some.mp hs
      cases hs
      rw [hpc] at htimed
      exact h.setPc htimed
  | stop =>
      obtain ⟨hpc, hs⟩ := Option.ite_none_right_eq_some.mp hs
      cases hs
      rw [hpc] at htimed
      obtain ⟨n, hfigures, htotals⟩ := htimed
      exact h.setPc ⟨n, hfigures, by
        show s.totals.map _ = _
        rw [htotals]
        rfl⟩
  | next =>
      unfold Stat.step at hs
      cases hpc : s.pc with
      | idle =>
          simp only [hpc] at hs
          cases hs
      | process i =>
          simp only [hpc] at hs
          split at hs
          next => exact h.processStat hnodup hpc hs
          next hend =>
            cases hs
            rw [hpc] at htimed
            obtain ⟨n, hfigures, htotals⟩ := htimed
            have hnone : ports[i]? = none := List.getElem?_eq_none_iff.mpr (by omega)
            exact h.setPc ⟨n + 1, hfigures.trans (rounds_done hnone), htotals⟩
      | stop i =>
          simp only [hpc] at hs
          split at hs
          next => exact h.statStop hpc hs
          next hend =>
            cases hs
            rw [hpc] at htimed
            obtain ⟨n, hfigures, htotals⟩ := htimed
            exact h.setPc ⟨n, hfigures, htotals.trans (List.take_of_length_le (by omega))⟩
      | stopped =>
          simp only [hpc] at hs
          cases hs

end Run

-- ====================================================================== the port

section Ports

variable {c : Launch.Cfg} {sys : Launch.Sys} {env : InitEnv}

/-- What `port_parse_opt` returns. -/
def nbPortEnabled (c : Launch.Cfg) : UInt8 :=
  .ofNat ((portIds c.rteEthDevCount).countP (portIsEnabled c.ports))

def enabledPorts (c : Launch.Cfg) : List UInt8 :=
  (portIds c.rteEthDevCount).filter (portIsEnabled c.ports)

/-- After start-up, and then always. -/
theorem sound_start (hstart : Launch.startUp c = some sys) (hmalloc : env.mallocOk)
    (nic₀ : UInt8 → Counts) :
    ∃ s₀ first, statInit (portIsEnabled sys.ports) env c.rteEthDevCount (nbPortEnabled c) nic₀
        = some (s₀, true)
      ∧ Sound (enabledPorts c) first s₀ ∧ ∀ p ∈ enabledPorts c, first p = env.afterReset p := by
  have hsame : portIsEnabled sys.ports = portIsEnabled c.ports :=
    funext (Launch.startUp_ready hstart).portIsEnabled
  have hany : 0 < (portIds c.rteEthDevCount).countP (portIsEnabled c.ports) := by
    rw [List.countP_pos_iff, ← List.any_eq_true]
    by_contra hnone
    rw [Launch.startUp, if_pos (by simpa using hnone)] at hstart
    cases hstart
  obtain ⟨nic, hinit, hnic⟩ := @statInit_spec (portIsEnabled c.ports) env c.rteEthDevCount nic₀
    hmalloc hany
  rw [hsame]
  refine ⟨_, nic, hinit, ⟨⟨0, rfl, rfl⟩, nic, ⟨?_, fun _ => .refl _, fun _ => .refl _,
    fun _ _ hmem => by cases hmem⟩, fun p _ => ?_⟩, hnic⟩
  · show ((enabledPorts c).map (entry env)).map _ = _
    rw [List.map_map]
    refine List.map_congr_left fun p hp => ?_
    rw [hnic p hp]
    rfl
  · constructor
    case opkts => exact (Nat.sub_self _).symm
    case txBps => exact (Nat.sub_self _).symm
    case ipkts => exact (Nat.sub_self _).symm
    case rxBps => exact (Nat.sub_self _).symm

theorem length_enabledPorts (c : Launch.Cfg) :
    (enabledPorts c).length = (nbPortEnabled c).toNat := by
  have hle : (portIds c.rteEthDevCount).countP (portIsEnabled c.ports)
      ≤ c.rteEthDevCount.toNat := by
    refine List.countP_le_length.trans ?_
    rw [portIds, List.length_map, List.length_range]
  have hlt := c.rteEthDevCount.toNat_lt
  rw [enabledPorts, nbPortEnabled, ← List.countP_eq_length_filter, UInt8.toNat_ofNat',
    Nat.mod_eq_of_lt (by omega)]

/-- In every interleaving of the timer, `stat_stop` and the NICs after start-up:
each round of the callback prints one line for each enabled port, in order, and
`stat_stop` prints a total for each after whole rounds. Until a port has
carried 2^64 bits one way, the integers of its lines add up to what was counted
between the reset and the last reading, also over the wrap of a register, and no
bit figure of a line is more than the port has carried; and its total is what was
counted then or later. -/
theorem stat_adds_up (hstart : Launch.startUp c = some sys) (hmalloc : env.mallocOk)
    (nic₀ : UInt8 → Counts) :
    ∃ s₀, statInit (portIsEnabled sys.ports) env c.rteEthDevCount (nbPortEnabled c) nic₀
        = some (s₀, true)
      ∧ ∀ acts s, Lts.run (step (nbPortEnabled c)) s₀ acts = some s →
          Timed (enabledPorts c) s ∧ ∀ p ∈ enabledPorts c, ∃ last : Counts,
            (p, last.regs) ∈ s.portStat.map (fun stat => (stat.portid, stat.statLast))
            ∧ (env.afterReset p).Le last ∧ last.Le (s.nic p)
            ∧ (Few (env.afterReset p) (s.nic p) → Sums s.figures p (env.afterReset p) last
              ∧ ∀ line ∈ s.figures, line.portid = p →
                line.txBps.toNat ≤ (s.nic p).txBits - (env.afterReset p).txBits
                  ∧ line.rxBps.toNat ≤ (s.nic p).rxBits - (env.afterReset p).rxBits)
            ∧ ∀ r, (p, r) ∈ s.totals → ∃ n, last.Le n ∧ n.Le (s.nic p) ∧ r = n.regs := by
  obtain ⟨s₀, first, hinit, hsound, hfirst⟩ := sound_start hstart hmalloc nic₀
  have hnodup : (enabledPorts c).Nodup :=
    ((Port.pairwise_portIds c.rteEthDevCount).imp
      fun hlt heq => absurd (heq ▸ hlt) (UInt8.lt_irrefl _)).filter _
  refine ⟨s₀, hinit, fun acts s hrun => ?_⟩
  have h : Sound (enabledPorts c) first s := Lts.run_invariant_all
    (fun h hs => h.step hnodup (length_enabledPorts c) hs) hsound hrun
  obtain ⟨last, hread, hsums⟩ := h.read
  refine ⟨h.timed, fun p hp => ⟨last p, ?_, ?_, hread.until_now p, fun hfew => ?_,
    hread.totals p⟩⟩
  · rw [hread.entries]
    exact List.mem_map_of_mem hp
  · rw [← hfirst p hp]
    exact hread.since p
  · rw [← hfirst p hp] at hfew ⊢
    have hport := hsums p hfew
    have htx := (hread.until_now p).txBits_le
    have hrx := (hread.until_now p).rxBits_le
    refine ⟨hport, fun line hline hof => ⟨?_, ?_⟩⟩
    · have hle : line.txBps.toNat ≤ _ := @le_sumOf (·.txBps) p s.figures line hline hof
      rw [hport.txBps] at hle
      omega
    · have hle : line.rxBps.toNat ≤ _ := @le_sumOf (·.rxBps) p s.figures line hline hof
      rw [hport.rxBps] at hle
      omega

/-- A reset leaves the counters of packets just before their wrap. -/
def lateCounters : InitEnv :=
  { mallocOk := true
    afterReset := fun _ =>
      { ipackets := 2 ^ 64 - 1, opackets := 2 ^ 64 - 1, ibytes := 0, obytes := 0 }
    rteGetTscCycles := fun _ => 0 }

/-- Three packets of 60 bytes on port 0, and a round of the callback. -/
def threePackets : List Act :=
  [.count 0 { ipackets := 0, opackets := 3, ibytes := 0, obytes := 180 }, .fire, .next, .next,
    .next]

theorem stat_adds_up_threePackets :
    ∃ sys s₀ s, Launch.startUp Launch.twoPorts = some sys
      ∧ statInit (portIsEnabled sys.ports) lateCounters 2 (nbPortEnabled Launch.twoPorts)
          (fun _ => ⟨0, 0, 0, 0⟩) = some (s₀, true)
      ∧ Lts.run (step (nbPortEnabled Launch.twoPorts)) s₀ threePackets = some s
      ∧ s.figures.map (·.portid) = rounds (enabledPorts Launch.twoPorts) 1 0
      ∧ ∃ last : Counts, last.opackets - (2 ^ 64 - 1) = 3 := by
  have hsome : (Launch.startUp Launch.twoPorts).isSome := by decide +kernel
  obtain ⟨sys, hstart⟩ := Option.isSome_iff_exists.mp hsome
  obtain ⟨s₀, hinit, hall⟩ := @stat_adds_up Launch.twoPorts sys lateCounters hstart rfl
    (fun _ => ⟨0, 0, 0, 0⟩)
  have hview : ((Launch.startUp Launch.twoPorts).bind fun sys =>
      (statInit (portIsEnabled sys.ports) lateCounters 2 (nbPortEnabled Launch.twoPorts)
        (fun _ => ⟨0, 0, 0, 0⟩)).bind fun r =>
      (Lts.run (step (nbPortEnabled Launch.twoPorts)) r.1 threePackets).map fun s =>
        (s.figures.map (·.portid), sumOf (·.opkts) 0 s.figures, (s.nic 0).txBits,
          (s.nic 0).rxBits))
      = some ([0, 1], 3, 8 * (180 + (2 ^ 64 + 2) * 24), 8 * ((2 ^ 64 - 1) * 24)) := by
    decide +kernel
  rw [hstart, Option.bind_some] at hview
  obtain ⟨r, hr, hview⟩ := Option.bind_eq_some_iff.mp hview
  obtain rfl : r = (s₀, true) := Option.some.inj (hr.symm.trans hinit)
  obtain ⟨s, hrun, hview⟩ := Option.map_eq_some_iff.mp hview
  obtain ⟨hports, hview⟩ := Prod.mk.inj hview
  obtain ⟨hsum, hview⟩ := Prod.mk.inj hview
  obtain ⟨htx, hrx⟩ := Prod.mk.inj hview
  obtain ⟨-, hsums⟩ := hall _ s hrun
  obtain ⟨last, -, -, -, hexact, -⟩ := hsums 0 (by decide +kernel)
  have hfew : Few (lateCounters.afterReset 0) (s.nic 0) := by
    constructor
    case tx =>
      rw [htx]
      decide +kernel
    case rx =>
      rw [hrx]
      decide +kernel
  refine ⟨sys, s₀, s, hstart, hinit, hrun, hports.trans ?_, last, ?_⟩
  · decide +kernel
  · exact (hexact hfew).1.opkts.symm.trans hsum

end Ports

end PktSender.Stat
