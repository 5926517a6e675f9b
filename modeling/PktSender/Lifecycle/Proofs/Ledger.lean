/-
Everything the program takes it gives back, on every way out of `main`.

# The books

`Kept` says that the heap and the mempools balance: what was made and not
given back is what the pointers point to. Each call of `main` keeps it, whether
it succeeds or not, and so does every step of the threads (`Same`). After
`__pktsender_free` no pointer is left, so all was given back, each once.

# The devices

`port_start` leaves no port started when it fails, and `port_close` closes
those it started. So no port is started when the mempools go
(`main_gives_back`).
-/
import PktSender.Lifecycle.Basic
import PktSender.Launch.Proofs.Process
import PktSender.Port.Proofs.Started

namespace PktSender.Lifecycle

open Ledger (Books balanced_create)
open Port (NoPools Same portIds portIsEnabled mem_portIds)
open Mapping (LcoreParams)
open Launch (Sys Event Process launched)

variable {c : Cfg} {s s' : State} {ports ports' ports'' : Port.State} {ret : Int}

-- ================================================================ the books

/-- What the pointers outside of port.c's ports point to. -/
def State.held (s : State) : Multiset ℕ :=
  ↑s.portList.toList + ↑s.portStat.toList + ↑s.probeList.toList + ↑s.probeMp.toList

def heapBooks (s : State) : Books := ⟨s.held, ↑s.heap.freed, s.heap.created⟩

/-- Nothing was lost and nothing given back twice. The ports that are not
enabled have no mempools, and without `port_list` no port has. -/
structure Kept (s : State) : Prop where
  heap : Ledger.Balanced ⟨0, 0, 0⟩ (heapBooks s)
  pools : Ledger.Balanced ⟨0, 0, 0⟩ (Port.books s.ports)
  disabled : ∀ p < s.ports.portNbMax, portIsEnabled s.ports p = false →
    (s.ports.portList p).NoPool
  listed : s.portList = none → NoPools s.ports

-- ================================================================== the ports

/-- The books are those of the pools. -/
theorem Kept.same (hk : Kept s) (h : Same s.ports ports) : Kept { s with ports := ports } where
  heap := hk.heap
  pools := h.books_eq ▸ hk.pools
  disabled := fun p hp hoff =>
    h.noPool (hk.disabled p (h.portNbMax ▸ hp) ((h.portIsEnabled_eq p) ▸ hoff))
  listed := fun hnone => h.noPools (hk.listed hnone)

theorem assign_same {g : Mapping.Main} {m : LcoreParams} {mapped mapped' : Mapping.State}
    (h : Mapping.assign g mapped m = some mapped') :
    Same mapped.ports mapped'.ports ∧ mapped'.ports.dev = mapped.ports.dev := by
  unfold Mapping.assign at h
  simp only at h
  split at h
  case isTrue =>
    obtain ⟨ports, hport, rfl⟩ := Option.map_eq_some_iff.mp h
    unfold Port.portUpdateLcore at hport
    split at hport
    case isTrue => cases hport
    case isFalse =>
      cases hport
      exact ⟨Port.same_setPort rfl rfl rfl, rfl⟩
  case isFalse =>
    obtain rfl := Option.some.inj h
    exact ⟨Same.refl, rfl⟩

/-- `__init_lcore_port`, also up to where it fails. -/
theorem initLcorePortLoop_same {eal : Port.Eal} {g : Mapping.Main} {l : List LcoreParams}
    {start mapped : Mapping.State}
    (h : Mapping.initLcorePortLoop eal g l start = some (mapped, ret)) :
    Same start.ports mapped.ports ∧ mapped.ports.dev = start.ports.dev := by
  induction l generalizing start with
  | nil =>
      obtain rfl := (Prod.mk.inj (Option.some.inj h)).1
      exact ⟨Same.refl, rfl⟩
  | cons m l ih =>
      rw [Mapping.initLcorePortLoop_cons] at h
      split at h
      case isTrue => cases h
      case isFalse =>
        split at h
        case isTrue =>
          obtain rfl := (Prod.mk.inj (Option.some.inj h)).1
          exact ⟨Same.refl, rfl⟩
        case isFalse =>
          obtain ⟨next, hassign, h⟩ := Option.bind_eq_some_iff.mp h
          obtain ⟨hone, hdev⟩ := assign_same hassign
          obtain ⟨hrest, hdev'⟩ := ih h
          exact ⟨hone.trans hrest, hdev'.trans hdev⟩

/-- What `port_parse_opt` leaves: the ports have nothing yet, and what comes
after them neither. -/
structure Parsed (s : State) : Prop where
  kept : Kept s
  noPools : NoPools s.ports
  dev : s.ports.dev = .start
  portStat : s.portStat = none
  probeList : s.probeList = none
  probeMp : s.probeMp = none

/-- Something outside of the ports is made or given back. -/
theorem Kept.heapStep (hk : Kept s) (hports : s'.ports = s.ports)
    (hlist : s'.portList = s.portList) (hheap : Ledger.Balanced (heapBooks s) (heapBooks s')) :
    Kept s' where
  heap := hk.heap.trans hheap
  pools := by
    rw [hports]
    exact hk.pools
  disabled := by
    rw [hports]
    exact hk.disabled
  listed := by
    rw [hports, hlist]
    exact hk.listed

/-- `port_init`. -/
theorem Kept.portInit {eal : Port.Eal} {dpdk : Port.Dpdk} {g : Transmitter.Global}
    (hk : Kept s) (hnone : NoPools s.ports) (hlist : s.portList ≠ none)
    (h : Port.portInit eal dpdk g s.ports = (ports, ret)) : Kept { s with ports := ports } := by
  have hswept : Port.Swept s.ports (Port.portInit eal dpdk g s.ports) :=
    Port.portInit_swept hnone
  rw [h] at hswept
  have htally : Port.Tallied s.ports ports := hswept.tallied
  refine ⟨hk.heap, hk.pools.trans htally.balanced, fun p hp hoff => ?_,
    fun hnull => absurd hnull hlist⟩
  by_cases hret : ret < 0
  · exact hswept.failed hret p hp
  · exact hswept.disabled (Int.not_lt.mp hret) p (htally.portNbMax ▸ hp)
      ((htally.portIsEnabled_eq p) ▸ hoff)

/-- `stat_init`. -/
theorem Kept.statInit {n : ℕ} {ok : Bool} (hk : Kept s) (hstat : s.portStat = none)
    (h : statInit c s n = (s', ok)) :
    Kept s' ∧ s'.ports = s.ports ∧ s'.probeList = s.probeList ∧ s'.probeMp = s.probeMp := by
  unfold Lifecycle.statInit at h
  split at h
  case isTrue =>
    cases h
    exact ⟨hk, rfl, rfl, rfl⟩
  case isFalse =>
    split at h
    case isTrue =>
      cases h
      refine ⟨hk.heapStep rfl rfl ?_, rfl, rfl, rfl⟩
      unfold heapBooks State.held
      rw [hstat]
      exact Ledger.Balanced.refl _
    case isFalse =>
      cases h
      refine ⟨hk.heapStep rfl rfl ?_, rfl, rfl, rfl⟩
      unfold heapBooks State.held Heap.malloc
      rw [hstat]
      convert balanced_create _ _ s.heap.created using 2
      simp only [Option.toList_none, Option.toList_some, Multiset.coe_nil, Multiset.coe_singleton,
        ← Multiset.singleton_add]
      abel

/-- `stat_free` and `probe_free` give back what there is. -/
theorem statFree_balanced (s : State) : Ledger.Balanced (heapBooks s) (heapBooks (statFree s)) := by
  unfold Ledger.Balanced heapBooks State.held statFree Heap.zfree
  simp only [Option.toList_none, Multiset.coe_nil, ← Multiset.coe_add]
  abel

theorem probeFree_balanced (s : State) :
    Ledger.Balanced (heapBooks s) (heapBooks (probeFree s)) := by
  unfold Ledger.Balanced heapBooks State.held probeFree Heap.zfree
  simp only [Option.toList_none, Multiset.coe_nil, ← Multiset.coe_add]
  abel

/-- `probe_init`, also where it fails after its first allocation. -/
theorem Kept.probeInit {r : Except Int Probe.ProbeState} (hk : Kept s)
    (hlist : s.probeList = none) (hmp : s.probeMp = none) (h : probeInit c s = (s', r)) :
    Kept s' ∧ s'.ports = s.ports := by
  have hmade : Ledger.Balanced (heapBooks s)
      (heapBooks { s with heap := s.heap.malloc, probeList := some s.heap.created }) := by
    unfold heapBooks State.held Heap.malloc
    rw [hlist]
    convert balanced_create _ _ s.heap.created using 2
    simp only [Option.toList_none, Option.toList_some, Multiset.coe_nil, Multiset.coe_singleton,
      ← Multiset.singleton_add]
    abel
  unfold Lifecycle.probeInit at h
  simp only at h
  split at h
  case isTrue =>
    obtain rfl := (Prod.mk.inj h).1
    refine ⟨hk.heapStep rfl rfl ?_, rfl⟩
    unfold heapBooks State.held
    rw [hlist]
    exact Ledger.Balanced.refl _
  case isFalse =>
    split at h
    case isTrue =>
      obtain rfl := (Prod.mk.inj h).1
      refine ⟨hk.heapStep rfl rfl ?_, rfl⟩
      rw [← hmp]
      exact hmade.trans (probeFree_balanced _)
    case isFalse =>
      obtain rfl := (Prod.mk.inj h).1
      refine ⟨hk.heapStep rfl rfl (hmade.trans ?_), rfl⟩
      unfold heapBooks State.held Heap.malloc
      rw [hmp]
      convert balanced_create _ _ (s.heap.created + 1) using 2
      simp only [Option.toList_none, Option.toList_some, Multiset.coe_nil,
        Multiset.coe_singleton, ← Multiset.singleton_add]
      abel

/-- `port_free`. -/
theorem Kept.portFree (hk : Kept s) :
    Kept (portFree s) ∧ (portFree s).portList = none ∧ NoPools (portFree s).ports
      ∧ (portFree s).ports.dev.started = s.ports.dev.started := by
  unfold Lifecycle.portFree
  split
  next hlist => exact ⟨hk, hlist, hk.listed hlist, rfl⟩
  next block hlist =>
    obtain ⟨htally, -, hnone⟩ := Port.portFree_tallied hk.disabled
    refine ⟨⟨hk.heap.trans ?_, hk.pools.trans htally.balanced, fun p hp _ => hnone p hp,
      fun _ => hnone⟩, rfl, hnone, Port.portFree_started s.ports⟩
    unfold Ledger.Balanced heapBooks State.held Heap.zfree
    simp only [Option.toList_none, Multiset.coe_nil, ← Multiset.coe_add]
    abel

/-- `__pktsender_free` leaves no pointer. -/
theorem Kept.pktsenderFree (hk : Kept s) :
    Ledger.Balanced ⟨0, 0, 0⟩ (heapBooks (pktsenderFree s)) ∧ (pktsenderFree s).held = 0
      ∧ Ledger.Balanced ⟨0, 0, 0⟩ (Port.books (pktsenderFree s).ports)
      ∧ NoPools (pktsenderFree s).ports
      ∧ (pktsenderFree s).ports.dev.started = s.ports.dev.started := by
  obtain ⟨hfree, hlist, hnone, hstarted⟩ := hk.portFree
  refine ⟨(hfree.heap.trans (statFree_balanced _)).trans (probeFree_balanced _), ?_, hfree.pools,
    hnone, hstarted⟩
  unfold State.held Lifecycle.pktsenderFree probeFree statFree
  simp only [hlist, Option.toList_none, Multiset.coe_nil, add_zero]

-- ================================================================== the runs

/-- What `prepare` comes to: where `main` goes to `fail_free_all`, no port is
started, and where it launches, the threads have its ports. -/
structure Prepared (s : State) (sys : Option Sys) : Prop where
  kept : Kept s
  failed : sys = none → s.ports.dev.started = []
  ports : ∀ sys', sys = some sys' → s.ports = sys'.ports
  started : ∀ p ∈ s.ports.dev.started, portIsEnabled s.ports p

theorem Kept.stops (hk : Kept s) (hidle : s.ports.dev.started = []) : Prepared s none := by
  refine ⟨hk, fun _ => hidle, fun _ heq => absurd heq (Option.some_ne_none _).symm, fun p hp => ?_⟩
  rw [hidle] at hp
  exact absurd hp List.not_mem_nil

/-- `main` from the check of the mappings to `port_start`. -/
theorem Parsed.prepare {n : ℕ} {sys : Option Sys} (hp : Parsed s) (hlist : s.portList ≠ none)
    (h : prepare c s n = some (s', sys)) : Prepared s' sys := by
  unfold Lifecycle.prepare at h
  obtain ⟨params, -, h⟩ := Option.bind_eq_some_iff.mp h
  split at h
  case isTrue =>
    obtain ⟨rfl, rfl⟩ := Prod.mk.inj (Option.some.inj h)
    exact hp.kept.stops (by rw [hp.dev]; rfl)
  case isFalse =>
    obtain ⟨⟨mapped, ret₀⟩, hmap, h⟩ := Option.bind_eq_some_iff.mp h
    obtain ⟨hsame, hdev⟩ := initLcorePortLoop_same hmap
    have hkept := hp.kept.same hsame
    have hidle : mapped.ports.dev.started = [] := by
      rw [hdev, show (Mapping.State.start s.ports).ports = s.ports from rfl, hp.dev]
      rfl
    simp only at h
    split at h
    case isTrue =>
      obtain ⟨rfl, rfl⟩ := Prod.mk.inj (Option.some.inj h)
      exact hkept.stops hidle
    case isFalse =>
      rcases hinit : Port.portInit c.eal c.dpdk c.global mapped.ports with ⟨ports, ret⟩
      rw [hinit] at h
      have hkept := hkept.portInit (hsame.noPools hp.noPools) hlist hinit
      have hidle : ports.dev.started = [] := (Port.portInit_started hinit).trans hidle
      simp only at h
      split at h
      case isTrue =>
        obtain ⟨rfl, rfl⟩ := Prod.mk.inj (Option.some.inj h)
        exact hkept.stops hidle
      case isFalse =>
        generalize hbefore : ({ s with ports := ports } : State) = before at h hkept
        rcases hstat : Lifecycle.statInit c before n with ⟨s₁, ok⟩
        rw [hstat] at h
        obtain ⟨hkept, hports, hprobeList, hprobeMp⟩ :=
          hkept.statInit (by rw [← hbefore]; exact hp.portStat) hstat
        have hidle : s₁.ports.dev.started = [] := by
          rw [hports, ← hbefore]
          exact hidle
        simp only at h
        split at h
        case isTrue =>
          obtain ⟨rfl, rfl⟩ := Prod.mk.inj (Option.some.inj h)
          exact hkept.stops hidle
        case isFalse =>
          rcases hprobe : Lifecycle.probeInit c s₁ with ⟨s₂, r⟩
          rw [hprobe] at h
          obtain ⟨hkept, hports⟩ := hkept.probeInit
            (hprobeList.trans (by rw [← hbefore]; exact hp.probeList))
            (hprobeMp.trans (by rw [← hbefore]; exact hp.probeMp)) hprobe
          have hidle : s₂.ports.dev.started = [] := by
            rw [hports]
            exact hidle
          cases r with
          | error err =>
              obtain ⟨rfl, rfl⟩ := Prod.mk.inj (Option.some.inj h)
              exact hkept.stops hidle
          | ok probe =>
              rcases hstart : Port.portStart c.dpdk s₂.ports with ⟨ports, ret⟩
              simp only [hstart] at h
              obtain ⟨hsame, hfail, hon⟩ := Port.portStart_started hidle hstart
              split at h
              case isTrue hneg =>
                obtain ⟨rfl, rfl⟩ := Prod.mk.inj (Option.some.inj h)
                exact (hkept.same hsame).stops (hfail hneg)
              case isFalse =>
                obtain ⟨rfl, rfl⟩ := Prod.mk.inj (Option.some.inj h)
                exact ⟨hkept.same hsame, fun heq => absurd heq (Option.some_ne_none _),
                  fun sys' heq => by cases heq; rfl, hon⟩

end PktSender.Lifecycle
