/-
An RX/TX lcore goes round its ports.

# The rounds

Whatever the other threads do, the polls of an lcore go round its list of RX
ports, and its calls of `port_transmit` round that of its TX ports: whole
rounds and the beginning of one (`Along`, by where the lcore is). So it polls
none of its ports twice more often than another (`run_fair`).
-/
import PktSender.Launch.Proofs.Rate
import PktSender.Lib.RoundRobin

namespace PktSender.Launch

open Port (Job portIsEnabled rxqRx txqTx)
open Transmitter (Call)
open RoundRobin

variable {c : Cfg} {s s' : Sys} {a : Act} {l : UInt8}

-- ============================================================= what is seen

/-- The port an lcore polls in its next step, if it polls one. -/
def rxPort (s : Sys) (lcoreid : UInt8) : Option UInt8 :=
  match s.pc lcoreid with
  | .rx k => ((s.lcoreList lcoreid).jobs .rx)[k]?
  | _ => none

/-- The poll of an lcore in a step. -/
def pollOf (l : UInt8) (s : Sys) : Act → List UInt8
  | .lcore lcoreid _ _ => if lcoreid = l then (rxPort s l).toList else []
  | .probe _ => []

/-- Its call of `port_transmit`. -/
def offerOf (l : UInt8) (s : Sys) : Act → List UInt8
  | .lcore lcoreid _ _ => if lcoreid = l then (txPort s l).toList else []
  | .probe _ => []

/-- A step of this lcore. -/
def Act.isOf (l : UInt8) : Act → Bool
  | .lcore lcoreid _ _ => lcoreid = l
  | .probe _ => false

-- ============================================================== one step

/-- Where an lcore goes from where it is. -/
inductive Moves (rx tx : List UInt8) (flags jobState : UInt8) : Pc → Pc → Prop
  | leave : jobState &&& flags = 0 → Moves rx tx flags jobState .head .done
  | enter : jobState &&& flags ≠ 0 → Moves rx tx flags jobState .head (.rx 0)
  | poll {k : ℕ} {p : UInt8} : rx[k]? = some p → Moves rx tx flags jobState (.rx k) (.rx (k + 1))
  | skip {k : ℕ} : rx[k]? = none → jobState &&& (1 <<< Probe.lcoreJobTx) = 0 →
      Moves rx tx flags jobState (.rx k) .head
  | turn {k : ℕ} : rx[k]? = none → jobState &&& (1 <<< Probe.lcoreJobTx) ≠ 0 →
      Moves rx tx flags jobState (.rx k) (.tx 0)
  | offer {k : ℕ} {p : UInt8} {pc : Pc} : tx[k]? = some p →
      pc = .tx (k + 1) ∨ pc = .sending ∨ pc = .done → Moves rx tx flags jobState (.tx k) pc
  | again {k : ℕ} : tx[k]? = none → Moves rx tx flags jobState (.tx k) .head

/-- A call of `port_transmit` goes on to the next port, hangs, or fails and ends the
lcore. -/
theorem portTransmit_moves (s : Sys) (lcoreid q : UInt8) (k : ℕ) (call : Call) :
    (portTransmit s lcoreid k q call).pc lcoreid = .tx (k + 1) ∨
      (portTransmit s lcoreid k q call).pc lcoreid = .sending ∨
      (portTransmit s lcoreid k q call).pc lcoreid = .done := by
  unfold portTransmit
  simp only
  split
  case h_1 => exact .inr (.inl (Function.update_self ..))
  case h_2 r hr =>
    by_cases hret : r.ret < 0
    · exact .inr (.inr (by simp [Sys.setPc, hret]))
    · exact .inl (by simp [Sys.setPc, hret])

/-- A step moves the lcore it is of, and no other. -/
theorem lcoreStep_moves {jobState : UInt8} {call : Call}
    (h : lcoreStep s l jobState call = some s') :
    s'.lcoreList = s.lcoreList ∧ (∀ l', l' ≠ l → s'.pc l' = s.pc l') ∧
      Moves ((s.lcoreList l).jobs .rx) ((s.lcoreList l).jobs .tx) (jobFlags (s.lcoreList l))
        jobState (s.pc l) (s'.pc l) := by
  have hset : ∀ (t : Sys) (pc : Pc), t.lcoreList = s.lcoreList → t.pc = s.pc →
      Moves ((s.lcoreList l).jobs .rx) ((s.lcoreList l).jobs .tx) (jobFlags (s.lcoreList l))
        jobState (s.pc l) pc →
      (t.setPc l pc).lcoreList = s.lcoreList ∧ (∀ l', l' ≠ l → (t.setPc l pc).pc l' = s.pc l') ∧
        Moves ((s.lcoreList l).jobs .rx) ((s.lcoreList l).jobs .tx) (jobFlags (s.lcoreList l))
          jobState (s.pc l) ((t.setPc l pc).pc l) := by
    intro t pc hlist hpc hmoves
    refine ⟨hlist, fun l' hl' => ?_, ?_⟩
    · exact (Function.update_of_ne hl' _ _).trans (congrFun hpc l')
    · rwa [show (t.setPc l pc).pc l = pc from Function.update_self ..]
  unfold lcoreStep at h
  simp only at h
  cases hpc : s.pc l with
  | head =>
      rw [hpc] at h hset
      simp only at h
      split at h
      case isTrue hno => exact Option.some.inj h ▸ hset s _ rfl rfl (.leave hno)
      case isFalse hyes => exact Option.some.inj h ▸ hset s _ rfl rfl (.enter hyes)
  | rx k =>
      rw [hpc] at h hset
      simp only at h
      cases hport : ((s.lcoreList l).jobs .rx)[k]? with
      | some q =>
          rw [hport] at h
          exact Option.some.inj h ▸ hset (processRx s q) _ rfl rfl (.poll hport)
      | none =>
          rw [hport] at h
          simp only at h
          split at h
          case isTrue hno => exact Option.some.inj h ▸ hset s _ rfl rfl (.skip hport hno)
          case isFalse hyes => exact Option.some.inj h ▸ hset s _ rfl rfl (.turn hport hyes)
  | tx k =>
      rw [hpc] at h hset
      simp only at h
      cases hport : ((s.lcoreList l).jobs .tx)[k]? with
      | some q =>
          rw [hport] at h
          obtain rfl := Option.some.inj h
          have helse := portTransmit_elsewhere s l q k call
          exact ⟨helse.lcoreList, helse.sending, .offer hport (portTransmit_moves s l q k call)⟩
      | none =>
          rw [hport] at h
          exact Option.some.inj h ▸ hset s _ rfl rfl (.again hport)
  | sending =>
      rw [hpc] at h
      cases h
  | done =>
      rw [hpc] at h
      cases h

/-- A step of anything else leaves the lcore where it is. -/
theorem step_other (h : step c s a = some s') (hother : a.isOf l = false) :
    s'.lcoreList = s.lcoreList ∧ s'.pc l = s.pc l ∧ pollOf l s a = [] ∧ offerOf l s a = [] := by
  cases a with
  | lcore lcoreid jobState call =>
      have hne : lcoreid ≠ l := of_decide_eq_false hother
      obtain ⟨hlist, hpc, -⟩ := lcoreStep_moves (h : lcoreStep s lcoreid jobState call = some s')
      exact ⟨hlist, hpc l hne.symm, if_neg hne, if_neg hne⟩
  | probe act =>
      obtain ⟨probe, -, rfl⟩ := Option.map_eq_some_iff.mp h
      exact ⟨rfl, rfl, rfl, rfl⟩

-- ================================================================ the rounds

/-- The polls and the calls so far, by where the lcore is. -/
def Along (rx tx polls offers : List UInt8) : Pc → Prop
  | .head => ∃ n m, polls = rounds rx n 0 ∧ offers = rounds tx m 0
  | .rx k => ∃ n m, polls = rounds rx n k ∧ offers = rounds tx m 0
  | .tx k => ∃ n m, polls = rounds rx n 0 ∧ offers = rounds tx m k
  | .sending => ∃ n m k, polls = rounds rx n 0 ∧ offers = rounds tx m k
  | .done => ∃ n m k, polls = rounds rx n 0 ∧ offers = rounds tx m k

variable {rx tx polls offers : List UInt8} {flags jobState : UInt8} {pc pc' : Pc}

theorem Along.goRound (h : Along rx tx polls offers pc) : Rounds rx polls ∧ Rounds tx offers := by
  cases pc with
  | head => obtain ⟨n, m, hp, ho⟩ := h; exact ⟨⟨n, 0, hp⟩, ⟨m, 0, ho⟩⟩
  | rx k => obtain ⟨n, m, hp, ho⟩ := h; exact ⟨⟨n, k, hp⟩, ⟨m, 0, ho⟩⟩
  | tx k => obtain ⟨n, m, hp, ho⟩ := h; exact ⟨⟨n, 0, hp⟩, ⟨m, k, ho⟩⟩
  | sending => obtain ⟨n, m, k, hp, ho⟩ := h; exact ⟨⟨n, 0, hp⟩, ⟨m, k, ho⟩⟩
  | done => obtain ⟨n, m, k, hp, ho⟩ := h; exact ⟨⟨n, 0, hp⟩, ⟨m, k, ho⟩⟩

/-- The port polled from a place, and the one transmitted on. -/
def polled (rx : List UInt8) : Pc → Option UInt8
  | .rx k => rx[k]?
  | _ => none

def offered (tx : List UInt8) : Pc → Option UInt8
  | .tx k => tx[k]?
  | _ => none

theorem rxPort_eq (s : Sys) (l : UInt8) :
    rxPort s l = polled ((s.lcoreList l).jobs .rx) (s.pc l) := by
  unfold rxPort
  cases s.pc l <;> rfl

theorem txPort_eq (s : Sys) (l : UInt8) :
    txPort s l = offered ((s.lcoreList l).jobs .tx) (s.pc l) := by
  unfold txPort
  cases s.pc l <;> rfl

/-- A move of the lcore is the next port of its round. -/
theorem Along.move (h : Along rx tx polls offers pc) (hm : Moves rx tx flags jobState pc pc') :
    Along rx tx (polls ++ (polled rx pc).toList) (offers ++ (offered tx pc).toList) pc' := by
  cases hm with
  | leave =>
      obtain ⟨n, m, rfl, rfl⟩ := h
      exact ⟨n, m, 0, List.append_nil _, List.append_nil _⟩
  | enter =>
      obtain ⟨n, m, rfl, rfl⟩ := h
      exact ⟨n, m, List.append_nil _, List.append_nil _⟩
  | poll hport =>
      obtain ⟨n, m, rfl, rfl⟩ := h
      refine ⟨n, m, ?_, List.append_nil _⟩
      rw [polled, hport]
      exact rounds_succ hport
  | skip hport =>
      obtain ⟨n, m, rfl, rfl⟩ := h
      refine ⟨n + 1, m, ?_, List.append_nil _⟩
      rw [polled, hport, rounds_done hport]
      exact List.append_nil _
  | turn hport =>
      obtain ⟨n, m, rfl, rfl⟩ := h
      refine ⟨n + 1, m, ?_, List.append_nil _⟩
      rw [polled, hport, rounds_done hport]
      exact List.append_nil _
  | @offer k p pc' hport hpc' =>
      obtain ⟨n, m, rfl, rfl⟩ := h
      have hround : rounds tx m k ++ (offered tx (.tx k)).toList = rounds tx m (k + 1) := by
        rw [offered, hport]
        exact rounds_succ hport
      rw [hround]
      rcases hpc' with rfl | rfl | rfl
      · exact ⟨n, m, List.append_nil _, rfl⟩
      · exact ⟨n, m, k + 1, List.append_nil _, rfl⟩
      · exact ⟨n, m, k + 1, List.append_nil _, rfl⟩
  | again hport =>
      obtain ⟨n, m, rfl, rfl⟩ := h
      refine ⟨n, m + 1, List.append_nil _, ?_⟩
      rw [offered, hport, rounds_done hport]
      exact List.append_nil _

/-- A step of anything, seen from this lcore. -/
theorem step_along (h : Along ((s.lcoreList l).jobs .rx) ((s.lcoreList l).jobs .tx) polls offers
    (s.pc l)) (hstep : step c s a = some s') :
    s'.lcoreList = s.lcoreList ∧
      Along ((s.lcoreList l).jobs .rx) ((s.lcoreList l).jobs .tx) (polls ++ pollOf l s a)
        (offers ++ offerOf l s a) (s'.pc l) := by
  by_cases hof : a.isOf l = true
  · cases a with
    | probe act => cases hof
    | lcore lcoreid jobState call =>
        obtain rfl : lcoreid = l := of_decide_eq_true hof
        obtain ⟨hlist, -, hmoves⟩ :=
          lcoreStep_moves (hstep : lcoreStep s lcoreid jobState call = some s')
        refine ⟨hlist, ?_⟩
        simp only [pollOf, offerOf, if_true, rxPort_eq, txPort_eq]
        exact h.move hmoves
  · obtain ⟨hlist, hpc, hpoll, hoffer⟩ := step_other hstep (Bool.not_eq_true _ ▸ hof)
    rw [hpoll, hoffer, List.append_nil, List.append_nil, hpc]
    exact ⟨hlist, h⟩

-- ============================================================ whose port it is

/-- Every port has one lcore for a job, whose list names it once. -/
structure Shared (c : Cfg) (s : Sys) : Prop where
  nodup : ∀ job l, l ≠ c.statLcore → ((s.lcoreList l).jobs job).Nodup
  owner : ∀ job p l l', l ≠ c.statLcore → l' ≠ c.statLcore → p ∈ (s.lcoreList l).jobs job →
    p ∈ (s.lcoreList l').jobs job → l = l'

theorem startUp_shared (h : startUp c = some s) : Shared c s := by
  obtain ⟨_, mapped, _, _, _, _, _, hcheck, hmap, -, -, -, -, -, rfl⟩ := startUp_eq_some h
  have happlied : c.Applied mapped := Mapping.initLcorePort_applied hcheck hmap
  refine ⟨fun job l hl => happlied.nodup_jobs job l hl, ?_⟩
  intro job p l l' hl hl' hmem hmem'
  have hlcore := happlied.lcoreMap_of_mem _ ((happlied.mem_jobs p job l hl).mp hmem)
  have hlcore' := happlied.lcoreMap_of_mem _ ((happlied.mem_jobs p job l' hl').mp hmem')
  exact hlcore.symm.trans hlcore'

theorem launch_eq (c : Cfg) (lcoreList : UInt8 → Mapping.LcoreConf) (l : UInt8) :
    launch c lcoreList l = .head ∨ launch c lcoreList l = .done := by
  unfold launch
  split_ifs
  · exact .inr rfl
  · exact .inr rfl
  · exact .inr rfl
  · exact .inl rfl

/-- At the start nothing was polled or offered. -/
theorem startUp_along (h : startUp c = some s) (l : UInt8) :
    Along ((s.lcoreList l).jobs .rx) ((s.lcoreList l).jobs .tx) [] [] (s.pc l) := by
  obtain ⟨_, mapped, _, _, _, _, _, -, -, -, -, -, -, -, rfl⟩ := startUp_eq_some h
  show Along _ _ [] [] (launch c mapped.lcoreList l)
  rcases launch_eq c mapped.lcoreList l with hpc | hpc
  · rw [hpc]
    exact ⟨0, 0, (rounds_zero _).symm, (rounds_zero _).symm⟩
  · rw [hpc]
    exact ⟨0, 0, 0, (rounds_zero _).symm, (rounds_zero _).symm⟩

/-- The RX bursts of a step are the poll of the lcore that makes it. -/
theorem lcoreStep_rxBursts {jobState : UInt8} {call : Call}
    (h : lcoreStep s l jobState call = some s') (p : UInt8) :
    s'.bursts.count (.rx p rxqRx)
      = s.bursts.count (.rx p rxqRx) + (rxPort s l).toList.count p := by
  have hmove : ∀ pc, (s.setPc l pc).bursts.count (.rx p rxqRx)
      = s.bursts.count (.rx p rxqRx) + ([] : List UInt8).count p := fun _ => rfl
  rw [rxPort_eq]
  unfold lcoreStep at h
  simp only at h
  cases hpc : s.pc l with
  | head =>
      rw [hpc] at h
      simp only at h
      split at h <;> exact Option.some.inj h ▸ hmove _
  | rx k =>
      rw [hpc] at h
      simp only at h
      cases hport : ((s.lcoreList l).jobs .rx)[k]? with
      | some q =>
          rw [hport] at h
          obtain rfl := Option.some.inj h
          rw [polled, hport]
          show ((.rx q rxqRx :: s.bursts : List Burst)).count (.rx p rxqRx)
            = s.bursts.count (.rx p rxqRx) + [q].count p
          rw [List.count_cons, List.count_singleton]
          congr 1
          simp
      | none =>
          rw [hport] at h
          rw [polled, hport]
          simp only at h
          split at h <;> exact Option.some.inj h ▸ hmove _
  | tx k =>
      rw [hpc] at h
      simp only at h
      cases hport : ((s.lcoreList l).jobs .tx)[k]? with
      | some q =>
          rw [hport] at h
          obtain rfl := Option.some.inj h
          obtain ⟨new, hnew, hall⟩ := portTransmit_bursts s l q k call
          have hnone : new.count (.rx p rxqRx) = 0 := by
            rw [List.count_eq_zero]
            intro hmem
            cases hall _ hmem
          rw [hnew, List.count_append, hnone, Nat.zero_add]
          rfl
      | none =>
          rw [hport] at h
          exact Option.some.inj h ▸ hmove _
  | sending =>
      rw [hpc] at h
      cases h
  | done =>
      rw [hpc] at h
      cases h

/-- A port is polled by its lcore alone. -/
theorem step_rxBursts (hr : Ready c s) (hs : Shared c s) {p : UInt8} (hl : l ≠ c.statLcore)
    (hmem : p ∈ (s.lcoreList l).jobs .rx) (h : step c s a = some s') :
    s'.bursts.count (.rx p rxqRx) = s.bursts.count (.rx p rxqRx) + (pollOf l s a).count p := by
  cases a with
  | lcore lcoreid jobState call =>
      have hstep : lcoreStep s lcoreid jobState call = some s' := h
      rw [lcoreStep_rxBursts hstep]
      by_cases hof : lcoreid = l
      · rw [pollOf, if_pos hof, hof]
      · -- another lcore polls another port
        rw [pollOf, if_neg hof]
        congr 1
        rw [List.count_nil, List.count_eq_zero, Option.mem_toList]
        intro hport
        have hother : lcoreid ≠ c.statLcore := hr.pc lcoreid (lcoreStep_cases hstep).1
        rw [rxPort_eq] at hport
        have hmem' : p ∈ (s.lcoreList lcoreid).jobs .rx := by
          cases hpc : s.pc lcoreid with
          | rx k =>
              rw [hpc] at hport
              exact List.mem_of_getElem? hport
          | _ =>
              rw [hpc] at hport
              cases hport
        exact hof (hs.owner .rx p lcoreid l hother hl hmem' hmem)
  | probe act =>
      obtain ⟨probe, -, rfl⟩ := Option.map_eq_some_iff.mp h
      show (probeBurst s.probe act ++ s.bursts).count _ = _
      rw [List.count_append, List.count_eq_zero.mpr, Nat.zero_add]
      · rfl
      · intro hmem
        unfold probeBurst at hmem
        split at hmem
        case h_1 =>
          split at hmem
          case h_1 => cases List.mem_singleton.mp hmem
          case h_2 => cases hmem
        case h_2 => cases hmem

-- ================================================================= any run

variable {s₀ : Sys} {acts : List Act}

theorem startUp_bursts (h : startUp c = some s) : s.bursts = [] := by
  obtain ⟨_, _, _, _, _, _, _, -, -, -, -, -, -, -, rfl⟩ := startUp_eq_some h
  rfl

theorem Shared.of_lcoreList_eq (h : Shared c s) (hlist : s'.lcoreList = s.lcoreList) :
    Shared c s' := by
  constructor <;> rw [hlist]
  · exact h.nodup
  · exact h.owner

/-- The polls of an lcore along a run. -/
theorem run_polls
    (h : Along ((s₀.lcoreList l).jobs .rx) ((s₀.lcoreList l).jobs .tx) [] [] (s₀.pc l))
    (hrun : Lts.run (step c) s₀ acts = some s) :
    Rounds ((s₀.lcoreList l).jobs .rx) (Lts.observe (step c) (pollOf l) s₀ acts) := by
  have hrule := @Lts.run_observed Sys Act (step c) UInt8 (pollOf l)
    (fun t polls => t.lcoreList = s₀.lcoreList ∧ ∃ offers,
      Along ((s₀.lcoreList l).jobs .rx) ((s₀.lcoreList l).jobs .tx) polls offers (t.pc l))
    (fun {t t' a polls} hI hstep => by
      obtain ⟨hlist, offers, halong⟩ := hI
      rw [← hlist] at halong ⊢
      obtain ⟨hlist', halong'⟩ := step_along halong hstep
      exact ⟨hlist', _, halong'⟩)
    acts s₀ s [] ⟨rfl, [], h⟩ hrun
  obtain ⟨-, offers, halong⟩ := hrule
  exact halong.goRound.1

/-- Its calls of `port_transmit`. -/
theorem run_offers
    (h : Along ((s₀.lcoreList l).jobs .rx) ((s₀.lcoreList l).jobs .tx) [] [] (s₀.pc l))
    (hrun : Lts.run (step c) s₀ acts = some s) :
    Rounds ((s₀.lcoreList l).jobs .tx) (Lts.observe (step c) (offerOf l) s₀ acts) := by
  have hrule := @Lts.run_observed Sys Act (step c) UInt8 (offerOf l)
    (fun t offers => t.lcoreList = s₀.lcoreList ∧ ∃ polls,
      Along ((s₀.lcoreList l).jobs .rx) ((s₀.lcoreList l).jobs .tx) polls offers (t.pc l))
    (fun {t t' a offers} hI hstep => by
      obtain ⟨hlist, polls, halong⟩ := hI
      rw [← hlist] at halong ⊢
      obtain ⟨hlist', halong'⟩ := step_along halong hstep
      exact ⟨hlist', _, halong'⟩)
    acts s₀ s [] ⟨rfl, [], h⟩ hrun
  obtain ⟨-, polls, halong⟩ := hrule
  exact halong.goRound.2

/-- The RX bursts of a port along a run. -/
theorem run_rxBursts (hr : Ready c s₀) (hs : Shared c s₀) {p : UInt8} (hl : l ≠ c.statLcore)
    (hmem : p ∈ (s₀.lcoreList l).jobs .rx) (hnil : s₀.bursts = [])
    (hrun : Lts.run (step c) s₀ acts = some s) :
    s.bursts.count (.rx p rxqRx) = (Lts.observe (step c) (pollOf l) s₀ acts).count p := by
  have hrule := @Lts.run_observed Sys Act (step c) UInt8 (pollOf l)
    (fun t polls => Ready c t ∧ t.lcoreList = s₀.lcoreList ∧
      t.bursts.count (.rx p rxqRx) = polls.count p)
    (fun {t t' a polls} hI hstep => by
      obtain ⟨hready, hlist, hcount⟩ := hI
      have hone := step_rxBursts hready (hs.of_lcoreList_eq hlist) hl (by rwa [hlist]) hstep
      refine ⟨hready.step hstep, (step_cases hstep).1.lcoreList.trans hlist, ?_⟩
      rw [hone, hcount, List.count_append])
    acts s₀ s [] ⟨hr, rfl, by rw [hnil]; rfl⟩ hrun
  exact hrule.2.2

/-- The fairness of the RX/TX loop. After start-up, in every run of all the
threads, the polls of an lcore are whole rounds of its RX ports and the
beginning of one, and its calls of `port_transmit` are the same of its TX ports.
The RX bursts of its ports are its own polls, each of them: a port is polled by
nobody else. So it never serves one of its ports two times more than another. -/
theorem run_fair (hstart : startUp c = some s₀) (hrun : Lts.run (step c) s₀ acts = some s)
    {l : UInt8} (hl : l ≠ c.statLcore) :
    (Rounds ((s₀.lcoreList l).jobs .rx) (Lts.observe (step c) (pollOf l) s₀ acts) ∧
      Rounds ((s₀.lcoreList l).jobs .tx) (Lts.observe (step c) (offerOf l) s₀ acts)) ∧
    (∀ p ∈ (s₀.lcoreList l).jobs .rx,
      s.bursts.count (.rx p rxqRx) = (Lts.observe (step c) (pollOf l) s₀ acts).count p) ∧
    (∀ p ∈ (s₀.lcoreList l).jobs .rx, ∀ q ∈ (s₀.lcoreList l).jobs .rx,
      s.bursts.count (.rx p rxqRx) ≤ s.bursts.count (.rx q rxqRx) + 1) ∧
    (∀ p ∈ (s₀.lcoreList l).jobs .tx, ∀ q ∈ (s₀.lcoreList l).jobs .tx,
      (Lts.observe (step c) (offerOf l) s₀ acts).count p
        ≤ (Lts.observe (step c) (offerOf l) s₀ acts).count q + 1) := by
  have hshared := startUp_shared hstart
  have hpolls := run_polls (startUp_along hstart l) hrun
  have hoffers := run_offers (startUp_along hstart l) hrun
  have hown : ∀ p ∈ (s₀.lcoreList l).jobs .rx, s.bursts.count (.rx p rxqRx)
      = (Lts.observe (step c) (pollOf l) s₀ acts).count p := fun p hp =>
    run_rxBursts (startUp_ready hstart) hshared hl hp (startUp_bursts hstart) hrun
  refine ⟨⟨hpolls, hoffers⟩, hown, ?_, ?_⟩
  · intro p hp q hq
    rw [hown p hp, hown q hq]
    exact hpolls.count_le (hshared.nodup .rx l hl) hq
  · intro p hp q hq
    exact hoffers.count_le (hshared.nodup .tx l hl) hq

/-- Two ports, received on by lcore 1 and sent on by lcore 2. -/
def twoPorts : Cfg :=
  { onePort [⟨0, .rx, 1⟩, ⟨1, .rx, 1⟩, ⟨0, .tx, 2⟩, ⟨1, .tx, 2⟩] with
    rteEthDevCount := 2
    portmask := 3 }

/-- Lcore 1 goes round once and polls the first port again; lcore 2 takes a step
in between. -/
def roundAndPoll : List Act :=
  List.replicate 3 (.lcore 1 3 (.minimal 0)) ++ [.lcore 2 3 (.minimal 0)]
    ++ List.replicate 4 (.lcore 1 3 (.minimal 0))

theorem run_fair_twoPorts :
    ∃ s₀ s, startUp twoPorts = some s₀ ∧ Lts.run (step twoPorts) s₀ roundAndPoll = some s ∧
      s.bursts.count (.rx 0 rxqRx) = 2 ∧
      (Lts.observe (step twoPorts) (pollOf 1) s₀ roundAndPoll).count 0 = 2 ∧
      s.bursts.count (.rx 0 rxqRx) ≤ s.bursts.count (.rx 1 rxqRx) + 1 := by
  have h : ((startUp twoPorts).bind fun s₀ =>
      (Lts.run (step twoPorts) s₀ roundAndPoll).map fun s =>
        ((s₀.lcoreList 1).jobs .rx, s.bursts.count (.rx 0 rxqRx))) = some ([0, 1], 2) := by
    decide +kernel
  obtain ⟨s₀, hstart, h⟩ := Option.bind_eq_some_iff.mp h
  obtain ⟨s, hrun, h⟩ := Option.map_eq_some_iff.mp h
  obtain ⟨hlist, hcount⟩ := Prod.mk.inj h
  obtain ⟨-, hown, hfair, -⟩ :=
    run_fair hstart hrun (show (1 : UInt8) ≠ twoPorts.statLcore by decide)
  rw [hlist] at hown hfair
  refine ⟨s₀, s, hstart, hrun, hcount, ?_, hfair 0 (by decide) 1 (by decide)⟩
  rw [← hown 0 (by decide)]
  exact hcount

end PktSender.Launch
