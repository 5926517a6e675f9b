/-
The numbering of probes.

`next_idx` is advanced when a frame is built, and a frame is built only when
none is pending, so at every step `next_idx` is one more than the number of
accepted frames when a frame is pending and equal to it otherwise. That, with
the frame a pending mbuf holds, is `ProbeInv`; `step_cases` says what a step
can do.

# The mbuf that is freed twice

An accepted frame is with the driver, and its one reference is the driver's to
release; `__process_probe` releases it as well. So the mbuf may be handed out
again while the driver has it, and the completion then puts it back in the pool
when it is pending at another port. The next `rte_pktmbuf_alloc` that hands it
out lets that port's frame be overwritten (`overwritten_of_not_fresh`). In the
runs where this does not happen (`Fresh`) every step keeps the invariant.
-/
import PktSender.Probe.Basic
import PktSender.Lib.Lts
import Mathlib.Algebra.Group.Nat.Defs

namespace PktSender.Probe

variable {cfg : Cfg} {s s' : ProbeState}

-- ================================================================= one step

/-- A port the callback serves. -/
def Cfg.Serves (cfg : Cfg) (i : UInt8) : Prop :=
  i < cfg.nbPorts ∧ cfg.portIsEnabled i = true

/-- The state after a frame was built in `m` for port `i`. -/
def ProbeState.build (cfg : Cfg) (s : ProbeState) (i : UInt8) (m : Nat) :
    ProbeState :=
  { s with
    mem := Function.update s.mem m
      { pktLen := probePktLen.toUInt32
        dataLen := probePktLen
        data := fillProbe (s.probeList i)
        olFlags := (s.mem m).olFlags ||| cfg.pktTxIeee1588Tmst }
    probeMp := s.probeMp.erase m
    refcnt := Function.update s.refcnt m 1
    probeList := Function.update s.probeList i
      { s.probeList i with
        nextPkt := some m, nextIdx := (s.probeList i).nextIdx + 1 }
    pc := .send i }

/-- The state after the frame in `m` was offered by port `i` and not taken. -/
def ProbeState.keep (cfg : Cfg) (tracing : Bool) (s : ProbeState) (i : UInt8)
    (m : Nat) : ProbeState :=
  { s with
    mem := Function.update s.mem m (traceHwTxPrepare cfg tracing (s.mem m))
    pc := .next (i + 1) }

/-- The state after it was taken. -/
def ProbeState.take (cfg : Cfg) (tracing : Bool) (s : ProbeState) (i : UInt8)
    (m : Nat) : ProbeState :=
  { ProbeState.pktmbufFree { s with
      mem := Function.update s.mem m (traceHwTxPrepare cfg tracing (s.mem m))
      accepted := s.accepted ++ [((s.probeList i).portid,
        (traceHwTxPrepare cfg tracing (s.mem m)).data)]
      driver := m :: s.driver } m with
    probeList := Function.update s.probeList i
      { s.probeList i with nextPkt := none }
    pc := .next (i + 1) }

/-- The state after the driver released its reference to `m`. -/
def ProbeState.completed (s : ProbeState) (m : Nat) : ProbeState :=
  ProbeState.pktmbufFree { s with driver := s.driver.erase m } m

/-- What a step can do. -/
theorem step_cases {a : Act} (h : step cfg s a = some s') :
    (∃ pc, s' = { s with pc := pc } ∧ ∀ i, pc = .send i → cfg.Serves i)
      ∨ (∃ i m, a = .next (some m) ∧ s.pc = .next i ∧ cfg.Serves i
          ∧ (s.probeList i).nextPkt = none ∧ m ∈ s.probeMp ∧ s' = s.build cfg i m)
      ∨ (∃ tracing i m, s.pc = .send i ∧ (s.probeList i).nextPkt = some m
          ∧ s' = s.keep cfg tracing i m)
      ∨ (∃ tracing i m, s.pc = .send i ∧ (s.probeList i).nextPkt = some m
          ∧ s' = s.take cfg tracing i m)
      ∨ ∃ m, a = .complete m ∧ m ∈ s.driver ∧ s' = s.completed m := by
  cases a with
  | fire jobState =>
      simp only [step] at h
      split at h
      next hpc =>
        split at h
        · cases h
          exact .inl ⟨s.pc, rfl, by rw [hpc]; nofun⟩
        · cases h
          exact .inl ⟨_, rfl, nofun⟩
      next => cases h
  | next alloc =>
      simp only [step] at h
      split at h
      next i hpc =>
        split at h
        next => cases h; exact .inl ⟨_, rfl, nofun⟩
        next hlt =>
          split at h
          next => cases h; exact .inl ⟨_, rfl, nofun⟩
          next hen =>
            have hserves : cfg.Serves i :=
              ⟨UInt8.not_le.mp hlt, by simpa using hen⟩
            split at h
            next hnone =>
              cases alloc with
              | none =>
                  cases h
                  exact .inl ⟨_, rfl, nofun⟩
              | some m =>
                  simp only [constructProbe] at h
                  split at h
                  next hm =>
                    cases h
                    exact .inr (.inl ⟨i, m, rfl, hpc, hserves, hnone, hm, rfl⟩)
                  next => cases h
            next =>
              cases h
              refine .inl ⟨_, rfl, fun j hj => ?_⟩
              cases hj
              exact hserves
      next => cases h
  | send tracing ret =>
      simp only [step] at h
      split at h
      next i hpc =>
        split at h
        next => cases h
        next m hm =>
          split at h
          next => cases h
          split at h
          · cases h
            exact .inr (.inr (.inl ⟨tracing, i, m, hpc, hm, rfl⟩))
          · cases h
            exact .inr (.inr (.inr (.inl ⟨tracing, i, m, hpc, hm, rfl⟩)))
      next => cases h
  | complete m =>
      simp only [step] at h
      split at h
      next hm =>
        cases h
        exact .inr (.inr (.inr (.inr ⟨m, rfl, hm, rfl⟩)))
      next => cases h

/-- The head of the loop at a port that has no frame. -/
theorem step_build {i : UInt8} {m : Nat} (hpc : s.pc = .next i)
    (hserves : cfg.Serves i) (hnone : (s.probeList i).nextPkt = none) :
    step cfg s (.next (some m))
      = if m ∈ s.probeMp then some (s.build cfg i m) else none := by
  simp only [step, hpc, if_neg (UInt8.not_le.mpr hserves.1), hserves.2, hnone,
    Bool.not_true, Bool.false_eq_true, if_false, if_true, constructProbe]
  split
  · rfl
  · rfl

/-- If the step calls `rte_pktmbuf_alloc`, it is not handed an mbuf that is
some port's pending frame. -/
def Fresh (cfg : Cfg) (s : ProbeState) : Act → Prop
  | .next (some m) =>
      match s.pc with
      | .next i =>
          cfg.Serves i → (s.probeList i).nextPkt = none →
            ∀ j, (s.probeList j).nextPkt ≠ some m
      | _ => True
  | _ => True

instance (cfg : Cfg) (i : UInt8) : Decidable (cfg.Serves i) :=
  inferInstanceAs (Decidable (_ ∧ _))

instance (s : ProbeState) (m : Nat) :
    Decidable (∀ j, (s.probeList j).nextPkt ≠ some m) :=
  decidable_of_iff (∀ k : Fin 256, (s.probeList (UInt8.ofNat k)).nextPkt ≠ some m)
    ⟨fun h j => by simpa using h ⟨j.toNat, j.toNat_lt⟩, fun h k => h (UInt8.ofNat k)⟩

instance (cfg : Cfg) (s : ProbeState) (a : Act) : Decidable (Fresh cfg s a) := by
  unfold Fresh
  split
  · split <;> infer_instance
  · infer_instance

theorem Fresh.ne {i j : UInt8} {m : Nat} (hf : Fresh cfg s (.next (some m)))
    (hpc : s.pc = .next i) (hserves : cfg.Serves i)
    (hnone : (s.probeList i).nextPkt = none) : (s.probeList j).nextPkt ≠ some m := by
  unfold Fresh at hf
  rw [hpc] at hf
  exact hf hserves hnone j

-- ============================================================ the invariant

/-- The frames port `i` got accepted, in order. -/
def ProbeState.acceptedBy (s : ProbeState) (i : UInt8) : List PktFmt :=
  (s.accepted.filter fun x => x.1 = i).map Prod.snd

/-- The frames built for port `i`. -/
def ProbeState.built (s : ProbeState) (i : UInt8) : Nat :=
  (s.acceptedBy i).length + if (s.probeList i).nextPkt.isSome then 1 else 0

/-- The control block of a port at the start. -/
def Cfg.startCtl (cfg : Cfg) (i : UInt8) : ProbeCtl :=
  if i < cfg.nbPorts && cfg.portIsEnabled i then initLocalProbe cfg i txqLatency
  else .zero

/-- The `k`-th frame of port `i`. -/
def Cfg.frame (cfg : Cfg) (i : UInt8) (k : Nat) : PktFmt :=
  fillProbe { cfg.startCtl i with nextIdx := UInt64.ofNat k }

theorem startCtl_portid {i : UInt8} (h : cfg.Serves i) :
    (cfg.startCtl i).portid = i := by
  unfold Cfg.startCtl
  rw [if_pos (by rw [Bool.and_eq_true, decide_eq_true_eq]; exact h)]
  rfl

theorem startCtl_eq {i : UInt8} :
    cfg.startCtl i = { cfg.startCtl i with nextIdx := 0, nextPkt := none } := by
  unfold Cfg.startCtl
  split
  · rfl
  · rfl

/-- What holds at every step. -/
structure ProbeInv (cfg : Cfg) (s : ProbeState) : Prop where
  ctl : ∀ i, s.probeList i = { cfg.startCtl i with
    nextIdx := UInt64.ofNat (s.built i), nextPkt := (s.probeList i).nextPkt }
  pc : ∀ i, s.pc = .send i → cfg.Serves i
  frames : ∀ i, s.acceptedBy i
    = (List.range (s.acceptedBy i).length).map (cfg.frame i)
  served : ∀ i, s.acceptedBy i ≠ [] → cfg.Serves i
  holder : ∀ i m, (s.probeList i).nextPkt = some m → cfg.Serves i
  pending : ∀ i m, (s.probeList i).nextPkt = some m →
    (s.mem m).data = cfg.frame i (s.acceptedBy i).length
      ∧ (s.mem m).olFlags ||| cfg.pktTxIeee1588Tmst = (s.mem m).olFlags
  apart : ∀ i j m, (s.probeList i).nextPkt = some m →
    (s.probeList j).nextPkt = some m → i = j

/-- The flag of a pending frame is set already. -/
theorem traceHwTxPrepare_eq {tracing : Bool} {pkt : Mbuf}
    (h : pkt.olFlags ||| cfg.pktTxIeee1588Tmst = pkt.olFlags) :
    traceHwTxPrepare cfg tracing pkt = pkt := by
  unfold traceHwTxPrepare
  split
  · rfl
  · split
    · rfl
    · split
      · rw [h]
      · rfl

namespace ProbeInv

theorem init {mallocOk poolCreateOk : Bool} {mem : Nat → Mbuf}
    (h : probeInit cfg mallocOk poolCreateOk mem = .ok s) : ProbeInv cfg s := by
  unfold probeInit at h
  split at h
  next => cases h
  next =>
    split at h
    next => cases h
    next =>
      cases h
      have hno : ∀ i m, (cfg.startCtl i).nextPkt ≠ some m := fun i m hm => by
        rw [startCtl_eq] at hm
        cases hm
      refine ⟨fun i => ?_, nofun, fun _ => rfl, fun _ h => absurd rfl h,
        fun i m h => absurd h (hno i m), fun i m h => absurd h (hno i m),
        fun i _ m h => absurd h (hno i m)⟩
      show cfg.startCtl i = { cfg.startCtl i with
        nextIdx := UInt64.ofNat (0 + if (cfg.startCtl i).nextPkt.isSome then 1 else 0)
        nextPkt := (cfg.startCtl i).nextPkt }
      rw [startCtl_eq]
      rfl

/-- A step that only moves the callback. -/
theorem setPc (hi : ProbeInv cfg s) {pc : Pc}
    (hpc : ∀ i, pc = .send i → cfg.Serves i) : ProbeInv cfg { s with pc := pc } :=
  { hi with pc := hpc }

/-- The counts, the pool and what the driver has do not matter. -/
theorem setDpdk (hi : ProbeInv cfg s) (refcnt : Nat → UInt16)
    (probeMp driver : List Nat) :
    ProbeInv cfg { s with refcnt := refcnt, probeMp := probeMp, driver := driver } :=
  { hi with }

/-- A frame that is not taken is left as it was. -/
theorem keep_eq (hi : ProbeInv cfg s) {tracing : Bool} {i : UInt8} {m : Nat}
    (hm : (s.probeList i).nextPkt = some m) :
    s.keep cfg tracing i m = { s with pc := .next (i + 1) } := by
  unfold ProbeState.keep
  rw [traceHwTxPrepare_eq (hi.pending i m hm).2, Function.update_eq_self]

/-- A frame that is taken is the one that was pending. -/
theorem take_eq (hi : ProbeInv cfg s) {tracing : Bool} {i : UInt8} {m : Nat}
    (hpc : s.pc = .send i) (hm : (s.probeList i).nextPkt = some m) :
    s.take cfg tracing i m
      = { ProbeState.pktmbufFree { s with
            accepted := s.accepted ++ [(i, (s.mem m).data)]
            driver := m :: s.driver } m with
          probeList := Function.update s.probeList i
            { s.probeList i with nextPkt := none }
          pc := .next (i + 1) } := by
  have hport : (s.probeList i).portid = i := by
    rw [hi.ctl i]
    exact startCtl_portid (hi.pc i hpc)
  unfold ProbeState.take
  rw [traceHwTxPrepare_eq (hi.pending i m hm).2, Function.update_eq_self, hport]

/-- Building a frame: `next_idx` goes ahead of the accepted frames. -/
theorem build (hi : ProbeInv cfg s) {i : UInt8} {m : Nat} (hserves : cfg.Serves i)
    (hnone : (s.probeList i).nextPkt = none)
    (hfresh : ∀ j, (s.probeList j).nextPkt ≠ some m) :
    ProbeInv cfg (s.build cfg i m) := by
  have hself : ((s.build cfg i m).probeList i) = { s.probeList i with
      nextPkt := some m, nextIdx := (s.probeList i).nextIdx + 1 } :=
    Function.update_self ..
  have hother : ∀ {j}, j ≠ i → (s.build cfg i m).probeList j = s.probeList j :=
    fun hj => Function.update_of_ne hj ..
  have hacc : ∀ j, (s.build cfg i m).acceptedBy j = s.acceptedBy j := fun _ => rfl
  have hctl := hi.ctl i
  have hbuilt : s.built i = (s.acceptedBy i).length := by
    rw [ProbeState.built, hnone]
    rfl
  -- a pending mbuf of another port is not the new one
  have hne : ∀ {j m'}, j ≠ i → ((s.build cfg i m).probeList j).nextPkt = some m' →
      (s.probeList j).nextPkt = some m' ∧ m' ≠ m := by
    intro j m' hj hm'
    rw [hother hj] at hm'
    exact ⟨hm', fun he => hfresh j (he ▸ hm')⟩
  refine ⟨fun j => ?_, fun j hj => ?_, hi.frames, hi.served, fun j m' hm' => ?_,
    fun j m' hm' => ?_, fun j k m' hj hk => ?_⟩
  · by_cases hji : j = i
    · subst hji
      rw [ProbeState.built, hself, hacc, hctl, hbuilt]
      show ProbeCtl.mk _ _ (UInt64.ofNat (s.acceptedBy j).length + 1) _ _ = _
      rw [show UInt64.ofNat (s.acceptedBy j).length + 1
        = UInt64.ofNat ((s.acceptedBy j).length + 1) from (UInt64.ofNat_add _ 1).symm]
      rfl
    · rw [ProbeState.built, hother hji, hacc]
      exact hi.ctl j
  · cases hj
    exact hserves
  · by_cases hji : j = i
    · exact hji ▸ hserves
    · exact hi.holder j m' (hne hji hm').1
  · by_cases hji : j = i
    · subst hji
      rw [hself] at hm'
      cases hm'
      rw [show (s.build cfg j m).mem m = _ from Function.update_self .., hacc]
      refine ⟨?_, ?_⟩
      · show fillProbe (s.probeList j) = _
        rw [hctl, hbuilt]
        rfl
      · exact UInt64.toBitVec_inj.mp (by
          rw [UInt64.toBitVec_or, UInt64.toBitVec_or, BitVec.or_assoc, BitVec.or_self])
    · obtain ⟨hm', hne'⟩ := hne hji hm'
      rw [show (s.build cfg i m).mem m' = s.mem m' from Function.update_of_ne hne' ..]
      exact hi.pending j m' hm'
  · by_cases hji : j = i
    · by_cases hki : k = i
      · rw [hji, hki]
      · rw [hji, hself] at hj
        cases hj
        exact absurd rfl (hne hki hk).2
    · by_cases hki : k = i
      · rw [hki, hself] at hk
        cases hk
        exact absurd rfl (hne hji hj).2
      · exact hi.apart j k m' (hne hji hj).1 (hne hki hk).1

/-- The accepted frames after an offer that was taken. -/
theorem acceptedBy_take (hi : ProbeInv cfg s) (tracing : Bool) {i : UInt8} {m : Nat}
    (hpc : s.pc = .send i) (hm : (s.probeList i).nextPkt = some m) (j : UInt8) :
    (s.take cfg tracing i m).acceptedBy j
      = if i = j then s.acceptedBy j ++ [(s.mem m).data] else s.acceptedBy j := by
  rw [hi.take_eq hpc hm]
  unfold ProbeState.acceptedBy
  simp only [ProbeState.pktmbufFree_accepted, List.filter_append, List.map_append]
  split
  next hij =>
    rw [List.filter_cons_of_pos (by simpa using hij)]
    rfl
  next hij =>
    rw [List.filter_cons_of_neg (by simpa using hij)]
    exact List.append_nil _

/-- An offer that is taken: the accepted frames catch up with `next_idx`. -/
theorem take (hi : ProbeInv cfg s) {tracing : Bool} {i : UInt8} {m : Nat}
    (hpc : s.pc = .send i) (hm : (s.probeList i).nextPkt = some m) :
    ProbeInv cfg (s.take cfg tracing i m) := by
  have hacc := hi.acceptedBy_take tracing hpc hm
  have hctl := hi.ctl i
  have hbuilt : s.built i = (s.acceptedBy i).length + 1 := by
    rw [ProbeState.built, hm]
    rfl
  have hdata := (hi.pending i m hm).1
  rw [hi.take_eq hpc hm] at hacc ⊢
  obtain ⟨t, ht⟩ : ∃ t : ProbeState, t = { ProbeState.pktmbufFree { s with
        accepted := s.accepted ++ [(i, (s.mem m).data)]
        driver := m :: s.driver } m with
      probeList := Function.update s.probeList i
        { s.probeList i with nextPkt := none }
      pc := .next (i + 1) } := ⟨_, rfl⟩
  rw [← ht] at hacc ⊢
  have hself : t.probeList i = { s.probeList i with nextPkt := none } := by
    rw [ht]
    exact Function.update_self ..
  have hother : ∀ {j}, j ≠ i → t.probeList j = s.probeList j := fun hj => by
    rw [ht]
    exact Function.update_of_ne hj ..
  have hmem : t.mem = s.mem := by rw [ht, ProbeState.pktmbufFree_mem]
  have haccSelf : t.acceptedBy i = s.acceptedBy i ++ [(s.mem m).data] := by
    rw [hacc, if_pos rfl]
  have haccOther : ∀ {j}, j ≠ i → t.acceptedBy j = s.acceptedBy j := fun hj => by
    rw [hacc, if_neg fun h => hj h.symm]
  have hold : ∀ {j m'}, (t.probeList j).nextPkt = some m' →
      j ≠ i ∧ (s.probeList j).nextPkt = some m' := by
    intro j m' hm'
    by_cases hji : j = i
    · rw [hji, hself] at hm'
      cases hm'
    · rw [hother hji] at hm'
      exact ⟨hji, hm'⟩
  refine ⟨fun j => ?_, fun j hj => ?_, fun j => ?_, fun j hj => ?_,
    fun j m' hm' => hi.holder j m' (hold hm').2, fun j m' hm' => ?_,
    fun j k m' hj hk => ?_⟩
  · by_cases hji : j = i
    · subst hji
      rw [ProbeState.built, hself, haccSelf, hctl, hbuilt, List.length_append]
      rfl
    · rw [ProbeState.built, hother hji, haccOther hji]
      exact hi.ctl j
  · rw [ht] at hj
    cases hj
  · by_cases hji : j = i
    · subst hji
      rw [haccSelf, List.length_append, List.length_singleton, List.range_succ,
        List.map_append, ← hi.frames j, hdata]
      rfl
    · rw [haccOther hji]
      exact hi.frames j
  · by_cases hji : j = i
    · exact hji ▸ hi.pc i hpc
    · rw [haccOther hji] at hj
      exact hi.served j hj
  · obtain ⟨hji, hm'⟩ := hold hm'
    rw [hmem, haccOther hji]
    exact hi.pending j m' hm'
  · exact hi.apart j k m' (hold hj).2 (hold hk).2

/-- Every step keeps the invariant, unless it is handed a pending frame. -/
theorem step (hi : ProbeInv cfg s) {a : Act} (hf : Fresh cfg s a)
    (h : Probe.step cfg s a = some s') : ProbeInv cfg s' := by
  rcases step_cases h with ⟨pc, rfl, hpc⟩ | ⟨i, m, rfl, hpc, hserves, hnone, -, rfl⟩
    | ⟨tracing, i, m, -, hm, rfl⟩ | ⟨tracing, i, m, hpc, hm, rfl⟩ | ⟨m, -, -, rfl⟩
  · exact hi.setPc hpc
  · exact hi.build hserves hnone fun j => hf.ne hpc hserves hnone
  · rw [hi.keep_eq hm]
    exact hi.setPc nofun
  · exact hi.take hpc hm
  · exact hi.setDpdk _ _ _

/-- A step that is handed the pending frame of a port overwrites it with one
of another sender. -/
theorem overwritten_of_not_fresh (hi : ProbeInv cfg s) {a : Act} (hf : ¬ Fresh cfg s a)
    (h : Probe.step cfg s a = some s') :
    ∃ j m, (s.probeList j).nextPkt = some m ∧ (s'.probeList j).nextPkt = some m
      ∧ (s.mem m).data.probeSender = j.toUInt32
      ∧ (s'.mem m).data.probeSender ≠ j.toUInt32 := by
  unfold Fresh at hf
  split at hf
  case h_2 => exact absurd trivial hf
  case h_1 m =>
    split at hf
    case h_2 => exact absurd trivial hf
    case h_1 i hpc =>
      push Not at hf
      obtain ⟨hserves, hnone, j, hj⟩ := hf
      have hne : j ≠ i := by
        intro heq
        rw [heq, hnone] at hj
        cases hj
      rw [step_build hpc hserves hnone] at h
      split at h
      case isFalse => cases h
      case isTrue =>
        cases h
        have hsender : ∀ {k : UInt8} {n : Nat}, (cfg.frame k n).probeSender
            = (cfg.startCtl k).portid.toUInt32 := rfl
        refine ⟨j, m, hj, ?_, ?_, ?_⟩
        · rw [← hj]
          exact congrArg ProbeCtl.nextPkt (Function.update_of_ne hne ..)
        · rw [(hi.pending j m hj).1, hsender, startCtl_portid (hi.holder j m hj)]
        · rw [show (s.build cfg i m).mem m = _ from Function.update_self ..]
          show (fillProbe (s.probeList i)).probeSender ≠ _
          rw [hi.ctl i]
          show (cfg.startCtl i).portid.toUInt32 ≠ _
          rw [startCtl_portid hserves]
          intro heq
          exact hne (UInt8.toUInt32_inj.mp heq).symm

end ProbeInv

-- ================================================================= the runs

/-- A pending frame is kept as it is until it is the next one accepted. -/
theorem pending_until_taken {i : UInt8} {m : Nat} (hi : ProbeInv cfg s)
    (hm : (s.probeList i).nextPkt = some m) {as : List Act}
    (hfresh : Lts.AllSteps (step cfg) (Fresh cfg) s as)
    (hrun : Lts.run (step cfg) s as = some s') :
    ((s'.probeList i).nextPkt = some m ∧ s'.mem m = s.mem m
        ∧ s'.acceptedBy i = s.acceptedBy i)
      ∨ ∃ rest, s'.acceptedBy i = s.acceptedBy i ++ (s.mem m).data :: rest := by
  suffices hinv : ProbeInv cfg s' ∧ (((s'.probeList i).nextPkt = some m
        ∧ s'.mem m = s.mem m ∧ s'.acceptedBy i = s.acceptedBy i)
      ∨ ∃ rest, s'.acceptedBy i = s.acceptedBy i ++ (s.mem m).data :: rest) from hinv.2
  refine Lts.run_invariant (P := Fresh cfg) (I := fun t => ProbeInv cfg t
    ∧ (((t.probeList i).nextPkt = some m ∧ t.mem m = s.mem m
        ∧ t.acceptedBy i = s.acceptedBy i)
      ∨ ∃ rest, t.acceptedBy i = s.acceptedBy i ++ (s.mem m).data :: rest))
    ?_ ⟨hi, .inl ⟨hm, rfl, rfl⟩⟩ hfresh hrun
  intro t a t' hex hf hstep
  obtain ⟨ht, hcase⟩ := hex
  refine ⟨ht.step hf hstep, ?_⟩
  rcases step_cases hstep with ⟨pc, rfl, -⟩ | ⟨j, m', rfl, hpc, hserves, hnone, -, rfl⟩
    | ⟨tracing, j, m', -, hm', rfl⟩ | ⟨tracing, j, m', hpc, hm', rfl⟩ | ⟨m', -, -, rfl⟩
  · exact hcase
  · rcases hcase with ⟨hkept, hmem, hacc⟩ | hdone
    · have hji : j ≠ i := by
        intro heq
        subst heq
        rw [hnone] at hkept
        cases hkept
      have hne : m ≠ m' := fun he => hf.ne hpc hserves hnone (he ▸ hkept)
      refine .inl ⟨?_, ?_, hacc⟩
      · rw [← hkept]
        exact congrArg ProbeCtl.nextPkt (Function.update_of_ne hji.symm ..)
      · rw [← hmem]
        exact Function.update_of_ne hne ..
    · exact .inr hdone
  · rw [ht.keep_eq hm']
    exact hcase
  · have hacc' := ht.acceptedBy_take tracing hpc hm' i
    rcases hcase with ⟨hkept, hmem, hacc⟩ | ⟨rest, hdone⟩
    · by_cases hji : j = i
      · subst hji
        rw [hkept] at hm'
        cases hm'
        rw [if_pos rfl, hacc, hmem] at hacc'
        exact .inr ⟨[], hacc'⟩
      · rw [if_neg hji] at hacc'
        refine .inl ⟨?_, ?_, hacc'.trans hacc⟩
        · rw [ht.take_eq hpc hm', ← hkept]
          exact congrArg ProbeCtl.nextPkt (Function.update_of_ne (Ne.symm hji) ..)
        · rw [ht.take_eq hpc hm']
          exact hmem
    · right
      rw [hacc', hdone]
      split
      · exact ⟨rest ++ [(t.mem m').data], by
          rw [List.append_assoc, List.cons_append]⟩
      · exact ⟨rest, rfl⟩
  · -- a completion touches no frame
    exact hcase

/-- Probe numbering has no gap and no duplicate. At every step of every run in
which no pending frame is handed out, while the port has built fewer than 2^64
frames: the accepted frames of a port carry the numbers 0, 1, 2 and so on and
the port itself as their sender; their number is `next_idx`, less one when a
frame is pending; and a pending frame carries the next number and is kept
unchanged until it is the next one accepted. -/
theorem probe_numbering {mallocOk poolCreateOk : Bool} {mem : Nat → Mbuf}
    {s₀ : ProbeState} (hinit : probeInit cfg mallocOk poolCreateOk mem = .ok s₀)
    {as : List Act} (hfresh : Lts.AllSteps (step cfg) (Fresh cfg) s₀ as)
    (hrun : Lts.run (step cfg) s₀ as = some s) (i : UInt8)
    (hfew : s.built i < 2 ^ 64) :
    (s.acceptedBy i).map (fun f => f.probeIdx.toNat)
        = List.range (s.acceptedBy i).length
      ∧ (∀ f ∈ s.acceptedBy i, f.probeSender = i.toUInt32)
      ∧ (s.probeList i).nextIdx.toNat
          = (s.acceptedBy i).length
            + (if (s.probeList i).nextPkt.isSome then 1 else 0)
      ∧ ∀ m, (s.probeList i).nextPkt = some m →
          (s.mem m).data.probeIdx.toNat = (s.acceptedBy i).length
            ∧ ∀ bs s', Lts.AllSteps (step cfg) (Fresh cfg) s bs →
              Lts.run (step cfg) s bs = some s' →
              ((s'.probeList i).nextPkt = some m ∧ s'.mem m = s.mem m
                  ∧ s'.acceptedBy i = s.acceptedBy i)
                ∨ ∃ rest, s'.acceptedBy i
                    = s.acceptedBy i ++ (s.mem m).data :: rest := by
  have hi : ProbeInv cfg s :=
    Lts.run_invariant (fun hi hf h => ProbeInv.step hi hf h) (.init hinit) hfresh hrun
  have hidx : ∀ k, k ≤ (s.acceptedBy i).length → k < 2 ^ 64 →
      (cfg.frame i k).probeIdx.toNat = k := fun k _ hk => by
    show (UInt64.ofNat k).toNat = k
    rw [UInt64.toNat_ofNat', Nat.mod_eq_of_lt hk]
  have hle : (s.acceptedBy i).length ≤ s.built i := Nat.le_add_right _ _
  refine ⟨?_, fun f hf => ?_, ?_, fun m hm => ⟨?_, fun bs s' hfresh' hrun' => ?_⟩⟩
  · have hmap : (s.acceptedBy i).map (fun f => f.probeIdx.toNat)
        = (List.range (s.acceptedBy i).length).map
            fun k => (cfg.frame i k).probeIdx.toNat := by
      conv_lhs => rw [hi.frames i]
      rw [List.map_map]
      rfl
    rw [hmap]
    refine (List.map_congr_left fun k hk => ?_).trans (List.map_id _)
    have hk' := List.mem_range.mp hk
    exact hidx k (by omega) (by omega)
  · have hserves := hi.served i (List.ne_nil_of_mem hf)
    rw [hi.frames i] at hf
    obtain ⟨k, -, rfl⟩ := List.mem_map.mp hf
    exact congrArg UInt8.toUInt32 (startCtl_portid hserves)
  · rw [hi.ctl i]
    show (UInt64.ofNat (s.built i)).toNat = s.built i
    rw [UInt64.toNat_ofNat', Nat.mod_eq_of_lt hfew]
  · rw [(hi.pending i m hm).1]
    exact hidx _ (Nat.le_refl _) (by omega)
  · exact pending_until_taken hi hm hfresh' hrun'

/-- Two enabled ports. -/
def twoPorts : Cfg :=
  { nbPorts := 2, portIsEnabled := fun _ => true
    portGetPktSeq := fun _ => ProbeCtl.zero.pktConfigure
    pktTxIeee1588Tmst := 0x8000000000000 }

/-- Port 0 is refused; port 1 is accepted and its frame completed. -/
def firstTick : List Act :=
  [.fire 2, .next (some 0), .send true 0, .next (some 1), .send true 1, .complete 1,
    .next none]

/-- Port 0 is accepted; port 1 finds no mbuf. -/
def secondTick : List Act :=
  [.fire 2, .next none, .send false 1, .next none]

def refusedOnce : List Act := firstTick ++ secondTick

/-- What lies in the pool at the start. -/
def blankMbuf : Mbuf :=
  { pktLen := 0, dataLen := 0, olFlags := 0, data := fillProbe .zero }

/-- What port 0 gets accepted in the second tick is the frame that was refused in
the first, and port 1's is numbered from 0 too. -/
theorem probe_numbering_refusedOnce :
    ∃ s₀ s s', probeInit twoPorts true true (fun _ => blankMbuf) = .ok s₀
      ∧ Lts.run (step twoPorts) s₀ firstTick = some s
      ∧ Lts.run (step twoPorts) s secondTick = some s'
      ∧ (s.probeList 0).nextPkt = some 0 ∧ (s.mem 0).data.probeIdx.toNat = 0
      ∧ (s.probeList 0).nextIdx.toNat = 1
      ∧ s'.acceptedBy 0 = [(s.mem 0).data]
      ∧ (s.acceptedBy 1).map (fun f => f.probeIdx.toNat) = [0]
      ∧ ∀ f ∈ s.acceptedBy 1, f.probeSender = 1 := by
  obtain ⟨s₀, hinit⟩ : ∃ s₀,
      probeInit twoPorts true true (fun _ => blankMbuf) = .ok s₀ := ⟨_, rfl⟩
  have hfresh : Lts.AllSteps (step twoPorts) (Fresh twoPorts) s₀ refusedOnce := by
    cases hinit
    decide +kernel
  have hends : (Lts.run (step twoPorts) s₀ firstTick).map
      (fun s => ((s.acceptedBy 0).length, (s.probeList 0).nextPkt, (s.acceptedBy 1).length,
        (s.probeList 1).nextPkt)) = some (0, some 0, 1, none)
      ∧ (Lts.run (step twoPorts) s₀ refusedOnce).map
        (fun s => ((s.acceptedBy 0).length, (s.probeList 0).nextPkt)) = some (1, none) := by
    cases hinit
    decide +kernel
  obtain ⟨s, hrun, hs⟩ := Option.map_eq_some_iff.mp hends.1
  obtain ⟨s', hboth, hs'⟩ := Option.map_eq_some_iff.mp hends.2
  have hrun' : Lts.run (step twoPorts) s secondTick = some s' := by
    rwa [refusedOnce, Lts.run_append, hrun, Option.bind_some] at hboth
  simp only [Prod.mk.injEq] at hs hs'
  obtain ⟨hlen₀, hpend₀, hlen₁, hpend₁⟩ := hs
  obtain ⟨hlen', hpend'⟩ := hs'
  have hbuilt₀ : s.built 0 = 1 := by
    rw [ProbeState.built, hlen₀, hpend₀]
    rfl
  have hbuilt₁ : s.built 1 = 1 := by
    rw [ProbeState.built, hlen₁, hpend₁]
    rfl
  have hfirst := hfresh.initial (List.prefix_append firstTick secondTick)
  obtain ⟨-, -, hidx, hpending⟩ :=
    probe_numbering hinit hfirst hrun 0 (by rw [hbuilt₀]; decide)
  obtain ⟨hnums, hsender, -, -⟩ :=
    probe_numbering hinit hfirst hrun 1 (by rw [hbuilt₁]; decide)
  rw [hlen₀, hpend₀] at hidx
  rw [hlen₁] at hnums
  obtain ⟨hpkt, hlater⟩ := hpending 0 hpend₀
  rw [hlen₀] at hpkt
  refine ⟨s₀, s, s', hinit, hrun, hrun', hpend₀, hpkt, hidx, ?_, hnums, hsender⟩
  rcases hlater secondTick s' (hfresh.rest hrun) hrun' with ⟨hkept, -⟩ | ⟨rest, hrest⟩
  · rw [hpend'] at hkept
    cases hkept
  · rw [List.eq_nil_of_length_eq_zero hlen₀, List.nil_append] at hrest
    rw [hrest, List.length_cons, Nat.succ.injEq] at hlen'
    rw [hrest, List.eq_nil_of_length_eq_zero hlen']

/-- The mbuf of port 0's frame is freed at once and handed out again for port 1,
which is refused. The driver completes port 0's frame, and in the second tick
port 0 is handed the same mbuf for the third time. -/
def handedOutTwice : List Act :=
  [.fire 2, .next (some 0), .send true 1, .next (some 0), .send true 0, .next none,
    .complete 0, .fire 2, .next (some 0), .send true 1, .next none, .send true 1]

/-- Port 1's first frame is not sent; what it gets accepted is the second one
of port 0. -/
theorem probe_overwritten :
    ∃ s₀ s, probeInit twoPorts true true (fun _ => blankMbuf) = .ok s₀
      ∧ Lts.run (step twoPorts) s₀ handedOutTwice = some s ∧ s.built 1 < 2 ^ 64
      ∧ (s.acceptedBy 1).map (fun f => f.probeIdx.toNat)
          ≠ List.range (s.acceptedBy 1).length
      ∧ ¬ ∀ f ∈ s.acceptedBy 1, f.probeSender = (1 : UInt8).toUInt32 := by
  obtain ⟨s₀, hinit⟩ : ∃ s₀,
      probeInit twoPorts true true (fun _ => blankMbuf) = .ok s₀ := ⟨_, rfl⟩
  have hsome : (Lts.run (step twoPorts) s₀ handedOutTwice).map
      (fun s => ((s.acceptedBy 1).map fun f => (f.probeIdx.toNat, f.probeSender),
        (s.probeList 1).nextPkt.isSome)) = some ([(1, 0)], false) := by
    cases hinit
    decide +kernel
  obtain ⟨s, hrun, hs⟩ := Option.map_eq_some_iff.mp hsome
  obtain ⟨hacc, hpend⟩ := Prod.mk.inj hs
  obtain ⟨f, hf, hid⟩ := List.map_eq_singleton_iff.mp hacc
  obtain ⟨hidx, hsender⟩ := Prod.mk.inj hid
  refine ⟨s₀, s, hinit, hrun, ?_, ?_, ?_⟩
  · rw [ProbeState.built, hf, hpend, List.length_singleton]
    decide
  · rw [hf, List.map_singleton, hidx, List.length_singleton]
    decide
  · rw [hf]
    intro hall
    have hone := hall f (List.mem_singleton.mpr rfl)
    rw [hsender] at hone
    exact absurd hone (by decide)

end PktSender.Probe
