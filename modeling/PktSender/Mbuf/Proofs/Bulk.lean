/-
The unrolled loop of `__pktmbuf_alloc_bulk` is the plain one.

# The two loops

Each label but that of case 0 is followed by a fixed number of labels before
the condition is looked at again (`pending`). What is left of `count` there is
a multiple of four, because the `switch` enters the loop with `count % 4`
labels to go, and stays one; so the condition meets `count` and is not stepped
over (`bulkRun_eq`). The plain loop (`initMbufs`) initializes as many mbufs
one after the other.

# The contract

The counts the function sets are those of `pktmbufAllocBulk` in `Mbuf/Basic`,
on which the ownership of the mbufs rests (`pktmbufAllocBulk_refcnt`).
-/
import PktSender.Mbuf.Bulk
import Mathlib.Algebra.Group.Nat.Defs
import Mathlib.Data.List.Nodup

namespace PktSender.Mbuf.Bulk

variable {count : UInt32} {mbufs : UInt32 → MbufId} {s s' : BulkState} {mem : Mem}

-- ================================================================= one mbuf

/-- An mbuf as it is handed out. -/
def RteMbuf.fresh (m : RteMbuf) : RteMbuf := pktmbufReset { m with refcnt := 1 }

theorem initMbuf_eq (h : (s.mem (mbufs s.idx)).refcnt = 0) :
    initMbuf mbufs s = some
      { idx := s.idx + 1
        mem := Function.update s.mem (mbufs s.idx) (s.mem (mbufs s.idx)).fresh
        touched := s.touched ++ [s.idx] } := by
  unfold initMbuf
  simp only [ne_eq, h, not_true_eq_false, if_false, Function.update_self,
    Function.update_idem]
  rfl

theorem initMbuf_idx (h : initMbuf mbufs s = some s') : s'.idx = s.idx + 1 := by
  unfold initMbuf at h
  simp only at h
  split at h
  next => cases h
  next =>
    cases h
    rfl

-- ============================================================ the plain loop

/-- `n` mbufs, one after the other. -/
def initMbufs (mbufs : UInt32 → MbufId) : ℕ → BulkState → Option BulkState
  | 0, s => some s
  | n + 1, s => (initMbuf mbufs s).bind (initMbufs mbufs n)

/-- The indices from `i` on. -/
def indicesFrom (i n : ℕ) : List UInt32 := (List.range' i n).map UInt32.ofNat

theorem indicesFrom_succ (i : UInt32) (n : ℕ) :
    indicesFrom i.toNat (n + 1) = i :: indicesFrom (i.toNat + 1) n := by
  rw [indicesFrom, List.range'_succ, List.map_cons, UInt32.ofNat_toNat]
  rfl

theorem toNat_idx_succ {i : UInt32} (h : i.toNat + 1 < 2 ^ 32) :
    (i + 1).toNat = i.toNat + 1 := by
  rw [UInt32.toNat_add]
  exact Nat.mod_eq_of_lt h

/-- The plain loop hands out the mbufs of a stretch of the table and leaves the
others alone. -/
theorem initMbufs_eq {n : ℕ} (hlt : s.idx.toNat + n < 2 ^ 32)
    (hnodup : ((indicesFrom s.idx.toNat n).map mbufs).Nodup)
    (hfree : ∀ m ∈ (indicesFrom s.idx.toNat n).map mbufs, (s.mem m).refcnt = 0) :
    initMbufs mbufs n s = some
      { idx := s.idx + UInt32.ofNat n
        mem := fun m =>
          if m ∈ (indicesFrom s.idx.toNat n).map mbufs then (s.mem m).fresh else s.mem m
        touched := s.touched ++ indicesFrom s.idx.toNat n } := by
  induction n generalizing s with
  | zero => simp [initMbufs, indicesFrom]
  | succ n ih =>
      rw [indicesFrom_succ, List.map_cons] at hnodup hfree
      obtain ⟨hnew, hnodup⟩ := List.nodup_cons.mp hnodup
      rw [List.forall_mem_cons] at hfree
      have hsucc : (s.idx + 1).toNat = s.idx.toNat + 1 := toNat_idx_succ (by omega)
      rw [initMbufs, initMbuf_eq hfree.1, Option.bind_some, ih]
      · simp only [hsucc, indicesFrom_succ, List.map_cons, Option.some.injEq,
          BulkState.mk.injEq]
        refine ⟨?_, ?_, ?_⟩
        · rw [UInt32.add_assoc, UInt32.ofNat_add, UInt32.add_comm 1]
          rfl
        · funext m
          by_cases hm : m = mbufs s.idx
          · rw [hm, Function.update_self, if_neg hnew, if_pos List.mem_cons_self]
          · rw [Function.update_of_ne hm]
            simp [hm]
        · rw [List.append_assoc, List.singleton_append]
      · rw [hsucc]
        omega
      · rw [hsucc]
        exact hnodup
      · intro m hm
        rw [hsucc] at hm
        have hne : m ≠ mbufs s.idx := fun heq => hnew (heq ▸ hm)
        simp only [Function.update_of_ne hne]
        exact hfree.2 m hm

-- ========================================================= the unrolled loop

/-- The labels from a place to the condition of the loop. -/
def BulkPc.pending : BulkPc → ℕ
  | .case0 => 0
  | .body => 4
  | .case3 => 3
  | .case2 => 2
  | .case1 => 1
  | .ret => 0

/-- The label `switch` enters at has as many to go as there are beyond a
multiple of four. -/
theorem switchLabel_spec (count : UInt32) :
    switchLabel count ≠ .ret ∧ (switchLabel count).pending = count.toNat % 4 := by
  have hmod : (count % 4).toNat = count.toNat % 4 := by
    rw [UInt32.toNat_mod]
    rfl
  unfold switchLabel
  rw [hmod]
  have hlt := Nat.mod_lt count.toNat (by decide : 4 > 0)
  generalize count.toNat % 4 = k at hlt
  obtain rfl | rfl | rfl | rfl : k = 0 ∨ k = 1 ∨ k = 2 ∨ k = 3 := by omega
  · exact ⟨by simp, rfl⟩
  · exact ⟨by simp, rfl⟩
  · exact ⟨by simp, rfl⟩
  · exact ⟨by simp, rfl⟩

/-- A label is one mbuf. -/
theorem bulkStep_label {pc : BulkPc} (h0 : pc ≠ .case0) (hret : pc ≠ .ret) :
    ∃ next, next ≠ .ret ∧ pc.pending = next.pending + 1
      ∧ bulkStep count mbufs s pc = (initMbuf mbufs s).map (next, ·) := by
  cases pc with
  | case0 => exact absurd rfl h0
  | body => exact ⟨.case3, by simp, rfl, rfl⟩
  | case3 => exact ⟨.case2, by simp, rfl, rfl⟩
  | case2 => exact ⟨.case1, by simp, rfl, rfl⟩
  | case1 => exact ⟨.case0, by simp, rfl, rfl⟩
  | ret => exact absurd rfl hret

/-- From any place at which a multiple of four is left behind the labels that
are pending. -/
theorem bulkRun_eq {q fuel : ℕ} {pc : BulkPc} (hret : pc ≠ .ret)
    (hleft : s.idx.toNat + (pc.pending + 4 * q) = count.toNat)
    (hfuel : pc.pending + 5 * q + 1 ≤ fuel) :
    bulkRun count mbufs fuel pc s = initMbufs mbufs (pc.pending + 4 * q) s := by
  have hcount := count.toNat_lt
  induction fuel generalizing q pc s with
  | zero => omega
  | succ fuel ih =>
      rw [bulkRun.eq_3 _ _ _ _ _ hret]
      by_cases h0 : pc = .case0
      · subst h0
        rw [BulkPc.pending, Nat.zero_add] at hleft ⊢
        rw [BulkPc.pending] at hfuel
        rw [bulkStep, Option.bind_some]
        cases q with
        | zero =>
            have heq : s.idx = count := UInt32.toNat_inj.mp hleft
            rw [if_neg (not_not.mpr heq), bulkRun]
            rfl
        | succ q =>
            have hne : s.idx ≠ count := by
              intro heq
              rw [heq] at hleft
              omega
            rw [if_pos hne]
            have hbody := @ih s q .body (by simp)
              (by simp only [BulkPc.pending]; omega) (by simp only [BulkPc.pending]; omega)
            rw [hbody, BulkPc.pending, Nat.mul_succ, Nat.add_comm]
      · obtain ⟨next, hnext, hpending, hstep⟩ := bulkStep_label h0 hret
        rw [hpending] at hleft hfuel ⊢
        rw [hstep, Nat.add_right_comm, initMbufs]
        cases hinit : initMbuf mbufs s with
        | none => rfl
        | some s₁ =>
            rw [Option.map_some, Option.bind_some, Option.bind_some]
            have hidx : s₁.idx.toNat = s.idx.toNat + 1 := by
              rw [initMbuf_idx hinit]
              exact toNat_idx_succ (by omega)
            exact @ih s₁ q next hnext (by omega) (by omega)

/-- The unrolled loop is the plain one, given the steps it takes. -/
theorem pktmbufAllocBulk_eq {fuel : ℕ} (hfuel : 2 * count.toNat < fuel) (mem : Mem) :
    pktmbufAllocBulk (.ok mbufs) count fuel mem
      = (initMbufs mbufs count.toNat (.start mem)).map fun s => (s, 0) := by
  obtain ⟨hret, hpending⟩ := switchLabel_spec count
  have hdiv := Nat.div_add_mod count.toNat 4
  have hall : (switchLabel count).pending + 4 * (count.toNat / 4) = count.toNat := by omega
  have hstart : (BulkState.start mem).idx.toNat = 0 := rfl
  rw [pktmbufAllocBulk, bulkRun_eq hret (by rw [hstart, hall, Nat.zero_add]) (by omega), hall]

-- ============================================================= the function

/-- The mbufs of the table. -/
def table (count : UInt32) (mbufs : UInt32 → MbufId) : List MbufId :=
  (indicesFrom 0 count.toNat).map mbufs

theorem count_indicesFrom (count i : UInt32) :
    (indicesFrom 0 count.toNat).count i = if i < count then 1 else 0 := by
  have hlt : count.toNat < UInt32.size := count.toNat_lt
  have hnodup : (indicesFrom 0 count.toNat).Nodup := by
    apply List.Nodup.map_on ?_ List.nodup_range'
    intro x hx y hy heq
    rw [List.mem_range'_1] at hx hy
    have hnat := congrArg UInt32.toNat heq
    rwa [UInt32.toNat_ofNat_of_lt' (by omega), UInt32.toNat_ofNat_of_lt' (by omega)] at hnat
  split
  next hi =>
    apply List.count_eq_one_of_mem hnodup
    rw [UInt32.lt_iff_toNat_lt] at hi
    refine List.mem_map.mpr ⟨i.toNat, List.mem_range'_1.mpr ?_, UInt32.ofNat_toNat⟩
    omega
  next hi =>
    apply List.count_eq_zero_of_not_mem
    intro hmem
    obtain ⟨x, hx, rfl⟩ := List.mem_map.mp hmem
    rw [List.mem_range'_1] at hx
    apply hi
    rw [UInt32.lt_iff_toNat_lt, UInt32.toNat_ofNat_of_lt' (by omega)]
    omega

/-- `__pktmbuf_alloc_bulk` on mbufs that are not in use, of which a pool hands
out none twice: however many there are, the function returns, as the plain loop
does; each index below `count` was used once and no other, the mbufs of the
table are reset with one reference and the others as before. When the pool has
none to give, nothing changes and its error is returned. -/
theorem pktmbufAllocBulk_plain (hnodup : (table count mbufs).Nodup)
    (hfree : ∀ m ∈ table count mbufs, (mem m).refcnt = 0) :
    (∃ s : BulkState,
      (∀ fuel, 2 * count.toNat < fuel →
        pktmbufAllocBulk (.ok mbufs) count fuel mem = some (s, 0))
      ∧ initMbufs mbufs count.toNat (.start mem) = some s
      ∧ (∀ i, s.touched.count i = if i < count then 1 else 0)
      ∧ (∀ m ∈ table count mbufs, s.mem m = (mem m).fresh)
      ∧ ∀ m ∉ table count mbufs, s.mem m = mem m)
    ∧ ∀ rc fuel, pktmbufAllocBulk (.error rc) count fuel mem = some (.start mem, rc) := by
  have hplain := @initMbufs_eq mbufs (.start mem) count.toNat
    (by
      have := count.toNat_lt
      change 0 + count.toNat < 2 ^ 32
      omega)
    hnodup hfree
  refine ⟨⟨_, fun fuel hfuel => ?_, hplain, fun i => ?_, fun m hm => ?_, fun m hm => ?_⟩,
    fun _ _ => rfl⟩
  · rw [pktmbufAllocBulk_eq hfuel, hplain, Option.map_some]
  · exact count_indicesFrom count i
  · exact if_pos hm
  · exact if_neg hm

/-- Six mbufs: the `switch` enters at case 2, and one round is left then. -/
theorem pktmbufAllocBulk_plain_six :
    ∃ s : BulkState,
      pktmbufAllocBulk (.ok fun i => ⟨.probe, i.toNat⟩) 6 13
          (fun _ => ⟨0, none, 2, 0, 0, 2176⟩) = some (s, 0)
      ∧ s.touched.count 5 = 1 ∧ s.touched.count 6 = 0
      ∧ s.mem ⟨.probe, 5⟩ = ⟨1, none, 1, 0xff, 128, 2176⟩
      ∧ s.mem ⟨.probe, 6⟩ = ⟨0, none, 2, 0, 0, 2176⟩ := by
  obtain ⟨s, hrun, -, htouched, hmem, hother⟩ :=
    (@pktmbufAllocBulk_plain 6 (fun i => ⟨.probe, i.toNat⟩)
      (fun _ => ⟨0, none, 2, 0, 0, 2176⟩) (by decide) fun _ _ => rfl).1
  exact ⟨s, hrun 13 (by decide), htouched 5, htouched 6, hmem _ (by decide),
    hother _ (by decide)⟩

-- ============================================================ the contract

/-- One mbuf, against the reference it gets in `Mbuf/Basic`. -/
theorem initMbuf_refcnt {d d' : Dpdk} {mp : Pool} (hcnt : ∀ m, (s.mem m).refcnt = d.refcnt m)
    (h : rtePktmbufAlloc d mp (mbufs s.idx) = some d') :
    ∃ s', initMbuf mbufs s = some s' ∧ s'.idx = s.idx + 1
      ∧ ∀ m, (s'.mem m).refcnt = d'.refcnt m := by
  unfold rtePktmbufAlloc at h
  split at h
  next => cases h
  next =>
    split at h
    next => cases h
    next hzero =>
      cases h
      have hfree : (s.mem (mbufs s.idx)).refcnt = 0 := by
        rw [hcnt]
        exact not_not.mp hzero
      refine ⟨_, initMbuf_eq hfree, rfl, fun m => ?_⟩
      by_cases hm : m = mbufs s.idx
      · rw [hm]
        simp only [Function.update_self]
        rfl
      · simp only [Function.update_of_ne hm]
        exact hcnt m

theorem initMbufs_refcnt {d d' : Dpdk} {mp : Pool} {n : ℕ}
    (hlt : s.idx.toNat + n < 2 ^ 32) (hcnt : ∀ m, (s.mem m).refcnt = d.refcnt m)
    (h : Mbuf.pktmbufAllocBulk d mp ((indicesFrom s.idx.toNat n).map mbufs) = some d') :
    ∃ s', initMbufs mbufs n s = some s' ∧ ∀ m, (s'.mem m).refcnt = d'.refcnt m := by
  induction n generalizing s d with
  | zero =>
      cases h
      exact ⟨s, rfl, hcnt⟩
  | succ n ih =>
      rw [indicesFrom_succ, List.map_cons, Mbuf.pktmbufAllocBulk, List.foldlM_cons] at h
      obtain ⟨d₁, halloc, hrest⟩ := Option.bind_eq_some_iff.mp h
      obtain ⟨s₁, hinit, hidx, hcnt₁⟩ := initMbuf_refcnt hcnt halloc
      have hsucc : s₁.idx.toNat = s.idx.toNat + 1 := by
        rw [hidx]
        exact toNat_idx_succ (by omega)
      rw [← hsucc] at hrest
      obtain ⟨s', hs', hcnt'⟩ := ih (by omega) hcnt₁ hrest
      exact ⟨s', by rw [initMbufs, hinit, Option.bind_some, hs'], hcnt'⟩

/-- What a thread of `Mbuf/Basic` allocates in bulk gets the counts that the
function sets. -/
theorem pktmbufAllocBulk_refcnt {d d' : Dpdk} {mp : Pool} {fuel : ℕ}
    (hfuel : 2 * count.toNat < fuel) (hcnt : ∀ m, (mem m).refcnt = d.refcnt m)
    (h : Mbuf.pktmbufAllocBulk d mp (table count mbufs) = some d') :
    ∃ s, pktmbufAllocBulk (.ok mbufs) count fuel mem = some (s, 0)
      ∧ ∀ m, (s.mem m).refcnt = d'.refcnt m := by
  have hlt : (BulkState.start mem).idx.toNat + count.toNat < 2 ^ 32 := by
    have := count.toNat_lt
    change 0 + count.toNat < 2 ^ 32
    omega
  obtain ⟨s, hs, hcnt'⟩ := initMbufs_refcnt hlt hcnt h
  refine ⟨s, ?_, hcnt'⟩
  rw [pktmbufAllocBulk_eq hfuel, hs, Option.map_some]

end PktSender.Mbuf.Bulk
