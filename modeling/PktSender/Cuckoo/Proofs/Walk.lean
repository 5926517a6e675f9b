/-
What a call of `make_space_bucket` does to the entries of a table, and what
the table looks like when it fails.

# A walk that succeeds

`Relocated` reads the permutation of `Moved` the other way round: it says
where each entry has gone. It keeps its slot number, and it is where it was
or in its alternative bucket with its pair swapped. The one it was all for,
in the bucket the call was made for, has its old place to be overwritten.

# A walk that fails

The buckets a walk goes through can be told from the table alone. From a
bucket it has come to for the first time it goes on to the alternative bucket
of entry 0, for the second time to the one of entry 1, and so on (`Trail`).
It fails when that path comes to one bucket a fifth time and has met no empty
entry: the alternative buckets of all entries of all buckets on it are full
(`Blocked`). There is one path: the walk does not go back to try another
entry, so buckets it has not been through may well have room. `Marked` is the
link to the code: the flags count how often the path has been in a bucket.
-/
import PktSender.Cuckoo.Proofs.Ops

namespace PktSender.Cuckoo

variable {mask : UInt32} {bs bs' : Buckets} {b : UInt32} {fuel : Nat}

-- ========================================================== where entries go

/-- The entry at `p` has gone to `f p`, and the copy at `hole` does not
count. -/
structure Relocated (mask : UInt32) (bs bs' : Buckets) (hole : Pos)
    (f : Equiv.Perm Pos) : Prop where
  entry : ∀ p, bs.Occupied p → f p ≠ hole ∧ bs'.Occupied (f p)
    ∧ bs'.idx (f p) = bs.idx p
    ∧ (f p = p ∧ bs'.sigs p = bs.sigs p
      ∨ (f p).1 = bs.altBucket mask p ∧ bs'.sigs (f p) = (bs.sigs p).swap)
  all : ∀ q, q ≠ hole → bs'.Occupied q → ∃ p, bs.Occupied p ∧ f p = q
  one : ∃! q, ¬ bs.Occupied q ∧ bs'.Occupied q

theorem Moved.relocated {hole : Pos} {σ : Equiv.Perm Pos}
    (hm : Moved mask bs bs' hole σ) (hocc : bs.Occupied hole) :
    Relocated mask bs bs' hole σ.symm := by
  refine ⟨fun p hp => ?_, fun q hq hq' => ?_, σ hole, ⟨hm.empty, ?_⟩, fun q hq => ?_⟩
  · have hne : σ.symm p ≠ hole := by
      intro heq
      apply hm.empty
      rw [← heq, Equiv.apply_symm_apply]
      exact hp
    obtain ⟨hiff, hidx⟩ := moved_entry hm hne
    rw [Equiv.apply_symm_apply] at hiff hidx
    refine ⟨hne, hiff.mpr hp, hidx, ?_⟩
    rcases hm.entry _ hne with ⟨hσ, hs, -⟩ | ⟨-, -, hb, hs, -⟩
    · rw [Equiv.apply_symm_apply] at hσ
      rw [← hσ] at hs
      exact .inl ⟨hσ.symm, hs⟩
    · rw [Equiv.apply_symm_apply] at hb hs
      exact .inr ⟨hb, hs⟩
  · exact ⟨σ q, (moved_entry hm hq).1.mp hq', Equiv.symm_apply_apply σ q⟩
  · have hne : σ hole ≠ hole := by
      intro heq
      rw [← heq] at hocc
      exact hm.empty hocc
    rcases hm.entry _ hne with ⟨hσ, -⟩ | ⟨-, hocc', -⟩
    · exact absurd (σ.injective hσ) hne
    · exact (moved_entry hm hne).1.mpr hocc'
  · obtain ⟨hempty, hocc'⟩ := hq
    have hne : q ≠ hole := by
      intro heq
      subst heq
      exact hempty hocc
    have hσocc := (moved_entry hm hne).1.mp hocc'
    have hmv : σ q ≠ q := by
      intro heq
      rw [heq] at hσocc
      exact hempty hσocc
    exact (hm.only q hmv).resolve_right hempty

/-- A call from a full bucket of a table without flags returns, and leaves no
flag behind. If it gives an error no entry has changed. If it gives entry `i`
then, that entry left aside, the table holds exactly the entries it held, each
once, in its old place or its alternative bucket, and one position is occupied
that was empty. -/
theorem makeSpaceBucket_lossless (hb : b ≤ mask) (hflags : ∀ p, bs.flagAt p = 0)
    (hfull : bs.Full b) :
    ∃ bs' ret, makeSpaceBucket mask (4 * (mask.toNat + 1) + 1) bs b = some (bs', ret)
      ∧ (∀ p, bs'.flagAt p = 0)
      ∧ (∀ e, ret = .error e → e < 0 ∧ bs'.sigs = bs.sigs ∧ bs'.idx = bs.idx)
      ∧ ∀ i, ret = .ok i → ∃ f, Relocated mask bs bs' (b, i) f := by
  have hreturns : ∃ r, makeSpaceBucket mask (4 * (mask.toNat + 1) + 1) bs b = some r :=
    makeSpaceBucket_returns hb
  obtain ⟨⟨bs', ret⟩, hcall⟩ := hreturns
  obtain ⟨hkept, herr, hok⟩ := makeSpaceBucket_spec hfull hcall
  refine ⟨bs', ret, hcall, fun p => ?_, fun e he => ?_, fun i hi => ?_⟩
  · rw [hkept]
    exact hflags p
  · obtain ⟨rfl, hs, hx⟩ := herr e he
    exact ⟨by decide, hs, hx⟩
  · obtain ⟨σ, hm, -⟩ := hok i hi
    exact ⟨σ.symm, hm.relocated (hfull i)⟩

/-- A full bucket, two of whose entries have it as their alternative bucket
too, and an empty one. -/
def twoBuckets : Buckets := fun b =>
  { signatures := fun i =>
      if b = 0 then { current := 2, alt := if i.val < 2 then 2 else 1 }
      else { current := 0, alt := 0 }
    keyIdx := fun i => UInt32.ofNat (i.val + 1)
    flag := fun _ => 0 }

theorem makeSpaceBucket_lossless_twoBuckets :
    ∃ bs' ret, makeSpaceBucket 1 9 twoBuckets 0 = some (bs', ret)
      ∧ (∀ p, bs'.flagAt p = 0)
      ∧ (∀ e, ret = .error e →
          e < 0 ∧ bs'.sigs = twoBuckets.sigs ∧ bs'.idx = twoBuckets.idx)
      ∧ ∀ i, ret = .ok i → ∃ f, Relocated 1 twoBuckets bs' (0, i) f := by
  have hmask : (0 : UInt32) ≤ 1 := by decide
  have hfull : twoBuckets.Full 0 := by
    unfold Buckets.Full
    decide
  exact makeSpaceBucket_lossless hmask (fun _ => rfl) hfull

-- ============================================================== the path

/-- The buckets passed on the way from `b`, the last one first: each time the
path comes to a bucket it goes on from its next entry. -/
inductive Trail (mask : UInt32) (bs : Buckets) (b : UInt32) : List UInt32 → Prop
  | start : Trail mask bs b [b]
  | step {c : UInt32} {past : List UInt32} {i : Fin 4} : Trail mask bs b (c :: past) →
      past.count c = i.val → Trail mask bs b (bs.altBucket mask (c, i) :: c :: past)

/-- The path from `b` comes to a bucket whose four entries it has all gone on
from, and no alternative bucket of an entry on it has an empty entry. -/
def Blocked (mask : UInt32) (bs : Buckets) (b : UInt32) : Prop :=
  ∃ c past, Trail mask bs b (c :: past) ∧ past.count c = 4
    ∧ ∀ d ∈ c :: past, ∀ i, bs.Full (bs.altBucket mask (d, i))

/-- The flags of a table count how often each bucket has been left. -/
def Marked (past : List UInt32) (bs : Buckets) : Prop :=
  ∀ d i, bs.flagAt (d, i) ≠ 0 ↔ i.val < past.count d

section Trail

variable {bs₀ : Buckets} {c : UInt32} {past path : List UInt32}

/-- No bucket is left more often than it has entries. -/
theorem Trail.count_le (ht : Trail mask bs b (c :: past)) (d : UInt32) :
    past.count d ≤ 4 := by
  generalize hpath : c :: past = path at ht
  induction ht generalizing c past with
  | start =>
      obtain ⟨-, rfl⟩ := List.cons.inj hpath
      exact Nat.zero_le _
  | @step c' past' i ht hcount ih =>
      obtain ⟨-, rfl⟩ := List.cons.inj hpath
      by_cases hd : d = c'
      · subst hd
        rw [List.count_cons_self, hcount]
        exact i.isLt
      · rw [List.count_cons_of_ne (Ne.symm hd)]
        exact ih rfl

/-- The path begins at `b`. -/
theorem Trail.start_suffix (ht : Trail mask bs b path) : [b] <:+ path := by
  induction ht with
  | start => exact List.suffix_refl _
  | step _ _ ih => exact ih.trans (List.suffix_cons _ _)

/-- A part of the path is the whole of it, or is followed by the bucket its
own last one leads to. -/
theorem Trail.next (ht : Trail mask bs b path) (hpart : c :: past <:+ path) :
    path = c :: past
      ∨ ∃ i : Fin 4, past.count c = i.val
          ∧ bs.altBucket mask (c, i) :: c :: past <:+ path := by
  induction ht with
  | start =>
      rcases List.suffix_cons_iff.mp hpart with heq | hnil
      · exact .inl heq.symm
      · exact absurd (List.suffix_nil.mp hnil) (List.cons_ne_nil _ _)
  | @step c' past' i ht hcount ih =>
      rcases List.suffix_cons_iff.mp hpart with heq | hpart
      · exact .inl heq.symm
      refine .inr ?_
      rcases ih hpart with heq | ⟨j, hj, hnext⟩
      · obtain ⟨rfl, rfl⟩ := List.cons.inj heq
        exact ⟨i, hcount, List.suffix_refl _⟩
      · exact ⟨j, hj, hnext.trans (List.suffix_cons _ _)⟩

-- ====================================================== the walk on the path

theorem Marked.nil (hflags : ∀ p, bs.flagAt p = 0) : Marked [] bs := by
  intro d i
  simp [hflags]

/-- The first unflagged entry of a bucket is the one the path goes on from. -/
theorem Marked.first {i : Fin 4} (hm : Marked past bs) (hclear : bs.flagAt (c, i) = 0)
    (hfirst : ∀ j < i, bs.flagAt (c, j) ≠ 0) : past.count c = i.val := by
  have hge : past.count c ≤ i.val :=
    Nat.le_of_not_lt fun hlt => (hm c i).mpr hlt hclear
  by_contra hne
  have hlt : past.count c < i.val := Nat.lt_of_le_of_ne hge hne
  -- the entry before would be flagged without the bucket having been left
  have hj := (hm c ⟨past.count c, hlt.trans i.isLt⟩).mp (hfirst _ hlt)
  exact absurd hj (Nat.lt_irrefl _)

theorem Marked.step {i : Fin 4} (hm : Marked past bs) (hcount : past.count c = i.val) :
    Marked (c :: past) (bs.setFlag c i 1) := by
  intro d j
  rw [Buckets.flagAt_setFlag]
  by_cases hd : d = c
  · subst hd
    rw [List.count_cons_self, hcount]
    by_cases hj : j = i
    · subst hj
      simp
    · have hne : (d, j) ≠ (d, i) := fun heq => hj (Prod.mk.inj heq).2
      rw [Function.update_of_ne hne, hm d j, hcount]
      have hval : j.val ≠ i.val := fun h => hj (Fin.ext h)
      omega
  · have hne : (d, j) ≠ (c, i) := fun heq => hd (Prod.mk.inj heq).1
    rw [Function.update_of_ne hne, List.count_cons_of_ne (Ne.symm hd)]
    exact hm d j

/-- A call that fails has come to the end of a blocked path. -/
theorem blocked_of_error {e : Int} (ht : Trail mask bs₀ b (c :: past))
    (hsigs : bs.sigs = bs₀.sigs) (hm : Marked past bs)
    (hpast : ∀ d ∈ past, ∀ i, bs₀.Full (bs₀.altBucket mask (d, i)))
    (h : makeSpaceBucket mask fuel bs c = some (bs', .error e)) :
    Blocked mask bs₀ b := by
  induction fuel generalizing bs bs' c past e with
  | zero => cases h
  | succ fuel ih =>
    have halt : bs.altBucket mask = bs₀.altBucket mask := Buckets.altBucket_congr hsigs
    rcases makeSpaceBucket_cases h with
      ⟨i, j, -, hret, -⟩ | ⟨hall, hrest⟩
    · cases hret
    have hfull : ∀ d ∈ c :: past, ∀ i, bs₀.Full (bs₀.altBucket mask (d, i)) := by
      intro d hd i
      rcases List.mem_cons.mp hd with rfl | hd
      · rw [← halt]
        exact (Buckets.full_congr hsigs).mp (hall i)
      · exact hpast d hd i
    rcases hrest with ⟨hflags, -, -⟩ | ⟨i, bs'', r, hclear, hfirst, hcall, hr⟩
    · -- all four entries are flagged
      have hlast := (hm c 3).mp (hflags 3)
      have hle := ht.count_le c
      exact ⟨c, past, ht, Nat.le_antisymm hle hlast, hfull⟩
    · rcases hr with ⟨j, -, hret, -⟩ | ⟨e', rfl, -, -⟩
      · cases hret
      have hcount := hm.first hclear hfirst
      rw [halt] at hcall
      have hsigs' : (bs.setFlag c i 1).sigs = bs₀.sigs :=
        (Buckets.sigs_setFlag ..).trans hsigs
      exact ih (ht.step hcount) hsigs' (hm.step hcount) hfull hcall

/-- On a blocked path every call fails. -/
theorem error_of_blocked {ret : Except Int (Fin 4)} {c' : UInt32} {past' : List UInt32}
    (ht : Trail mask bs₀ b (c' :: past')) (hend : past'.count c' = 4)
    (hfull : ∀ d ∈ c' :: past', ∀ i, bs₀.Full (bs₀.altBucket mask (d, i)))
    (hpart : c :: past <:+ c' :: past') (hsigs : bs.sigs = bs₀.sigs)
    (hm : Marked past bs) (h : makeSpaceBucket mask fuel bs c = some (bs', ret)) :
    ∃ e, ret = .error e := by
  induction fuel generalizing bs bs' c past ret with
  | zero => cases h
  | succ fuel ih =>
    have halt : bs.altBucket mask = bs₀.altBucket mask := Buckets.altBucket_congr hsigs
    rcases makeSpaceBucket_cases h with
      ⟨i, j, hempty, -, -⟩ | ⟨-, ⟨-, -, rfl⟩ | ⟨i, bs'', r, hclear, hfirst, hcall, hr⟩⟩
    · -- no empty entry on the path
      have hocc := hfull c (hpart.subset List.mem_cons_self) i j
      rw [← halt] at hocc
      refine absurd hocc ?_
      rwa [Buckets.Occupied, ← hsigs]
    · exact ⟨_, rfl⟩
    · have hcount := hm.first hclear hfirst
      have hlt := i.isLt
      rcases ht.next hpart with heq | ⟨i', hi', hnext⟩
      · obtain ⟨rfl, rfl⟩ := List.cons.inj heq
        omega
      obtain rfl : i' = i := Fin.ext (hi'.symm.trans hcount)
      rw [halt] at hcall
      have hsigs' : (bs.setFlag c i' 1).sigs = bs₀.sigs :=
        (Buckets.sigs_setFlag ..).trans hsigs
      obtain ⟨e, rfl⟩ := ih hnext hsigs' (hm.step hcount) hcall
      rcases hr with ⟨j, hr, -⟩ | ⟨e', -, hret, -⟩
      · cases hr
      · exact ⟨e', hret⟩

end Trail

-- ===================================================== a place for a new key

variable {D : Type} {h : Tbl D} {rest : List UInt32} {key : List UInt8}

/-- There is no place for a new key: its primary bucket is full and the path
from it is blocked. -/
def Tbl.NoPlace (h : Tbl D) (key : List UInt8) : Prop :=
  h.buckets.Full (hash h key &&& h.bucketBitmask)
    ∧ Blocked h.bucketBitmask h.buckets (hash h key &&& h.bucketBitmask)

/-- The walk from the primary bucket fails on the tables on which the path is
blocked. -/
theorem Core.walkFails_iff (hc : Core h rest) : h.WalkFails key ↔ h.NoPlace key := by
  have hm : Marked [] h.buckets := Marked.nil hc.flags
  refine and_congr_right fun _ => ⟨fun hwalk => ?_, fun hblocked => ?_⟩
  · obtain ⟨bs, e, hcall⟩ := hwalk
    exact blocked_of_error .start rfl hm (fun _ hd => absurd hd List.not_mem_nil) hcall
  · obtain ⟨c, past, ht, hend, hfull⟩ := hblocked
    obtain ⟨⟨bs, ret⟩, hcall⟩ : ∃ r, makeSpaceBucket h.bucketBitmask
        (4 * (h.bucketBitmask.toNat + 1) + 1) h.buckets
        (hash h key &&& h.bucketBitmask) = some r :=
      makeSpaceBucket_returns (Bits.and_le_right _ _)
    obtain ⟨e, rfl⟩ := error_of_blocked ht hend hfull ht.start_suffix rfl hm hcall
    exact ⟨bs, e, hcall⟩

end PktSender.Cuckoo
