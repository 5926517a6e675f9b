/-
What `make_space_bucket` does to the buckets.

# The walk as a permutation

A successful walk goes through entries `p₀, p₁, ..., pₖ` to an empty entry
`pₖ₊₁`: the entry at `pₘ` is copied to `pₘ₊₁`, and `p₀` is left with a stale
copy for the caller to overwrite. `Moved` says this without naming the walk:
a permutation `σ` sends every position to the one its content came from, and
the position left over, `p₀`, to the one that was empty. So nothing is lost
and nothing is doubled, whatever the walk was.

# Why a walk does not meet itself

An entry on the walk keeps its place until the recursion has returned: it is
flagged, so it is not taken again, and its alternative bucket is full, so it
is not the end of a walk either (`Pinned`). That covers walks that come back
to a bucket they have been through, and entries both of whose buckets are
the same.

# Why it ends

Every nested call has one clear flag less in the table.
-/
import PktSender.Cuckoo.Basic
import PktSender.Ring.Proofs.Words
import Mathlib.GroupTheory.Perm.Basic
import Mathlib.Data.Finset.Card
import Mathlib.Data.List.Nodup

namespace PktSender.Cuckoo

open PktSender.Ring

-- ============================================================== signatures

/-- The pair an entry has in its other bucket. -/
def Signatures.swap (s : Signatures) : Signatures :=
  { current := s.alt, alt := s.current }

@[simp] theorem Signatures.swap_swap (s : Signatures) : s.swap.swap = s := rfl

/-- The 64-bit view is 0 when both halves are. -/
theorem Signatures.sig_eq_null {s : Signatures} :
    s.sig = nullSignature ↔ s.current = 0 ∧ s.alt = 0 := by
  have hlt := s.alt.toNat_lt
  unfold Signatures.sig nullSignature
  rw [UInt64.or_eq_zero_iff, ← UInt64.toNat_inj, ← UInt64.toNat_inj,
    UInt64.toNat_shiftLeft, UInt32.toNat_toUInt64, UInt32.toNat_toUInt64,
    ← UInt32.toNat_inj, ← UInt32.toNat_inj, UInt64.toNat_zero,
    UInt32.toNat_zero, show (32 : UInt64).toNat % 64 = 32 from rfl,
    Nat.shiftLeft_eq, Nat.mod_eq_of_lt (by omega)]
  omega

theorem Signatures.swap_null {s : Signatures} :
    s.swap.sig = nullSignature ↔ s.sig = nullSignature := by
  rw [sig_eq_null, sig_eq_null]
  exact And.comm

-- =============================================================== positions

/-- A bucket and one of its entries. -/
abbrev Pos := UInt32 × Fin 4

namespace Buckets

/-- The three fields of an entry, by position. -/
def sigs (bs : Buckets) (p : Pos) : Signatures := (bs p.1).signatures p.2

def idx (bs : Buckets) (p : Pos) : UInt32 := (bs p.1).keyIdx p.2

def flagAt (bs : Buckets) (p : Pos) : UInt8 := (bs p.1).flag p.2

/-- A non-empty entry. -/
def Occupied (bs : Buckets) (p : Pos) : Prop :=
  (bs.sigs p).sig ≠ nullSignature

instance (bs : Buckets) (p : Pos) : Decidable (bs.Occupied p) :=
  inferInstanceAs (Decidable ((bs.sigs p).sig ≠ nullSignature))

/-- A bucket without an empty entry. -/
def Full (bs : Buckets) (b : UInt32) : Prop := ∀ i, bs.Occupied (b, i)

theorem full_congr {bs bs' : Buckets} (h : bs'.sigs = bs.sigs) {b : UInt32} :
    bs'.Full b ↔ bs.Full b := by
  unfold Full Occupied
  rw [h]

/-- Reading a bucket array whose bucket `b` was written. -/
theorem update_apply {γ : Type} (bs : Buckets) (f : Bucket → Fin 4 → γ)
    (b : UInt32) (i : Fin 4) (x : γ) (bkt : Bucket)
    (h : f bkt = Function.update (f (bs b)) i x) :
    (fun p : Pos => f (Function.update bs b bkt p.1) p.2)
      = Function.update (fun p : Pos => f (bs p.1) p.2) (b, i) x := by
  funext p
  obtain ⟨c, j⟩ := p
  by_cases hc : c = b
  · subst hc
    simp only [Function.update_self, h]
    by_cases hj : j = i
    · subst hj
      rw [Function.update_self, Function.update_self]
    · rw [Function.update_of_ne hj, Function.update_of_ne]
      exact fun he => hj (Prod.mk.inj he).2
  · simp only [Function.update_of_ne hc]
    rw [Function.update_of_ne]
    exact fun he => hc (Prod.mk.inj he).1

/-- Writing a bucket does not change a field that both versions share. -/
theorem update_same {γ : Type} (bs : Buckets) (f : Bucket → Fin 4 → γ)
    (b : UInt32) (bkt : Bucket) (h : f bkt = f (bs b)) :
    (fun p : Pos => f (Function.update bs b bkt p.1) p.2)
      = fun p : Pos => f (bs p.1) p.2 := by
  funext p
  by_cases hc : p.1 = b
  · simp only [hc, Function.update_self, h]
  · simp only [Function.update_of_ne hc]

/-- The three fields are all there is. -/
theorem ext_fields {bs bs' : Buckets} (hs : bs.sigs = bs'.sigs)
    (hx : bs.idx = bs'.idx) (hf : bs.flagAt = bs'.flagAt) : bs = bs' := by
  funext b
  have h1 : (bs b).signatures = (bs' b).signatures :=
    funext fun i => congrFun hs (b, i)
  have h2 : (bs b).keyIdx = (bs' b).keyIdx := funext fun i => congrFun hx (b, i)
  have h3 : (bs b).flag = (bs' b).flag := funext fun i => congrFun hf (b, i)
  cases hb : bs b
  cases hb' : bs' b
  rw [hb, hb'] at h1 h2 h3
  cases h1
  cases h2
  cases h3
  rfl

variable (bs : Buckets) (b : UInt32) (i : Fin 4)

/-- The last write to an entry counts. -/
theorem setSignatures_idem (s s' : Signatures) :
    (bs.setSignatures b i s).setSignatures b i s' = bs.setSignatures b i s' := by
  unfold setSignatures
  simp only [Function.update_self, Function.update_idem]

@[simp] theorem sigs_setFlag (x : UInt8) :
    (bs.setFlag b i x).sigs = bs.sigs :=
  update_same bs Bucket.signatures b _ rfl

@[simp] theorem idx_setFlag (x : UInt8) :
    (bs.setFlag b i x).idx = bs.idx :=
  update_same bs Bucket.keyIdx b _ rfl

@[simp] theorem flagAt_setFlag (x : UInt8) :
    (bs.setFlag b i x).flagAt = Function.update bs.flagAt (b, i) x :=
  update_apply bs Bucket.flag b i x _ rfl

@[simp] theorem sigs_setSignatures (s : Signatures) :
    (bs.setSignatures b i s).sigs = Function.update bs.sigs (b, i) s :=
  update_apply bs Bucket.signatures b i s _ rfl

@[simp] theorem idx_setSignatures (s : Signatures) :
    (bs.setSignatures b i s).idx = bs.idx :=
  update_same bs Bucket.keyIdx b _ rfl

@[simp] theorem flagAt_setSignatures (s : Signatures) :
    (bs.setSignatures b i s).flagAt = bs.flagAt :=
  update_same bs Bucket.flag b _ rfl

@[simp] theorem sigs_setKeyIdx (x : UInt32) :
    (bs.setKeyIdx b i x).sigs = bs.sigs :=
  update_same bs Bucket.signatures b _ rfl

@[simp] theorem idx_setKeyIdx (x : UInt32) :
    (bs.setKeyIdx b i x).idx = Function.update bs.idx (b, i) x :=
  update_apply bs Bucket.keyIdx b i x _ rfl

@[simp] theorem flagAt_setKeyIdx (x : UInt32) :
    (bs.setKeyIdx b i x).flagAt = bs.flagAt :=
  update_same bs Bucket.flag b _ rfl

end Buckets

-- ============================================================= one push

section Push

variable (bs : Buckets) (b : UInt32) (i : Fin 4) (nb : UInt32) (j : Fin 4)

/-- A push to another position puts the swapped pair there. -/
theorem sigs_pushEntry (hne : (b, i) ≠ (nb, j)) :
    (pushEntry bs b i nb j).sigs
      = Function.update bs.sigs (nb, j) (bs.sigs (b, i)).swap := by
  have hread : ∀ s : Signatures,
      ((bs.setSignatures nb j s) b).signatures i = bs.sigs (b, i) := fun s => by
    show (bs.setSignatures nb j s).sigs (b, i) = _
    rw [Buckets.sigs_setSignatures, Function.update_of_ne hne]
  have hself : ∀ s : Signatures,
      ((bs.setSignatures nb j s) nb).signatures j = s := fun s => by
    show (bs.setSignatures nb j s).sigs (nb, j) = _
    rw [Buckets.sigs_setSignatures, Function.update_self]
  unfold pushEntry
  simp only [hread, hself, Buckets.sigs_setKeyIdx, Buckets.sigs_setSignatures,
    Function.update_idem]
  rfl

theorem idx_pushEntry :
    (pushEntry bs b i nb j).idx
      = Function.update bs.idx (nb, j) (bs.idx (b, i)) := by
  have hread : ∀ (c : Buckets) (s : Signatures),
      ((c.setSignatures nb j s) b).keyIdx i = c.idx (b, i) := fun c s =>
    congrFun (Buckets.idx_setSignatures c nb j s) (b, i)
  unfold pushEntry
  simp only [hread, Buckets.idx_setKeyIdx, Buckets.idx_setSignatures]

@[simp] theorem flagAt_pushEntry :
    (pushEntry bs b i nb j).flagAt = bs.flagAt := by
  unfold pushEntry
  simp only [Buckets.flagAt_setKeyIdx, Buckets.flagAt_setSignatures]

end Push

theorem mem_bucketEntries (i : Fin 4) : i ∈ bucketEntries := by
  revert i
  decide

/-- The loops of the source take the first entry that will do. -/
theorem find?_bucketEntries_first {p : Fin 4 → Bool} {i : Fin 4}
    (h : bucketEntries.find? p = some i) : ∀ j < i, p j = false := by
  intro j hj
  obtain ⟨-, before, after, hsplit, hfirst⟩ := List.find?_eq_some_iff_append.mp h
  have hsorted : bucketEntries.Pairwise (· < ·) := by decide
  have hmem := mem_bucketEntries j
  rw [hsplit] at hsorted hmem
  have htail := (List.pairwise_cons.mp (List.pairwise_append.mp hsorted).2.1).1
  rcases List.mem_append.mp hmem with hbefore | hafter
  · simpa using hfirst j hbefore
  · rcases List.mem_cons.mp hafter with rfl | hafter
    · exact absurd hj (Fin.lt_irrefl j)
    · exact absurd (htail j hafter) (Fin.lt_asymm hj)

/-- The free entry of a bucket is empty. -/
theorem freeEntry_eq_some {bs : Buckets} {b : UInt32} {j : Fin 4}
    (h : (bs b).freeEntry = some j) : ¬ bs.Occupied (b, j) := by
  have hnull := List.find?_some h
  exact fun hocc => hocc (beq_iff_eq.mp hnull)

/-- A bucket without a free entry is full. -/
theorem freeEntry_eq_none {bs : Buckets} {b : UInt32} :
    (bs b).freeEntry = none ↔ bs.Full b := by
  unfold Bucket.freeEntry Buckets.Full Buckets.Occupied
  rw [List.find?_eq_none]
  constructor
  · intro h i hnull
    exact h i (mem_bucketEntries i) (beq_iff_eq.mpr hnull)
  · intro h i _ hnull
    exact h i (beq_iff_eq.mp hnull)

-- =================================================== what a call can do

variable {mask : UInt32} {bs bs' : Buckets} {b : UInt32} {fuel : Nat}

/-- The alternative bucket of a position. -/
def Buckets.altBucket (mask : UInt32) (bs : Buckets) (p : Pos) : UInt32 :=
  (bs.sigs p).alt &&& mask

theorem Buckets.altBucket_congr {bs₀ : Buckets} (h : bs.sigs = bs₀.sigs) :
    bs.altBucket mask = bs₀.altBucket mask := by
  unfold altBucket
  rw [h]

/-- One call either ends at an empty entry of an alternative bucket, or gives
up because all entries are flagged, or goes on in the alternative bucket of
the first unflagged entry. -/
theorem makeSpaceBucket_cases {ret : Except Int (Fin 4)}
    (h : makeSpaceBucket mask (fuel + 1) bs b = some (bs', ret)) :
    (∃ i j, ¬ bs.Occupied (bs.altBucket mask (b, i), j) ∧ ret = .ok i
        ∧ bs' = pushEntry bs b i (bs.altBucket mask (b, i)) j)
      ∨ (∀ i, bs.Full (bs.altBucket mask (b, i)))
        ∧ (((∀ i, bs.flagAt (b, i) ≠ 0) ∧ bs' = bs ∧ ret = .error (-ENOSPC))
          ∨ ∃ i bs'' r, bs.flagAt (b, i) = 0 ∧ (∀ j < i, bs.flagAt (b, j) ≠ 0)
            ∧ makeSpaceBucket mask fuel (bs.setFlag b i 1)
                (bs.altBucket mask (b, i)) = some (bs'', r)
            ∧ ((∃ j, r = .ok j ∧ ret = .ok i
                ∧ bs' = pushEntry (bs''.setFlag b i 0) b i
                    (bs.altBucket mask (b, i)) j)
              ∨ ∃ e, r = .error e ∧ ret = .error e
                ∧ bs' = bs''.setFlag b i 0)) := by
  simp only [makeSpaceBucket] at h
  split at h
  next i hfind =>
    have hsome := List.find?_some hfind
    obtain ⟨j, hj⟩ := Option.isSome_iff_exists.mp hsome
    obtain ⟨rfl, rfl⟩ := Prod.mk.inj (Option.some.inj h)
    refine .inl ⟨i, j, freeEntry_eq_some hj, rfl, ?_⟩
    rw [hj]
    rfl
  next hnone =>
    have hfull : ∀ i, bs.Full (bs.altBucket mask (b, i)) := fun i => by
      have hi := List.find?_eq_none.mp hnone i (mem_bucketEntries i)
      exact freeEntry_eq_none.mp (Option.not_isSome_iff_eq_none.mp hi)
    refine .inr ⟨hfull, ?_⟩
    split at h
    next hflags =>
      obtain ⟨rfl, rfl⟩ := Prod.mk.inj (Option.some.inj h)
      refine .inl ⟨fun i hi => ?_, rfl, rfl⟩
      exact List.find?_eq_none.mp hflags i (mem_bucketEntries i)
        (beq_iff_eq.mpr hi)
    next i hflag =>
      obtain ⟨⟨bs'', r⟩, hcall, hret⟩ := Option.map_eq_some_iff.mp h
      have hclear := List.find?_some hflag
      have hfirst : ∀ j < i, bs.flagAt (b, j) ≠ 0 := fun j hj =>
        beq_eq_false_iff_ne.mp (find?_bucketEntries_first hflag j hj)
      refine .inr ⟨i, bs'', r, beq_iff_eq.mp hclear, hfirst, hcall, ?_⟩
      cases r with
      | ok j =>
          obtain ⟨rfl, rfl⟩ := Prod.mk.inj hret
          exact .inl ⟨j, rfl, rfl, rfl⟩
      | error e =>
          obtain ⟨rfl, rfl⟩ := Prod.mk.inj hret
          exact .inr ⟨e, rfl, rfl, rfl⟩

-- ============================================================== the result

/-- Everything but the hole `hole` is what `σ` says: unchanged in its place,
or pushed to its alternative bucket with the pair swapped. -/
structure Moved (mask : UInt32) (bs bs' : Buckets) (hole : Pos)
    (σ : Equiv.Perm Pos) : Prop where
  empty : ¬ bs.Occupied (σ hole)
  only : ∀ p, σ p ≠ p → p = σ hole ∨ bs.Occupied p
  entry : ∀ p, p ≠ hole →
    (σ p = p ∧ bs'.sigs p = bs.sigs p ∧ bs'.idx p = bs.idx p)
      ∨ (σ p ≠ p ∧ bs.Occupied (σ p) ∧ p.1 = bs.altBucket mask (σ p)
        ∧ bs'.sigs p = (bs.sigs (σ p)).swap ∧ bs'.idx p = bs.idx (σ p))

/-- Only the signatures and the slot numbers count. -/
theorem Moved.congr {cs cs' : Buckets} {hole : Pos} {σ : Equiv.Perm Pos}
    (h : Moved mask bs bs' hole σ) (hs : cs.sigs = bs.sigs)
    (hx : cs.idx = bs.idx) (hs' : cs'.sigs = bs'.sigs)
    (hx' : cs'.idx = bs'.idx) : Moved mask cs cs' hole σ := by
  have hocc : ∀ p, cs.Occupied p ↔ bs.Occupied p := fun p => by
    rw [Buckets.Occupied, Buckets.Occupied, hs]
  have halt : cs.altBucket mask = bs.altBucket mask := Buckets.altBucket_congr hs
  refine ⟨?_, fun p hp => ?_, fun p hp => ?_⟩
  · rw [hocc]
    exact h.empty
  · rw [hocc]
    exact h.only p hp
  · rw [hs', hx', hs, hx, hocc, halt]
    exact h.entry p hp

/-- A position that a walk cannot touch any more. -/
def Pinned (mask : UInt32) (bs : Buckets) (p : Pos) : Prop :=
  bs.Occupied p ∧ bs.flagAt p ≠ 0 ∧ bs.Full (bs.altBucket mask p)

/-- The last push of a walk. -/
theorem Moved.base {i j : Fin 4} (hfull : bs.Full b)
    (hempty : ¬ bs.Occupied (bs.altBucket mask (b, i), j)) :
    Moved mask bs (pushEntry bs b i (bs.altBucket mask (b, i)) j) (b, i)
      (Equiv.swap (b, i) (bs.altBucket mask (b, i), j)) := by
  have hne : (b, i) ≠ (bs.altBucket mask (b, i), j) := fun he =>
    hempty (he ▸ hfull i)
  refine ⟨?_, fun p hp => ?_, fun p hp => ?_⟩
  · rwa [Equiv.swap_apply_left]
  · rw [Equiv.swap_apply_left]
    by_cases h1 : p = (b, i)
    · exact .inr (h1 ▸ hfull i)
    · by_cases h2 : p = (bs.altBucket mask (b, i), j)
      · exact .inl h2
      · exact absurd (Equiv.swap_apply_of_ne_of_ne h1 h2) hp
  · rw [sigs_pushEntry _ _ _ _ _ hne, idx_pushEntry]
    by_cases h2 : p = (bs.altBucket mask (b, i), j)
    · subst h2
      rw [Equiv.swap_apply_right, Function.update_self, Function.update_self]
      exact .inr ⟨hne, hfull i, rfl, rfl, rfl⟩
    · rw [Equiv.swap_apply_of_ne_of_ne hp h2, Function.update_of_ne h2,
        Function.update_of_ne h2]
      exact .inl ⟨rfl, rfl, rfl⟩

/-- A push into the hole of a walk that left the pushed entry alone. -/
theorem Moved.push {bs'' : Buckets} {i j : Fin 4} {nb : UInt32}
    {σ : Equiv.Perm Pos} (h : Moved mask bs bs'' (nb, j) σ)
    (hnb : nb = bs.altBucket mask (b, i)) (hocc : bs.Occupied (b, i))
    (hocc' : bs.Occupied (nb, j)) (hfix : σ (b, i) = (b, i))
    (hne : (b, i) ≠ (nb, j)) :
    Moved mask bs (pushEntry bs'' b i nb j) (b, i)
      (σ * Equiv.swap (b, i) (nb, j)) := by
  have hself := h.entry (b, i) hne
  have hkept : bs''.sigs (b, i) = bs.sigs (b, i)
      ∧ bs''.idx (b, i) = bs.idx (b, i) := by
    rcases hself with ⟨-, hs, hx⟩ | ⟨hmv, -⟩
    · exact ⟨hs, hx⟩
    · exact absurd hfix hmv
  refine ⟨?_, fun p hp => ?_, fun p hp => ?_⟩
  · rw [Equiv.Perm.mul_apply, Equiv.swap_apply_left]
    exact h.empty
  · rw [Equiv.Perm.mul_apply, Equiv.swap_apply_left]
    by_cases h1 : p = (b, i)
    · exact .inr (h1 ▸ hocc)
    · by_cases h2 : p = (nb, j)
      · exact .inr (h2 ▸ hocc')
      · rw [Equiv.Perm.mul_apply, Equiv.swap_apply_of_ne_of_ne h1 h2] at hp
        exact h.only p hp
  · rw [sigs_pushEntry _ _ _ _ _ hne, idx_pushEntry, Equiv.Perm.mul_apply]
    by_cases h2 : p = (nb, j)
    · subst h2
      rw [Equiv.swap_apply_right, Function.update_self, Function.update_self,
        hfix, hkept.1, hkept.2]
      exact .inr ⟨hne, hocc, hnb, rfl, rfl⟩
    · rw [Equiv.swap_apply_of_ne_of_ne hp h2, Function.update_of_ne h2,
        Function.update_of_ne h2]
      exact h.entry p h2

/-- A call from a full bucket: the flags are as before; an error leaves the
signatures and slot numbers alone, a success is `Moved`, and pinned
positions stay out of it. -/
theorem makeSpaceBucket_spec {ret : Except Int (Fin 4)} (hfull : bs.Full b)
    (h : makeSpaceBucket mask fuel bs b = some (bs', ret)) :
    bs'.flagAt = bs.flagAt
      ∧ (∀ e, ret = .error e →
          e = -ENOSPC ∧ bs'.sigs = bs.sigs ∧ bs'.idx = bs.idx)
      ∧ ∀ i, ret = .ok i → ∃ σ, Moved mask bs bs' (b, i) σ
          ∧ ∀ p, Pinned mask bs p → σ p = p ∧ p ≠ (b, i) := by
  induction fuel generalizing bs bs' b ret with
  | zero => cases h
  | succ fuel ih =>
    rcases makeSpaceBucket_cases h with
      ⟨i, j, hempty, rfl, rfl⟩ | ⟨hall, ⟨-, rfl, rfl⟩ | ⟨i, bs'', r, hflag, -, hcall, hr⟩⟩
    · -- the walk ends here
      refine ⟨flagAt_pushEntry .., fun _ => nofun, fun k hk => ?_⟩
      cases hk
      refine ⟨_, Moved.base hfull hempty, fun p hp => ?_⟩
      have h1 : p ≠ (b, i) := by
        intro heq
        subst heq
        exact hempty (hp.2.2 j)
      have h2 : p ≠ (bs.altBucket mask (b, i), j) := by
        intro heq
        subst heq
        exact hempty hp.1
      exact ⟨Equiv.swap_apply_of_ne_of_ne h1 h2, h1⟩
    · -- every entry has been pushed
      refine ⟨rfl, fun e he => ?_, fun _ => nofun⟩
      cases he
      exact ⟨rfl, rfl, rfl⟩
    · -- entry `i` waits for its place
      obtain ⟨hflags, herr, hok⟩ :=
        ih ((Buckets.full_congr (Buckets.sigs_setFlag ..)).mpr (hall i)) hcall
      have hrestored : (bs''.setFlag b i 0).flagAt = bs.flagAt := by
        rw [Buckets.flagAt_setFlag, hflags, Buckets.flagAt_setFlag,
          Function.update_idem, ← hflag, Function.update_eq_self]
      rcases hr with ⟨j, rfl, rfl, rfl⟩ | ⟨e, rfl, rfl, rfl⟩
      · refine ⟨(flagAt_pushEntry ..).trans hrestored, fun _ => nofun,
          fun k hk => ?_⟩
        cases hk
        obtain ⟨σ, hmoved, hpin⟩ := hok j rfl
        -- what was pinned still is, and now `(b, i)` is as well
        have hpinned : ∀ p, Pinned mask bs p ∨ p = (b, i) →
            Pinned mask (bs.setFlag b i 1) p := by
          intro p hp
          unfold Pinned Buckets.Occupied Buckets.altBucket
          rw [Buckets.full_congr (Buckets.sigs_setFlag ..),
            Buckets.sigs_setFlag, Buckets.flagAt_setFlag]
          by_cases hpi : p = (b, i)
          · subst hpi
            rw [Function.update_self]
            exact ⟨hfull i, by decide, hall i⟩
          · rw [Function.update_of_ne hpi]
            exact hp.resolve_right hpi
        obtain ⟨hfix, hne⟩ := hpin (b, i) (hpinned _ (.inr rfl))
        have hmoved' : Moved mask bs (bs''.setFlag b i 0)
            (bs.altBucket mask (b, i), j) σ :=
          hmoved.congr (Buckets.sigs_setFlag ..).symm
            (Buckets.idx_setFlag ..).symm (Buckets.sigs_setFlag ..)
            (Buckets.idx_setFlag ..)
        refine ⟨_, hmoved'.push rfl (hfull i) (hall i j) hfix hne,
          fun p hp => ?_⟩
        obtain ⟨hpfix, hpne⟩ := hpin p (hpinned p (.inl hp))
        have hpi : p ≠ (b, i) := by
          intro heq
          subst heq
          exact hp.2.1 hflag
        exact ⟨by rw [Equiv.Perm.mul_apply,
          Equiv.swap_apply_of_ne_of_ne hpi hpne, hpfix], hpi⟩
      · refine ⟨hrestored, fun e' he' => ?_, fun _ => nofun⟩
        cases he'
        obtain ⟨he, hs, hx⟩ := herr e rfl
        exact ⟨he, by rw [Buckets.sigs_setFlag, hs, Buckets.sigs_setFlag],
          by rw [Buckets.idx_setFlag, hx, Buckets.idx_setFlag]⟩

-- ============================================================ termination

/-- The position a cursor stands for. -/
def posOf (k : Nat) : Pos :=
  (UInt32.ofNat (k / 4), ⟨k % 4, Nat.mod_lt _ (by decide)⟩)

/-- All positions of a table of `n` buckets, in the order of iteration. -/
def positions (n : Nat) : List Pos := (List.range (4 * n)).map posOf

theorem mem_positions {n : Nat} (hn : n ≤ 2 ^ 32) {p : Pos} :
    p ∈ positions n ↔ p.1.toNat < n := by
  unfold positions
  rw [List.mem_map]
  constructor
  · intro hex
    obtain ⟨k, hk, rfl⟩ := hex
    have hlt := List.mem_range.mp hk
    show (UInt32.ofNat (k / 4)).toNat < n
    rw [UInt32.toNat_ofNat', Nat.mod_eq_of_lt (by omega)]
    omega
  · intro hp
    have hi := p.2.isLt
    refine ⟨4 * p.1.toNat + p.2.val, List.mem_range.mpr (by omega), ?_⟩
    refine Prod.ext ?_ (Fin.ext ?_)
    · show UInt32.ofNat ((4 * p.1.toNat + p.2.val) / 4) = p.1
      rw [show (4 * p.1.toNat + p.2.val) / 4 = p.1.toNat by omega,
        UInt32.ofNat_toNat]
    · show (4 * p.1.toNat + p.2.val) % 4 = p.2.val
      omega

theorem length_positions (n : Nat) : (positions n).length = 4 * n := by
  rw [positions, List.length_map, List.length_range]

/-- Different cursors of a table are different positions. -/
theorem posOf_inj {j k : Nat} (hj : j < 4 * 2 ^ 32) (hk : k < 4 * 2 ^ 32)
    (h : posOf j = posOf k) : j = k := by
  obtain ⟨h1, h2⟩ := Prod.mk.inj h
  have h1' := congrArg UInt32.toNat h1
  have h2' : j % 4 = k % 4 := congrArg Fin.val h2
  rw [UInt32.toNat_ofNat', UInt32.toNat_ofNat', Nat.mod_eq_of_lt (by omega),
    Nat.mod_eq_of_lt (by omega)] at h1'
  omega

/-- Every position once. -/
theorem nodup_positions {n : Nat} (hn : n ≤ 2 ^ 32) : (positions n).Nodup := by
  refine List.Nodup.map_on (fun j hj k hk h => ?_) List.nodup_range
  have hj' := List.mem_range.mp hj
  have hk' := List.mem_range.mp hk
  exact posOf_inj (by omega) (by omega) h

/-- The unflagged positions of a table. -/
def clearFlags (mask : UInt32) (bs : Buckets) : Finset Pos :=
  (positions (mask.toNat + 1)).toFinset.filter fun p => bs.flagAt p = 0

theorem mem_clearFlags {p : Pos} :
    p ∈ clearFlags mask bs ↔ p.1 ≤ mask ∧ bs.flagAt p = 0 := by
  have hlt := mask.toNat_lt
  unfold clearFlags
  rw [Finset.mem_filter, List.mem_toFinset, mem_positions (by omega),
    UInt32.le_iff_toNat_le, Nat.lt_succ_iff]

theorem card_clearFlags_le : (clearFlags mask bs).card ≤ 4 * (mask.toNat + 1) := by
  rw [← length_positions]
  exact (Finset.card_filter_le _ _).trans (List.toFinset_card_le _)

/-- Flagging an entry of the table takes it out of the unflagged ones. -/
theorem clearFlags_setFlag {i : Fin 4} :
    clearFlags mask (bs.setFlag b i 1) = (clearFlags mask bs).erase (b, i) := by
  ext p
  rw [Finset.mem_erase, mem_clearFlags, mem_clearFlags, Buckets.flagAt_setFlag]
  by_cases hp : p = (b, i)
  · subst hp
    simp
  · rw [Function.update_of_ne hp]
    simp [hp]

/-- A call ends within one more nested calls than there are clear flags in
the table, whatever the table holds. -/
theorem makeSpaceBucket_terminates (hb : b ≤ mask)
    (hfuel : (clearFlags mask bs).card < fuel) :
    ∃ r, makeSpaceBucket mask fuel bs b = some r := by
  induction fuel generalizing bs b with
  | zero => exact absurd hfuel (Nat.not_lt_zero _)
  | succ fuel ih =>
    simp only [makeSpaceBucket]
    split
    next i _ => exact ⟨_, rfl⟩
    next =>
      split
      next => exact ⟨_, rfl⟩
      next i hfind =>
        have hclear := List.find?_some hfind
        have hmem : (b, i) ∈ clearFlags mask bs :=
          mem_clearFlags.mpr ⟨hb, beq_iff_eq.mp hclear⟩
        obtain ⟨r, hr⟩ := @ih (bs.setFlag b i 1) (nextBucketIdx mask bs b i)
          (Bits.and_le_right _ _) (by
            rw [clearFlags_setFlag, Finset.card_erase_of_mem hmem]
            have := Finset.card_pos.mpr ⟨_, hmem⟩
            omega)
        rw [hr]
        exact ⟨_, rfl⟩

/-- The number of calls the model allows is enough. -/
theorem makeSpaceBucket_returns (hb : b ≤ mask) :
    ∃ r, makeSpaceBucket mask (4 * (mask.toNat + 1) + 1) bs b = some r :=
  makeSpaceBucket_terminates hb (Nat.lt_succ_of_le card_clearFlags_le)

/-- More calls than it needs do not change what a call returns. -/
theorem makeSpaceBucket_mono {r : Buckets × Except Int (Fin 4)} {fuel' : Nat}
    (hle : fuel ≤ fuel') (h : makeSpaceBucket mask fuel bs b = some r) :
    makeSpaceBucket mask fuel' bs b = some r := by
  induction fuel generalizing fuel' bs b r with
  | zero => cases h
  | succ fuel ih =>
    cases fuel' with
    | zero => cases hle
    | succ fuel' =>
      rw [makeSpaceBucket] at h ⊢
      split at h
      next => exact h
      next =>
        split at h
        next => exact h
        next i _ =>
          obtain ⟨r', hcall, hr⟩ := Option.map_eq_some_iff.mp h
          have hcall' := ih (Nat.le_of_succ_le_succ hle) hcall
          simp only [hcall', Option.map_some, hr]

/-- The walk ends, whatever the table holds and however its alternative
buckets are linked: every call has a recursion depth, the number of nested
calls it takes to return, and it is at most one more than the number of clear
flags in the table. -/
theorem makeSpaceBucket_depth_le (hb : b ≤ mask) :
    ∃ r depth, depth ≤ (clearFlags mask bs).card + 1
      ∧ ∀ fuel, makeSpaceBucket mask fuel bs b
          = if depth ≤ fuel then some r else none := by
  obtain ⟨r, hr⟩ : ∃ r, makeSpaceBucket mask ((clearFlags mask bs).card + 1) bs b
      = some r := makeSpaceBucket_terminates hb (Nat.lt_succ_self _)
  -- the depth is the least number of calls the call returns with
  have hex : ∃ n, (makeSpaceBucket mask n bs b).isSome :=
    ⟨_, Option.isSome_of_eq_some hr⟩
  have hleast : Nat.find hex ≤ (clearFlags mask bs).card + 1 :=
    Nat.find_min' hex (Option.isSome_of_eq_some hr)
  obtain ⟨r', hr'⟩ := Option.isSome_iff_exists.mp (Nat.find_spec hex)
  have hsame : r' = r :=
    Option.some.inj ((makeSpaceBucket_mono hleast hr').symm.trans hr)
  subst hsame
  refine ⟨r', Nat.find hex, hleast, fun fuel => ?_⟩
  by_cases hle : Nat.find hex ≤ fuel
  · rw [if_pos hle]
    exact makeSpaceBucket_mono hle hr'
  · rw [if_neg hle]
    exact Option.not_isSome_iff_eq_none.mp
      (Nat.find_min hex (Nat.lt_of_not_le hle))

/-- One full bucket whose entries all lead back to it. -/
theorem makeSpaceBucket_depth_le_cycle :
    ∃ r depth, depth ≤ (clearFlags 0 fun _ =>
          { signatures := fun _ => { current := 1, alt := 1 }
            keyIdx := fun _ => 0, flag := fun _ => 0 }).card + 1
      ∧ ∀ fuel, makeSpaceBucket 0 fuel (fun _ =>
          { signatures := fun _ => { current := 1, alt := 1 }
            keyIdx := fun _ => 0, flag := fun _ => 0 }) 0
          = if depth ≤ fuel then some r else none :=
  makeSpaceBucket_depth_le (UInt32.le_refl 0)

end PktSender.Cuckoo
