/-
What moving, filling and emptying bucket entries does to the invariant of
the cuckoo table.

# Three changes

- `Shifted`: a walk has moved the entries by a permutation, and the hole it
  left is empty. Nothing is bound differently.
- `Filled`: an empty entry now stands for the key and the datum in a slot
  that was with no entry.
- `Cleared`: an entry is empty now, and its slot is with no entry.

Each says what the entries of the new table are, and the rest of the table
is the same (`SameRest`). The theorems at the end are about the writes the
operations make; `Core.insert`, for the hole a walk has left, puts a move
and a fill together.
-/
import PktSender.Cuckoo.Proofs.Inv

namespace PktSender.Cuckoo

variable {D : Type} {h h' : Tbl D} {rest : List UInt32} {p₀ : Pos}

-- ================================================================== the rest

/-- The tables differ in their entries at most. -/
structure SameRest (h h' : Tbl D) : Prop where
  header : h'.header = h.header
  slot : ∀ x, h'.slot x = h.slot x
  flagAt : h'.buckets.flagAt = h.buckets.flagAt

namespace SameRest

theorem hash_eq (hr : SameRest h h') (k : List UInt8) : hash h' k = hash h k := by
  unfold hash
  rw [header_keyLen hr.header]

theorem isSlot_iff (hr : SameRest h h') {x : UInt32} : h'.IsSlot x ↔ h.IsSlot x := by
  unfold Tbl.IsSlot
  rw [header_entries hr.header]

/-- An entry with the slot number of an old one has its key and its datum. -/
theorem key_eq (hr : SameRest h h') {p q : Pos}
    (hx : h'.buckets.idx p = h.buckets.idx q) :
    h'.key p = h.key q ∧ h'.datum p = h.datum q := by
  unfold Tbl.key Tbl.datum
  rw [hr.slot, hx]
  exact ⟨rfl, rfl⟩

end SameRest

/-- Key `k` lies in slot `x`. -/
def Tbl.InSlot (h : Tbl D) (k : List UInt8) (x : UInt32) : Prop :=
  ∃ p, h.Occupied p ∧ h.key p = k ∧ h.buckets.idx p = x

/-- Every key stays in its slot, wherever its entry goes. -/
def Keeps (h h' : Tbl D) : Prop := ∀ k x, h.InSlot k x → h'.InSlot k x

theorem Keeps.trans {h₂ : Tbl D} (hk : Keeps h h') (hk' : Keeps h' h₂) : Keeps h h₂ :=
  fun k x hx => hk' k x (hk k x hx)

/-- A change of the key store that leaves the entries' keys alone. -/
theorem Keeps.of_buckets (hb : h'.buckets = h.buckets)
    (hkey : ∀ p, h.Occupied p → h'.key p = h.key p) : Keeps h h' := by
  intro k x hx
  obtain ⟨p, hp, hk, hpx⟩ := hx
  refine ⟨p, ?_, (hkey p hp).trans hk, ?_⟩
  · rw [Tbl.Occupied, hb]
    exact hp
  · rw [hb]
    exact hpx

-- =================================================================== a move

/-- The entry at a position other than the hole is the one that was at the
position `σ` gives, with its hashes swapped if that is another one. -/
structure Shifted (h h' : Tbl D) (p₀ : Pos) (σ : Equiv.Perm Pos) : Prop where
  same : SameRest h h'
  hole : ¬ h'.Occupied p₀
  empty : ¬ h.Occupied (σ p₀)
  occ : ∀ p, p ≠ p₀ → (h'.Occupied p ↔ h.Occupied (σ p))
  idx : ∀ p, p ≠ p₀ → h'.buckets.idx p = h.buckets.idx (σ p)
  pair : ∀ p, p ≠ p₀ →
    (σ p = p ∧ h'.buckets.sigs p = h.buckets.sigs p)
      ∨ (p.1 = h.buckets.altBucket h.bucketBitmask (σ p)
        ∧ h'.buckets.sigs p = (h.buckets.sigs (σ p)).swap)

namespace Shifted

variable {σ : Equiv.Perm Pos} {p q : Pos}

theorem ne (hs : Shifted h h' p₀ σ) (hp : h'.Occupied p) : p ≠ p₀ := by
  intro heq
  subst heq
  exact hs.hole hp

/-- Where an entry was. -/
theorem before (hs : Shifted h h' p₀ σ) (hp : h'.Occupied p) : h.Occupied (σ p) :=
  (hs.occ p (hs.ne hp)).mp hp

/-- Where an entry has gone. -/
theorem after (hs : Shifted h h' p₀ σ) (hq : h.Occupied q) :
    h'.Occupied (σ.symm q) := by
  have hne : σ.symm q ≠ p₀ := by
    intro heq
    apply hs.empty
    rw [← heq, Equiv.apply_symm_apply]
    exact hq
  rw [hs.occ _ hne, Equiv.apply_symm_apply]
  exact hq

theorem key_eq (hs : Shifted h h' p₀ σ) (hp : h'.Occupied p) :
    h'.key p = h.key (σ p) ∧ h'.datum p = h.datum (σ p) :=
  hs.same.key_eq (hs.idx p (hs.ne hp))

/-- The moves keep the invariant: every entry is where it was known to be, -/
theorem core (hs : Shifted h h' p₀ σ) (hc : Core h rest) : Core h' rest := by
  refine ⟨hc.shape.of_header hs.same.header, hc.nodup, fun x hx => ?_, fun p => ?_,
    fun p hp => ?_, fun p hp => ?_, fun p hp => ?_, fun p hp => ?_, fun p hp => ?_,
    fun p q hp hq heq => ?_, fun x hx => ?_, fun p q hp hq heq => ?_⟩
  · exact hs.same.isSlot_iff.mpr (hc.slots x hx)
  · rw [hs.same.flagAt]
    exact hc.flags p
  · rw [header_mask hs.same.header]
    rcases hs.pair p (hs.ne hp) with ⟨hσ, hsig⟩ | ⟨hb, hsig⟩
    · rw [hsig]
      exact hc.home p (hσ ▸ hs.before hp)
    · rw [hsig]
      exact hb
  · rw [hs.same.hash_eq, (hs.key_eq hp).1]
    rcases hs.pair p (hs.ne hp) with ⟨hσ, hsig⟩ | ⟨hb, hsig⟩
    · rw [hsig, hσ]
      exact hc.pair p (hσ ▸ hs.before hp)
    · rw [hsig]
      exact (hc.pair (σ p) (hs.before hp)).elim (fun hs' => .inr (by rw [hs']))
        (fun hs' => .inl (by rw [hs', Signatures.swap_swap]))
  · rw [(hs.key_eq hp).1, header_keyLen hs.same.header]
    exact hc.keyLen (σ p) (hs.before hp)
  · rw [hs.idx p (hs.ne hp), hs.same.isSlot_iff]
    exact hc.used (σ p) (hs.before hp)
  · rw [hs.idx p (hs.ne hp)]
    exact hc.apart (σ p) (hs.before hp)
  · rw [hs.idx p (hs.ne hp), hs.idx q (hs.ne hq)] at heq
    exact σ.injective (hc.inj _ _ (hs.before hp) (hs.before hq) heq)
  · rcases hc.cover x (hs.same.isSlot_iff.mp hx) with hx | ⟨q, hq, hqx⟩
    · exact .inl hx
    · refine .inr ⟨σ.symm q, hs.after hq, ?_⟩
      rw [hs.idx _ (hs.ne (hs.after hq)), Equiv.apply_symm_apply, hqx]
  · rw [(hs.key_eq hp).1, (hs.key_eq hq).1] at heq
    exact σ.injective (hc.distinct _ _ (hs.before hp) (hs.before hq) heq)

/-- under its slot, -/
theorem keeps (hs : Shifted h h' p₀ σ) : Keeps h h' := by
  intro k x hx
  obtain ⟨p, hp, hk, hpx⟩ := hx
  have hq := hs.after hp
  refine ⟨σ.symm p, hq, ?_, ?_⟩
  · rw [(hs.key_eq hq).1, Equiv.apply_symm_apply]
    exact hk
  · rw [hs.idx _ (hs.ne hq), Equiv.apply_symm_apply]
    exact hpx

/-- and with its datum. -/
theorem binds (hs : Shifted h h' p₀ σ) (k : List UInt8) (d : D) :
    h'.Binds k d ↔ h.Binds k d := by
  constructor
  · intro hb
    obtain ⟨p, hp, hk, hd⟩ := hb
    obtain ⟨hkey, hdatum⟩ := hs.key_eq hp
    exact ⟨σ p, hs.before hp, hkey.symm.trans hk, hdatum.symm.trans hd⟩
  · intro hb
    obtain ⟨q, hq, hk, hd⟩ := hb
    obtain ⟨hkey, hdatum⟩ := hs.key_eq (hs.after hq)
    rw [Equiv.apply_symm_apply] at hkey hdatum
    exact ⟨σ.symm q, hs.after hq, hkey.trans hk, hdatum.trans hd⟩

end Shifted

-- =================================================================== a fill

/-- The entry `p₀` is in its primary bucket and has slot `f`; the others are
the old ones. -/
structure Filled (h h' : Tbl D) (p₀ : Pos) (f : UInt32) : Prop where
  same : SameRest h h'
  sigs : h'.buckets.sigs
    = Function.update h.buckets.sigs p₀ (sigPair (hash h (h.slot f).key))
  idx : h'.buckets.idx = Function.update h.buckets.idx p₀ f

/-- A value that differs between the old entries differs between all, if the
new entry's is new. -/
theorem inj_of_new {α : Type*} {f : Pos → α} {P : Pos → Prop} (p₀ : Pos)
    (hnew : ∀ p, p ≠ p₀ → P p → f p ≠ f p₀)
    (hold : ∀ p q, p ≠ p₀ → q ≠ p₀ → P p → P q → f p = f q → p = q)
    (p q : Pos) (hp : P p) (hq : P q) (heq : f p = f q) : p = q := by
  by_cases hpe : p = p₀
  · by_cases hqe : q = p₀
    · rw [hpe, hqe]
    · rw [hpe] at heq
      exact absurd heq.symm (hnew q hqe hq)
  · by_cases hqe : q = p₀
    · rw [hqe] at heq
      exact absurd heq (hnew p hpe hp)
    · exact hold p q hpe hqe hp hq heq

namespace Filled

variable {f : UInt32} {p : Pos}

theorem sigs_self (hf : Filled h h' p₀ f) :
    h'.buckets.sigs p₀ = sigPair (hash h (h.slot f).key) := by
  rw [hf.sigs, Function.update_self]

theorem idx_self (hf : Filled h h' p₀ f) : h'.buckets.idx p₀ = f := by
  rw [hf.idx, Function.update_self]

theorem key_self (hf : Filled h h' p₀ f) :
    h'.key p₀ = (h.slot f).key ∧ h'.datum p₀ = (h.slot f).pdata := by
  unfold Tbl.key Tbl.datum
  rw [hf.idx_self, hf.same.slot]
  exact ⟨rfl, rfl⟩

theorem occupied_self (hf : Filled h h' p₀ f) : h'.Occupied p₀ := by
  rw [Tbl.Occupied, Buckets.Occupied, hf.sigs_self]
  exact sigPair_ne_null _

theorem sigs_ne (hf : Filled h h' p₀ f) (hp : p ≠ p₀) :
    h'.buckets.sigs p = h.buckets.sigs p := by
  rw [hf.sigs, Function.update_of_ne hp]

theorem idx_ne (hf : Filled h h' p₀ f) (hp : p ≠ p₀) :
    h'.buckets.idx p = h.buckets.idx p := by
  rw [hf.idx, Function.update_of_ne hp]

theorem key_ne (hf : Filled h h' p₀ f) (hp : p ≠ p₀) :
    h'.key p = h.key p ∧ h'.datum p = h.datum p :=
  hf.same.key_eq (hf.idx_ne hp)

theorem occ_ne (hf : Filled h h' p₀ f) (hp : p ≠ p₀) :
    h'.Occupied p ↔ h.Occupied p := by
  rw [Tbl.Occupied, Buckets.Occupied, hf.sigs_ne hp]
  rfl

/-- No old entry has the key, so it is in one entry only. -/
theorem key_new (hf : Filled h h' p₀ f)
    (hnew : ∀ p, h.Occupied p → h.key p ≠ (h.slot f).key) (hp : p ≠ p₀)
    (hocc : h'.Occupied p) : h'.key p ≠ (h.slot f).key := by
  rw [(hf.key_ne hp).1]
  exact hnew p ((hf.occ_ne hp).mp hocc)

/-- A filled position is the new key's, whose slot is taken out of the free ones. -/
theorem core (hf : Filled h h' p₀ f) (hc : Core h (rest ++ [f]))
    (hempty : ¬ h.Occupied p₀)
    (hhome : p₀.1 = hash h (h.slot f).key &&& h.bucketBitmask)
    (hlen : (h.slot f).key.length = h.keyLen.toNat)
    (hnew : ∀ p, h.Occupied p → h.key p ≠ (h.slot f).key) : Core h' rest := by
  have hnodup := List.nodup_append.mp hc.nodup
  have hmem : f ∈ rest ++ [f] :=
    List.mem_append_right _ (List.mem_singleton.mpr rfl)
  refine ⟨hc.shape.of_header hf.same.header, hnodup.1, fun x hx => ?_, fun p => ?_,
    fun p hp => ?_, fun p hp => ?_, fun p hp => ?_, fun p hp => ?_, fun p hp => ?_,
    inj_of_new p₀ (fun p hp hocc heq => ?_) (fun p q hp hq hop hoq heq => ?_),
    fun x hx => ?_,
    inj_of_new p₀ (fun p hp hocc => ?_) (fun p q hp hq hop hoq heq => ?_)⟩
  · exact hf.same.isSlot_iff.mpr (hc.slots x (List.mem_append_left _ hx))
  · rw [hf.same.flagAt]
    exact hc.flags p
  · rw [header_mask hf.same.header]
    by_cases hpe : p = p₀
    · rw [hpe, hf.sigs_self]
      exact hhome
    · rw [hf.sigs_ne hpe]
      exact hc.home p ((hf.occ_ne hpe).mp hp)
  · rw [hf.same.hash_eq]
    by_cases hpe : p = p₀
    · rw [hpe, hf.sigs_self, hf.key_self.1]
      exact .inl rfl
    · rw [hf.sigs_ne hpe, (hf.key_ne hpe).1]
      exact hc.pair p ((hf.occ_ne hpe).mp hp)
  · rw [header_keyLen hf.same.header]
    by_cases hpe : p = p₀
    · rw [hpe, hf.key_self.1]
      exact hlen
    · rw [(hf.key_ne hpe).1]
      exact hc.keyLen p ((hf.occ_ne hpe).mp hp)
  · rw [hf.same.isSlot_iff]
    by_cases hpe : p = p₀
    · rw [hpe, hf.idx_self]
      exact hc.slots f hmem
    · rw [hf.idx_ne hpe]
      exact hc.used p ((hf.occ_ne hpe).mp hp)
  · by_cases hpe : p = p₀
    · rw [hpe, hf.idx_self]
      exact fun hmem => hnodup.2.2 f hmem f (List.mem_singleton.mpr rfl) rfl
    · rw [hf.idx_ne hpe]
      exact fun hmem => hc.apart p ((hf.occ_ne hpe).mp hp)
        (List.mem_append_left _ hmem)
  · rw [hf.idx_ne hp, hf.idx_self] at heq
    exact hc.apart p ((hf.occ_ne hp).mp hocc) (heq ▸ hmem)
  · rw [hf.idx_ne hp, hf.idx_ne hq] at heq
    exact hc.inj p q ((hf.occ_ne hp).mp hop) ((hf.occ_ne hq).mp hoq) heq
  · rcases hc.cover x (hf.same.isSlot_iff.mp hx) with hx | ⟨q, hq, hqx⟩
    · rcases List.mem_append.mp hx with hx | hx
      · exact .inl hx
      · exact .inr ⟨p₀, hf.occupied_self,
          hf.idx_self.trans (List.mem_singleton.mp hx).symm⟩
    · have hqe : q ≠ p₀ := by
        intro heq
        subst heq
        exact hempty hq
      exact .inr ⟨q, (hf.occ_ne hqe).mpr hq, (hf.idx_ne hqe).trans hqx⟩
  · rw [hf.key_self.1]
    exact hf.key_new hnew hp hocc
  · rw [(hf.key_ne hp).1, (hf.key_ne hq).1] at heq
    exact hc.distinct p q ((hf.occ_ne hp).mp hop) ((hf.occ_ne hq).mp hoq) heq

theorem keeps (hf : Filled h h' p₀ f) (hempty : ¬ h.Occupied p₀) : Keeps h h' := by
  intro k x hx
  obtain ⟨p, hp, hk, hpx⟩ := hx
  have hne : p ≠ p₀ := by
    intro heq
    subst heq
    exact hempty hp
  exact ⟨p, (hf.occ_ne hne).mpr hp, (hf.key_ne hne).1.trans hk, (hf.idx_ne hne).trans hpx⟩

/-- The new key is bound, and the others as before. -/
theorem binds (hf : Filled h h' p₀ f) (hempty : ¬ h.Occupied p₀)
    (hnew : ∀ p, h.Occupied p → h.key p ≠ (h.slot f).key) (k : List UInt8) (d : D) :
    h'.Binds k d
      ↔ if k = (h.slot f).key then d = (h.slot f).pdata else h.Binds k d := by
  obtain ⟨hkey, hdatum⟩ := hf.key_self
  split
  next hk =>
    constructor
    · intro hb
      obtain ⟨p, hp, hpk, hpd⟩ := hb
      by_cases hpe : p = p₀
      · rw [← hpd, hpe, hdatum]
      · exact absurd (hpk.trans hk) (hf.key_new hnew hpe hp)
    · intro hd
      exact ⟨p₀, hf.occupied_self, hkey.trans hk.symm, hdatum.trans hd.symm⟩
  next hk =>
    constructor
    · intro hb
      obtain ⟨p, hp, hpk, hpd⟩ := hb
      have hpe : p ≠ p₀ := by
        intro heq
        subst heq
        exact hk (hpk.symm.trans hkey)
      obtain ⟨hkey', hdatum'⟩ := hf.key_ne hpe
      exact ⟨p, (hf.occ_ne hpe).mp hp, hkey'.symm.trans hpk, hdatum'.symm.trans hpd⟩
    · intro hb
      obtain ⟨p, hp, hpk, hpd⟩ := hb
      have hpe : p ≠ p₀ := by
        intro heq
        subst heq
        exact hempty hp
      obtain ⟨hkey', hdatum'⟩ := hf.key_ne hpe
      exact ⟨p, (hf.occ_ne hpe).mpr hp, hkey'.trans hpk, hdatum'.trans hpd⟩

end Filled

-- ================================================================= emptying

/-- The entry `p₀` is empty; the others are the old ones. -/
structure Cleared (h h' : Tbl D) (p₀ : Pos) : Prop where
  same : SameRest h h'
  sigs : h'.buckets.sigs
    = Function.update h.buckets.sigs p₀ { current := 0, alt := 0 }
  idx : h'.buckets.idx = h.buckets.idx

namespace Cleared

variable {p : Pos}

theorem key_eq (hcl : Cleared h h' p₀) (p : Pos) :
    h'.key p = h.key p ∧ h'.datum p = h.datum p :=
  hcl.same.key_eq (congrFun hcl.idx p)

theorem occ (hcl : Cleared h h' p₀) : h'.Occupied p ↔ p ≠ p₀ ∧ h.Occupied p := by
  rw [Tbl.Occupied, Buckets.Occupied, hcl.sigs]
  by_cases hp : p = p₀
  · rw [hp, Function.update_self]
    exact iff_of_false
      (fun hcon => hcon (Signatures.sig_eq_null.mpr ⟨rfl, rfl⟩))
      (fun hcon => hcon.1 rfl)
  · rw [Function.update_of_ne hp]
    exact (and_iff_right hp).symm

theorem sigs_eq (hcl : Cleared h h' p₀) (hp : h'.Occupied p) :
    h'.buckets.sigs p = h.buckets.sigs p := by
  rw [hcl.sigs, Function.update_of_ne (hcl.occ.mp hp).1]

/-- A cleared position gives its slot back to the free ones. -/
theorem core (hcl : Cleared h h' p₀) (hc : Core h rest) (hocc : h.Occupied p₀) :
    Core h' (rest ++ [h.buckets.idx p₀]) := by
  refine ⟨hc.shape.of_header hcl.same.header, ?_, fun x hx => ?_, fun p => ?_,
    fun p hp => ?_, fun p hp => ?_, fun p hp => ?_, fun p hp => ?_,
    fun p hp hx => ?_, fun p q hp hq heq => ?_, fun x hx => ?_,
    fun p q hp hq heq => ?_⟩
  · refine List.nodup_append.mpr
      ⟨hc.nodup, List.nodup_singleton _, fun x hx y hy he => ?_⟩
    rw [List.mem_singleton.mp hy] at he
    exact hc.apart p₀ hocc (he ▸ hx)
  · rw [hcl.same.isSlot_iff]
    rcases List.mem_append.mp hx with hx | hx
    · exact hc.slots x hx
    · exact List.mem_singleton.mp hx ▸ hc.used p₀ hocc
  · rw [hcl.same.flagAt]
    exact hc.flags p
  · rw [hcl.sigs_eq hp, header_mask hcl.same.header]
    exact hc.home p (hcl.occ.mp hp).2
  · rw [hcl.sigs_eq hp, hcl.same.hash_eq, (hcl.key_eq p).1]
    exact hc.pair p (hcl.occ.mp hp).2
  · rw [(hcl.key_eq p).1, header_keyLen hcl.same.header]
    exact hc.keyLen p (hcl.occ.mp hp).2
  · rw [hcl.idx, hcl.same.isSlot_iff]
    exact hc.used p (hcl.occ.mp hp).2
  · rw [hcl.idx] at hx
    rcases List.mem_append.mp hx with hx | hx
    · exact hc.apart p (hcl.occ.mp hp).2 hx
    · exact (hcl.occ.mp hp).1
        (hc.inj p p₀ (hcl.occ.mp hp).2 hocc (List.mem_singleton.mp hx))
  · rw [hcl.idx] at heq
    exact hc.inj p q (hcl.occ.mp hp).2 (hcl.occ.mp hq).2 heq
  · rcases hc.cover x (hcl.same.isSlot_iff.mp hx) with hx | ⟨q, hq, hqx⟩
    · exact .inl (List.mem_append_left _ hx)
    · by_cases hqe : q = p₀
      · rw [hqe] at hqx
        exact .inl (List.mem_append_right _ (List.mem_singleton.mpr hqx.symm))
      · exact .inr ⟨q, hcl.occ.mpr ⟨hqe, hq⟩, (congrFun hcl.idx q).trans hqx⟩
  · rw [(hcl.key_eq p).1, (hcl.key_eq q).1] at heq
    exact hc.distinct p q (hcl.occ.mp hp).2 (hcl.occ.mp hq).2 heq

/-- The other keys stay in their slots. -/
theorem keeps (hcl : Cleared h h' p₀) {k : List UInt8} {x : UInt32}
    (hne : k ≠ h.key p₀) (hx : h.InSlot k x) : h'.InSlot k x := by
  obtain ⟨p, hp, hk, hpx⟩ := hx
  refine ⟨p, hcl.occ.mpr ⟨?_, hp⟩, (hcl.key_eq p).1.trans hk, ?_⟩
  · intro heq
    subst heq
    exact hne hk.symm
  · rw [hcl.idx]
    exact hpx

/-- Its key is unbound, and no other. -/
theorem binds (hcl : Cleared h h' p₀) (hc : Core h rest) (hocc : h.Occupied p₀)
    (k : List UInt8) (d : D) : h'.Binds k d ↔ k ≠ h.key p₀ ∧ h.Binds k d := by
  constructor
  · intro hb
    obtain ⟨p, hp, hk, hd⟩ := hb
    obtain ⟨hne, hp⟩ := hcl.occ.mp hp
    rw [(hcl.key_eq p).1] at hk
    rw [(hcl.key_eq p).2] at hd
    exact ⟨fun he => hne (hc.distinct p p₀ hp hocc (hk.trans he)), p, hp, hk, hd⟩
  · intro hb
    obtain ⟨hne, p, hp, hk, hd⟩ := hb
    have hpe : p ≠ p₀ := by
      intro heq
      subst heq
      exact hne hk.symm
    exact ⟨p, hcl.occ.mpr ⟨hpe, hp⟩, (hcl.key_eq p).1.trans hk,
      (hcl.key_eq p).2.trans hd⟩

end Cleared

-- ================================================================ the writes

/-- Where an entry was before a walk, as far as occupation and slot number
go. -/
theorem moved_entry {mask : UInt32} {bs bs' : Buckets} {hole p : Pos}
    {σ : Equiv.Perm Pos} (hm : Moved mask bs bs' hole σ) (hp : p ≠ hole) :
    (bs'.Occupied p ↔ bs.Occupied (σ p)) ∧ bs'.idx p = bs.idx (σ p) := by
  unfold Buckets.Occupied
  rcases hm.entry p hp with ⟨hσ, hs, hx⟩ | ⟨-, -, -, hs, hx⟩
  · rw [hσ, hs]
    exact ⟨Iff.rfl, hx⟩
  · rw [hs]
    exact ⟨not_congr Signatures.swap_null, hx⟩

/-- A walk whose hole is emptied afterwards. -/
theorem Shifted.of_moved {bs' : Buckets} {b : UInt32} {i : Fin 4} {σ : Equiv.Perm Pos}
    (hm : Moved h.bucketBitmask h.buckets bs' (b, i) σ)
    (hflags : bs'.flagAt = h.buckets.flagAt) :
    Shifted h
      { h with buckets := bs'.setSignatures b i { current := 0, alt := 0 } }
      (b, i) σ := by
  have hsigs := Buckets.sigs_setSignatures bs' b i { current := 0, alt := 0 }
  have hidx := Buckets.idx_setSignatures bs' b i { current := 0, alt := 0 }
  refine ⟨⟨rfl, fun _ => rfl, ?_⟩, fun hocc => ?_, hm.empty, fun p hp => ?_,
    fun p hp => ?_, fun p hp => ?_⟩
  · rw [Buckets.flagAt_setSignatures, hflags]
  · rw [Tbl.Occupied, Buckets.Occupied, hsigs, Function.update_self] at hocc
    exact hocc (Signatures.sig_eq_null.mpr ⟨rfl, rfl⟩)
  · rw [Tbl.Occupied, Buckets.Occupied, hsigs, Function.update_of_ne hp]
    exact (moved_entry hm hp).1
  · rw [hidx]
    exact (moved_entry hm hp).2
  · rw [hsigs, Function.update_of_ne hp]
    rcases hm.entry p hp with ⟨hσ, hs, -⟩ | ⟨-, -, hb, hs, -⟩
    · exact .inl ⟨hσ, hs⟩
    · exact .inr ⟨hb, hs⟩

/-- Filling an entry for the key in slot `f`. -/
theorem Filled.setEntry (f : UInt32) (b : UInt32) (i : Fin 4) :
    Filled h (h.setEntry b i (hash h (h.slot f).key)
      (hashSecondary (hash h (h.slot f).key)) f) (b, i) f := by
  unfold Tbl.setEntry
  refine ⟨⟨rfl, fun _ => rfl, ?_⟩, ?_, ?_⟩
  · rw [Buckets.flagAt_setKeyIdx, Buckets.flagAt_setSignatures]
  · rw [Buckets.sigs_setKeyIdx, Buckets.sigs_setSignatures]
    rfl
  · rw [Buckets.idx_setKeyIdx, Buckets.idx_setSignatures]

/-- Filling the hole a walk has left. -/
theorem Core.insert {f : UInt32} (hc : Core h (rest ++ [f])) {bs' : Buckets}
    {b : UInt32} {i : Fin 4} {σ : Equiv.Perm Pos}
    (hm : Moved h.bucketBitmask h.buckets bs' (b, i) σ)
    (hflags : bs'.flagAt = h.buckets.flagAt)
    (hhome : b = hash h (h.slot f).key &&& h.bucketBitmask)
    (hlen : (h.slot f).key.length = h.keyLen.toNat)
    (hnew : ∀ p, h.Occupied p → h.key p ≠ (h.slot f).key) :
    Core (Tbl.setEntry { h with buckets := bs' } b i (hash h (h.slot f).key)
        (hashSecondary (hash h (h.slot f).key)) f) rest
      ∧ (∀ k d, (Tbl.setEntry { h with buckets := bs' } b i
          (hash h (h.slot f).key) (hashSecondary (hash h (h.slot f).key))
          f).Binds k d
        ↔ if k = (h.slot f).key then d = (h.slot f).pdata
          else h.Binds k d)
      ∧ Keeps h (Tbl.setEntry { h with buckets := bs' } b i (hash h (h.slot f).key)
          (hashSecondary (hash h (h.slot f).key)) f) := by
  have hmove := Shifted.of_moved hm hflags
  have hfill := Filled.setEntry (h := { h with
    buckets := bs'.setSignatures b i { current := 0, alt := 0 } }) f b i
  have hnew' : ∀ p, Tbl.Occupied { h with
      buckets := bs'.setSignatures b i { current := 0, alt := 0 } } p →
      Tbl.key { h with
        buckets := bs'.setSignatures b i { current := 0, alt := 0 } } p
        ≠ (h.slot f).key := by
    intro p hp hk
    exact hnew _ (hmove.before hp) ((hmove.key_eq hp).1.symm.trans hk)
  -- the empty pair is overwritten
  have hsame : Tbl.setEntry { h with
        buckets := bs'.setSignatures b i { current := 0, alt := 0 } } b i
        (hash h (h.slot f).key) (hashSecondary (hash h (h.slot f).key)) f
      = Tbl.setEntry { h with buckets := bs' } b i (hash h (h.slot f).key)
        (hashSecondary (hash h (h.slot f).key)) f := by
    unfold Tbl.setEntry
    simp only [Buckets.setSignatures_idem]
  rw [← hsame]
  refine ⟨hfill.core (hmove.core hc) hmove.hole hhome hlen hnew',
    fun k d => (hfill.binds hmove.hole hnew' k d).trans ?_,
    hmove.keeps.trans (hfill.keeps hmove.hole)⟩
  by_cases hk : k = (h.slot f).key
  · exact iff_of_eq ((if_pos hk).trans (if_pos hk).symm)
  · exact (iff_of_eq (if_neg hk)).trans
      ((hmove.binds k d).trans (iff_of_eq (if_neg hk).symm))

/-- Emptying an entry. -/
theorem Cleared.setSignatures (b : UInt32) (i : Fin 4) :
    Cleared h { h with
      buckets := h.buckets.setSignatures b i { current := 0, alt := 0 } } (b, i) :=
  ⟨⟨rfl, fun _ => rfl, Buckets.flagAt_setSignatures ..⟩,
    Buckets.sigs_setSignatures .., Buckets.idx_setSignatures ..⟩

end PktSender.Cuckoo
