/-
A loop of `cuckoohash_iterate` calls on one cursor, with deletes in between.

A delete empties one entry and moves none, so a cursor keeps standing for
the same position: what lies behind it has been visited or deleted, and what
lies before it is still to come. `Traversing` says so of a state of the loop
and the keys returned so far; `loopExec_step` carries it over one call, and
`trace_traversing` over the whole loop.
-/
import PktSender.Cuckoo.Proofs.Iterate
import PktSender.Cuckoo.Proofs.Position

namespace PktSender.Cuckoo

open PktSender.Ring

variable {D : Type} {h h' : Tbl D} {free : List UInt32}

-- ================================================================= the loop

/-- A call in the loop. -/
inductive LoopOp where
  | next
  | del (key : List UInt8)

/-- The key of a delete has the length of the table's keys. -/
def LoopOp.Valid (h : Tbl D) : LoopOp → Prop
  | .next => True
  | .del key => key.length = h.keyLen.toNat

/-- What it returns: iterate also stores a key and a datum. -/
inductive LoopRet (D : Type) where
  | visited (ret : Int) (entry : Option (List UInt8 × D))
  | deleted (ret : Int)

/-- Make one call on the table and the cursor of the loop. -/
def loopExec (s : Tbl D × UInt32) :
    LoopOp → Option ((Tbl D × UInt32) × LoopRet D)
  | .next =>
      let (ret, entry, next) := cuckoohashIterate s.1 s.2
      some ((s.1, next), .visited ret entry)
  | .del key =>
      (cuckoohashDelKey s.1 key).map fun r => ((r.1, s.2), .deleted r.2)

/-- The key a call returned. -/
def LoopRet.key : LoopRet D → Option (List UInt8)
  | .visited _ entry => entry.map (·.1)
  | .deleted _ => none

/-- The keys the loop has returned. -/
def visitedKeys (rets : List (LoopRet D)) : List (List UInt8) :=
  rets.filterMap LoopRet.key

theorem visitedKeys_cons (ret : LoopRet D) (rets : List (LoopRet D)) :
    visitedKeys (ret :: rets) = ret.key.toList ++ visitedKeys rets := by
  unfold visitedKeys
  cases hk : ret.key with
  | none => rw [List.filterMap_cons_none hk]; rfl
  | some k => rw [List.filterMap_cons_some hk]; rfl

/-- Iterate has said that there is no entry left. -/
def LoopRet.Ended : LoopRet D → Prop
  | .visited ret _ => ret = -ENOENT
  | .deleted _ => False

instance LoopRet.decidableEnded : (r : LoopRet D) → Decidable r.Ended
  | .visited ret _ => inferInstanceAs (Decidable (ret = -ENOENT))
  | .deleted _ => .isFalse id

/-- The call was no iterate, or has said so. -/
def LoopRet.NoMore : LoopRet D → Prop
  | .visited ret _ => ret = -ENOENT
  | .deleted _ => True

/-- What a call may return when the table is `h`: iterate an entry of the
table, as a lookup of its key would find it, or the end. -/
def LoopRet.FoundIn (h : Tbl D) : LoopRet D → Prop
  | .visited ret (some (k, d)) => 0 ≤ ret ∧ cuckoohashLookupData h k = (ret, some d)
  | .visited ret none => ret = -ENOENT
  | .deleted _ => True

-- ============================================================ the invariant

/-- The loop is at cursor `c` and has returned the keys `seen`: every entry
behind the cursor is among them, none before it is. -/
structure Traversing (s : Tbl D × UInt32) (c : Nat) (seen : List (List UInt8)) :
    Prop where
  inv : ∃ free, Inv s.1 free []
  cursor : s.2 = UInt32.ofNat c
  inside : c ≤ 4 * s.1.numBuckets.toNat
  nodup : seen.Nodup
  behind : ∀ k < c, s.1.Occupied (posOf k) → s.1.key (posOf k) ∈ seen
  before : ∀ k, c ≤ k → k < 4 * s.1.numBuckets.toNat → s.1.Occupied (posOf k) →
    s.1.key (posOf k) ∉ seen

variable {s s' : Tbl D × UInt32} {c : Nat} {seen : List (List UInt8)}

/-- Before the first call. -/
theorem Traversing.start (hi : Inv h free []) : Traversing (h, 0) 0 [] where
  inv := ⟨free, hi⟩
  cursor := rfl
  inside := Nat.zero_le _
  nodup := List.nodup_nil
  behind := fun _ hk => absurd hk (Nat.not_lt_zero _)
  before := fun _ _ _ _ => List.not_mem_nil

/-- A call that returns no key. -/
theorem Traversing.append_none {key : Option (List UInt8)}
    (ht : Traversing s c seen) (hkey : key = none) :
    Traversing s c (seen ++ key.toList) := by
  subst hkey
  rw [Option.toList_none, List.append_nil]
  exact ht

/-- A delete leaves the positions where they are. -/
theorem Traversing.del {next : UInt32} {p₀ : Pos}
    (ht : Traversing (h, next) c seen) (hi : ∃ free, Inv h' free [])
    (hcl : Cleared h h' p₀) : Traversing (h', next) c seen where
  inv := hi
  cursor := ht.cursor
  inside := by
    rw [header_numBuckets hcl.same.header]
    exact ht.inside
  nodup := ht.nodup
  behind := by
    intro k hk hocc
    rw [(hcl.key_eq _).1]
    exact ht.behind k hk (hcl.occ.mp hocc).2
  before := by
    intro k hck hk hocc
    rw [(hcl.key_eq _).1]
    rw [header_numBuckets hcl.same.header] at hk
    exact ht.before k hck hk (hcl.occ.mp hocc).2

/-- At the end of the list the cursor goes to the end of the table. -/
theorem Traversing.finish {next : UInt32} (ht : Traversing (h, next) c seen)
    (hnil : h.entriesFrom c = []) :
    Traversing (h, UInt32.ofNat (4 * h.numBuckets.toNat))
      (4 * h.numBuckets.toNat) seen where
  inv := ht.inv
  cursor := rfl
  inside := Nat.le_refl _
  nodup := ht.nodup
  behind := by
    intro k hk hocc
    by_cases hkc : k < c
    · exact ht.behind k hkc hocc
    · have hmem : k ∈ h.entriesFrom c :=
        mem_entriesFrom.mpr ⟨Nat.le_of_not_lt hkc, hk, hocc⟩
      rw [hnil] at hmem
      cases hmem
  before := fun k hnk hk => absurd hk (Nat.not_lt_of_le hnk)

/-- A visit goes behind the first entry of the list. -/
theorem Traversing.visit {next : UInt32} {k : Nat} {ks : List Nat}
    (ht : Traversing (h, next) c seen) (hcons : h.entriesFrom c = k :: ks)
    (hk : k < 4 * h.numBuckets.toNat) (hks : h.entriesFrom (k + 1) = ks) :
    Traversing (h, UInt32.ofNat (k + 1)) (k + 1) (seen ++ [h.key (posOf k)]) := by
  obtain ⟨free, hi⟩ : ∃ free, Inv h free [] := ht.inv
  have hfew := hi.core.shape.few
  obtain ⟨hck, -, hocc⟩ := mem_entriesFrom.mp (hcons ▸ List.mem_cons_self)
  refine ⟨ht.inv, rfl, hk, ?_, fun j hj hoccj => ?_, fun j hkj hj hoccj hmem => ?_⟩
  · refine List.nodup_append.mpr ⟨ht.nodup, List.nodup_singleton _, ?_⟩
    intro x hx y hy heq
    rw [List.mem_singleton.mp hy] at heq
    exact ht.before k hck hk hocc (heq ▸ hx)
  · rw [List.mem_append, List.mem_singleton]
    by_cases hjc : j < c
    · exact .inl (ht.behind j hjc hoccj)
    · -- the positions the call has skipped are empty
      have hmem : j ∈ h.entriesFrom c :=
        mem_entriesFrom.mpr ⟨Nat.le_of_not_lt hjc, by omega, hoccj⟩
      rw [hcons] at hmem
      cases hmem with
      | head => exact .inr rfl
      | tail _ hmem =>
          have := (mem_entriesFrom.mp (hks ▸ hmem)).1
          omega
  · have hj : j < 4 * h.numBuckets.toNat := hj
    rcases List.mem_append.mp hmem with hmem | hmem
    · exact ht.before j (by omega) hj hoccj hmem
    · have hpos := hi.core.distinct _ _ hoccj hocc (List.mem_singleton.mp hmem)
      have hjk := posOf_inj (by omega) (by omega) hpos
      omega

-- ================================================================== one call

/-- Every call returns, and takes the loop on. -/
theorem loopExec_step (ht : Traversing s c seen) {op : LoopOp}
    (hop : op.Valid s.1) :
    ∃ s' ret c', loopExec s op = some (s', ret) ∧ ret.FoundIn s.1
      ∧ Traversing s' c' (seen ++ ret.key.toList) ∧ s'.1.header = s.1.header
      ∧ (ret.Ended → c' = 4 * s.1.numBuckets.toNat)
      ∧ (c = 4 * s.1.numBuckets.toNat → ret.NoMore ∧ c' = c) := by
  obtain ⟨h, next⟩ := s
  obtain ⟨free, hi⟩ : ∃ free, Inv h free [] := ht.inv
  have hnext : next = UInt32.ofNat c := ht.cursor
  cases op with
  | del key =>
      by_cases hp : ∃ p, h.Occupied p ∧ h.key p = key
      · obtain ⟨p, hp, hk⟩ := hp
        obtain ⟨h', hdel, hi', hcl⟩ := delKey_present hi hp hk
        refine ⟨(h', next), .deleted _, c, by rw [loopExec, hdel]; rfl, trivial, ?_,
          hcl.same.header, fun hend => hend.elim, fun _ => ⟨trivial, rfl⟩⟩
        exact (ht.del hi' hcl).append_none rfl
      · have hno : ∀ p, h.Occupied p → h.key p ≠ key :=
          fun p hp' hk => hp ⟨p, hp', hk⟩
        refine ⟨(h, next), .deleted _, c, by rw [loopExec, delKey_absent hno]; rfl,
          trivial, ?_, rfl, fun hend => hend.elim, fun _ => ⟨trivial, rfl⟩⟩
        exact ht.append_none rfl
  | next =>
      have hfew := hi.core.shape.few
      cases hks : h.entriesFrom c with
      | nil =>
          have hiter := iterate_nil hfew ht.inside hks
          refine ⟨(h, UInt32.ofNat (4 * h.numBuckets.toNat)),
            .visited (-ENOENT) none, 4 * h.numBuckets.toNat,
            by rw [loopExec, hnext, hiter], rfl, ?_, rfl, fun _ => rfl,
            fun hc => ⟨rfl, hc.symm⟩⟩
          exact (ht.finish hks).append_none rfl
      | cons k ks =>
          obtain ⟨hiter, htail, hck, hk⟩ := iterate_cons hfew hks
          obtain ⟨-, -, hocc⟩ := mem_entriesFrom.mp (hks ▸ List.mem_cons_self)
          have hused := hi.core.used _ hocc
          have hret := hi.core.ret_eq hused
          refine ⟨(h, UInt32.ofNat (k + 1)),
            .visited (toInt32 (h.buckets.idx (posOf k) - 1))
              (some (h.key (posOf k), h.datum (posOf k))), k + 1,
            by rw [loopExec, hnext, hiter], ?_, ht.visit hks hk htail, rfl, ?_, ?_⟩
          · show 0 ≤ _ ∧ _
            rw [hret]
            exact ⟨by have := hused.1; omega, lookup_present hi.core hocc rfl⟩
          · intro hend
            have hend : toInt32 (h.buckets.idx (posOf k) - 1) = -ENOENT := hend
            rw [hret] at hend
            have := hused.1
            unfold ENOENT at hend
            omega
          · intro hc
            have hc : c = 4 * h.numBuckets.toNat := hc
            omega

-- =============================================================== whole loops

theorem LoopOp.Valid.of_header {op : LoopOp} (hop : op.Valid h)
    (hh : h'.header = h.header) : op.Valid h' := by
  cases op with
  | next => trivial
  | del key => exact Eq.trans hop (congrArg UInt32.toNat (header_keyLen hh)).symm

/-- Every loop returns. Once iterate has said that there is no entry left,
the cursor is at the end of the table, and it stays there. -/
theorem trace_traversing {ops : List LoopOp} (ht : Traversing s c seen)
    (hops : ∀ op ∈ ops, op.Valid s.1) :
    ∃ s' rets c', Lts.trace loopExec s ops = some (s', rets)
      ∧ Traversing s' c' (seen ++ visitedKeys rets) ∧ s'.1.header = s.1.header
      ∧ (c = 4 * s.1.numBuckets.toNat → (∀ r ∈ rets, r.NoMore) ∧ c' = c)
      ∧ ((∃ r ∈ rets, r.Ended) → c' = 4 * s.1.numBuckets.toNat)
      ∧ rets.Pairwise fun r r' => r.Ended → r'.NoMore := by
  induction ops generalizing s c seen with
  | nil =>
      refine ⟨s, [], c, rfl, ?_, rfl, fun _ => ⟨List.forall_mem_nil _, rfl⟩,
        fun hex => ?_, .nil⟩
      · rw [show visitedKeys ([] : List (LoopRet D)) = [] from rfl, List.append_nil]
        exact ht
      · obtain ⟨r, hr, -⟩ := hex
        cases hr
  | cons op ops ih =>
      obtain ⟨s₁, ret, c₁, hexec, -, ht₁, hh, hend, hstay⟩ :=
        loopExec_step ht (hops op List.mem_cons_self)
      have hops₁ : ∀ op ∈ ops, op.Valid s₁.1 := fun op hop =>
        (hops op (List.mem_cons_of_mem _ hop)).of_header hh
      have hn := congrArg UInt32.toNat (header_numBuckets hh)
      obtain ⟨s', rets, c', htrace, ht', hh', hstay', hend', hpair⟩ := ih ht₁ hops₁
      rw [hn] at hstay' hend'
      refine ⟨s', ret :: rets, c', Lts.trace_cons_eq_some.mpr ⟨s₁, ret, rets, hexec, htrace, rfl⟩,
        ?_, hh'.trans hh, fun hc => ?_, fun hex => ?_, ?_⟩
      · rw [visitedKeys_cons, ← List.append_assoc]
        exact ht'
      · obtain ⟨hmore, hc₁⟩ := hstay hc
        obtain ⟨hall, hc'⟩ := hstay' (hc₁.trans hc)
        exact ⟨List.forall_mem_cons.mpr ⟨hmore, hall⟩, hc'.trans hc₁⟩
      · obtain ⟨r, hr, hre⟩ := hex
        cases hr with
        | head => exact (hstay' (hend hre)).2.trans (hend hre)
        | tail _ hr => exact hend' ⟨r, hr, hre⟩
      · exact .cons (fun r hr hre => (hstay' (hend hre)).1 r hr) hpair

/-- A call in the loop: what was before it, and what it returned. -/
theorem trace_call {ops₁ ops₂ : List LoopOp} {op : LoopOp} {rets : List (LoopRet D)}
    (ht : Traversing s c seen) (hops : ∀ o ∈ ops₁ ++ op :: ops₂, o.Valid s.1)
    (htrace : Lts.trace loopExec s (ops₁ ++ op :: ops₂) = some (s', rets)) :
    ∃ s₁ s₂ rets₁ ret rets₂, Lts.trace loopExec s ops₁ = some (s₁, rets₁)
      ∧ loopExec s₁ op = some (s₂, ret) ∧ rets = rets₁ ++ ret :: rets₂
      ∧ ret.FoundIn s₁.1 := by
  obtain ⟨s₁, rets₁, c₁, htrace₁, ht₁, hh₁, -⟩ := trace_traversing ht
    fun o ho => hops o (List.mem_append_left _ ho)
  obtain ⟨s₂, ret, -, hexec, hfound, -⟩ := loopExec_step ht₁
    ((hops op (List.mem_append_right _ List.mem_cons_self)).of_header hh₁)
  rw [Lts.trace_append, htrace₁, Option.bind_some, Lts.trace_cons_of_some hexec,
    Option.map_map] at htrace
  obtain ⟨⟨s₃, rets₂⟩, -, heq⟩ := Option.map_eq_some_iff.mp htrace
  exact ⟨s₁, s₂, rets₁, ret, rets₂, htrace₁, hexec, (Prod.mk.inj heq).2.symm, hfound⟩

section Reachable

variable [Inhabited D]

/-- Iteration is complete and returns no key twice, also when keys are
deleted in the course of it. A loop of iterate calls on one cursor from 0 and
of deletes returns; what iterate returns in it is an entry of the table at
that moment, the position included; the keys returned are different; once
iterate has said that there is no entry left, every key that is still in the
table (no key is added, so it was there all the time) has been returned, and
iterate says so every time. -/
theorem iterate_complete (hr : h.Reachable) {ops : List LoopOp}
    (hops : ∀ op ∈ ops, op.Valid h) :
    ∃ h' next rets, Lts.trace loopExec (h, 0) ops = some ((h', next), rets)
      ∧ (∀ ops₁ op ops₂, ops = ops₁ ++ op :: ops₂ →
        ∃ s₁ s₂ rets₁ ret rets₂, Lts.trace loopExec (h, 0) ops₁ = some (s₁, rets₁)
          ∧ loopExec s₁ op = some (s₂, ret) ∧ rets = rets₁ ++ ret :: rets₂
          ∧ ret.FoundIn s₁.1)
      ∧ (visitedKeys rets).Nodup
      ∧ ((∃ r ∈ rets, r.Ended) → ∀ k v d,
          cuckoohashLookupData h' k = (v, some d) → k ∈ visitedKeys rets)
      ∧ rets.Pairwise fun r r' => r.Ended → r'.NoMore := by
  obtain ⟨free, hi⟩ := hr.inv
  have ht := Traversing.start hi
  obtain ⟨⟨h', next⟩, rets, c, htrace, ht', hh, -, hend, hpair⟩ :=
    trace_traversing ht hops
  have hsame : visitedKeys rets = [] ++ visitedKeys rets := (List.nil_append _).symm
  refine ⟨h', next, rets, htrace, fun ops₁ op ops₂ heq => ?_, ?_,
    fun hex k v d hl => ?_, hpair⟩
  · subst heq
    exact trace_call ht hops htrace
  · rw [hsame]
    exact ht'.nodup
  · obtain ⟨free', hi'⟩ : ∃ free, Inv h' free [] := ht'.inv
    obtain ⟨x, ⟨p, hp, rfl, -⟩, -⟩ := inSlot_of_lookup hi'.core hl
    -- the position of the key is behind the end of the table
    have hc := hend hex
    have hlt := h'.numBuckets.toNat_lt
    have hmem := hi'.core.mem_positions hp
    unfold positions at hmem
    obtain ⟨j, hj, rfl⟩ := List.mem_map.mp hmem
    rw [hsame]
    refine ht'.behind j ?_ hp
    rw [hc, ← congrArg UInt32.toNat (header_numBuckets hh)]
    exact List.mem_range.mp hj

end Reachable

/-- Keys 0, 1, 8 and 9 in bucket 0 and key 2 in bucket 1. -/
def fiveKeys : List (TblOp Nat) := oneBucket ++ [.add [2] 20]

/-- Key 0 is deleted when the cursor is past it, and key 8 before the cursor
gets there. -/
def loopRun : List LoopOp :=
  [.next, .del [0], .del [8], .next, .next, .next, .next, .next]

/-- Every key but 8 is returned before iterate says that there is no entry
left. -/
theorem iterate_complete_eight :
    ∃ h h' : Tbl Nat, ∃ next rets, tableAfter fiveKeys = some h
      ∧ Lts.trace loopExec (h, 0) loopRun = some ((h', next), rets)
      ∧ visitedKeys rets = [[0], [1], [9], [2]]
      ∧ (visitedKeys rets).Nodup
      ∧ (∀ k v d, cuckoohashLookupData h' k = (v, some d) → k ∈ visitedKeys rets)
      ∧ rets.Pairwise fun r r' => r.Ended → r'.NoMore := by
  obtain ⟨h, hafter, hr, hlen⟩ := tableAfter_reachable fiveKeys (by decide)
  have hvalid : ∀ op ∈ loopRun, op.Valid h := by
    intro op hop
    cases op with
    | next => trivial
    | del key =>
        rw [LoopOp.Valid, hlen]
        simp only [loopRun, List.mem_cons, LoopOp.del.injEq, reduceCtorEq,
          List.not_mem_nil, false_or, or_false] at hop
        rcases hop with rfl | rfl <;> rfl
  obtain ⟨h', next, rets, hloop, -, hnodup, hall, hpair⟩ := iterate_complete hr hvalid
  have hrets : (tableAfter fiveKeys).all fun h =>
      (Lts.trace loopExec (h, 0) loopRun).all fun t =>
        decide (visitedKeys t.2 = [[0], [1], [9], [2]] ∧ ∃ r ∈ t.2, r.Ended) := by
    decide +kernel
  rw [hafter, Option.all_some, hloop, Option.all_some] at hrets
  obtain ⟨hkeys, hended⟩ := of_decide_eq_true hrets
  exact ⟨h, h', next, rets, hafter, hloop, hkeys, hnodup, hall hended, hpair⟩

end PktSender.Cuckoo
