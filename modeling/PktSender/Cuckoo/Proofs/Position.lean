/-
The number a key has: what lookup and delete return for it, the slot number
without the dummy slot, which the callers use as an index into data of their
own.

A key keeps its slot as long as it is in the table. An add that moves its
entry takes the slot number along, an add that updates it gives the new slot
back, and no other call touches it; so the number is the same from the call
that adds the key to the one that deletes it. Different keys have different
slots.
-/
import PktSender.Cuckoo.Proofs.Map

namespace PktSender.Cuckoo

open PktSender.Ring

variable {D : Type} {h h' : Tbl D} {free rest : List UInt32} {k : List UInt8}
  {x : UInt32}

-- ================================================================ one call

theorem lookup_inSlot (hc : Core h rest) (hx : h.InSlot k x) :
    ∃ d, cuckoohashLookupData h k = ((x.toNat : Int) - 1, some d) := by
  obtain ⟨p, hp, hk, rfl⟩ := hx
  exact ⟨h.datum p, lookup_present hc hp hk⟩

/-- A lookup that finds a datum has found the key's slot. -/
theorem inSlot_of_lookup (hc : Core h rest) {v : Int} {d : D}
    (hl : cuckoohashLookupData h k = (v, some d)) :
    ∃ x, h.InSlot k x ∧ v = (x.toNat : Int) - 1 ∧ h.IsSlot x := by
  by_cases hp : ∃ p, h.Occupied p ∧ h.key p = k
  · obtain ⟨p, hp, hk⟩ := hp
    rw [lookup_present hc hp hk] at hl
    exact ⟨h.buckets.idx p, ⟨p, hp, hk, rfl⟩, (Prod.mk.inj hl).1.symm, hc.used p hp⟩
  · have hno : ∀ p, h.Occupied p → h.key p ≠ k :=
      fun p hp' hk => hp ⟨p, hp', hk⟩
    rw [lookup_absent hno] at hl
    cases hl

/-- A call that is no delete of the key leaves it in its slot, and a lookup
of it returns the slot's number. -/
theorem tblExec_keeps (hi : Inv h free []) (hx : h.InSlot k x) {op : TblOp D}
    (hlen : op.key.length = h.keyLen.toNat) {ret : TblRet D}
    (hexec : tblExec h op = some (h', ret)) (hdel : op ≠ .del k) :
    h'.InSlot k x
      ∧ (op = .lookup k → ∃ d, ret = .found ((x.toNat : Int) - 1) (some d)) := by
  cases op with
  | add key data =>
      have hlen : key.length = h.keyLen.toNat := hlen
      obtain ⟨free', h₁, n, hadd, -, hkeeps, -⟩ := addKey_cases hi hlen data
      rw [tblExec, hadd] at hexec
      cases hexec
      refine ⟨hkeeps k x hx, ?_⟩
      intro heq
      cases heq
  | del key =>
      have hne : k ≠ key := by
        intro heq
        subst heq
        exact hdel rfl
      refine ⟨?_, by intro heq; cases heq⟩
      by_cases hp : ∃ p, h.Occupied p ∧ h.key p = key
      · obtain ⟨p, hp, hk⟩ := hp
        obtain ⟨h₁, hd, -, hcl⟩ := delKey_present hi hp hk
        rw [tblExec, hd] at hexec
        cases hexec
        exact hcl.keeps (hk.symm ▸ hne) hx
      · have hno : ∀ p, h.Occupied p → h.key p ≠ key :=
          fun p hp' hk => hp ⟨p, hp', hk⟩
        rw [tblExec, delKey_absent hno] at hexec
        cases hexec
        exact hx
  | lookup key =>
      rw [tblExec] at hexec
      cases hexec
      refine ⟨hx, ?_⟩
      intro heq
      cases heq
      obtain ⟨d, hd⟩ := lookup_inSlot hi.core hx
      exact ⟨d, by rw [hd]⟩

/-- A delete of the key returns the number too. -/
theorem del_inSlot (hi : Inv h free []) (hx : h.InSlot k x) :
    ∃ h', cuckoohashDelKey h k = some (h', (x.toNat : Int) - 1) := by
  obtain ⟨p, hp, hk, rfl⟩ := hx
  obtain ⟨h', hd, -⟩ := delKey_present hi hp hk
  exact ⟨h', hd⟩

-- =============================================================== whole runs

/-- No delete of `k` among the calls has succeeded. -/
def NoDelete (k : List UInt8) (ops : List (TblOp D)) (rets : List (TblRet D)) : Prop :=
  List.Forall₂ (fun op ret => op = .del k → ∀ n, ret = .code n → n < 0) ops rets

/-- Every lookup of `k` among the calls has returned `v` and a datum. -/
def AllReturn (k : List UInt8) (v : Int) (ops : List (TblOp D))
    (rets : List (TblRet D)) : Prop :=
  List.Forall₂ (fun op ret => op = .lookup k → ∃ d, ret = .found v (some d)) ops rets

/-- Calls none of which deletes `k`. -/
theorem noDelete_of_forall {ops : List (TblOp D)} {rets : List (TblRet D)}
    (htrace : Lts.trace tblExec h ops = some (h', rets))
    (hno : ∀ op ∈ ops, op ≠ .del k) : NoDelete k ops rets := by
  induction ops generalizing h rets with
  | nil =>
      cases htrace
      exact .nil
  | cons op ops ih =>
      obtain ⟨h₁, ret, rets', -, hrest, rfl⟩ := Lts.trace_cons_eq_some.mp htrace
      exact .cons (fun heq => absurd heq (hno op List.mem_cons_self))
        (ih hrest fun o ho => hno o (List.mem_cons_of_mem _ ho))

/-- A delete of a key in slot `x` would have succeeded. -/
theorem ne_del (hi : Inv h free []) (hx : h.InSlot k x) {op : TblOp D}
    {ret : TblRet D} (hexec : tblExec h op = some (h', ret))
    (hno : op = .del k → ∀ n, ret = .code n → n < 0) : op ≠ .del k := by
  intro heq
  subst heq
  obtain ⟨h₁, hd⟩ := del_inSlot hi hx
  rw [tblExec, hd] at hexec
  cases hexec
  have hneg := hno rfl _ rfl
  obtain ⟨p, hp, -, rfl⟩ := hx
  have hused := (hi.core.used p hp).1
  omega

theorem trace_keeps {ops : List (TblOp D)} {rets : List (TblRet D)}
    (hi : Inv h free []) (hx : h.InSlot k x)
    (hkeys : ∀ op ∈ ops, op.key.length = h.keyLen.toNat)
    (htrace : Lts.trace tblExec h ops = some (h', rets))
    (hno : NoDelete k ops rets) :
    h'.InSlot k x ∧ AllReturn k ((x.toNat : Int) - 1) ops rets := by
  induction ops generalizing h free rets with
  | nil =>
      cases htrace
      exact ⟨hx, .nil⟩
  | cons op ops ih =>
      have hlen := hkeys op List.mem_cons_self
      obtain ⟨m, hm⟩ := hi.core.represents
      obtain ⟨h₁, ret, -, hexec, -, ⟨free₁, hi₁⟩, -, hh⟩ :=
        tblExec_simulates hi hm op hlen
      rw [Lts.trace_cons_of_some hexec] at htrace
      obtain ⟨⟨h₂, rets'⟩, hrest, heq⟩ := Option.map_eq_some_iff.mp htrace
      cases heq
      cases hno with
      | cons hhead htail =>
          obtain ⟨hx₁, hret⟩ :=
            tblExec_keeps hi hx hlen hexec (ne_del hi hx hexec hhead)
          have hkeys' : ∀ op ∈ ops, op.key.length = h₁.keyLen.toNat := by
            intro op hop
            rw [header_keyLen hh]
            exact hkeys op (List.mem_cons_of_mem _ hop)
          obtain ⟨hx₂, hall⟩ := ih hi₁ hx₁ hkeys' hrest htail
          exact ⟨hx₂, .cons hret hall⟩

section Reachable

variable [Inhabited D]

/-- The number of a key is stable and its own. From a reachable table, and
with no delete of `k` that succeeds, every lookup of `k` during and after any
calls returns what it returned before them, and so does a delete after them;
and the numbers of different keys are different, at least 0 and less than
`entries`. -/
theorem position_stable (hr : h.Reachable) :
    (∀ k v d, cuckoohashLookupData h k = (v, some d) → ∀ ops : List (TblOp D),
      (∀ op ∈ ops, op.key.length = h.keyLen.toNat) →
      ∃ h' rets, Lts.trace tblExec h ops = some (h', rets)
        ∧ (NoDelete k ops rets →
          AllReturn k v ops rets
            ∧ (∃ d', cuckoohashLookupData h' k = (v, some d'))
            ∧ ∃ h'', cuckoohashDelKey h' k = some (h'', v)))
      ∧ ∀ k₁ k₂ v₁ v₂ d₁ d₂, cuckoohashLookupData h k₁ = (v₁, some d₁) →
          cuckoohashLookupData h k₂ = (v₂, some d₂) →
          (0 ≤ v₁ ∧ v₁ < h.entries.toNat) ∧ (k₁ ≠ k₂ → v₁ ≠ v₂) := by
  obtain ⟨free, hi⟩ := hr.inv
  constructor
  · intro k v d hl ops hkeys
    obtain ⟨x, hx, rfl, -⟩ := inSlot_of_lookup hi.core hl
    obtain ⟨m, hm⟩ := hi.core.represents
    obtain ⟨h', rets, -, htrace, -, ⟨free', hi'⟩, -⟩ := trace_inv hi hm hkeys
    refine ⟨h', rets, htrace, fun hno => ?_⟩
    obtain ⟨hx', hall⟩ := trace_keeps hi hx hkeys htrace hno
    exact ⟨hall, lookup_inSlot hi'.core hx', del_inSlot hi' hx'⟩
  · intro k₁ k₂ v₁ v₂ d₁ d₂ hl₁ hl₂
    obtain ⟨x₁, ⟨p₁, hp₁, hk₁, rfl⟩, rfl, hlow, hhigh⟩ := inSlot_of_lookup hi.core hl₁
    obtain ⟨x₂, ⟨p₂, hp₂, hk₂, rfl⟩, rfl, -⟩ := inSlot_of_lookup hi.core hl₂
    refine ⟨⟨by omega, by omega⟩, ?_⟩
    intro hne heq
    have hidx : h.buckets.idx p₁ = h.buckets.idx p₂ :=
      UInt32.toNat_inj.mp (by omega)
    have hpp := hi.core.inj p₁ p₂ hp₁ hp₂ hidx
    rw [← hk₁, ← hk₂, hpp] at hne
    exact hne rfl

end Reachable

/-- Four keys that fill bucket 0. -/
def fourKeys : List (TblOp Nat) :=
  [.add [6] 60, .add [0] 0, .add [1] 10, .add [8] 80]

/-- The first add evicts key 6 to bucket 1, the second goes to where key 0
was deleted. -/
def evictRun : List (TblOp Nat) :=
  [.add [9] 90, .lookup [6], .del [0], .add [2] 20, .lookup [6]]

/-- Key 6 is returned as 0 before, during and after its move, and key 0 as
something else. -/
theorem position_stable_eight :
    ∃ h h' : Tbl Nat, ∃ rets, tableAfter fourKeys = some h
      ∧ Lts.trace tblExec h evictRun = some (h', rets)
      ∧ (h.key (0, 0) = [6] ∧ h'.key (1, 0) = [6])
      ∧ AllReturn [6] 0 evictRun rets
      ∧ (∃ d', cuckoohashLookupData h' [6] = (0, some d'))
      ∧ (∃ h'', cuckoohashDelKey h' [6] = some (h'', 0))
      ∧ ∃ v, cuckoohashLookupData h [0] = (v, some 0)
        ∧ (0 ≤ v ∧ v < h.entries.toNat) ∧ v ≠ 0 := by
  obtain ⟨h, hafter, hr, hlen⟩ := tableAfter_reachable fourKeys (by decide)
  have hall : (tableAfter fourKeys).all fun h =>
      decide (cuckoohashLookupData h [6] = (0, some 60)
        ∧ (cuckoohashLookupData h [0]).2 = some 0 ∧ h.key (0, 0) = [6])
      && (Lts.trace tblExec h evictRun).all fun t =>
        decide (t.1.key (1, 0) = [6]) := by decide +kernel
  rw [hafter, Option.all_some, Bool.and_eq_true] at hall
  obtain ⟨hbefore, hmoved⟩ := hall
  obtain ⟨hsix, hzero, hkey⟩ := of_decide_eq_true hbefore
  have hkeys : ∀ op ∈ evictRun, op.key.length = h.keyLen.toNat := by
    rw [hlen]
    decide
  obtain ⟨h', rets, htrace, hstable⟩ :=
    (position_stable hr).1 [6] 0 60 hsix evictRun hkeys
  rw [htrace, Option.all_some] at hmoved
  have hno : NoDelete [6] evictRun rets := by
    refine noDelete_of_forall htrace fun op hop heq => ?_
    subst heq
    simp [evictRun] at hop
  obtain ⟨hreturn, hfound, hdel⟩ := hstable hno
  have hzero : cuckoohashLookupData h [0]
      = ((cuckoohashLookupData h [0]).1, some 0) := Prod.ext rfl hzero
  obtain ⟨hrange, hne⟩ := (position_stable hr).2 [0] [6] _ 0 _ _ hzero hsix
  exact ⟨h, h', rets, hafter, htrace, ⟨hkey, of_decide_eq_true hmoved⟩, hreturn,
    hfound, hdel, _, hzero, hrange, hne (by decide)⟩

end PktSender.Cuckoo
