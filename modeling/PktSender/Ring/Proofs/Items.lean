/-
A ring buffer used as a queue of 32-bit numbers, each passed to put and get
by its address and length 4: the cuckoo table's free slots and the dump
command's free indices.

As long as only whole numbers are put and got, a get finds a whole number or
nothing at all, and comes back with the oldest one.
-/
import PktSender.Lib.LittleEndian
import PktSender.Ring.Proofs.Fifo

namespace PktSender.Ring

open LittleEndian Circular

/-- The four bytes of a number in memory. -/
def itemBytes (x : UInt32) : List UInt8 := leBytes 4 x.toNat

/-- The pointer to a number. -/
def itemBuffer (x : UInt32) : Nat → UInt8 := fun i => (itemBytes x).getD i 0

/-- The ring holds these numbers, oldest first. -/
def HoldsItems (r : Ringbuffer) (items : List UInt32) : Prop :=
  Holds r (items.flatMap itemBytes)

@[simp] theorem itemBytes_length (x : UInt32) : (itemBytes x).length = 4 :=
  leBytes_length 4 _

theorem bytesOf_itemBuffer (x : UInt32) :
    bytesOf (itemBuffer x) 4 = itemBytes x := by
  apply List.ext_getElem
  · simp [bytesOf]
  · intro i hi hi'
    simp [bytesOf, load, itemBuffer, List.getD_eq_getElem?_getD,
      List.getElem?_eq_getElem hi']

/-- Reading the four bytes back gives the number. -/
theorem ofLeBytes_itemBytes (x : UInt32) :
    UInt32.ofNat (ofLeBytes (itemBytes x)) = x := by
  have hlt : x.toNat < 256 ^ 4 := x.toNat_lt
  rw [itemBytes, ofLeBytes_leBytes, Nat.mod_eq_of_lt hlt, UInt32.ofNat_toNat]

@[simp] theorem length_flatMap_itemBytes (items : List UInt32) :
    (items.flatMap itemBytes).length = 4 * items.length := by
  induction items with
  | nil => rfl
  | cons x items ih =>
      rw [List.flatMap_cons, List.length_append, ih, itemBytes_length,
        List.length_cons]
      omega

variable {r : Ringbuffer} {items : List UInt32}

/-- A ring of numbers has no bytes when it has no numbers. -/
theorem HoldsItems.contents_eq_nil (h : HoldsItems r items) :
    r.contents = [] ↔ items = [] := by
  rw [h.contents_eq, ← List.length_eq_zero_iff, length_flatMap_itemBytes,
    ← List.length_eq_zero_iff]
  omega

theorem flatMap_itemBytes_inj {xs ys : List UInt32}
    (h : xs.flatMap itemBytes = ys.flatMap itemBytes) : xs = ys := by
  induction xs generalizing ys with
  | nil =>
      have hlen := congrArg List.length h
      rw [length_flatMap_itemBytes, length_flatMap_itemBytes, List.length_nil] at hlen
      exact (List.length_eq_zero_iff.mp (by omega)).symm
  | cons x xs ih =>
      cases ys with
      | nil =>
          have hlen := congrArg List.length h
          rw [length_flatMap_itemBytes, length_flatMap_itemBytes, List.length_cons,
            List.length_nil] at hlen
          omega
      | cons y ys =>
          rw [List.flatMap_cons, List.flatMap_cons] at h
          obtain ⟨hx, hxs⟩ := List.append_inj h (by simp)
          rw [ih hxs, ← ofLeBytes_itemBytes x, ← ofLeBytes_itemBytes y, hx]

/-- A ring holds one list of numbers. -/
theorem HoldsItems.unique {items' : List UInt32} (h : HoldsItems r items)
    (h' : HoldsItems r items') : items = items' :=
  flatMap_itemBytes_inj (h.contents_eq.symm.trans h'.contents_eq)

/-- A number is put behind the others when it leaves a byte free. -/
theorem put_item (h : HoldsItems r items) (x : UInt32)
    (hroom : 4 * items.length + 4 < r.dataSize.toNat) :
    ∃ r', ringbufferPut r (itemBuffer x) 4 = some (r', 4)
      ∧ HoldsItems r' (items ++ [x]) ∧ r'.dataSize = r.dataSize := by
  obtain ⟨r', hput, hh, hsize⟩ := put_spec h (itemBuffer x) 4 (by
    rw [length_flatMap_itemBytes]
    exact hroom)
  refine ⟨r', hput, ?_, hsize⟩
  rw [HoldsItems, List.flatMap_append, List.flatMap_singleton,
    ← bytesOf_itemBuffer]
  exact hh

/-- Otherwise it is dropped. -/
theorem put_item_full (h : HoldsItems r items) (x : UInt32)
    (hfull : ¬ 4 * items.length + 4 < r.dataSize.toNat) :
    ringbufferPut r (itemBuffer x) 4 = some (r, 0) :=
  put_full h _ _ (by
    rw [length_flatMap_itemBytes]
    exact hfull)

/-- Of a list of numbers put one by one, those behind the capacity are
dropped. -/
theorem put_items (l : List UInt32) (cap : Nat) (h : HoldsItems r items)
    (hsize : r.dataSize.toNat = 4 * (cap + 1)) (hle : items.length ≤ cap) :
    ∃ r', l.foldlM (fun r x => (ringbufferPut r (itemBuffer x) 4).map (·.1)) r
        = some r'
      ∧ HoldsItems r' ((items ++ l).take cap) := by
  induction l generalizing r items with
  | nil =>
      rw [List.append_nil, List.take_of_length_le hle]
      exact ⟨r, rfl, h⟩
  | cons x l ih =>
      rcases Nat.lt_or_eq_of_le hle with hlt | heq
      · obtain ⟨r', hput, h', hsize'⟩ := put_item h x (by omega)
        obtain ⟨r'', hfold, h''⟩ := ih h' (by rw [hsize', hsize])
          (by rw [List.length_append, List.length_singleton]; omega)
        refine ⟨r'', ?_, ?_⟩
        · rw [List.foldlM_cons, hput]
          exact hfold
        · rw [List.append_assoc] at h''
          exact h''
      · have hfull := put_item_full h x (by omega)
        obtain ⟨r'', hfold, h''⟩ := ih h hsize hle
        refine ⟨r'', ?_, ?_⟩
        · rw [List.foldlM_cons, hfull]
          exact hfold
        · rw [List.take_left' heq] at h'' ⊢
          exact h''

/-- A get from an empty ring finds nothing. -/
theorem get_item_nil (h : HoldsItems r []) :
    ∃ r', ringbufferGet r 4 = (r', 0, []) ∧ HoldsItems r' []
      ∧ r'.dataSize = r.dataSize := by
  obtain ⟨r', n, hget, hn, hh, hsize⟩ := get_spec h 4
  have hzero : n = 0 := by
    apply UInt32.toNat_inj.mp
    rw [hn, List.flatMap_nil, List.length_nil, Nat.min_zero, UInt32.toNat_zero]
  subst hzero
  exact ⟨r', hget, hh, hsize⟩

/-- A get finds the oldest number whole. -/
theorem get_item_cons {x : UInt32} (h : HoldsItems r (x :: items)) :
    ∃ r', ringbufferGet r 4 = (r', 4, itemBytes x) ∧ HoldsItems r' items
      ∧ r'.dataSize = r.dataSize := by
  obtain ⟨r', n, hget, hn, hh, hsize⟩ := get_spec h 4
  have hfour : n = 4 := by
    apply UInt32.toNat_inj.mp
    rw [hn, length_flatMap_itemBytes, List.length_cons]
    show min 4 _ = 4
    omega
  subst hfour
  have hsplit : (x :: items).flatMap itemBytes
      = itemBytes x ++ items.flatMap itemBytes := List.flatMap_cons ..
  rw [hsplit, show UInt32.toNat 4 = 4 from rfl,
    List.take_left' (itemBytes_length x)] at hget
  rw [hsplit, show UInt32.toNat 4 = 4 from rfl,
    List.drop_left' (itemBytes_length x)] at hh
  exact ⟨r', hget, hh, hsize⟩

end PktSender.Ring
