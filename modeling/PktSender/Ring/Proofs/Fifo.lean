/-
The ring buffer, used from one thread, is a bounded byte FIFO.

# The abstraction

`Holds r q` says that ring `r` is between calls and holds the bytes `q`:
the cell of the `i`-th byte counted from `read_pos` holds `q[i]`,
`write_pos` is the cell one past the last byte, and `finish_pos` has caught
up with it. The bytes are fewer than the cells, so equal positions can only
mean an empty ring; that strict bound is what the test `l <= len` in put
keeps up.

# The proof

One specification lemma for each call: `put_spec` and `get_spec` give the
returned value and the new queue. Both go through the positions
`read_pos`, `read_pos + |q|` of the byte stream and the two facts about
two-part copies of `Lib/Circular.lean`. The whole-sequence statement
`ringbuffer_fifo` is then the simulation rule of `Lib/Lts.lean`.
-/
import PktSender.Lib.Lts
import PktSender.Ring.Proofs.Words

namespace PktSender.Ring

open Circular

-- ================================================== calls and their spec

/-- A call on a ring, with its arguments. -/
inductive RingOp where
  | put (buffer : Nat → UInt8) (len : UInt32)
  | get (len : UInt32)

/-- What a call returns: the count, and for get the bytes it stored. -/
inductive RingRet where
  | put (ret : UInt32)
  | get (ret : UInt32) (bytes : List UInt8)

/-- Make one call; `none` when it does not return. -/
def ringExec (r : Ringbuffer) : RingOp → Option (Ringbuffer × RingRet)
  | .put buffer len =>
      (ringbufferPut r buffer len).map fun p => (p.1, .put p.2)
  | .get len =>
      let (r', n, bytes) := ringbufferGet r len
      some (r', .get n bytes)

/-- The `len` bytes at a caller's pointer. -/
def bytesOf (buffer : Nat → UInt8) (len : UInt32) : List UInt8 :=
  load buffer 0 len.toNat

/-- The bytes between the read and the write position, oldest first. -/
def Ringbuffer.contents (r : Ringbuffer) : List UInt8 :=
  ringLoad r.data r.dataSize.toNat r.readPos.toNat
    (getUsedSize r.writePos r.readPos r.dataSize).toNat

/-- The FIFO a ring of `cap` cells stands for: it takes a message when one
cell stays free, and gives up to `len` of its oldest bytes. -/
inductive FifoStep (cap : Nat) :
    List UInt8 → RingOp → RingRet → List UInt8 → Prop
  | put {q : List UInt8} {buffer : Nat → UInt8} {len : UInt32} :
      q.length + len.toNat < cap →
      FifoStep cap q (.put buffer len) (.put len) (q ++ bytesOf buffer len)
  | full {q : List UInt8} {buffer : Nat → UInt8} {len : UInt32} :
      ¬ q.length + len.toNat < cap →
      FifoStep cap q (.put buffer len) (.put 0) q
  | get {q : List UInt8} {len n : UInt32} :
      n.toNat = min len.toNat q.length →
      FifoStep cap q (.get len) (.get n (q.take n.toNat)) (q.drop n.toNat)

-- ========================================================= the invariant

/-- The ring is between calls and holds the bytes `q`. -/
structure Holds (r : Ringbuffer) (q : List UInt8) : Prop where
  valid : ValidSize r.dataSize
  finish : r.finishPos = r.writePos
  read : r.readPos.toNat < max 1 r.dataSize.toNat
  room : q.length < max 1 r.dataSize.toNat
  write : r.writePos.toNat = (r.readPos.toNat + q.length) % r.dataSize.toNat
  bytes : ∀ i (h : i < q.length),
    r.data ((r.readPos.toNat + i) % r.dataSize.toNat) = q[i]

namespace Holds

variable {r : Ringbuffer} {q : List UInt8}

/-- The read position is its own cell. -/
theorem read_cell (h : Holds r q) :
    r.readPos.toNat = r.readPos.toNat % r.dataSize.toNat := by
  have := h.read
  rcases Nat.eq_zero_or_pos r.dataSize.toNat with h0 | hpos
  · rw [h0, Nat.mod_zero]
  · rw [Nat.mod_eq_of_lt (by omega)]

/-- The used size is the number of bytes held. -/
theorem used (h : Holds r q) :
    (getUsedSize r.writePos r.readPos r.dataSize).toNat = q.length := by
  have hroom := h.room
  rw [getUsedSize_toNat h.valid h.write h.read_cell (by omega) (by omega)]
  omega

/-- The rest size is what the bytes held leave free. -/
theorem rest (h : Holds r q) :
    (getRestSize r.writePos r.readPos r.dataSize).toNat
      = r.dataSize.toNat - q.length := by
  have hroom := h.room
  rw [getRestSize_toNat h.valid h.write h.read_cell (by omega) (by omega)]
  congr 1
  omega

/-- The bytes held are the bytes between the two positions. -/
theorem contents_eq (h : Holds r q) : r.contents = q := by
  rw [Ringbuffer.contents, h.used]
  exact ringLoad_eq h.bytes

/-- Both positions stay below a positive size. -/
theorem pos_lt (h : Holds r q) (hpos : 0 < r.dataSize.toNat) :
    r.readPos.toNat < r.dataSize.toNat ∧ r.writePos.toNat < r.dataSize.toNat := by
  have hread := h.read
  exact ⟨by omega, by rw [h.write]; exact Nat.mod_lt _ hpos⟩

end Holds

/-- What a call of `ringbuffer_create` that succeeds returns. -/
theorem create_eq {env : CreateEnv} {file : Option String} {size : UInt32}
    {r : Ringbuffer} (h : ringbufferCreate env file size = some r) :
    r = { size := createSize size + sizeofRingbuffer
          dataSize := createSize size, readPos := 0, writePos := 0
          finishPos := 0, data := fun _ => 0 } := by
  unfold ringbufferCreate at h
  simp only at h
  split at h
  · cases h
  · split at h
    · cases h
    · split at h
      · cases h
      · exact (Option.some.inj h).symm

/-- A fresh ring holds nothing. -/
theorem holds_create {env : CreateEnv} {file : Option String} {size : UInt32}
    {r : Ringbuffer} (h : ringbufferCreate env file size = some r) :
    Holds r [] ∧ r.dataSize = createSize size := by
  obtain rfl := create_eq h
  refine ⟨⟨createSize_valid size, rfl, ?_, ?_, ?_, ?_⟩, rfl⟩
  · simp
  · simp
  · simp
  · intro i hi
    simp at hi

-- ============================================================== the copies

/-- The copy of put is the two-part copy of `Lib/Circular.lean`; a part of
length 0 is no copy at all. -/
theorem putCopy_eq {r : Ringbuffer} {writeOld : UInt32} {W : Nat}
    {buffer : Nat → UInt8} {len : UInt32} (hs : ValidSize r.dataSize)
    (hpos : 0 < r.dataSize.toNat)
    (hw : writeOld.toNat = W % r.dataSize.toNat) :
    putCopy r writeOld buffer len
      = { r with
            data := memcpyWrap r.data r.dataSize.toNat
              (W % r.dataSize.toNat) buffer len.toNat } := by
  have hoff := mask_cell hs hpos hw
  have hlt := Nat.mod_lt W hpos
  have hl : (umin len (r.dataSize - (writeOld &&& (r.dataSize - 1)))).toNat
      = min len.toNat (r.dataSize.toNat - W % r.dataSize.toNat) := by
    rw [umin_toNat, UInt32.toNat_sub_of_le _ _ (by
      rw [UInt32.le_iff_toNat_le, hoff]; omega), hoff]
  unfold putCopy memcpyWrap
  simp only [gt_iff_lt, UInt32.lt_iff_toNat_lt, hl, hoff, UInt32.toNat_zero]
  split
  next h1 =>
    rw [UInt32.toNat_sub_of_le _ _ (by rw [UInt32.le_iff_toNat_le, hl]; omega), hl]
    split
    · rfl
    next h2 =>
      rw [show min len.toNat (r.dataSize.toNat - W % r.dataSize.toNat) = 0 by
        omega]
      rfl
  next h1 =>
    rw [show len.toNat - min len.toNat
      (r.dataSize.toNat - W % r.dataSize.toNat) = 0 by omega]
    split
    · rfl
    next h2 =>
      rw [show min len.toNat (r.dataSize.toNat - W % r.dataSize.toNat) = 0 by
        omega]
      rfl

/-- The copy of get reads the positions in order. -/
theorem getCopy_eq {r : Ringbuffer} {readOld size : UInt32} {R : Nat}
    (hs : ValidSize r.dataSize) (hpos : 0 < r.dataSize.toNat)
    (hr : readOld.toNat = R % r.dataSize.toNat)
    (hsize : size.toNat ≤ r.dataSize.toNat) :
    getCopy r readOld size
      = ringLoad r.data r.dataSize.toNat (R % r.dataSize.toNat) size.toNat := by
  have hoff := mask_cell hs hpos hr
  have hlt := Nat.mod_lt R hpos
  have hl : (umin size (r.dataSize - (readOld &&& (r.dataSize - 1)))).toNat
      = min size.toNat (r.dataSize.toNat - R % r.dataSize.toNat) := by
    rw [umin_toNat, UInt32.toNat_sub_of_le _ _ (by
      rw [UInt32.le_iff_toNat_le, hoff]; omega), hoff]
  rw [← load_wrap hlt hsize]
  unfold getCopy
  simp only [gt_iff_lt, UInt32.lt_iff_toNat_lt, hl, hoff, UInt32.toNat_zero]
  congr 1
  · split
    · rfl
    next h =>
      rw [show min size.toNat (r.dataSize.toNat - R % r.dataSize.toNat) = 0 by
        omega]
      rfl
  · split
    next h =>
      rw [UInt32.toNat_sub_of_le _ _ (by rw [UInt32.le_iff_toNat_le, hl]; omega),
        hl]
    next h =>
      rw [show size.toNat - min size.toNat
        (r.dataSize.toNat - R % r.dataSize.toNat) = 0 by omega]
      rfl

-- ============================================================= put and get

/-- What `ringbuffer_put` does to a ring with room. -/
theorem put_run {r : Ringbuffer} {q : List UInt8} (h : Holds r q)
    (buffer : Nat → UInt8) (len : UInt32)
    (hroom : q.length + len.toNat < r.dataSize.toNat) :
    ringbufferPut r buffer len
      = some ({ r with
          writePos := (r.writePos + len) &&& (r.dataSize - 1)
          finishPos := (r.writePos + len) &&& (r.dataSize - 1)
          data := memcpyWrap r.data r.dataSize.toNat
            ((r.readPos.toNat + q.length) % r.dataSize.toNat) buffer
            len.toNat }, len) := by
  have hpos : 0 < r.dataSize.toNat := by omega
  have hfits : ¬ getRestSize r.writePos r.readPos r.dataSize ≤ len := by
    rw [UInt32.le_iff_toNat_le, h.rest]
    omega
  have hcopy : putCopy
      { r with writePos := (r.writePos + len) &&& (r.dataSize - 1) }
      r.writePos buffer len = _ := putCopy_eq h.valid hpos h.write
  unfold ringbufferPut
  simp only [hfits, if_false, hcopy]
  rw [if_pos (beq_iff_eq.mpr h.finish)]

/-- `ringbuffer_put` on a ring with room: it returns `len`, and the bytes
are appended. -/
theorem put_spec {r : Ringbuffer} {q : List UInt8} (h : Holds r q)
    (buffer : Nat → UInt8) (len : UInt32)
    (hroom : q.length + len.toNat < r.dataSize.toNat) :
    ∃ r', ringbufferPut r buffer len = some (r', len)
      ∧ Holds r' (q ++ bytesOf buffer len) ∧ r'.dataSize = r.dataSize := by
  have hpos : 0 < r.dataSize.toNat := by omega
  have hlt := Nat.mod_lt (r.readPos.toNat + q.length) hpos
  have hlen : (q ++ bytesOf buffer len).length = q.length + len.toNat := by
    simp [bytesOf]
  refine ⟨_, put_run h buffer len hroom, ⟨h.valid, rfl, h.read, ?_, ?_, ?_⟩, rfl⟩
  · rw [hlen]
    dsimp only
    omega
  · rw [hlen]
    dsimp only
    rw [advance_toNat h.valid hpos h.write, Nat.add_assoc]
  · intro i hi
    rw [hlen] at hi
    dsimp only
    rw [List.getElem_append]
    split
    next hold =>
      -- the cells of the bytes already held are not written
      refine (memcpyWrap_of_ne hlt (by omega) fun j hj => ?_).trans
        (h.bytes i hold)
      rw [Nat.mod_add_mod]
      exact mod_ne_of_ne (l := r.readPos.toNat) (by omega) (by omega)
        (by omega) (by omega) (by omega)
    next hnew =>
      have hcell := @memcpyWrap_apply _ r.data buffer _ _ len.toNat hlt
        (by omega) (i - q.length) (by omega)
      rw [Nat.mod_add_mod, show r.readPos.toNat + q.length + (i - q.length)
        = r.readPos.toNat + i by omega] at hcell
      simp only [bytesOf, load, List.getElem_map, List.getElem_range,
        Nat.zero_add]
      exact hcell

/-- `ringbuffer_put` on a ring without room returns 0 and changes
nothing. -/
theorem put_full {r : Ringbuffer} {q : List UInt8} (h : Holds r q)
    (buffer : Nat → UInt8) (len : UInt32)
    (hfull : ¬ q.length + len.toNat < r.dataSize.toNat) :
    ringbufferPut r buffer len = some (r, 0) := by
  have hle : getRestSize r.writePos r.readPos r.dataSize ≤ len := by
    rw [UInt32.le_iff_toNat_le, h.rest]
    omega
  unfold ringbufferPut
  simp only [hle, if_true]

/-- `ringbuffer_get` returns the number of bytes read, the oldest bytes, and
removes them. -/
theorem get_spec {r : Ringbuffer} {q : List UInt8} (h : Holds r q)
    (len : UInt32) :
    ∃ r' n, ringbufferGet r len = (r', n, q.take n.toNat)
      ∧ n.toNat = min len.toNat q.length ∧ Holds r' (q.drop n.toNat)
      ∧ r'.dataSize = r.dataSize := by
  obtain ⟨n, hndef⟩ :
      ∃ n, n = umin len (getUsedSize r.finishPos r.readPos r.dataSize) :=
    ⟨_, rfl⟩
  have hn : n.toNat = min len.toNat q.length := by
    rw [hndef, umin_toNat, h.finish, h.used]
  have hroom := h.room
  unfold ringbufferGet
  simp only [← hndef]
  by_cases hz : (n == 0) = true
  · obtain rfl : n = 0 := beq_iff_eq.mp hz
    rw [if_pos hz]
    exact ⟨r, 0, rfl, hn, h, rfl⟩
  · have hne : n.toNat ≠ 0 := fun hc => hz (beq_iff_toNat.mpr hc)
    have hpos : 0 < r.dataSize.toNat := by omega
    have hadv := advance_toNat (n := n) h.valid hpos h.read_cell
    have hlt := Nat.mod_lt (r.readPos.toNat + n.toNat) hpos
    have hbytes : getCopy r r.readPos n = q.take n.toNat := by
      rw [getCopy_eq h.valid hpos h.read_cell (by omega), ← h.read_cell]
      have htake : (q.take n.toNat).length = n.toNat := by
        rw [List.length_take]
        omega
      conv => lhs; rw [← htake]
      refine ringLoad_eq fun i hi => ?_
      rw [List.getElem_take]
      exact h.bytes i (by omega)
    rw [if_neg hz, hbytes]
    refine ⟨_, n, rfl, hn, ⟨h.valid, h.finish, ?_, ?_, ?_, ?_⟩, rfl⟩
    · dsimp only
      rw [hadv]
      omega
    · rw [List.length_drop]
      dsimp only
      omega
    · dsimp only
      rw [hadv, Nat.mod_add_mod, List.length_drop, h.write]
      congr 1
      omega
    · intro i hi
      rw [List.length_drop] at hi
      dsimp only
      rw [hadv, Nat.mod_add_mod, List.getElem_drop, Nat.add_assoc]
      exact h.bytes (n.toNat + i) (by omega)

-- ====================================================== whole sequences

/-- One call, whatever it is, is a step of the FIFO. -/
theorem ringExec_simulates {cap : Nat} {r : Ringbuffer} {q : List UInt8}
    (op : RingOp) (h : Holds r q ∧ r.dataSize.toNat = cap) :
    ∃ r' ret q', ringExec r op = some (r', ret) ∧ FifoStep cap q op ret q'
      ∧ (Holds r' q' ∧ r'.dataSize.toNat = cap) := by
  obtain ⟨h, rfl⟩ := h
  cases op with
  | put buffer len =>
      by_cases hroom : q.length + len.toNat < r.dataSize.toNat
      · obtain ⟨r', hput, hh, hsz⟩ := put_spec h buffer len hroom
        exact ⟨r', .put len, _, by rw [ringExec, hput]; rfl, .put hroom, hh,
          by rw [hsz]⟩
      · exact ⟨r, .put 0, q, by rw [ringExec, put_full h buffer len hroom]; rfl,
          .full hroom, h, rfl⟩
  | get len =>
      obtain ⟨r', n, hget, hn, hh, hsz⟩ := get_spec h len
      exact ⟨r', .get n (q.take n.toNat), _, by rw [ringExec, hget], .get hn, hh,
        by rw [hsz]⟩

/-- Used from one thread, the ring buffer is a bounded byte FIFO. On a
freshly created ring of any requested size, every sequence of puts and gets
returns, and its results are those of the FIFO with `data_size` cells;
afterwards the ring holds exactly the bytes of that FIFO, `finish_pos` has
caught up with `write_pos`, the positions are below a positive data size,
and a put without room would change nothing. -/
theorem ringbuffer_fifo {env : CreateEnv} {file : Option String}
    {size : UInt32} {r₀ : Ringbuffer}
    (hc : ringbufferCreate env file size = some r₀) (ops : List RingOp) :
    ∃ r rets q, Lts.trace ringExec r₀ ops = some (r, rets)
      ∧ Lts.SpecRun (FifoStep r₀.dataSize.toNat) [] ops rets q
      ∧ r.contents = q
      ∧ (getUsedSize r.writePos r.readPos r.dataSize).toNat = q.length
      ∧ r.dataSize = r₀.dataSize
      ∧ r.writePos = r.finishPos
      ∧ (0 < r.dataSize →
          r.readPos < r.dataSize ∧ r.writePos < r.dataSize)
      ∧ ∀ buffer len, ¬ q.length + len.toNat < r.dataSize.toNat →
          ringbufferPut r buffer len = some (r, 0) := by
  obtain ⟨hinit, -⟩ := holds_create hc
  obtain ⟨r, rets, q, htr, hrun, hh, hsz⟩ :=
    Lts.trace_simulates (R := fun r q => Holds r q ∧ r.dataSize.toNat = r₀.dataSize.toNat)
      (V := fun _ => True) (fun op h _ => ringExec_simulates op h)
      ⟨hinit, rfl⟩ (fun _ _ => trivial)
  refine ⟨r, rets, q, htr, hrun, hh.contents_eq, hh.used,
    UInt32.toNat_inj.mp hsz, hh.finish.symm, ?_, ?_⟩
  · intro hpos
    exact hh.pos_lt hpos
  · intro buffer len hfull
    exact put_full hh buffer len hfull

/-- Three bytes go into a ring of eight and two come out, then six more
wrap around its end. -/
theorem ringbuffer_fifo_eight :
    ∃ r rets q, Lts.trace ringExec
        { size := 32, dataSize := 8, readPos := 0, writePos := 0,
          finishPos := 0, data := fun _ => 0 }
        [.put (fun i => UInt8.ofNat i) 3, .get 2,
          .put (fun i => UInt8.ofNat (10 + i)) 6] = some (r, rets)
      ∧ r.contents = q
      ∧ Lts.SpecRun (FifoStep 8) []
          [.put (fun i => UInt8.ofNat i) 3, .get 2,
            .put (fun i => UInt8.ofNat (10 + i)) 6] rets q := by
  obtain ⟨r, rets, q, htr, hrun, hq, -⟩ :=
    @ringbuffer_fifo
      { openOk := true, ftruncateOk := fun _ => true, mmapOk := fun _ => true }
      none 7 _ rfl
      [.put (fun i => UInt8.ofNat i) 3, .get 2,
        .put (fun i => UInt8.ofNat (10 + i)) 6]
  exact ⟨r, rets, q, htr, hq, hrun⟩

end PktSender.Ring
