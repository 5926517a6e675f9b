/-
The invariant of the interleaved ring, and its preservation by every step.

# Positions instead of cells

The bytes of the accepted messages, concatenated in the order of their
`write_pos` swaps, form one stream (`ConcState.stream`). Byte `i` of the
stream lives in cell `(b + i) % data_size`, where `b` is the position the
ring started at. In these terms the three shared words are three lengths:
`read_pos` is the cell after the bytes obtained, `finish_pos` the one after
the bytes published and `write_pos` the one after the whole stream. The
invariant keeps

  obtained ≤ published ≤ stream < obtained + data_size

and gives every copying writer `w` a place `pos w` in the stream. All cells
in use belong to one window of `data_size` positions, so different
positions are different cells.

# Where the condition is needed

Only a successful swap of `write_pos` makes the stream longer, and only
there the upper bound can fail: the test that guards it was made on older
values of `write_pos` and `read_pos`. `FreshSwap` says that the test still
holds at the swap; every other step keeps the invariant on its own.
-/
import PktSender.Ring.Conc

namespace PktSender.Ring

open Circular

variable {ι : Type}

-- ========================================================= the invariant

/-- A writer in its copy has its message at place `p` of the stream. -/
structure CopyOk (b : Nat) (s : ConcState ι) (p : Nat) (m : Msg)
    (writeOld writeNew : UInt32) (done : Nat) : Prop where
  old : writeOld.toNat = (b + p) % s.ring.dataSize.toNat
  new : writeNew.toNat = (b + p + m.len.toNat) % s.ring.dataSize.toNat
  above : ∀ i < m.len.toNat, s.published.length ≤ p + i
  msg : ∀ i < m.len.toNat, s.stream[p + i]? = some (m.buffer i)
  done_le : done ≤ m.len.toNat
  copied : ∀ i < done,
    s.ring.data ((b + (p + i)) % s.ring.dataSize.toNat) = m.buffer i

/-- A writer that is not copying has no place in the stream. -/
def WriterOk (b : Nat) (s : ConcState ι) (p : Nat) : WriterPc → Prop
  | .copying m writeOld writeNew done => CopyOk b s p m writeOld writeNew done
  | _ => True

/-- The reader works on bytes that were published when it looked. -/
def ReaderOk (b : Nat) (s : ConcState ι) : ReaderPc → Prop
  | .idle => True
  | .loaded _ writeLocal =>
      ∃ f, s.obtained.length ≤ f ∧ f ≤ s.published.length
        ∧ writeLocal.toNat = (b + f) % s.ring.dataSize.toNat
  | .copying readOld size buf =>
      readOld = s.ring.readPos ∧ 0 < size.toNat
        ∧ s.obtained.length + size.toNat ≤ s.published.length
        ∧ buf.length ≤ size.toNat ∧ s.obtained ++ buf <+: s.published

/-- The invariant, at start position `b` and places `pos`. -/
structure ConcInv (b : Nat) (pos : ι → Nat) (s : ConcState ι) : Prop where
  valid : ValidSize s.ring.dataSize
  write : s.ring.writePos.toNat
    = (b + s.stream.length) % s.ring.dataSize.toNat
  finish : s.ring.finishPos.toNat
    = (b + s.published.length) % s.ring.dataSize.toNat
  read : s.ring.readPos.toNat
    = (b + s.obtained.length) % s.ring.dataSize.toNat
  got : s.obtained <+: s.published
  pub : s.published <+: s.stream
  room : s.stream.length < s.obtained.length + max 1 s.ring.dataSize.toNat
  cells : ∀ i x, s.obtained.length ≤ i → s.published[i]? = some x →
    s.ring.data ((b + i) % s.ring.dataSize.toNat) = x
  writers : ∀ w, WriterOk b s (pos w) (s.writer w)
  apart : ∀ {w w' m wo wn d m' wo' wn' d'}, w ≠ w' →
    s.writer w = .copying m wo wn d → s.writer w' = .copying m' wo' wn' d' →
    ∀ i < m.len.toNat, ∀ j < m'.len.toNat, pos w + i ≠ pos w' + j
  reader : ReaderOk b s s.reader

-- ================================================== reading the invariant

/-- Extending an initial segment by the bytes that follow it. -/
theorem append_isPrefix {l m n : List UInt8} (h : l <+: n)
    (hm : ∀ i (hi : i < m.length), n[l.length + i]? = some m[i]) :
    l ++ m <+: n := by
  rw [List.prefix_iff_getElem?]
  intro i hi
  rw [List.getElem_append]
  split
  next hlt => exact List.prefix_iff_getElem?.mp h i hlt
  next hge =>
    rw [List.length_append] at hi
    have := hm (i - l.length) (by omega)
    rwa [show l.length + (i - l.length) = i by omega] at this

/-- The copies go through the positions one by one. -/
theorem wrapAddr_eq {r : Ringbuffer} {pos len : UInt32} {P i : Nat}
    (hs : ValidSize r.dataSize) (hpos : 0 < r.dataSize.toNat)
    (hp : pos.toNat = P % r.dataSize.toNat)
    (hlen : len.toNat ≤ r.dataSize.toNat) (hi : i < len.toNat) :
    wrapAddr r pos len i = (P + i) % r.dataSize.toNat := by
  have hoff := mask_cell hs hpos hp
  have hlt := Nat.mod_lt P hpos
  have hl : (umin len (r.dataSize - (pos &&& (r.dataSize - 1)))).toNat
      = min len.toNat (r.dataSize.toNat - P % r.dataSize.toNat) := by
    rw [umin_toNat, UInt32.toNat_sub_of_le _ _ (by
      rw [UInt32.le_iff_toNat_le, hoff]; omega), hoff]
  unfold wrapAddr
  simp only [hl, hoff]
  rw [← Nat.mod_add_mod, ← wrap_addr hlt (show i < r.dataSize.toNat by omega)]
  by_cases h : i < r.dataSize.toNat - P % r.dataSize.toNat
  · rw [if_pos h, if_pos (by omega)]
  · rw [if_neg h, if_neg (by omega)]
    omega

@[simp] theorem Msg.bytes_length (m : Msg) : m.bytes.length = m.len.toNat := by
  simp [Msg.bytes, bytesOf]

theorem Msg.bytes_getElem (m : Msg) {i : Nat} (h : i < m.bytes.length) :
    m.bytes[i] = m.buffer i := by
  simp [Msg.bytes, bytesOf, load]

/-- A writer outside its copy has no place in the stream. -/
theorem WriterOk.of_copying {b p : Nat} {s : ConcState ι} {pc : WriterPc}
    (h : ∀ m wo wn d, pc = .copying m wo wn d → CopyOk b s p m wo wn d) :
    WriterOk b s p pc := by
  cases pc with
  | copying m wo wn d => exact h m wo wn d rfl
  | _ => trivial

/-- The place of a writer depends on the ring's data and the two byte
streams alone. -/
theorem WriterOk.congr {b p : Nat} {s s' : ConcState ι} {pc : WriterPc}
    (h : WriterOk b s p pc) (hsize : s'.ring.dataSize = s.ring.dataSize)
    (hdata : s'.ring.data = s.ring.data) (ha : s'.accepted = s.accepted)
    (hc : s'.committed = s.committed) : WriterOk b s' p pc := by
  cases pc with
  | copying m wo wn d =>
      refine ⟨?_, ?_, ?_, ?_, h.done_le, ?_⟩
      · rw [hsize]
        exact h.old
      · rw [hsize]
        exact h.new
      · rw [ConcState.published, hc]
        exact h.above
      · rw [ConcState.stream, ha]
        exact h.msg
      · rw [hsize, hdata]
        exact h.copied
  | _ => trivial

namespace ConcInv

variable {b : Nat} {pos : ι → Nat} {s : ConcState ι}

theorem obtained_le (h : ConcInv b pos s) :
    s.obtained.length ≤ s.published.length :=
  h.got.length_le

theorem published_le (h : ConcInv b pos s) :
    s.published.length ≤ s.stream.length :=
  h.pub.length_le

/-- What the invariant says of a writer in its copy. -/
theorem copyOk (h : ConcInv b pos s) {w : ι} {m : Msg} {wo wn : UInt32} {d : Nat}
    (hpc : s.writer w = .copying m wo wn d) : CopyOk b s (pos w) m wo wn d := by
  have hw := h.writers w
  rwa [hpc] at hw

/-- The place of a byte in the stream is before its end. -/
theorem lt_stream {p : Nat} {m : Msg} {wo wn : UInt32} {d i : Nat}
    (hc : CopyOk b s p m wo wn d) (hi : i < m.len.toNat) :
    p + i < s.stream.length :=
  (List.getElem?_eq_some_iff.mp (hc.msg i hi)).1

/-- A message in its copy is shorter than the ring. -/
theorem len_lt (h : ConcInv b pos s) {p : Nat} {m : Msg} {wo wn : UInt32}
    {d : Nat} (hc : CopyOk b s p m wo wn d) :
    m.len.toNat < max 1 s.ring.dataSize.toNat := by
  have h1 := h.obtained_le
  have h2 := h.room
  by_contra hcon
  have h3 := lt_stream hc (i := m.len.toNat - 1) (by omega)
  have h4 := hc.above 0 (by omega)
  omega

/-- The reader moves, with nothing else changed. -/
theorem setReader (h : ConcInv b pos s) {pc : ReaderPc}
    (hpc : ReaderOk b s pc) : ConcInv b pos { s with reader := pc } := by
  refine ⟨h.valid, h.write, h.finish, h.read, h.got, h.pub, h.room, h.cells,
    fun v => (h.writers v).congr rfl rfl rfl rfl, h.apart, ?_⟩
  show ReaderOk b _ pc
  cases pc with
  | _ => exact hpc

/-- The address of byte `i` of a message in its copy. -/
theorem copy_addr (h : ConcInv b pos s) {p : Nat} {m : Msg} {wo wn : UInt32}
    {d i : Nat} (hc : CopyOk b s p m wo wn d) (hi : i < m.len.toNat) :
    wrapAddr s.ring wo m.len i = (b + (p + i)) % s.ring.dataSize.toNat := by
  have hlen := h.len_lt hc
  rw [wrapAddr_eq h.valid (by omega) hc.old (by omega) hi]
  congr 1
  omega

/-- Two positions from the unread bytes on are different cells. -/
theorem cell_ne (h : ConcInv b pos s) {i j : Nat}
    (hi : s.obtained.length ≤ i) (hi' : i < s.stream.length)
    (hj : s.obtained.length ≤ j) (hj' : j < s.stream.length) (hne : i ≠ j) :
    (b + i) % s.ring.dataSize.toNat ≠ (b + j) % s.ring.dataSize.toNat := by
  have := h.room
  exact mod_ne_of_ne (l := b + s.obtained.length) (by omega) (by omega)
    (by omega) (by omega) (by omega)

/-- The two size functions, read off the stream. -/
theorem rest (h : ConcInv b pos s) :
    (getRestSize s.ring.writePos s.ring.readPos s.ring.dataSize).toNat
      = s.ring.dataSize.toNat - (s.stream.length - s.obtained.length) := by
  have h1 := h.obtained_le
  have h2 := h.published_le
  have h3 := h.room
  rw [getRestSize_toNat h.valid h.write h.read (by omega) (by omega)]
  congr 1
  omega

theorem used (h : ConcInv b pos s) :
    (getUsedSize s.ring.writePos s.ring.readPos s.ring.dataSize).toNat
      = s.stream.length - s.obtained.length := by
  have h1 := h.obtained_le
  have h2 := h.published_le
  have h3 := h.room
  rw [getUsedSize_toNat h.valid h.write h.read (by omega) (by omega)]
  omega

/-- The cells of the unread bytes hold them. -/
theorem unread_data (h : ConcInv b pos s) :
    s.unreadCells.map s.ring.data = s.published.drop s.obtained.length := by
  apply List.ext_getElem
  · simp [ConcState.unreadCells]
  · intro i hi hi'
    rw [List.length_drop] at hi'
    have hlt : s.obtained.length + i < s.published.length := by omega
    simp only [ConcState.unreadCells, List.map_map, List.getElem_map,
      List.getElem_range, Function.comp_apply, List.getElem_drop]
    rw [h.read, Nat.mod_add_mod, Nat.add_assoc]
    exact h.cells _ _ (Nat.le_add_right _ _) (List.getElem?_eq_getElem hlt)

/-- A get in progress has copied an initial part of the published bytes. -/
theorem obtained_append (h : ConcInv b pos s) :
    s.obtained ++ s.reader.buffer <+: s.published := by
  have hr := h.reader
  cases hpc : s.reader with
  | idle => simpa [ReaderPc.buffer] using h.got
  | loaded len wl => simpa [ReaderPc.buffer] using h.got
  | copying ro size buf =>
      rw [hpc] at hr
      exact hr.2.2.2.2

/-- No reserved range overlaps another one or the unread bytes. -/
theorem noOverlap (h : ConcInv b pos s) : s.NoOverlap := by
  have h1 := h.obtained_le
  have h2 := h.published_le
  -- a reserved cell is the cell of a position from `published` on
  have hres : ∀ w x, x ∈ s.reservedCells w → ∃ m wo wn d i,
      s.writer w = .copying m wo wn d ∧ i < m.len.toNat
        ∧ s.published.length ≤ pos w + i ∧ pos w + i < s.stream.length
        ∧ x = (b + (pos w + i)) % s.ring.dataSize.toNat := by
    intro w x hx
    unfold ConcState.reservedCells at hx
    cases hpc : s.writer w with
    | copying m wo wn d =>
        have hw := h.copyOk hpc
        rw [hpc] at hx
        obtain ⟨i, hi, rfl⟩ := List.mem_map.mp hx
        have hi' := List.mem_range.mp hi
        exact ⟨m, wo, wn, d, i, rfl, hi', hw.above i hi', lt_stream hw hi',
          h.copy_addr hw hi'⟩
    | _ => simp [hpc] at hx
  constructor
  · intro w w' hne x hx hx'
    obtain ⟨m, wo, wn, d, i, hpc, hi, hlo, hhi, rfl⟩ := hres w x hx
    obtain ⟨m', wo', wn', d', j, hpc', hj, hlo', hhi', heq⟩ := hres w' _ hx'
    exact h.cell_ne (by omega) hhi (by omega) hhi'
      (h.apart hne hpc hpc' i hi j hj) heq
  · intro w x hx hx'
    obtain ⟨m, wo, wn, d, i, hpc, hi, hlo, hhi, rfl⟩ := hres w x hx
    obtain ⟨j, hj, heq⟩ := List.mem_map.mp hx'
    have hj' := List.mem_range.mp hj
    rw [h.read, Nat.mod_add_mod, Nat.add_assoc] at heq
    exact h.cell_ne (by omega) (by omega) (by omega) (by omega) (by omega) heq

end ConcInv

/-- A ring with all positions equal and all parties idle. -/
theorem concInv_init {r : Ringbuffer} (hs : ValidSize r.dataSize)
    (hw : r.writePos = r.readPos) (hf : r.finishPos = r.readPos)
    (hlt : r.readPos.toNat < max 1 r.dataSize.toNat) :
    ConcInv r.readPos.toNat (fun _ => 0) (concInit (ι := ι) r) := by
  have hread : r.readPos.toNat = r.readPos.toNat % r.dataSize.toNat := by
    rcases Nat.eq_zero_or_pos r.dataSize.toNat with h0 | hpos
    · rw [h0, Nat.mod_zero]
    · rw [Nat.mod_eq_of_lt (by omega)]
  refine ⟨hs, hw ▸ hread, hf ▸ hread, hread, List.prefix_rfl, List.prefix_rfl,
    ?_, fun i x _ hx => ?_, fun _ => trivial, fun _ hv => ?_, trivial⟩
  · show 0 < 0 + max 1 r.dataSize.toNat
    omega
  · cases hx
  · cases hv

end PktSender.Ring
