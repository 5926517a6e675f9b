/-
The word arithmetic of the ring buffer: what rounding yields, and what the
two size functions compute from the cells of two stream positions.

A data size is valid when it is 0 or a power of two. `ringbuffer_create`
only ever makes valid ones (`createSize_valid`), so every ring in the
program has one. Size 0 is a real case: it is what requests for 0 bytes and
for more than 2^31 bytes round to, and the ring it gives is never able to
hold a byte. The lemmas below cover it by bounding the bytes in the ring by
`max 1 size` rather than by `size`.
-/
import PktSender.Ring.Basic

namespace PktSender.Ring

open Circular

-- ============================================================= rounding

/-- A size the data area of a ring can have. -/
def ValidSize (s : UInt32) : Prop := s.toNat = 0 ∨ ∃ k, s.toNat = 2 ^ k

/-- The test for powers of two decides what its name says. -/
theorem isPowerOf2_iff {n : UInt32} :
    isPowerOf2 n = true ↔ ∃ k, n.toNat = 2 ^ k := by
  have hz : n = 0 ↔ n.toNat = 0 := by
    rw [← UInt32.toNat_inj]
    rfl
  have h := Nat.ne_zero_and_sub_one_eq_zero_iff_isPowerOfTwo (n := n.toNat)
  rw [isPowerOf2, Bool.and_eq_true, bne_iff_ne, beq_iff_eq, ne_eq, hz,
    ← UInt32.toNat_inj]
  rw [Nat.isPowerOfTwo, ne_eq] at h
  rw [← h]
  refine and_congr_right fun hne => ?_
  rw [UInt32.toNat_and, Bits.toNat_sub_one (by omega)]
  rfl

/-- The 32-bit smear is the smear of the number. -/
theorem roundup2_toNat (n : UInt32) :
    (roundup2 n).toNat = (Bits.smear (n - 1).toNat + 1) % 2 ^ 32 := by
  simp [roundup2, Bits.smear, UInt32.toNat_add, UInt32.toNat_or,
    UInt32.toNat_shiftRight]

/-- Up to 2^31 the round-up is the least power of two not below its
argument. -/
theorem roundup2_spec {n : UInt32} (h1 : 1 ≤ n.toNat)
    (h2 : n.toNat ≤ 2 ^ 31) :
    (∃ k, (roundup2 n).toNat = 2 ^ k) ∧ n.toNat ≤ (roundup2 n).toNat
      ∧ (roundup2 n).toNat < 2 * n.toNat := by
  obtain ⟨k, hk, hle, hlt⟩ := Bits.smear_pred_succ h1 (by omega)
  have heq : (roundup2 n).toNat = 2 ^ k := by
    rw [roundup2_toNat, Bits.toNat_sub_one (by omega), hk]
    exact Nat.mod_eq_of_lt (by omega)
  exact ⟨⟨k, heq⟩, by omega, by omega⟩

/-- For 0 and above 2^31 the round-up wraps to 0. -/
theorem roundup2_wrap {n : UInt32} (h : n.toNat = 0 ∨ 2 ^ 31 < n.toNat) :
    (roundup2 n).toNat = 0 := by
  have hlt := n.toNat_lt
  rcases h with h0 | hbig
  · obtain rfl : n = 0 := UInt32.toNat_inj.mp h0
    decide
  · obtain ⟨k, hk, hle, hlt2⟩ := Bits.smear_pred_succ (n := n.toNat)
      (by omega) (by omega)
    -- the only power of two in `(2^31, 2^33)` that is below `2n` is `2^32`
    have hk32 : k = 32 := by
      have hlo : 31 < k := by
        by_contra hc
        have := Nat.pow_le_pow_right (n := 2) (by omega) (show k ≤ 31 by omega)
        omega
      have hhi : k < 33 := by
        by_contra hc
        have := Nat.pow_le_pow_right (n := 2) (by omega) (show 33 ≤ k by omega)
        omega
      omega
    rw [roundup2_toNat, Bits.toNat_sub_one (by omega), hk, hk32, Nat.mod_self]

/-- Whatever is requested, the data area gets a valid size. -/
theorem createSize_valid (size : UInt32) : ValidSize (createSize size) := by
  unfold createSize
  split
  next _ =>
    by_cases h : size.toNat = 0 ∨ 2 ^ 31 < size.toNat
    · exact .inl (roundup2_wrap h)
    · exact .inr (roundup2_spec (by omega) (by omega)).1
  next hp => exact .inr (isPowerOf2_iff.mp (by simpa using hp))

/-- A request between 1 and 2^31 gets a data area at least that large. -/
theorem le_createSize {size : UInt32} (h1 : 1 ≤ size.toNat)
    (h2 : size.toNat ≤ 2 ^ 31) : size.toNat ≤ (createSize size).toNat := by
  unfold createSize
  split
  · exact (roundup2_spec h1 h2).2.1
  · exact Nat.le_refl _

/-- A power of two is rounded to itself. -/
theorem roundup2_of_isPowerOf2 {n : UInt32} (h : isPowerOf2 n = true) : roundup2 n = n := by
  obtain ⟨k, hk⟩ := isPowerOf2_iff.mp h
  have hlt := n.toNat_lt
  have hk31 : k ≤ 31 := by
    by_contra hc
    have := Nat.pow_le_pow_right (n := 2) (by omega) (show 32 ≤ k by omega)
    omega
  have hle : n.toNat ≤ 2 ^ 31 := hk ▸ Nat.pow_le_pow_right (by decide) hk31
  obtain ⟨⟨j, hj⟩, hge, hlt2⟩ := roundup2_spec (hk ▸ Nat.two_pow_pos k) hle
  apply UInt32.toNat_inj.mp
  rw [hj, hk] at hge hlt2 ⊢
  -- `2 ^ k ≤ 2 ^ j < 2 ^ (k + 1)`
  have hkj := (Nat.pow_le_pow_iff_right (by decide)).mp hge
  rw [← Nat.pow_succ'] at hlt2
  have hjk := (Nat.pow_lt_pow_iff_right (by decide)).mp hlt2
  rw [Nat.le_antisymm (Nat.lt_succ_iff.mp hjk) hkj]

/-- `ringbuffer_create` rounds what is no power of two, `ringbuffer_open`
everything. -/
theorem createSize_eq_openSize (size : UInt32) : createSize size = openSize size := by
  unfold createSize openSize
  split
  next => rfl
  next hp => exact (roundup2_of_isPowerOf2 (by simpa using hp)).symm

/-- The size of the data area a successful `ringbuffer_create` writes down. -/
theorem ringbufferCreate_size {env : CreateEnv} {file : Option String} {size : UInt32}
    {r : Ringbuffer} (h : ringbufferCreate env file size = some r) :
    r.dataSize = createSize size ∧ r.size = createSize size + sizeofRingbuffer := by
  unfold ringbufferCreate at h
  simp only at h
  split at h
  next => cases h
  next =>
    split at h
    next => cases h
    next =>
      split at h
      next => cases h
      next =>
        cases h
        exact ⟨rfl, rfl⟩

theorem ringbufferOpen_length {env : CreateEnv} {file : Option String} {ring : Ringbuffer}
    {size : UInt32} {r : Ringbuffer} {len : Int}
    (h : ringbufferOpen env file ring size = some (r, len)) :
    len = toInt32 (openSize size + sizeofRingbuffer) := by
  unfold ringbufferOpen at h
  simp only at h
  split at h
  next => cases h
  next =>
    split at h
    next => cases h
    next =>
      split at h
      next => cases h
      next =>
        cases h
        rfl

/-- The round-up is the least power of two that is not below its argument, if
there is one in 32 bits, and else 0; and a ring is opened with the sizes it is
created with. -/
theorem roundup2_least (n : UInt32) :
    (1 ≤ n.toNat → n.toNat ≤ 2 ^ 31 → (∃ k, (roundup2 n).toNat = 2 ^ k)
        ∧ n.toNat ≤ (roundup2 n).toNat ∧ (roundup2 n).toNat < 2 * n.toNat)
      ∧ (n.toNat = 0 ∨ 2 ^ 31 < n.toNat → roundup2 n = 0)
      ∧ createSize n = openSize n
      ∧ ∀ env env' file file' ring r r' len, ringbufferCreate env file n = some r →
          ringbufferOpen env' file' ring n = some (r', len) →
          r.dataSize = openSize n ∧ len = toInt32 r.size := by
  refine ⟨roundup2_spec, fun h => ?_, createSize_eq_openSize n, ?_⟩
  · exact UInt32.toNat_inj.mp (roundup2_wrap h)
  · intro env env' file file' ring r r' len hcreate hopen
    obtain ⟨hdata, hsize⟩ := ringbufferCreate_size hcreate
    rw [createSize_eq_openSize] at hdata hsize
    rw [hdata, hsize]
    exact ⟨rfl, ringbufferOpen_length hopen⟩

-- ============================================================== lengths

@[simp] theorem umin_toNat (x y : UInt32) :
    (umin x y).toNat = min x.toNat y.toNat := by
  unfold umin
  split
  next h => have : y.toNat < x.toNat := h; omega
  next h => have : ¬ y.toNat < x.toNat := h; omega

theorem beq_iff_toNat {a b : UInt32} :
    (a == b) = true ↔ a.toNat = b.toNat := by
  rw [beq_iff_eq, UInt32.toNat_inj]

section Positions

variable {s w r : UInt32} {W R : Nat}

/-- Positions less than one revolution apart are equal when their cells
are. -/
theorem pos_eq_iff (hw : w.toNat = W % s.toNat) (hr : r.toNat = R % s.toNat)
    (hle : R ≤ W) (hlt : W < R + max 1 s.toNat) :
    (w == r) = true ↔ W = R := by
  rw [beq_iff_toNat, hw, hr]
  constructor
  · intro h
    rcases Nat.eq_zero_or_pos s.toNat with h0 | hpos
    · omega
    · exact (mod_inj_window hle (by omega) h.symm).symm
  · intro h
    rw [h]

/-- The used size is the distance of the two positions. -/
theorem getUsedSize_toNat (hs : ValidSize s) (hw : w.toNat = W % s.toNat)
    (hr : r.toNat = R % s.toNat) (hle : R ≤ W)
    (hlt : W < R + max 1 s.toNat) :
    (getUsedSize w r s).toNat = W - R := by
  unfold getUsedSize
  split
  next h =>
    have := (pos_eq_iff hw hr hle hlt).mp h
    simp
    omega
  next h =>
    have hne := mt (pos_eq_iff hw hr hle hlt).mpr h
    rcases hs with h0 | ⟨k, hk⟩
    · omega
    · exact Bits.sub_and_mask hk hw hr hle (by omega)

/-- The rest size is what the used size leaves free. -/
theorem getRestSize_toNat (hs : ValidSize s) (hw : w.toNat = W % s.toNat)
    (hr : r.toNat = R % s.toNat) (hle : R ≤ W)
    (hlt : W < R + max 1 s.toNat) :
    (getRestSize w r s).toNat = s.toNat - (W - R) := by
  unfold getRestSize
  split
  next h =>
    have := (pos_eq_iff hw hr hle hlt).mp h
    omega
  next h =>
    have hne := mt (pos_eq_iff hw hr hle hlt).mpr h
    rcases hs with h0 | ⟨k, hk⟩
    · omega
    · have hu := Bits.sub_and_mask hk hw hr hle (by omega)
      rw [UInt32.toNat_sub_of_le _ _ (by rw [UInt32.le_iff_toNat_le, hu]; omega),
        hu]

/-- Advancing a position by `n` advances its cell. -/
theorem advance_toNat {n : UInt32} (hs : ValidSize s) (hpos : 0 < s.toNat)
    (hw : w.toNat = W % s.toNat) :
    ((w + n) &&& (s - 1)).toNat = (W + n.toNat) % s.toNat := by
  rcases hs with h0 | ⟨k, hk⟩
  · omega
  · rw [Bits.add_and_mask hk, hw, Nat.mod_add_mod]

/-- Masking the cell of a position does nothing. -/
theorem mask_cell (hs : ValidSize s) (hpos : 0 < s.toNat)
    (hw : w.toNat = W % s.toNat) : (w &&& (s - 1)).toNat = W % s.toNat := by
  rcases hs with h0 | ⟨k, hk⟩
  · omega
  · rw [Bits.and_mask hk, hw, Nat.mod_mod]

end Positions

end PktSender.Ring
