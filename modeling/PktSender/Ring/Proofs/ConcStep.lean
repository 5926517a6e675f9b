/-
Every step of the interleaved ring keeps `ConcInv`, the successful swaps of
`write_pos` under `FreshSwap`.

One inversion lemma for each action says all it can do (`*_cases`), and one
preservation lemma for each effect follows: a writer that moves between
points outside its copy, a successful reservation, a run of copied bytes, a
successful publication, and the four reader steps.
-/
import PktSender.Ring.Proofs.ConcInv

namespace PktSender.Ring

open Circular

variable {ι : Type} {s s' : ConcState ι}

section Steps

variable [DecidableEq ι]

-- ====================================================== what a step can do

attribute [local simp] concStep writerStep readerStep

theorem put_cases {w : ι} {m : Msg} (h : concStep s (.put w m) = some s') :
    s' = s.setWriter w (.start m) := by
  cases hpc : s.writer w <;> simp [hpc] at h
  case idle => exact h.symm

theorem loadWrite_cases {w : ι} (h : concStep s (.loadWrite w) = some s') :
    ∃ m, s' = s.setWriter w (.loaded m s.ring.writePos) := by
  cases hpc : s.writer w <;> simp [hpc] at h
  case start m => exact ⟨m, h.symm⟩

theorem loadRead_cases {w : ι} (h : concStep s (.loadRead w) = some s') :
    ∃ m wo, s.writer w = .loaded m wo
      ∧ (s' = s.setWriter w .idle
        ∨ (m.len < getRestSize wo s.ring.readPos s.ring.dataSize
          ∧ s' = s.setWriter w (.tested m wo))) := by
  cases hpc : s.writer w <;> simp [hpc] at h
  case loaded m wo =>
    refine ⟨m, wo, rfl, ?_⟩
    split at h
    next => exact .inl (by simpa using h.symm)
    next hlt => exact .inr ⟨by simpa using hlt, by simpa using h.symm⟩

theorem swapWrite_cases {w : ι} (h : concStep s (.swapWrite w) = some s') :
    ∃ m wo, s.writer w = .tested m wo
      ∧ ((s.ring.writePos ≠ wo ∧ s' = s.setWriter w (.start m))
        ∨ (s.ring.writePos = wo ∧ s' =
            { s with
              ring := { s.ring with
                writePos := (wo + m.len) &&& (s.ring.dataSize - 1) }
              writer := Function.update s.writer w
                (.copying m wo ((wo + m.len) &&& (s.ring.dataSize - 1)) 0)
              accepted := s.accepted ++ [m] })) := by
  cases hpc : s.writer w <;> simp [hpc] at h
  case tested m wo =>
    refine ⟨m, wo, rfl, ?_⟩
    split at h
    next heq => exact .inr ⟨heq, by simpa using h.symm⟩
    next hne => exact .inl ⟨hne, by simpa using h.symm⟩

theorem copy_cases {w : ι} {c : Nat} (h : concStep s (.copy w c) = some s') :
    ∃ m wo wn d, s.writer w = .copying m wo wn d ∧ d + c ≤ m.len.toNat
      ∧ s' = { s with
          ring := { s.ring with
            data := copyLoop s.ring.data (wrapAddr s.ring wo m.len) m.buffer
              d c }
          writer := Function.update s.writer w (.copying m wo wn (d + c)) } := by
  cases hpc : s.writer w <;> simp [hpc] at h
  case copying m wo wn d => exact ⟨m, wo, wn, d, rfl, h.1, h.2.symm⟩

theorem swapFinish_cases {w : ι} (h : concStep s (.swapFinish w) = some s') :
    s' = s ∨ ∃ m wo wn, s.writer w = .copying m wo wn m.len.toNat
      ∧ s.ring.finishPos = wo
      ∧ s' = { s with
          ring := { s.ring with finishPos := wn }
          writer := Function.update s.writer w .idle
          committed := s.committed ++ [m] } := by
  cases hpc : s.writer w <;> simp [hpc] at h
  case copying m wo wn d =>
    obtain ⟨rfl, h⟩ := h
    split at h
    next heq => exact .inr ⟨m, wo, wn, rfl, heq, by simpa using h.symm⟩
    next => exact .inl (by simpa using h.symm)

theorem get_cases {len : UInt32} (h : concStep s (.get len) = some s') :
    s' = { s with reader := .loaded len s.ring.finishPos } := by
  cases hpc : s.reader <;> simp [hpc] at h
  case idle => exact h.symm

theorem loadReadPos_cases (h : concStep s .loadReadPos = some s') :
    ∃ len wl, s.reader = .loaded len wl
      ∧ (s' = { s with reader := .idle }
        ∨ ∃ size, size
            = umin len (getUsedSize wl s.ring.readPos s.ring.dataSize)
          ∧ 0 < size.toNat
          ∧ s' = { s with reader := .copying s.ring.readPos size [] }) := by
  cases hpc : s.reader <;> simp [hpc] at h
  case loaded len wl =>
    refine ⟨len, wl, rfl, ?_⟩
    split at h
    next => exact .inl (by simpa using h.symm)
    next hne =>
      refine .inr ⟨_, rfl, ?_, by simpa using h.symm⟩
      exact Nat.pos_of_ne_zero fun hz => hne (UInt32.toNat_inj.mp hz)

theorem fetch_cases {c : Nat} (h : concStep s (.fetch c) = some s') :
    ∃ ro size buf, s.reader = .copying ro size buf
      ∧ buf.length + c ≤ size.toNat
      ∧ s' = { s with
          reader := .copying ro size
            (buf ++ (List.range' buf.length c).map fun i =>
              s.ring.data (wrapAddr s.ring ro size i)) } := by
  cases hpc : s.reader <;> simp [hpc] at h
  case copying ro size buf => exact ⟨ro, size, buf, rfl, h.1, h.2.symm⟩

theorem storeRead_cases (h : concStep s .storeRead = some s') :
    ∃ ro size buf, s.reader = .copying ro size buf
      ∧ buf.length = size.toNat
      ∧ s' = { s with
          ring := { s.ring with
            readPos := (ro + size) &&& (s.ring.dataSize - 1) }
          reader := .idle
          obtained := s.obtained ++ buf } := by
  cases hpc : s.reader <;> simp [hpc] at h
  case copying ro size buf => exact ⟨ro, size, buf, rfl, h.1, h.2.symm⟩

end Steps

section Writers

variable [DecidableEq ι]

-- ============================================================ the writers

/-- When one writer moves, it has to be shown in its new place, and the
others that are in their copies in their old ones. -/
theorem writers_update {b : Nat} {pos' : ι → Nat} {w : ι} {pc : WriterPc}
    (hself : WriterOk b s' (pos' w) pc)
    (hother : ∀ {v m wo wn d}, v ≠ w → s.writer v = .copying m wo wn d →
      CopyOk b s' (pos' v) m wo wn d) (v : ι) :
    WriterOk b s' (pos' v) (Function.update s.writer w pc v) := by
  by_cases hv : v = w
  · subst hv
    rw [Function.update_self]
    exact hself
  · rw [Function.update_of_ne hv]
    exact .of_copying fun m wo wn d hpc => hother hv hpc

/-- When a writer ends up outside its copy, those in a copy were in it
before. -/
theorem copying_of_update {w u : ι} {pc : WriterPc}
    (hpc : ∀ m wo wn d, pc ≠ .copying m wo wn d) {m : Msg} {wo wn : UInt32}
    {d : Nat} (hu : Function.update s.writer w pc u = .copying m wo wn d) :
    s.writer u = .copying m wo wn d := by
  by_cases huw : u = w
  · subst huw
    rw [Function.update_self] at hu
    exact absurd hu (hpc m wo wn d)
  · rwa [Function.update_of_ne huw] at hu

namespace ConcInv

variable {b : Nat} {pos : ι → Nat}

/-- A writer that ends up outside its copy, with nothing else changed. -/
theorem setWriter (h : ConcInv b pos s) {w : ι} {pc : WriterPc}
    (hpc : ∀ m wo wn d, pc ≠ .copying m wo wn d) :
    ConcInv b pos (s.setWriter w pc) := by
  refine ⟨h.valid, h.write, h.finish, h.read, h.got, h.pub, h.room, h.cells,
    ?_, ?_, h.reader⟩
  · exact writers_update
      (.of_copying fun m wo wn d heq => absurd heq (hpc m wo wn d))
      fun _ hv => { h.copyOk hv with }
  · intro v v' m wo wn d m' wo' wn' d' hne hv hv'
    exact h.apart hne (copying_of_update hpc hv) (copying_of_update hpc hv')

/-- A successful swap of `write_pos` reserves the next places of the stream,
provided the message still fits. -/
theorem reserve (h : ConcInv b pos s) {w : ι} {m : Msg} {wo : UInt32}
    (heq : s.ring.writePos = wo)
    (hfits : m.len
      < getRestSize s.ring.writePos s.ring.readPos s.ring.dataSize) :
    ConcInv b (Function.update pos w s.stream.length)
      { s with
        ring := { s.ring with
          writePos := (wo + m.len) &&& (s.ring.dataSize - 1) }
        writer := Function.update s.writer w
          (.copying m wo ((wo + m.len) &&& (s.ring.dataSize - 1)) 0)
        accepted := s.accepted ++ [m] } := by
  have h1 := h.obtained_le
  have h2 := h.published_le
  have hlt : m.len.toNat
      < s.ring.dataSize.toNat - (s.stream.length - s.obtained.length) := by
    rw [← h.rest]
    exact UInt32.lt_iff_toNat_lt.mp hfits
  have hnew : ((wo + m.len) &&& (s.ring.dataSize - 1)).toNat
      = (b + s.stream.length + m.len.toNat) % s.ring.dataSize.toNat :=
    advance_toNat h.valid (by omega) (heq ▸ h.write)
  have hstream : (s.accepted ++ [m]).flatMap Msg.bytes
      = s.stream ++ m.bytes := by
    simp [ConcState.stream]
  refine ⟨h.valid, ?_, h.finish, h.read, h.got, ?_, ?_, h.cells, ?_, ?_,
    h.reader⟩
  · show _ = (b + ((s.accepted ++ [m]).flatMap Msg.bytes).length) % _
    rw [hstream, List.length_append, Msg.bytes_length, ← Nat.add_assoc]
    exact hnew
  · show _ <+: (s.accepted ++ [m]).flatMap Msg.bytes
    rw [hstream]
    exact h.pub.trans (List.prefix_append _ _)
  · show ((s.accepted ++ [m]).flatMap Msg.bytes).length
      < s.obtained.length + max 1 s.ring.dataSize.toNat
    rw [hstream, List.length_append, Msg.bytes_length]
    omega
  · refine writers_update ?_ fun {v m' wo' wn' d'} hv hpc => ?_
    · rw [Function.update_self]
      refine ⟨heq ▸ h.write, hnew, fun i _ => ?_, fun i hi => ?_,
        Nat.zero_le _, fun i hi => absurd hi (Nat.not_lt_zero i)⟩
      · show s.published.length ≤ _
        omega
      · show ((s.accepted ++ [m]).flatMap Msg.bytes)[_]? = _
        rw [hstream, List.getElem?_append_right (by omega),
          Nat.add_sub_cancel_left,
          List.getElem?_eq_getElem (by rw [Msg.bytes_length]; exact hi),
          Msg.bytes_getElem]
    · have hold := h.copyOk hpc
      rw [Function.update_of_ne hv]
      refine ⟨hold.old, hold.new, hold.above, fun i hi => ?_, hold.done_le,
        hold.copied⟩
      show ((s.accepted ++ [m]).flatMap Msg.bytes)[_]? = _
      rw [hstream, List.getElem?_append_left (lt_stream hold hi)]
      exact hold.msg i hi
  · -- the new range starts where all others end
    have hbelow : ∀ {v m' wo' wn' d'}, s.writer v = .copying m' wo' wn' d' →
        ∀ j < m'.len.toNat, pos v + j < s.stream.length :=
      fun hpc _ hj => lt_stream (h.copyOk hpc) hj
    intro v v' m₁ wo₁ wn₁ d₁ m₂ wo₂ wn₂ d₂ hne hv hv' i hi j hj
    change Function.update s.writer w _ v = _ at hv
    change Function.update s.writer w _ v' = _ at hv'
    by_cases hvw : v = w
    · subst hvw
      have hv'' : s.writer v' = .copying m₂ wo₂ wn₂ d₂ := by
        rwa [Function.update_of_ne (Ne.symm hne)] at hv'
      have := hbelow hv'' j hj
      rw [Function.update_self, Function.update_of_ne (Ne.symm hne)]
      omega
    · rw [Function.update_of_ne hvw] at hv ⊢
      by_cases hvw' : v' = w
      · subst hvw'
        have := hbelow hv i hi
        rw [Function.update_self]
        omega
      · rw [Function.update_of_ne hvw'] at hv' ⊢
        exact h.apart hne hv hv' i hi j hj

/-- A run of copied bytes goes to cells of the writer's own range, and
leaves the published and the other reserved cells alone. -/
theorem copy (h : ConcInv b pos s) {w : ι} {m : Msg} {wo wn : UInt32}
    {d c : Nat} (hpc : s.writer w = .copying m wo wn d)
    (hle : d + c ≤ m.len.toNat) :
    ConcInv b pos
      { s with
        ring := { s.ring with
          data := copyLoop s.ring.data (wrapAddr s.ring wo m.len) m.buffer
            d c }
        writer := Function.update s.writer w (.copying m wo wn (d + c)) } := by
  have h1 := h.obtained_le
  have h2 := h.published_le
  have hcopy := h.copyOk hpc
  -- any position in use that is not one of the copied bytes keeps its cell
  have hkeep : ∀ p, s.obtained.length ≤ p → p < s.stream.length →
      (∀ i, d ≤ i → i < d + c → p ≠ pos w + i) →
      copyLoop s.ring.data (wrapAddr s.ring wo m.len) m.buffer d c
          ((b + p) % s.ring.dataSize.toNat)
        = s.ring.data ((b + p) % s.ring.dataSize.toNat) := by
    intro p hlo hhi hne
    refine copyLoop_of_ne fun i hdi hic => ?_
    rw [h.copy_addr hcopy (by omega)]
    have habove := hcopy.above i (by omega)
    exact h.cell_ne hlo hhi (by omega) (lt_stream hcopy (by omega))
      (hne i hdi hic)
  refine ⟨h.valid, h.write, h.finish, h.read, h.got, h.pub, h.room, ?_, ?_, ?_,
    h.reader⟩
  · intro i x hlo hx
    have hi : i < s.published.length := (List.getElem?_eq_some_iff.mp hx).1
    refine (hkeep i hlo (by omega) fun j _ hj => ?_).trans (h.cells i x hlo hx)
    have := hcopy.above j (by omega)
    omega
  · refine writers_update ?_ fun {v m' wo' wn' d'} hv hpc' => ?_
    · refine ⟨hcopy.old, hcopy.new, hcopy.above, hcopy.msg, hle, fun i hi => ?_⟩
      by_cases hid : i < d
      · refine (hkeep (pos w + i) ?_ (lt_stream hcopy (by omega))
          fun j _ _ => by omega).trans (hcopy.copied i hid)
        have := hcopy.above i (by omega)
        omega
      · show copyLoop _ _ _ _ _ ((b + (pos w + i)) % s.ring.dataSize.toNat) = _
        rw [← h.copy_addr hcopy (by omega)]
        refine copyLoop_apply (fun j k hj hjk hk => ?_) (by omega) (by omega)
        rw [h.copy_addr hcopy (by omega), h.copy_addr hcopy (by omega)]
        have hj' := hcopy.above j (by omega)
        exact h.cell_ne (by omega) (lt_stream hcopy (by omega)) (by omega)
          (lt_stream hcopy (by omega)) (by omega)
    · have hold := h.copyOk hpc'
      refine ⟨hold.old, hold.new, hold.above, hold.msg, hold.done_le,
        fun i hi => ?_⟩
      have hd' := hold.done_le
      have habove := hold.above i (by omega)
      exact (hkeep (pos v + i) (by omega) (lt_stream hold (by omega))
        fun j _ hj => h.apart hv hpc' hpc i (by omega) j (by omega)).trans
        (hold.copied i hi)
  · -- the new point of `w` has the same message
    have hsame : ∀ {u m' wo' wn' d'},
        Function.update s.writer w (.copying m wo wn (d + c)) u
          = .copying m' wo' wn' d' →
        ∃ d'', s.writer u = .copying m' wo' wn' d'' := by
      intro u m' wo' wn' d' hu
      by_cases huw : u = w
      · subst huw
        rw [Function.update_self] at hu
        cases hu
        exact ⟨d, hpc⟩
      · rw [Function.update_of_ne huw] at hu
        exact ⟨d', hu⟩
    intro v v' m₁ wo₁ wn₁ d₁ m₂ wo₂ wn₂ d₂ hne hv hv'
    obtain ⟨e₁, hv₁⟩ := hsame hv
    obtain ⟨e₂, hv₂⟩ := hsame hv'
    exact h.apart hne hv₁ hv₂

/-- A successful swap of `finish_pos` publishes the writer's message: the
bytes it waited for are the bytes before its own. -/
theorem publish (h : ConcInv b pos s) {w : ι} {m : Msg} {wo wn : UInt32}
    (hpc : s.writer w = .copying m wo wn m.len.toNat)
    (heq : s.ring.finishPos = wo) :
    ConcInv b pos
      { s with
        ring := { s.ring with finishPos := wn }
        writer := Function.update s.writer w .idle
        committed := s.committed ++ [m] } := by
  have h1 := h.obtained_le
  have h2 := h.published_le
  have h3 := h.room
  have hcopy := h.copyOk hpc
  have hpub : (s.committed ++ [m]).flatMap Msg.bytes
      = s.published ++ m.bytes := by
    simp [ConcState.published]
  -- a message with bytes starts exactly at the end of the published ones
  have hplace : 0 < m.len.toNat → pos w = s.published.length := by
    intro hpos
    have habove := hcopy.above 0 hpos
    have hlt := lt_stream hcopy hpos
    have hcell : (b + s.published.length) % s.ring.dataSize.toNat
        = (b + pos w) % s.ring.dataSize.toNat := by
      rw [← h.finish, heq, hcopy.old]
    by_contra hne
    exact h.cell_ne (by omega) (by omega) (by omega) (by omega)
      (fun hc => hne hc.symm) hcell
  refine ⟨h.valid, h.write, ?_, h.read, ?_, ?_, h.room, ?_, ?_, ?_, ?_⟩
  · show wn.toNat = (b + ((s.committed ++ [m]).flatMap Msg.bytes).length) % _
    rw [hpub, List.length_append, Msg.bytes_length, hcopy.new]
    rcases Nat.eq_zero_or_pos m.len.toNat with h0 | hpos
    · rw [h0, Nat.add_zero, Nat.add_zero, ← hcopy.old, ← heq, h.finish]
    · rw [hplace hpos, Nat.add_assoc]
  · show _ <+: (s.committed ++ [m]).flatMap Msg.bytes
    rw [hpub]
    exact h.got.trans (List.prefix_append _ _)
  · show (s.committed ++ [m]).flatMap Msg.bytes <+: _
    rw [hpub]
    refine append_isPrefix h.pub fun i hi => ?_
    rw [Msg.bytes_length] at hi
    rw [Msg.bytes_getElem, ← hplace (by omega)]
    exact hcopy.msg i hi
  · intro i x hlo hx
    have hx' : (s.published ++ m.bytes)[i]? = some x := hpub ▸ hx
    by_cases hi : i < s.published.length
    · rw [List.getElem?_append_left hi] at hx'
      exact h.cells i x hlo hx'
    · rw [List.getElem?_append_right (by omega)] at hx'
      obtain ⟨hlt, rfl⟩ := List.getElem?_eq_some_iff.mp hx'
      rw [Msg.bytes_length] at hlt
      rw [Msg.bytes_getElem, ← hcopy.copied _ hlt, hplace (by omega),
        show s.published.length + (i - s.published.length) = i by omega]
  · refine writers_update trivial fun {v m' wo' wn' d'} hv hpc' => ?_
    have hold := h.copyOk hpc'
    refine ⟨hold.old, hold.new, fun i hi => ?_, hold.msg, hold.done_le,
      hold.copied⟩
    show ((s.committed ++ [m]).flatMap Msg.bytes).length ≤ _
    rw [hpub, List.length_append, Msg.bytes_length]
    have habove := hold.above i hi
    by_contra hcon
    exact h.apart hv hpc' hpc i hi (pos v + i - s.published.length)
      (by omega) (by rw [hplace (by omega)]; omega)
  · intro v v' m₁ wo₁ wn₁ d₁ m₂ wo₂ wn₂ d₂ hne hv hv'
    have hidle : ∀ m wo wn d, WriterPc.idle ≠ .copying m wo wn d := by
      intro m wo wn d heq
      cases heq
    exact h.apart hne (copying_of_update hidle hv) (copying_of_update hidle hv')
  · have hgrow : s.published <+: (s.committed ++ [m]).flatMap Msg.bytes := by
      rw [hpub]
      exact List.prefix_append _ _
    have hold := h.reader
    cases hrd : s.reader with
    | idle => trivial
    | loaded len wl =>
        rw [hrd] at hold
        obtain ⟨f, hlo, hhi, hwl⟩ := hold
        exact ⟨f, hlo, hhi.trans hgrow.length_le, hwl⟩
    | copying ro size buf =>
        rw [hrd] at hold
        obtain ⟨hro, hpos, hle, hbuf, hpre⟩ := hold
        exact ⟨hro, hpos, hle.trans hgrow.length_le, hbuf, hpre.trans hgrow⟩

end ConcInv

end Writers

-- ============================================================= the reader

namespace ConcInv

variable {b : Nat} {pos : ι → Nat}

/-- The size a get settles on is there to be read. -/
theorem loadReadPos (h : ConcInv b pos s) {len wl size : UInt32}
    (hpc : s.reader = .loaded len wl)
    (hsize : size = umin len (getUsedSize wl s.ring.readPos s.ring.dataSize))
    (hpos : 0 < size.toNat) :
    ConcInv b pos { s with reader := .copying s.ring.readPos size [] } := by
  have h2 := h.published_le
  have h3 := h.room
  obtain ⟨f, hlo, hhi, hwl⟩ : ReaderOk b s (.loaded len wl) :=
    hpc ▸ h.reader
  have hused := getUsedSize_toNat h.valid hwl h.read (by omega) (by omega)
  refine h.setReader ⟨rfl, hpos, ?_, Nat.zero_le _, ?_⟩
  · have hle := congrArg UInt32.toNat hsize
    rw [umin_toNat, hused] at hle
    omega
  · rw [List.append_nil]
    exact h.got

/-- The bytes fetched are the published ones at their places. -/
theorem fetch (h : ConcInv b pos s) {ro size : UInt32} {buf : List UInt8}
    {c : Nat} (hpc : s.reader = .copying ro size buf)
    (hle : buf.length + c ≤ size.toNat) :
    ConcInv b pos
      { s with
        reader := .copying ro size
          (buf ++ (List.range' buf.length c).map fun i =>
            s.ring.data (wrapAddr s.ring ro size i)) } := by
  have h2 := h.published_le
  have h3 := h.room
  obtain ⟨hro, hpos, hsz, hbuf, hpre⟩ : ReaderOk b s (.copying ro size buf) :=
    hpc ▸ h.reader
  refine h.setReader ⟨hro, hpos, hsz, ?_, ?_⟩
  · simpa using hle
  · rw [← List.append_assoc]
    refine append_isPrefix hpre fun i hi => ?_
    rw [List.length_map, List.length_range'] at hi
    have hplace : s.obtained.length + (buf.length + i) < s.published.length := by
      omega
    rw [List.getElem_map, List.getElem_range', Nat.one_mul,
      wrapAddr_eq h.valid (by omega) (hro ▸ h.read) (by omega) (by omega),
      List.length_append, Nat.add_assoc, Nat.add_assoc,
      List.getElem?_eq_getElem hplace]
    congr 1
    exact (h.cells _ _ (Nat.le_add_right _ _)
      (List.getElem?_eq_getElem hplace)).symm

/-- The store of `read_pos` releases the bytes the get has copied. -/
theorem storeRead (h : ConcInv b pos s) {ro size : UInt32} {buf : List UInt8}
    (hpc : s.reader = .copying ro size buf) (hlen : buf.length = size.toNat) :
    ConcInv b pos
      { s with
        ring := { s.ring with
          readPos := (ro + size) &&& (s.ring.dataSize - 1) }
        reader := .idle
        obtained := s.obtained ++ buf } := by
  have h2 := h.published_le
  have h3 := h.room
  obtain ⟨hro, hpos, hsz, hbuf, hpre⟩ : ReaderOk b s (.copying ro size buf) :=
    hpc ▸ h.reader
  refine ⟨h.valid, h.write, h.finish, ?_, hpre, h.pub, ?_, ?_, fun v => ?_,
    h.apart, trivial⟩
  · show _ = (b + (s.obtained ++ buf).length) % _
    rw [List.length_append, hlen, ← Nat.add_assoc]
    exact advance_toNat h.valid (by omega) (hro ▸ h.read)
  · show s.stream.length
      < (s.obtained ++ buf).length + max 1 s.ring.dataSize.toNat
    rw [List.length_append]
    have := h.room
    omega
  · intro i x hlo hx
    have hlo' : s.obtained.length ≤ i :=
      (List.length_append ▸ Nat.le_add_right _ _ : _ ≤ _).trans hlo
    exact h.cells i x hlo' hx
  · exact (h.writers v).congr rfl rfl rfl rfl

end ConcInv

-- =============================================================== all steps

/-- Every step keeps the invariant, given `FreshSwap`. -/
theorem concStep_inv [DecidableEq ι] {b : Nat} {a : ConcAct ι}
    (h : ∃ pos, ConcInv b pos s) (hfresh : FreshSwap s a)
    (hstep : concStep s a = some s') : ∃ pos, ConcInv b pos s' := by
  obtain ⟨pos, h⟩ := h
  cases a with
  | put w m =>
      obtain rfl := put_cases hstep
      exact ⟨pos, h.setWriter (fun _ _ _ _ => nofun)⟩
  | loadWrite w =>
      obtain ⟨m, rfl⟩ := loadWrite_cases hstep
      exact ⟨pos, h.setWriter (fun _ _ _ _ => nofun)⟩
  | loadRead w =>
      obtain ⟨m, wo, -, rfl | ⟨-, rfl⟩⟩ := loadRead_cases hstep
      · exact ⟨pos, h.setWriter (fun _ _ _ _ => nofun)⟩
      · exact ⟨pos, h.setWriter (fun _ _ _ _ => nofun)⟩
  | swapWrite w =>
      obtain ⟨m, wo, hpc, ⟨-, rfl⟩ | ⟨heq, rfl⟩⟩ := swapWrite_cases hstep
      · exact ⟨pos, h.setWriter (fun _ _ _ _ => nofun)⟩
      · simp only [FreshSwap, hpc] at hfresh
        exact ⟨_, h.reserve heq (hfresh heq)⟩
  | copy w c =>
      obtain ⟨m, wo, wn, d, hpc, hle, rfl⟩ := copy_cases hstep
      exact ⟨pos, h.copy hpc hle⟩
  | swapFinish w =>
      obtain rfl | ⟨m, wo, wn, hpc, heq, rfl⟩ := swapFinish_cases hstep
      · exact ⟨pos, h⟩
      · exact ⟨pos, h.publish hpc heq⟩
  | get len =>
      obtain rfl := get_cases hstep
      exact ⟨pos, h.setReader
        ⟨_, h.obtained_le, Nat.le_refl _, h.finish⟩⟩
  | loadReadPos =>
      obtain ⟨len, wl, hpc, rfl | ⟨size, hsize, hpos, rfl⟩⟩ :=
        loadReadPos_cases hstep
      · exact ⟨pos, h.setReader trivial⟩
      · exact ⟨pos, h.loadReadPos hpc hsize hpos⟩
  | fetch c =>
      obtain ⟨ro, size, buf, hpc, hle, rfl⟩ := fetch_cases hstep
      exact ⟨pos, h.fetch hpc hle⟩
  | storeRead =>
      obtain ⟨ro, size, buf, hpc, hlen, rfl⟩ := storeRead_cases hstep
      exact ⟨pos, h.storeRead hpc hlen⟩

end PktSender.Ring
