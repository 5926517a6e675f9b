/-
What the interleaved ring guarantees.

`reserve_fresh_apart` is about any number of writers: in every run in which
no swap of `write_pos` succeeds on an outdated free-space test, reserved
ranges never overlap and the reader obtains a prefix of the stream. Without
the condition both fail, because `write_pos` is a position modulo
`data_size`: a writer that is delayed between its test and its swap finds
the value it loaded again after the others went once round the ring
(`lapped_writer_overlaps`).

`single_writer_fifo` is about one writer: nobody else moves `write_pos`
between its test and its swap, so the condition holds by itself.
-/
import PktSender.Lib.Lts
import PktSender.Ring.Proofs.ConcStep

namespace PktSender.Ring

open Circular Lts

-- ====================================================== any number of writers

/-- In every run from a fresh ring whose successful swaps of `write_pos` are
all fresh, reserved ranges stay apart from each other and from the unread
bytes, and the bytes read are an initial part of the stream. -/
theorem reserve_fresh_apart {ι : Type} [DecidableEq ι] {env : CreateEnv}
    {file : Option String} {size : UInt32} {r : Ringbuffer}
    (hc : ringbufferCreate env file size = some r) {as : List (ConcAct ι)}
    {s : ConcState ι} (hfresh : AllSteps concStep FreshSwap (concInit r) as)
    (hrun : run concStep (concInit r) as = some s) :
    s.NoOverlap ∧ s.obtained ++ s.reader.buffer <+: s.stream := by
  have hinit : ∃ pos, ConcInv r.readPos.toNat pos (concInit (ι := ι) r) := by
    obtain rfl := create_eq hc
    refine ⟨_, concInv_init (createSize_valid size) rfl rfl ?_⟩
    exact Nat.lt_of_lt_of_le Nat.one_pos (Nat.le_max_left _ _)
  obtain ⟨pos, h⟩ := run_invariant concStep_inv hinit hfresh hrun
  exact ⟨h.noOverlap, h.obtained_append.trans h.pub⟩

/-- Writer 1 reserves while writer 0 is in its copy, has to wait for it, and
the reader gets both messages. -/
def freshRun : List (ConcAct (Fin 2)) :=
  [.put 0 { buffer := fun i => UInt8.ofNat i, len := 3 }, .loadWrite 0,
   .loadRead 0, .swapWrite 0, .copy 0 1,
   .put 1 { buffer := fun _ => 9, len := 2 }, .loadWrite 1, .loadRead 1,
   .swapWrite 1, .copy 1 2, .swapFinish 1, .copy 0 2, .swapFinish 0,
   .swapFinish 1, .get 8, .loadReadPos, .fetch 5, .storeRead]

/-- Two writers and a reader on a ring of eight bytes, with the copies in
pieces and the first publication after the second reservation. -/
theorem reserve_fresh_apart_eight :
    ∃ s, run concStep
        (concInit { size := 32, dataSize := 8, readPos := 0, writePos := 0,
                    finishPos := 0, data := fun _ => 0 })
        freshRun = some s
      ∧ s.NoOverlap ∧ s.obtained ++ s.reader.buffer <+: s.stream := by
  obtain ⟨s, hs⟩ : ∃ s, run concStep
      (concInit { size := 32, dataSize := 8, readPos := 0, writePos := 0,
                  finishPos := 0, data := fun _ => 0 })
      freshRun = some s := ⟨_, rfl⟩
  exact ⟨s, hs, @reserve_fresh_apart (Fin 2) _
    { openOk := true, ftruncateOk := fun _ => true, mmapOk := fun _ => true }
    none 8 _ rfl freshRun s (by decide) hs⟩

/-- Writer 0 tests the free space of a ring of four bytes and is delayed.
Writer 1 puts two bytes, the reader gets them, writer 1 puts two more, and
`write_pos` is back at the value writer 0 has loaded. -/
def lapRun : List (ConcAct (Fin 2)) :=
  [.put 0 { buffer := fun _ => 170, len := 3 }, .loadWrite 0, .loadRead 0,
   .put 1 { buffer := fun _ => 1, len := 2 }, .loadWrite 1, .loadRead 1,
   .swapWrite 1, .copy 1 2, .swapFinish 1,
   .get 2, .loadReadPos, .fetch 2, .storeRead,
   .put 1 { buffer := fun _ => 2, len := 2 }, .loadWrite 1, .loadRead 1,
   .swapWrite 1, .copy 1 2, .swapFinish 1,
   .swapWrite 0]

/-- Writer 0 copies over the unread bytes, and the reader gets them. -/
def lapReadRun : List (ConcAct (Fin 2)) :=
  [.copy 0 3, .get 2, .loadReadPos, .fetch 2, .storeRead]

/-- The ring of four bytes of the two runs. -/
def ringOfFour : Ringbuffer :=
  { size := 28, dataSize := 4, readPos := 0, writePos := 0, finishPos := 0
    data := fun _ => 0 }

/-- A writer that is lapped between its test and its swap reserves cells
that hold unread bytes, and the reader obtains bytes that are not an initial
part of the stream. -/
theorem lapped_writer_overlaps :
    ringbufferCreate { openOk := true, ftruncateOk := fun _ => true
                       mmapOk := fun _ => true } none 4 = some ringOfFour
      ∧ ∃ s s', run concStep (concInit ringOfFour) lapRun = some s
      ∧ ¬ s.NoOverlap
      ∧ run concStep s lapReadRun = some s'
      ∧ ¬ s'.obtained <+: s'.stream := by
  refine ⟨rfl, ?_⟩
  have hcells : (run concStep (concInit ringOfFour) lapRun).map
      (fun s => (s.reservedCells 0, s.unreadCells))
        = some ([0, 1, 2], [2, 3]) := by decide +kernel
  have hbytes : (run concStep (concInit ringOfFour) (lapRun ++ lapReadRun)).map
      (fun s => (s.obtained, s.stream))
        = some ([1, 1, 170, 2], [1, 1, 2, 2, 170, 170, 170]) := by
    decide +kernel
  obtain ⟨s, hs, hcells⟩ := Option.map_eq_some_iff.mp hcells
  rw [run_append, hs, Option.bind_some] at hbytes
  obtain ⟨s', hs', hbytes⟩ := Option.map_eq_some_iff.mp hbytes
  obtain ⟨hres, hunread⟩ := Prod.mk.inj hcells
  obtain ⟨hgot, hstream⟩ := Prod.mk.inj hbytes
  refine ⟨s, s', hs, fun h => ?_, hs', ?_⟩
  · have hdis := h.2 0
    rw [hres, hunread] at hdis
    exact hdis (show 2 ∈ [0, 1, 2] by decide) (show 2 ∈ [2, 3] by decide)
  · rw [hgot, hstream]
    decide

-- ============================================================= one writer

/-- A step changes no cell but the ones it is about to write, and never the
size of the data area. -/
theorem concStep_frame {ι : Type} [DecidableEq ι] {s s' : ConcState ι}
    {a : ConcAct ι} (hstep : concStep s a = some s') :
    s'.ring.dataSize = s.ring.dataSize
      ∧ ∀ x ∉ s.targets a, s'.ring.data x = s.ring.data x := by
  cases a with
  | put w m =>
      obtain rfl := put_cases hstep
      exact ⟨rfl, fun _ _ => rfl⟩
  | loadWrite w =>
      obtain ⟨m, rfl⟩ := loadWrite_cases hstep
      exact ⟨rfl, fun _ _ => rfl⟩
  | loadRead w =>
      obtain ⟨m, wo, -, rfl | ⟨-, rfl⟩⟩ := loadRead_cases hstep
      · exact ⟨rfl, fun _ _ => rfl⟩
      · exact ⟨rfl, fun _ _ => rfl⟩
  | swapWrite w =>
      obtain ⟨m, wo, -, ⟨-, rfl⟩ | ⟨-, rfl⟩⟩ := swapWrite_cases hstep
      · exact ⟨rfl, fun _ _ => rfl⟩
      · exact ⟨rfl, fun _ _ => rfl⟩
  | copy w c =>
      obtain ⟨m, wo, wn, d, hpc, hle, rfl⟩ := copy_cases hstep
      refine ⟨rfl, fun x hx => copyLoop_of_ne fun i hlo hhi heq => hx ?_⟩
      simp only [ConcState.targets, hpc, List.mem_map, List.mem_range'_1]
      exact ⟨i, ⟨hlo, hhi⟩, heq.symm⟩
  | swapFinish w =>
      obtain rfl | ⟨m, wo, wn, -, -, rfl⟩ := swapFinish_cases hstep
      · exact ⟨rfl, fun _ _ => rfl⟩
      · exact ⟨rfl, fun _ _ => rfl⟩
  | get len =>
      obtain rfl := get_cases hstep
      exact ⟨rfl, fun _ _ => rfl⟩
  | loadReadPos =>
      obtain ⟨len, wl, -, rfl | ⟨size, -, -, rfl⟩⟩ := loadReadPos_cases hstep
      · exact ⟨rfl, fun _ _ => rfl⟩
      · exact ⟨rfl, fun _ _ => rfl⟩
  | fetch c =>
      obtain ⟨ro, size, buf, -, -, rfl⟩ := fetch_cases hstep
      exact ⟨rfl, fun _ _ => rfl⟩
  | storeRead =>
      obtain ⟨ro, size, buf, -, -, rfl⟩ := storeRead_cases hstep
      exact ⟨rfl, fun _ _ => rfl⟩

/-- What a step is about to write is part of a reserved range. -/
theorem targets_subset {ι : Type} [DecidableEq ι] {s s' : ConcState ι}
    {a : ConcAct ι} (hstep : concStep s a = some s') {x : Nat}
    (hx : x ∈ s.targets a) : ∃ w, x ∈ s.reservedCells w := by
  cases a with
  | copy w c =>
      obtain ⟨m, wo, wn, d, hpc, hle, rfl⟩ := copy_cases hstep
      simp only [ConcState.targets, hpc, List.mem_map,
        List.mem_range'_1] at hx
      obtain ⟨i, ⟨-, hi⟩, rfl⟩ := hx
      refine ⟨w, ?_⟩
      simp only [ConcState.reservedCells, hpc, List.mem_map, List.mem_range]
      exact ⟨i, by omega, rfl⟩
  | _ => simp [ConcState.targets] at hx

/-- With one writer, what it has loaded and tested stays true until its
swap. -/
structure SoloInv (b : Nat) (s : ConcState Unit) : Prop where
  inv : ∃ pos, ConcInv b pos s
  loaded : ∀ {m wo}, s.writer () = .loaded m wo → s.ring.writePos = wo
  tested : ∀ {m wo}, s.writer () = .tested m wo →
    s.ring.writePos = wo
      ∧ s.stream.length + m.len.toNat
          < s.obtained.length + s.ring.dataSize.toNat

namespace SoloInv

variable {b : Nat} {s s' : ConcState Unit} {a : ConcAct Unit}

/-- So its swaps are fresh. -/
theorem fresh (h : SoloInv b s) : FreshSwap s a := by
  obtain ⟨pos, hinv⟩ := h.inv
  cases a with
  | swapWrite w =>
      simp only [FreshSwap]
      split
      next m wo hpc =>
        intro _
        have hfits := (h.tested hpc).2
        have hle := hinv.obtained_le
        have hle' := hinv.published_le
        rw [UInt32.lt_iff_toNat_lt, hinv.rest]
        omega
      next => trivial
  | _ => trivial

/-- A writer point that is neither `loaded` nor `tested` asks for nothing. -/
theorem ofWriter (pc : WriterPc) (hinv : ∃ pos, ConcInv b pos s')
    (hw : s'.writer () = pc) (hl : ∀ m wo, pc ≠ .loaded m wo)
    (ht : ∀ m wo, pc ≠ .tested m wo) : SoloInv b s' :=
  ⟨hinv, fun hpc => absurd (hw.symm.trans hpc) (hl _ _),
    fun hpc => absurd (hw.symm.trans hpc) (ht _ _)⟩

/-- A step of the reader can only release cells. -/
theorem ofReader (h : SoloInv b s) (hinv : ∃ pos, ConcInv b pos s')
    (hw : s'.writer = s.writer) (hp : s'.ring.writePos = s.ring.writePos)
    (hd : s'.ring.dataSize = s.ring.dataSize)
    (ha : s'.accepted = s.accepted)
    (ho : s.obtained.length ≤ s'.obtained.length) : SoloInv b s' := by
  refine ⟨hinv, fun hpc => ?_, fun hpc => ?_⟩
  · rw [hw] at hpc
    rw [hp, h.loaded hpc]
  · rw [hw] at hpc
    have htest := h.tested hpc
    refine ⟨hp.trans htest.1, ?_⟩
    rw [ConcState.stream, ha, hd]
    exact htest.2.trans_le (Nat.add_le_add_right ho _)

/-- Every step keeps `SoloInv`. -/
theorem step (h : SoloInv b s) (hstep : concStep s a = some s') :
    SoloInv b s' := by
  have hinv := concStep_inv h.inv h.fresh hstep
  cases a with
  | put w m =>
      obtain rfl := put_cases hstep
      exact ofWriter (.start m) hinv rfl
        (fun _ _ => nofun) (fun _ _ => nofun)
  | loadWrite w =>
      obtain ⟨m, rfl⟩ := loadWrite_cases hstep
      have hw : (s.setWriter w (.loaded m s.ring.writePos)).writer ()
          = .loaded m s.ring.writePos := rfl
      refine ⟨hinv, fun hpc => ?_, fun hpc => ?_⟩
      · cases hw.symm.trans hpc
        rfl
      · cases hw.symm.trans hpc
  | loadRead w =>
      obtain ⟨m, wo, hpc, rfl | ⟨hfits, rfl⟩⟩ := loadRead_cases hstep
      · exact ofWriter .idle hinv rfl
          (fun _ _ => nofun) (fun _ _ => nofun)
      · have hw : (s.setWriter w (.tested m wo)).writer () = .tested m wo := rfl
        obtain ⟨pos, hold⟩ := h.inv
        have hwo : s.ring.writePos = wo := h.loaded hpc
        refine ⟨hinv, fun hpc' => ?_, fun hpc' => ?_⟩
        · cases hw.symm.trans hpc'
        · cases hw.symm.trans hpc'
          refine ⟨hwo, ?_⟩
          rw [← hwo, UInt32.lt_iff_toNat_lt, hold.rest] at hfits
          have hle := hold.obtained_le
          have hle' := hold.published_le
          show s.stream.length + _ < s.obtained.length + s.ring.dataSize.toNat
          omega
  | swapWrite w =>
      obtain ⟨m, wo, hpc, ⟨-, rfl⟩ | ⟨-, rfl⟩⟩ := swapWrite_cases hstep
      · exact ofWriter (.start m) hinv rfl
          (fun _ _ => nofun) (fun _ _ => nofun)
      · exact ofWriter (.copying m wo _ 0) hinv rfl
          (fun _ _ => nofun) (fun _ _ => nofun)
  | copy w c =>
      obtain ⟨m, wo, wn, d, hpc, hle, rfl⟩ := copy_cases hstep
      exact ofWriter (.copying m wo wn (d + c)) hinv rfl
        (fun _ _ => nofun) (fun _ _ => nofun)
  | swapFinish w =>
      obtain rfl | ⟨m, wo, wn, hpc, -, rfl⟩ := swapFinish_cases hstep
      · exact h
      · exact ofWriter .idle hinv rfl
          (fun _ _ => nofun) (fun _ _ => nofun)
  | get len =>
      obtain rfl := get_cases hstep
      exact h.ofReader hinv rfl rfl rfl rfl le_rfl
  | loadReadPos =>
      obtain ⟨len, wl, -, rfl | ⟨size, -, -, rfl⟩⟩ := loadReadPos_cases hstep
      · exact h.ofReader hinv rfl rfl rfl rfl le_rfl
      · exact h.ofReader hinv rfl rfl rfl rfl le_rfl
  | fetch c =>
      obtain ⟨ro, size, buf, -, -, rfl⟩ := fetch_cases hstep
      exact h.ofReader hinv rfl rfl rfl rfl le_rfl
  | storeRead =>
      obtain ⟨ro, size, buf, -, -, rfl⟩ := storeRead_cases hstep
      apply h.ofReader hinv rfl rfl rfl rfl
      simp

end SoloInv

/-- With one writer and one reader no condition is needed. In every run from
an empty ring of power-of-two size, wherever its positions are: the bytes
returned by finished gets are an initial part of the published bytes, no
step writes a cell of a byte that is published and not yet released, such a
cell holds its byte, and the bytes in use (the ones `__get_used_size`
counts) never fill the ring. -/
theorem single_writer_fifo {r : Ringbuffer} {k : Nat}
    (hsize : r.dataSize.toNat = 2 ^ k) (hwrite : r.writePos = r.readPos)
    (hfinish : r.finishPos = r.readPos) (hlt : r.readPos < r.dataSize)
    {as : List (ConcAct Unit)} {s : ConcState Unit}
    (hrun : run concStep (concInit r) as = some s) :
    s.obtained <+: s.published
      ∧ (∀ a s', concStep s a = some s' →
          (s.targets a).Disjoint s.unreadCells
            ∧ ∀ x ∈ s.unreadCells, s'.ring.data x = s.ring.data x)
      ∧ s.unreadCells.map s.ring.data = s.published.drop s.obtained.length
      ∧ (getUsedSize s.ring.writePos s.ring.readPos s.ring.dataSize).toNat
          = s.stream.length - s.obtained.length
      ∧ s.stream.length - s.obtained.length < r.dataSize.toNat := by
  have hsize' : ValidSize r.dataSize := .inr ⟨k, hsize⟩
  have hinit : SoloInv r.readPos.toNat (concInit r)
      ∧ (concInit (ι := Unit) r).ring.dataSize = r.dataSize := by
    refine ⟨SoloInv.ofWriter .idle ⟨_, concInv_init hsize' hwrite hfinish ?_⟩
      rfl (fun _ _ => nofun) (fun _ _ => nofun), rfl⟩
    exact Nat.lt_of_lt_of_le (UInt32.lt_iff_toNat_lt.mp hlt) (Nat.le_max_right _ _)
  obtain ⟨hsolo, hds⟩ := run_invariant_all
    (I := fun s => SoloInv r.readPos.toNat s ∧ s.ring.dataSize = r.dataSize)
    (fun h hstep => ⟨h.1.step hstep, (concStep_frame hstep).1.trans h.2⟩)
    hinit hrun
  obtain ⟨pos, h⟩ := hsolo.inv
  refine ⟨h.got, fun a s' hstep => ?_, h.unread_data, h.used, ?_⟩
  · have hapart : (s.targets a).Disjoint s.unreadCells := fun x hx hx' => by
      obtain ⟨w, hres⟩ := targets_subset hstep hx
      exact h.noOverlap.2 w hres hx'
    exact ⟨hapart, fun x hx =>
      (concStep_frame hstep).2 x fun hx' => hapart hx' hx⟩
  · have hroom := h.room
    have hpos : 0 < 2 ^ k := Nat.two_pow_pos k
    rw [hds] at hroom
    omega

/-- A put of four bytes across the end of a ring of eight, a get that starts
before it is published and finds nothing, and a get that finds it. -/
def soloRun : List (ConcAct Unit) :=
  [.put () { buffer := fun i => UInt8.ofNat i, len := 4 }, .loadWrite (),
   .loadRead (), .swapWrite (), .copy () 3, .get 8, .copy () 1,
   .swapFinish (), .loadReadPos, .get 3, .loadReadPos, .fetch 3, .storeRead]

theorem single_writer_fifo_eight :
    ∃ s, run concStep
        (concInit { size := 32, dataSize := 8, readPos := 6, writePos := 6,
                    finishPos := 6, data := fun _ => 0 }) soloRun = some s
      ∧ s.obtained <+: s.published ∧ s.obtained = [0, 1, 2]
      ∧ s.stream.length - s.obtained.length < 8 := by
  have hgot : (run concStep
      (concInit { size := 32, dataSize := 8, readPos := 6, writePos := 6,
                  finishPos := 6, data := fun _ => 0 }) soloRun).map
      (·.obtained) = some [0, 1, 2] := by decide +kernel
  obtain ⟨s, hs, hgot⟩ := Option.map_eq_some_iff.mp hgot
  obtain ⟨hfifo, -, -, -, hused⟩ :=
    single_writer_fifo (k := 3) rfl rfl rfl (by decide) hs
  exact ⟨s, hs, hfifo, hgot, hused⟩

end PktSender.Ring
