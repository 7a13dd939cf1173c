import RiscvHart.Proofs.Kernel.GuestCall
import RiscvHart.Proofs.Machine.Account
import RiscvHart.Proofs.Memory.Allocation

/-!
# Moving the break

The break can be moved to any address from the start of the heap on up to which the heap's region
reaches or can grow. The region never shrinks, so whatever way the break is moved, nothing that
is mapped is lost.
-/

namespace RiscvHart

open Exec

namespace Machine

variable {m : Machine} {start newEnd : Word} {r : Region}

/-- Where the heap has its region, moving the break means to grow it, if at all. -/
theorem growHeap_of_region (hstart : m.landmarks.get? Landmarks.heapStart = some start)
    (hr : m.memory.regionFrom? start = some r) :
    m.growHeap newEnd =
      (if newEnd.toNat - start.toNat ≤ r.size then .ok m
        else m.resize start (newEnd.toNat - start.toNat)).map
          fun grown => grown.mark Landmarks.heapEnd newEnd := by
  rw [growHeap_of_start hstart, settled_backHeap, hr]

/-- The region of `old` bytes at `start` has grown to `size` bytes, unless it
had them already. -/
structure Grows (m grown : Machine) (start : Word) (old size : Nat) : Prop where
  kept : ∀ a b, m.memory.byteMap a = some b → grown.memory.byteMap a = some b
  bytes : ∀ a : Word, grown.memory.byteMap a =
    if a.Within start size ∧ ¬a.Within start old then some 0 else m.memory.byteMap a
  layout : ∀ e, e ∈ grown.memory.layout ↔
    e = (start, max old size) ∨ e ∈ m.memory.layout ∧ e.1 ≠ start
  machine : grown = { m with
    memory := { m.memory with
      regions := grown.memory.regions
      used := m.memory.used + (size - old) }
    log :=
      if size ≤ old then m.log
      else m.log.add (.allocated (start + BitVec.ofNat 64 old) (size - old)) }

variable {grown : Machine} {old size : Nat}

theorem grows_of_le (h : m.memory.WellFormed) (hold : (start, old) ∈ m.memory.layout)
    (hle : size ≤ old) : m.Grows m start old size := by
  constructor
  · exact fun a b hb => hb
  · intro a
    rw [if_neg]
    rintro ⟨⟨hlow, hhigh⟩, hout⟩
    exact hout ⟨hlow, by omega⟩
  · intro e
    rw [Nat.max_eq_left hle]
    constructor
    · intro he
      by_cases hbase : e.1 = start
      · exact Or.inl (h.eq_of_mem_layout he hold hbase)
      · exact Or.inr ⟨he, hbase⟩
    · rintro (rfl | ⟨he, -⟩)
      · exact hold
      · exact he
  · rw [if_pos hle, Nat.sub_eq_zero_of_le hle]
    rfl

theorem grows_of_resize (h : m.memory.WellFormed) (hr : m.memory.regionFrom? start = some r)
    (hgrow : r.size < size) (hok : m.resize start size = .ok grown) :
    m.Grows grown start r.size size := by
  have hmemory := memory_of_resize hok
  obtain ⟨s, hs, hbase, hbytes, -⟩ := h.byteMap_resize hmemory
  obtain ⟨hmem, hstart⟩ := h.regionFrom?_eq_some_iff.mp hr
  obtain rfl : s = r := Region.eq_of_mem_of_base_eq h.apart hs hmem (hbase.trans hstart.symm)
  have hbytes' : ∀ a : Word, grown.memory.byteMap a =
      if a.Within start size ∧ ¬a.Within start s.size then some 0 else m.memory.byteMap a := by
    intro a
    have hsub : a.Within start s.size → a.Within start size := fun hin =>
      ⟨hin.1, Nat.lt_trans hin.2 (Nat.add_lt_add_left hgrow _)⟩
    rw [hbytes]
    by_cases hold : a.Within start s.size
    · rw [if_pos (hsub hold), if_pos hold, if_neg fun hnew => hnew.2 hold]
    · by_cases hnew : a.Within start size
      · rw [if_pos hnew, if_neg hold, if_pos ⟨hnew, hold⟩]
      · rw [if_neg hnew, if_neg hold, if_neg fun hin => hnew hin.1]
  constructor
  · intro a b hb
    rw [hbytes', if_neg, hb]
    rintro ⟨hnew, hout⟩
    rw [h.byteMap_of_growth hr hmemory hnew hout] at hb
    cases hb
  · exact hbytes'
  · rw [Nat.max_eq_right hgrow.le]
    exact (h.layout_resize hmemory).2
  · rw [if_neg hgrow.not_ge]
    exact eq_of_extend h hr hgrow hok

theorem grows_of_growHeap (h : m.memory.WellFormed)
    (hstart : m.landmarks.get? Landmarks.heapStart = some start)
    (hr : m.memory.regionFrom? start = some r) {m' : Machine} (hok : m.growHeap newEnd = .ok m') :
    ∃ grown, m' = grown.mark Landmarks.heapEnd newEnd ∧
      m.Grows grown start r.size (newEnd.toNat - start.toNat) := by
  rw [growHeap_of_region hstart hr] at hok
  obtain ⟨grown, hgrown, rfl⟩ := Except.map_eq_ok_iff.mp hok
  refine ⟨grown, rfl, ?_⟩
  obtain ⟨hmem, hbase⟩ := h.regionFrom?_eq_some_iff.mp hr
  by_cases hfits : newEnd.toNat - start.toNat ≤ r.size
  · rw [if_pos hfits] at hgrown
    obtain rfl := Except.ok.inj hgrown
    exact grows_of_le h (hbase ▸ Memory.mem_layout_of_mem hmem) hfits
  · rw [if_neg hfits] at hgrown
    exact grows_of_resize h hr (Nat.lt_of_not_le hfits) hgrown

end Machine

namespace Platform

variable {σ : Type} {s : Platform σ} {kept : List (Word × Nat)} {heap newEnd finish : Word}
  {old : Nat}

/-- There is room for a heap from `start` to `newEnd`: it is in the region of `old` bytes at its
start, or nothing is in the way of the bytes to be added and they can be afforded. -/
def HeapFits (s : Platform σ) (start newEnd : Word) (old : Nat) : Prop :=
  start.toNat ≤ newEnd.toNat ∧
    (newEnd.toNat - start.toNat ≤ old ∨
      ((∀ a : Word, a.Within start (newEnd.toNat - start.toNat) → ¬a.Within start old →
          s.machine.memory.byteMap a = none) ∧
        s.machine.memory.used + (newEnd.toNat - start.toNat - old) ≤ s.machine.memory.capacity ∧
        s.machine.memory.backs (newEnd.toNat - start.toNat) = true))

/-- The call moves the break to `newEnd`, and the region of `old` bytes at the start of the heap
grows if it has to. -/
structure MovesBreak (s : Platform σ) (start newEnd : Word) (old : Nat) : Prop where
  answered : (environmentCall s).1 = .ok ()
  answer : s.answer = newEnd
  kept : ∀ a b, s.machine.memory.byteMap a = some b → s.served.machine.memory.byteMap a = some b
  bytes : ∀ a : Word, s.served.machine.memory.byteMap a =
    if a.Within start (newEnd.toNat - start.toNat) ∧ ¬a.Within start old then some 0
    else s.machine.memory.byteMap a
  layout : ∀ e, e ∈ s.served.machine.memory.layout ↔
    e = (start, max old (newEnd.toNat - start.toNat)) ∨
      e ∈ s.machine.memory.layout ∧ e.1 ≠ start
  kernel : s.served.kernel = s.kernel
  machine : s.served.machine = { s.machine with
    registers := s.machine.registers.write Reg.a0 newEnd
    memory := { s.machine.memory with
      regions := s.served.machine.memory.regions
      used := s.machine.memory.used + (newEnd.toNat - start.toNat - old) }
    landmarks := s.machine.landmarks.set Landmarks.heapEnd newEnd
    log :=
      (if newEnd.toNat - start.toNat ≤ old then s.machine.log
        else s.machine.log.add
          (.allocated (start + BitVec.ofNat 64 old) (newEnd.toNat - start.toNat - old))).add
        (.registerWrite Reg.a0 newEnd (s.machine.registers.read Reg.a0)) }

theorem growHeap_ok_iff_heapFits (hwell : s.machine.memory.WellFormed)
    (hsolid : s.machine.memory.Solid)
    (hstart : s.machine.landmarks.get? Landmarks.heapStart = some heap) {r : Region}
    (hr : s.machine.memory.regionFrom? heap = some r) :
    (heap.toNat ≤ newEnd.toNat ∧ ∃ m, s.machine.growHeap newEnd = .ok m) ↔
      s.HeapFits heap newEnd r.size := by
  obtain ⟨hmem, rfl⟩ := hwell.regionFrom?_eq_some_iff.mp hr
  refine and_congr_right fun hle => ?_
  rw [Machine.growHeap_of_region hstart hr]
  by_cases hfits : newEnd.toNat - r.base.toNat ≤ r.size
  · rw [if_pos hfits]
    exact iff_of_true ⟨_, rfl⟩ (Or.inl hfits)
  have hgrow : r.size < newEnd.toNat - r.base.toNat := Nat.lt_of_not_le hfits
  have hlimit : r.base.toNat + (newEnd.toNat - r.base.toNat) < addressLimit := by
    rw [Nat.add_sub_cancel' hle]
    exact newEnd.isLt
  rw [if_neg hfits, Except.exists_map_eq_ok_iff, Machine.resize_eq_map, Except.exists_map_eq_ok_iff,
    hwell.extend_ok_iff hr hgrow, hwell.clear_iff_unmapped hsolid hmem hgrow, or_iff_right hfits]
  exact and_iff_right hlimit

theorem movesBreak_of_growHeap {m : Machine} {r : Region} (hwell : s.machine.memory.WellFormed)
    (hstart : s.machine.landmarks.get? Landmarks.heapStart = some heap)
    (hr : s.machine.memory.regionFrom? heap = some r)
    (hok : s.machine.growHeap newEnd = .ok m)
    (hcall : environmentCall s = (.ok (), ⟨m.writeRegister Reg.a0 newEnd, s.kernel⟩)) :
    s.MovesBreak heap newEnd r.size := by
  obtain ⟨grown, rfl, hgrown⟩ := Machine.grows_of_growHeap hwell hstart hr hok
  have hserved : s.served = _ := congrArg Prod.snd hcall
  have hmemory : s.served.machine.memory = grown.memory := by
    rw [hserved]
    rfl
  constructor
  · rw [hcall]
  · exact answer_of_eq hcall
  · rw [hmemory]
    exact hgrown.kept
  · rw [hmemory]
    exact hgrown.bytes
  · rw [hmemory]
    exact hgrown.layout
  · rw [hserved]
  · rw [hmemory, hserved, hgrown.machine]
    rfl

/-- The call moves the break exactly if there is room for the heap, and gives the old break
otherwise, which is another one than the one asked for. -/
theorem Guarded.break_cases (h : s.Guarded kept heap) (hc : s.called? = some .brk) :
    ∃ finish old, s.machine.landmarks.get? Landmarks.heapEnd = some finish ∧
      (heap, old) ∈ s.machine.memory.layout ∧
      (s.HeapFits heap (s.argument 0) old → s.MovesBreak heap (s.argument 0) old) ∧
      (¬s.HeapFits heap (s.argument 0) old → s.OnlyAnswers finish ∧ finish ≠ s.argument 0) := by
  have hwell := h.anchored.wellFormed
  have hstart := h.anchored.heapStart
  obtain ⟨finish, hfinish, hlow, hroom⟩ := h.anchored.heapEnd
  obtain ⟨old, hold⟩ := h.mem_bases_of_kept h.heapKept
  obtain ⟨r, hmem, hbase, rfl⟩ := Memory.mem_layout_iff.mp hold
  have hr := hwell.regionFrom?_eq_some_iff.mpr ⟨hmem, hbase⟩
  have hfits : (heap.toNat ≤ (s.argument 0).toNat ∧
      ∃ m, s.machine.growHeap (s.argument 0) = .ok m) ↔ s.HeapFits heap (s.argument 0) r.size :=
    growHeap_ok_iff_heapFits hwell h.anchored.solid hstart hr
  have hrun := brkCall_of_bounds s (s.argument 0) hstart hfinish
  refine ⟨finish, r.size, hfinish, hold, fun hyes => ?_, fun hno => ⟨?_, ?_⟩⟩
  · obtain ⟨hle, m, hok⟩ := hfits.mpr hyes
    rw [if_neg hle.not_gt, hok] at hrun
    have hcall := environmentCall_eq_of_map hc rfl hrun rfl
    rw [BitVec.ofInt_toInt] at hcall
    exact movesBreak_of_growHeap hwell hstart hr hok hcall
  · have hstays : Platform.brkCall (s.argument 0) s = (.ok finish, s) := by
      rw [hrun]
      split
      · rfl
      · next hle =>
        cases hgrow : s.machine.growHeap (s.argument 0) with
        | ok m => exact absurd (hfits.mp ⟨Nat.le_of_not_lt hle, m, hgrow⟩) hno
        | error e => rfl
    have hcall := environmentCall_eq_of_map hc rfl hstays rfl
    rw [BitVec.ofInt_toInt] at hcall
    exact hcall
  · -- The break of before lies in the region, so it could be asked for again.
    rintro rfl
    refine hno ⟨hlow, Or.inl ?_⟩
    rcases hroom with heq | ⟨size, hsize, hroom⟩
    · rw [heq]
      omega
    · have hsame : size = r.size := congrArg Prod.snd (hwell.eq_of_mem_layout hsize hold rfl)
      omega

theorem Guarded.kept_of_brk (h : s.Guarded kept heap) (hc : s.called? = some .brk) {a : Word}
    {b : Byte} (hb : s.machine.memory.byteMap a = some b) :
    s.served.machine.memory.byteMap a = some b := by
  obtain ⟨finish, old, -, -, hyes, hno⟩ := h.break_cases hc
  by_cases hfits : s.HeapFits heap (s.argument 0) old
  · exact (hyes hfits).kept a b hb
  · rw [served, (hno hfits).1]
    exact hb

/-- No number of calls to move the break unmaps a byte or changes one. -/
theorem Guarded.kept_of_brks (h : s.Guarded kept heap) (calls : List Registers)
    (hcalls : ∀ x ∈ calls, (s.facing x).called? = some .brk) {a : Word} {b : Byte}
    (hb : s.machine.memory.byteMap a = some b) :
    (s.after (calls.map .call)).machine.memory.byteMap a = some b := by
  induction calls generalizing s with
  | nil => exact hb
  | cons x rest ih =>
    have hnext : (s.move (.call x)).machine.memory.byteMap a = some b :=
      (h.facing x).kept_of_brk (hcalls x List.mem_cons_self) hb
    have hlater : ∀ y ∈ rest, ((s.move (.call x)).facing y).called? = some .brk :=
      fun y hy => hcalls y (List.mem_cons_of_mem _ hy)
    exact ih (lasting_guarded.move h (.call x)) hlater hnext

/-- What a guest that asks for the break to be moved can count on. -/
structure ExactBreak (s : Platform σ) : Prop where
  moves : ∀ registers, (s.facing registers).called? = some .brk →
    ∃ start finish old, s.machine.landmarks.get? Landmarks.heapStart = some start ∧
      s.machine.landmarks.get? Landmarks.heapEnd = some finish ∧
      (start, old) ∈ s.machine.memory.layout ∧
      ((s.facing registers).HeapFits start ((s.facing registers).argument 0) old →
        (s.facing registers).MovesBreak start ((s.facing registers).argument 0) old) ∧
      (¬(s.facing registers).HeapFits start ((s.facing registers).argument 0) old →
        (s.facing registers).OnlyAnswers finish ∧ finish ≠ (s.facing registers).argument 0)
  keeps : ∀ calls : List Registers, (∀ x ∈ calls, (s.facing x).called? = some .brk) →
    ∀ a b, s.machine.memory.byteMap a = some b →
      (s.after (calls.map .call)).machine.memory.byteMap a = some b

theorem Guarded.exactBreak (h : s.Guarded kept heap) : s.ExactBreak where
  moves registers hc := by
    obtain ⟨finish, old, hfinish, hold, hcases⟩ := (h.facing registers).break_cases hc
    exact ⟨heap, finish, old, h.anchored.heapStart, hfinish, hold, hcases⟩
  keeps calls hcalls _ _ := h.kept_of_brks calls hcalls

/-- Whatever a guest has done since its process was prepared on memory without empty regions. -/
theorem exactBreak_after {args : ProcessArgs} {config : Config} {m m' : Machine} (host : Host σ)
    (hostState : σ) (seed : Word) (hwell : m.memory.WellFormed)
    (hfull : ∀ r ∈ m.memory.regions, 0 < r.size)
    (hboot : m.bootstrap args config = (.ok (), m')) (moves : List GuestMove) :
    (after ⟨m', Kernel.start host hostState seed⟩ moves).ExactBreak :=
  (guarded_after host hostState seed hwell hfull hboot moves).exactBreak

def breakAt (addr : Word) : Registers := callRegisters .brk [addr]

theorem exactBreak_after_mmap :
    smallProgram.memory.WellFormed ∧ (∀ r ∈ smallProgram.memory.regions, 0 < r.size) ∧
      smallProcess = (.ok (), smallProcess.2) ∧
      ((atWork mapOnePage).facing (breakAt 0x2100)).called? = some .brk ∧
      ((atWork mapOnePage).facing (breakAt 0x2100)).answer = 0x2100 ∧
      ((atWork mapOnePage).facing (breakAt 0x4001)).answer = 0x201B ∧
      (atWork mapOnePage).ExactBreak :=
  ⟨wellFormed_smallProgram, size_pos_smallProgram, smallProcess_eq, by decide +kernel,
    by decide +kernel, by decide +kernel,
    exactBreak_after (Host.unsupported (σ := Unit)) () 0 wellFormed_smallProgram
      size_pos_smallProgram smallProcess_eq mapOnePage⟩

end Platform

end RiscvHart
