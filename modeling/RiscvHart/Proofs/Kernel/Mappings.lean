import RiscvHart.Proofs.Kernel.GuestCall
import RiscvHart.Proofs.Machine.Account
import RiscvHart.Proofs.Memory.Allocation

/-!
# Mapping and unmapping

A call to map memory maps whole pages of zeros where nothing was mapped, or changes nothing. A
call to unmap takes one whole mapping away, or changes nothing. The one undoes the other.
-/

namespace RiscvHart.Platform

open Exec

variable {σ : Type} {s : Platform σ} {kept : List (Word × Nat)} {heap : Word} {base size : Word}

/-- `size` is `length` rounded up to whole pages. -/
def WholePages (length size : Word) : Prop :=
  Span.pageSize ∣ size.toNat ∧ length.toNat ≤ size.toNat ∧
    size.toNat < length.toNat + Span.pageSize

instance (length size : Word) : Decidable (WholePages length size) :=
  inferInstanceAs (Decidable (_ ∧ _))

theorem mapSize?_eq_some_iff {length : Word} :
    mapSize? length = some size ↔ WholePages length size := by
  have hpage : (BitVec.ofNat 64 Span.pageSize).toNat = 4096 := rfl
  have hlimit : size.toNat < addressLimit := size.isLt
  rw [mapSize?, Word.alignUp?, hpage, WholePages, Span.pageSize]
  constructor
  · intro hsize
    split at hsize
    · next hup =>
      obtain rfl := Option.some.inj hsize
      rw [BitVec.toNat_ofNat, Nat.mod_eq_of_lt hup]
      omega
    · cases hsize
  · rintro ⟨hpages, hlow, hhigh⟩
    have hup : (length.toNat + 4096 - 1) / 4096 * 4096 = size.toNat := by omega
    rw [hup, if_pos hlimit, BitVec.ofNat_toNat, BitVec.setWidth_eq]

theorem WholePages.unique {length size' : Word} (h : WholePages length size)
    (h' : WholePages length size') : size = size' :=
  Option.some.inj ((mapSize?_eq_some_iff.mpr h).symm.trans (mapSize?_eq_some_iff.mpr h'))

theorem WholePages.pageSize_le {length : Word} (h : WholePages length size) (hlength : length ≠ 0) :
    Span.pageSize ≤ size.toNat :=
  Nat.le_of_dvd (mapSize?_pos hlength (mapSize?_eq_some_iff.mpr h)) h.1

/-! ## The table of mappings -/

section

variable {mappings : List (Word × Nat)} {n : Nat}

theorem eq_of_keyed (hkeyed : mappings.Pairwise fun e f => e.1 ≠ f.1) {e f : Word × Nat}
    (he : e ∈ mappings) (hf : f ∈ mappings) (heq : e.1 = f.1) : e = f :=
  List.inj_on_of_nodup_map (List.pairwise_map.mpr hkeyed) he hf heq

theorem lookup_eq_some_iff_mem (hkeyed : mappings.Pairwise fun e f => e.1 ≠ f.1) :
    mappings.lookup base = some n ↔ (base, n) ∈ mappings := by
  apply Iff.intro mem_of_lookup
  intro hmem
  cases hlookup : mappings.lookup base with
  | none => simpa using List.lookup_eq_none_iff.mp hlookup _ hmem
  | some k =>
    have heq := eq_of_keyed hkeyed (mem_of_lookup hlookup) hmem rfl
    rw [(Prod.mk.inj heq).2]

theorem filter_eq_erase (hkeyed : mappings.Pairwise fun e f => e.1 ≠ f.1)
    (hmem : (base, n) ∈ mappings) :
    (mappings.filter fun e => e.1 ≠ base) = mappings.erase (base, n) := by
  have hnodup : mappings.Nodup := hkeyed.imp fun hne heq => hne (congrArg Prod.fst heq)
  rw [hnodup.erase_eq_filter]
  apply List.filter_congr
  intro e he
  have hiff : e.1 = base ↔ e = (base, n) :=
    ⟨fun heq => eq_of_keyed hkeyed he hmem heq, fun heq => congrArg Prod.fst heq⟩
  simp only [ne_eq, hiff, decide_not, bne, beq_eq_decide]

end

/-! ## Mapping -/

structure Maps (s : Platform σ) (base size : Word) : Prop where
  answered : (environmentCall s).1 = .ok ()
  answer : s.answer = base
  length : s.argument 1 ≠ 0
  rounded : WholePages (s.argument 1) size
  bounded : base.toNat + size.toNat < addressLimit
  fixed : s.argument 3 &&& mapFixed ≠ 0 → base = s.argument 0
  next : s.argument 3 &&& mapFixed = 0 → s.machine.landmarks.get? Landmarks.mmapNext = some base
  unmapped : ∀ a : Word, a.Within base size.toNat → s.machine.memory.byteMap a = none
  bytes : ∀ a : Word, s.served.machine.memory.byteMap a =
    if a.Within base size.toNat then some 0 else s.machine.memory.byteMap a
  layout : ∀ e, e ∈ s.served.machine.memory.layout ↔
    e = (base, size.toNat) ∨ e ∈ s.machine.memory.layout
  kernel : s.served.kernel = { s.kernel with mappings := (base, size.toNat) :: s.kernel.mappings }
  machine : s.served.machine = { s.machine with
    registers := s.machine.registers.write Reg.a0 base
    memory := { s.machine.memory with
      regions := s.served.machine.memory.regions
      used := s.machine.memory.used + size.toNat }
    landmarks :=
      if s.argument 3 &&& mapFixed ≠ 0 then s.machine.landmarks
      else s.machine.landmarks.set Landmarks.mmapNext (base + size)
    log := (s.machine.log.add (.allocated base size.toNat)).add
      (.registerWrite Reg.a0 base (s.machine.registers.read Reg.a0)) }

/-- A mapping ends where an address can stand, so its start is not the number of an error. -/
theorem Maps.not_error (h : s.Maps base size) : ¬(-4095 ≤ base.toInt ∧ base.toInt ≤ -1) := by
  have hsize : 4096 ≤ size.toNat := h.rounded.pageSize_le h.length
  have hbound : base.toNat + size.toNat < 2 ^ 64 := h.bounded
  rw [BitVec.toInt_eq_toNat_cond]
  split <;> omega

theorem answer_of_refused {e : Errno} (he : e = .invalidArgument ∨ e = .outOfMemory)
    (h : s.OnlyAnswers (BitVec.ofInt 64 e.result)) :
    -4095 ≤ s.answer.toInt ∧ s.answer.toInt ≤ -1 := by
  rw [h.answer]
  rcases he with rfl | rfl <;> decide

theorem not_maps_of_refused {e : Errno} (he : e = .invalidArgument ∨ e = .outOfMemory)
    (h : s.OnlyAnswers (BitVec.ofInt 64 e.result)) : ¬s.Maps base size := fun hmaps =>
  hmaps.not_error (hmaps.answer ▸ answer_of_refused he h)

/-- What a call to map memory can come to. -/
theorem mmap_cases (hc : s.called? = some .mmap) :
    (∃ e, (e = Errno.invalidArgument ∨ e = Errno.outOfMemory) ∧
        s.OnlyAnswers (BitVec.ofInt 64 e.result)) ∨
      ∃ base size m, s.argument 1 ≠ 0 ∧ WholePages (s.argument 1) size ∧
        mapTarget? (arguments s.machine) s = some base ∧
        s.machine.allocate base size.toNat = .ok m ∧
        environmentCall s = (.ok (),
          ⟨(noteMapping (arguments s.machine) m base size).writeRegister Reg.a0 base,
            s.kernel.record base size.toNat⟩) := by
  rcases mmapCall_cases (arguments s.machine) s with
    ⟨e, he, hrun⟩ | ⟨size, base, m, hlength, -, hsize, htarget, hok, hrun⟩
  · exact Or.inl ⟨e, he, environmentCall_eq_of_map hc rfl hrun rfl⟩
  · refine Or.inr ⟨base, size, m, hlength, mapSize?_eq_some_iff.mp hsize, htarget, hok, ?_⟩
    rw [environmentCall_eq_of_map hc rfl hrun rfl, BitVec.ofInt_toInt]

theorem Guarded.filter_eq_self_of_fresh (h : s.Guarded kept heap)
    (hfresh : ∀ e ∈ s.machine.memory.layout, e.1 ≠ base) :
    (s.kernel.mappings.filter fun e => e.1 ≠ base) = s.kernel.mappings :=
  List.filter_eq_self.mpr fun e he => decide_eq_true (hfresh e (h.mapped e he))

theorem Guarded.maps {m : Machine} (h : s.Guarded kept heap) (hlength : s.argument 1 ≠ 0)
    (hsize : WholePages (s.argument 1) size)
    (htarget : mapTarget? (arguments s.machine) s = some base)
    (hok : s.machine.allocate base size.toNat = .ok m)
    (hrun : environmentCall s = (.ok (),
      ⟨(noteMapping (arguments s.machine) m base size).writeRegister Reg.a0 base,
        s.kernel.record base size.toNat⟩)) : s.Maps base size := by
  have hwell := h.anchored.wellFormed
  have hpos : 0 < size.toNat := Nat.lt_of_lt_of_le (by decide) (hsize.pageSize_le hlength)
  have hmemory := Machine.memory_of_allocate hok
  obtain ⟨hfresh, hlayout⟩ := hwell.layout_allocate h.anchored.solid hpos hmemory
  have hbytes := hwell.byteMap_allocate hmemory
  have hserved : s.served = _ := congrArg Prod.snd hrun
  have hafter : s.served.machine.memory = m.memory := by
    rw [hserved]
    exact memory_noteMapping (arguments s.machine) m base size
  replace htarget : (if s.argument 3 &&& mapFixed ≠ 0 then some (s.argument 0)
      else s.machine.landmarks.get? Landmarks.mmapNext) = some base := htarget
  constructor
  · rw [hrun]
  · exact answer_of_eq hrun
  · exact hlength
  · exact hsize
  · exact Memory.finish_of_allocate hmemory
  · intro hfixed
    rw [if_pos hfixed] at htarget
    exact (Option.some.inj htarget).symm
  · intro hfixed
    rw [if_neg (not_not.mpr hfixed)] at htarget
    exact htarget
  · exact fun a => (hbytes a).1
  · intro a
    rw [hafter]
    exact (hbytes a).2
  · intro e
    rw [hafter]
    exact hlayout e
  · rw [hserved, Kernel.record, h.filter_eq_self_of_fresh hfresh]
  · rw [hafter, hserved, Machine.eq_of_allocate hpos hok]
    unfold noteMapping
    split
    · rw [if_pos ‹_›]
      rfl
    · rw [if_neg ‹_›]
      rfl

/-! ## Unmapping -/

structure AsksToUnmap (s : Platform σ) (base size : Word) : Prop where
  called : s.called? = some .munmap
  base : s.argument 0 = base
  length : s.argument 1 ≠ 0
  rounded : WholePages (s.argument 1) size

structure Unmaps (s : Platform σ) (base size : Word) : Prop where
  answered : (environmentCall s).1 = .ok ()
  answer : s.answer = 0
  mapped : ∀ a : Word, a.Within base size.toNat → s.machine.memory.byteMap a ≠ none
  bytes : ∀ a : Word, s.served.machine.memory.byteMap a =
    if a.Within base size.toNat then none else s.machine.memory.byteMap a
  layout : ∀ e, e ∈ s.served.machine.memory.layout ↔
    e ∈ s.machine.memory.layout ∧ e ≠ (base, size.toNat)
  counted : size.toNat ≤ s.machine.memory.used
  kernel : s.served.kernel =
    { s.kernel with mappings := s.kernel.mappings.erase (base, size.toNat) }
  machine : s.served.machine = { s.machine with
    registers := s.machine.registers.write Reg.a0 0
    memory := { s.machine.memory with
      regions := s.served.machine.memory.regions
      used := s.machine.memory.used - size.toNat }
    log := s.machine.log.add (.registerWrite Reg.a0 0 (s.machine.registers.read Reg.a0)) }

theorem munmap_of_foreign (hc : s.called? = some .munmap)
    (hforeign : ∀ base size, s.AsksToUnmap base size →
      (base, size.toNat) ∉ s.kernel.mappings) :
    s.OnlyAnswers (BitVec.ofInt 64 Errno.invalidArgument.result) := by
  rcases munmapCall_cases (arguments s.machine) s with hrun | ⟨size, hlength, hsize, hlookup, -⟩
  · exact environmentCall_eq_of_map hc rfl hrun rfl
  · exact absurd (mem_of_lookup hlookup)
      (hforeign _ size ⟨hc, rfl, hlength, mapSize?_eq_some_iff.mp hsize⟩)

theorem Guarded.munmap_of_mapped (h : s.Guarded kept heap) (hasks : s.AsksToUnmap base size)
    (hmem : (base, size.toNat) ∈ s.kernel.mappings) :
    ∃ m, s.machine.release base = .ok (size.toNat, m) ∧
      environmentCall s = (.ok (), ⟨m.writeRegister Reg.a0 0, s.kernel.forget base⟩) := by
  obtain ⟨m, hrelease⟩ := h.release_of_mapped hmem
  have hbase : (arguments s.machine)[0] = base := hasks.base
  have hlength : (arguments s.machine)[1] ≠ 0 := hasks.length
  have hsize : Word.alignUp? (arguments s.machine)[1] (BitVec.ofNat 64 Span.pageSize) = some size :=
    mapSize?_eq_some_iff.mpr hasks.rounded
  have hlookup := (lookup_eq_some_iff_mem h.keyed).mpr hmem
  have hwhole : ¬((arguments s.machine)[1] = 0 ∨
      (s.kernel.mappings.lookup base == some size.toNat) = false) := by
    rw [hlookup, beq_self_eq_true, not_or]
    exact ⟨hlength, Bool.noConfusion⟩
  have hrun : Platform.munmapCall (arguments s.machine) s = (.ok 0, ⟨m, s.kernel.forget base⟩) := by
    rw [Platform.munmapCall, get_bind_apply, hsize, hbase]
    dsimp only
    rw [if_neg hwhole, modify_bind_apply, hrelease]
    rfl
  exact ⟨m, hrelease, environmentCall_eq_of_map hasks.called rfl hrun rfl⟩

theorem Guarded.unmaps (h : s.Guarded kept heap) (hasks : s.AsksToUnmap base size)
    (hmem : (base, size.toNat) ∈ s.kernel.mappings) : s.Unmaps base size := by
  obtain ⟨m, hok, hrun⟩ := h.munmap_of_mapped hasks hmem
  have hwell := h.anchored.wellFormed
  have hmemory := Machine.memory_of_release hok
  obtain ⟨r, hr, hbase, hsize, hbytes, -⟩ := hwell.byteMap_release hmemory
  obtain ⟨hentry, hlayout⟩ := hwell.layout_release hmemory
  have hserved : s.served = ⟨m.writeRegister Reg.a0 0, s.kernel.forget base⟩ :=
    congrArg Prod.snd hrun
  have hafter : s.served.machine.memory = m.memory := by
    rw [hserved]
    rfl
  constructor
  · rw [hrun]
  · exact answer_of_eq hrun
  · intro a ha
    rw [hsize, ← hbase] at ha
    rw [hwell.byteMap_of_mem hr ha, Region.byte?_of_within ha]
    exact Option.some_ne_none _
  · intro a
    rw [hafter, hbytes, hsize]
  · intro e
    rw [hafter, hlayout]
    refine and_congr_right fun he => not_congr ⟨fun heq => ?_, fun heq => congrArg Prod.fst heq⟩
    exact hwell.eq_of_mem_layout he hentry heq
  · rw [hsize]
    exact hwell.size_le_used hr
  · rw [hserved, Kernel.forget, filter_eq_erase h.keyed hmem]
  · rw [hafter, hserved, Machine.eq_of_release hok]
    rfl

/-! ## Both -/

/-- To map memory and to unmap it do what they say, or nothing, and undo each other. -/
structure ExactMappings (s : Platform σ) : Prop where
  maps : s.called? = some .mmap →
    (∃ base size, s.Maps base size) ∨
      ∃ e, (e = Errno.invalidArgument ∨ e = Errno.outOfMemory) ∧
        s.OnlyAnswers (BitVec.ofInt 64 e.result)
  /-- The numbers of errors are the results of calls that have failed, and no others. -/
  signed : s.called? = some .mmap →
    ((-4095 ≤ s.answer.toInt ∧ s.answer.toInt ≤ -1) ↔ ¬∃ base size, s.Maps base size)
  unmaps : ∀ base size, s.AsksToUnmap base size → (base, size.toNat) ∈ s.kernel.mappings →
    s.Unmaps base size
  spares : s.called? = some .munmap →
    (∀ base size, s.AsksToUnmap base size → (base, size.toNat) ∉ s.kernel.mappings) →
    s.OnlyAnswers (BitVec.ofInt 64 Errno.invalidArgument.result)
  zero : s.called? = some .munmap →
    (s.answer = 0 ↔ ∃ base size, s.AsksToUnmap base size ∧ (base, size.toNat) ∈ s.kernel.mappings)
  /-- To unmap what has just been mapped gives back the memory and the table of before. -/
  undoes : s.called? = some .mmap → ∀ base size, s.Maps base size → ∀ registers,
    (s.served.facing registers).AsksToUnmap base size →
      (s.served.move (.call registers)).machine.memory = s.machine.memory ∧
        (s.served.move (.call registers)).kernel = s.kernel

theorem Guarded.undoes (h : s.Guarded kept heap) (hc : s.called? = some .mmap)
    (hmaps : s.Maps base size) {registers : Registers}
    (hasks : (s.served.facing registers).AsksToUnmap base size) :
    (s.served.move (.call registers)).machine.memory = s.machine.memory ∧
      (s.served.move (.call registers)).kernel = s.kernel := by
  rcases mmap_cases hc with ⟨e, he, hrefused⟩ |
    ⟨base', size', m, hlength, hsize, htarget, hok, hrun⟩
  · exact absurd hmaps (not_maps_of_refused he hrefused)
  have hmaps' := h.maps hlength hsize htarget hok hrun
  obtain rfl : base' = base := hmaps'.answer.symm.trans hmaps.answer
  obtain rfl : size' = size := hsize.unique hmaps.rounded
  have hpos : 0 < size'.toNat := Nat.lt_of_lt_of_le (by decide) (hsize.pageSize_le hlength)
  have hmemory := Machine.memory_of_allocate hok
  have hfresh := (h.anchored.wellFormed.layout_allocate h.anchored.solid hpos hmemory).1
  have hafter : (s.served.facing registers).machine.memory = m.memory := by
    show s.served.machine.memory = m.memory
    rw [served, hrun]
    exact memory_noteMapping (arguments s.machine) m base' size'
  have hkernel : (s.served.facing registers).kernel =
      { s.kernel with mappings := (base', size'.toNat) :: s.kernel.mappings } := hmaps.kernel
  have hguarded : (s.served.facing registers).Guarded kept heap :=
    Guarded.facing (lasting_guarded.environmentCall s h) registers
  have hmem : (base', size'.toNat) ∈ (s.served.facing registers).kernel.mappings := by
    rw [hkernel]
    exact List.mem_cons_self
  obtain ⟨m', hrelease, hrun'⟩ := hguarded.munmap_of_mapped hasks hmem
  rw [move_call, served, hrun']
  constructor
  · have hback := h.anchored.wellFormed.release_of_allocate hpos hfresh hmemory
    have hreleased := Machine.memory_of_release hrelease
    rw [hafter, hback] at hreleased
    exact (congrArg Prod.snd (Except.ok.inj hreleased)).symm
  · rw [hkernel, Kernel.forget, List.filter_cons_of_neg (by simp), h.filter_eq_self_of_fresh hfresh]

theorem Guarded.exactMappings (h : s.Guarded kept heap) : s.ExactMappings where
  maps hc := by
    rcases mmap_cases hc with hrefused | ⟨base, size, m, hlength, hsize, htarget, hok, hrun⟩
    · exact Or.inr hrefused
    · exact Or.inl ⟨base, size, h.maps hlength hsize htarget hok hrun⟩
  signed hc := by
    rcases mmap_cases hc with ⟨e, he, hrefused⟩ |
      ⟨base, size, m, hlength, hsize, htarget, hok, hrun⟩
    · refine iff_of_true (answer_of_refused he hrefused) ?_
      rintro ⟨base, size, hmaps⟩
      exact not_maps_of_refused he hrefused hmaps
    · have hmaps := h.maps hlength hsize htarget hok hrun
      refine iff_of_false ?_ (not_not.mpr ⟨base, size, hmaps⟩)
      rw [hmaps.answer]
      exact hmaps.not_error
  unmaps _ _ := h.unmaps
  spares := munmap_of_foreign
  zero hc := by
    constructor
    · intro hzero
      by_contra hforeign
      have hrefused := munmap_of_foreign hc fun base size hasks hmem =>
        hforeign ⟨base, size, hasks, hmem⟩
      rw [hrefused.answer] at hzero
      exact absurd hzero (by decide)
    · rintro ⟨base, size, hasks, hmem⟩
      exact (h.unmaps hasks hmem).answer
  undoes hc _ _ hmaps _ := h.undoes hc hmaps

/-- Whatever a guest has done since its process was prepared on memory without empty regions, and
whatever it asks for now. -/
theorem exactMappings_after {args : ProcessArgs} {config : Config} {m m' : Machine} (host : Host σ)
    (hostState : σ) (seed : Word) (hwell : m.memory.WellFormed)
    (hfull : ∀ r ∈ m.memory.regions, 0 < r.size)
    (hboot : m.bootstrap args config = (.ok (), m')) (moves : List GuestMove)
    (registers : Registers) :
    ((after ⟨m', Kernel.start host hostState seed⟩ moves).facing registers).ExactMappings :=
  ((guarded_after host hostState seed hwell hfull hboot moves).facing registers).exactMappings

theorem exactMappings_after_mmap :
    smallProgram.memory.WellFormed ∧ (∀ r ∈ smallProgram.memory.regions, 0 < r.size) ∧
      smallProcess = (.ok (), smallProcess.2) ∧
      ((atWork []).facing (callRegisters .mmap [0, 1, 0, mapAnonymous])).answer = 0x200000000000 ∧
      ((atWork []).facing (callRegisters .mmap [0, 1, 0, mapAnonymous])).ExactMappings ∧
      (atWork mapOnePage).kernel.mappings = [(0x200000000000, 4096)] ∧
      ((atWork mapOnePage).facing (callRegisters .munmap [0x200000000000, 1])).answer = 0 ∧
      ((atWork mapOnePage).facing (callRegisters .munmap [0x200000000000, 1])).ExactMappings := by
  have hexact := exactMappings_after (Host.unsupported (σ := Unit)) () 0 wellFormed_smallProgram
    size_pos_smallProgram smallProcess_eq
  refine ⟨wellFormed_smallProgram, size_pos_smallProgram, smallProcess_eq, ?_, hexact [] _, ?_, ?_,
    hexact mapOnePage _⟩
  all_goals decide +kernel

end RiscvHart.Platform
