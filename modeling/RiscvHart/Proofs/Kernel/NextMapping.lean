import RiscvHart.Proofs.Kernel.Mappings

/-!
# The place of the next mapping

A mapping for which the guest gives no place goes to the place that is noted for the next one.
There is no search: if something lies there, the call fails, however much room there is higher
up, and the same place stays noted.
-/

namespace RiscvHart

open Exec

namespace Machine

def NotesNext (m : Machine) : Prop := ∃ next, m.landmarks.get? Landmarks.mmapNext = some next

variable {m m' : Machine}

theorem NotesNext.of_landmarks_eq (h : m.NotesNext) (heq : m'.landmarks = m.landmarks) :
    m'.NotesNext := by
  rw [NotesNext, heq]
  exact h

theorem NotesNext.mark (h : m.NotesNext) (name : String) (addr : Word)
    (hname : Landmarks.mmapNext ≠ name) : (m.mark name addr).NotesNext := by
  rw [NotesNext, Machine.mark, Landmarks.get?_set_ne _ _ hname]
  exact h

theorem spatial_notesNext : Spatial NotesNext :=
  fun _ _ heq h => h.of_landmarks_eq (congrArg AddressSpace.landmarks heq)

theorem NotesNext.allocate (h : m.NotesNext) {addr : Word} {size : Nat}
    (hok : m.allocate addr size = .ok m') : m'.NotesNext := by
  apply h.of_landmarks_eq
  rw [MemoryRequest.eq_of_serve (r := .allocate addr size) hok]

theorem NotesNext.resize (h : m.NotesNext) {base : Word} {size : Nat}
    (hok : m.resize base size = .ok m') : m'.NotesNext := by
  apply h.of_landmarks_eq
  rw [MemoryRequest.eq_of_serve (r := .resize base size) hok]

theorem NotesNext.growHeap (h : m.NotesNext) {newEnd : Word} (hgrow : m.growHeap newEnd = .ok m') :
    m'.NotesNext := by
  obtain ⟨start, grown, -, rfl, hgrown⟩ := growHeap_cases hgrow
  apply NotesNext.mark _ Landmarks.heapEnd newEnd (by decide)
  rcases hgrown with ⟨-, -, -, rfl⟩ | ⟨_, -, -, hresize⟩ | ⟨-, hallocate⟩
  · exact h
  · exact h.resize hresize
  · exact h.allocate hallocate

open Bootstrap in
theorem preserves_takeHeap_notesNext (length : Nat) : Preserves NotesNext (takeHeap length) := by
  intro m h
  cases hrun : takeHeap length m with
  | mk result m' =>
    cases result with
    | ok addr => exact h.growHeap (takeHeap_cases hrun).2.2
    | error e =>
      rw [takeHeap_error hrun]
      exact h

open Bootstrap in
/-- A process that was prepared has a place for its first mapping. -/
theorem notesNext_bootstrap {args : ProcessArgs} {config : Config}
    (hrun : m.bootstrap args config = (.ok (), m')) : m'.NotesNext := by
  rw [bootstrap, modify_bind_apply] at hrun
  obtain ⟨stackEnd, m₁, hstack, hheap⟩ := bind_eq_ok hrun
  obtain ⟨mapped, hallocate, rfl⟩ := mapStack_cases hstack
  have hstart : (((m.mark Landmarks.heapStart config.heapStart).mark Landmarks.heapEnd
      config.heapStart).mark Landmarks.mmapNext config.mmapBase).NotesNext :=
    ⟨config.mmapBase, Landmarks.get?_set_self _ _ _⟩
  have hmapped := ((hstart.allocate hallocate).mark Landmarks.stackStart config.stackStart
    (by decide)).mark Landmarks.stackEnd stackEnd (by decide)
  have hrest := (preserves_takeHeap_notesNext randomLength).bind fun random =>
    preserves_putTextsAndBlock spatial_notesNext preserves_takeHeap_notesNext args config stackEnd
      random
  have hfinal := hrest _ hmapped
  rw [hheap] at hfinal
  exact hfinal

end Machine

namespace Platform

variable {σ : Type} {s : Platform σ} {next size : Word}

theorem lasting_notesNext : Lasting fun s : Platform σ => s.machine.NotesNext where
  space s s' heq h := Machine.spatial_notesNext _ _ (congrArg Prod.fst heq) h
  brk requested s h := by
    rcases brkCall_cases s requested with ⟨hrun, -⟩ | ⟨_, _, -, -, ⟨hrun, -⟩ | ⟨m, -, hgrow, hrun⟩⟩
    · rwa [hrun]
    · rwa [hrun]
    · rw [hrun]
      exact h.growHeap hgrow
  mmap a s h := by
    rcases mmapCall_cases a s with ⟨_, -, hrun⟩ | ⟨size, target, m, -, -, -, -, hok, hrun⟩
    · rwa [hrun]
    · rw [hrun]
      show (noteMapping a m target size).NotesNext
      unfold noteMapping
      split
      · exact h.allocate hok
      · exact ⟨target + size, Landmarks.get?_set_self _ _ _⟩
  munmap a s h := by
    rcases munmapCall_cases a s with hrun | ⟨_, -, -, -, ⟨_, m, hok, hrun⟩ | ⟨_, -, hrun⟩⟩
    · rwa [hrun]
    · rw [hrun]
      apply h.of_landmarks_eq
      rw [Machine.eq_of_release hok]
    · rwa [hrun]

structure AsksToMap (s : Platform σ) (size : Word) : Prop where
  called : s.called? = some .mmap
  length : s.argument 1 ≠ 0
  rounded : WholePages (s.argument 1) size
  anonymous : s.argument 3 &&& mapAnonymous ≠ 0
  anywhere : s.argument 3 &&& mapFixed = 0

/-- The budget and the machine below have `size` more bytes. -/
def Affords (s : Platform σ) (size : Word) : Prop :=
  s.machine.memory.used + size.toNat ≤ s.machine.memory.capacity ∧
    s.machine.memory.backs size.toNat = true

/-- A range ends where an address can stand, and no region reaches into it. -/
def Vacant (s : Platform σ) (base size : Word) : Prop :=
  base.toNat + size.toNat < addressLimit ∧ s.machine.memory.Clear base size.toNat none

structure MapsNext (s : Platform σ) (next size : Word) : Prop where
  answered : (environmentCall s).1 = .ok ()
  answer : s.answer = next
  recorded : (next, size.toNat) ∈ s.served.kernel.mappings
  zeros : ∀ a : Word, a.Within next size.toNat → s.served.machine.memory.byteMap a = some 0
  moved : s.served.machine.landmarks.get? Landmarks.mmapNext = some (next + size)

theorem mmapCall_of_asksToMap (hasks : s.AsksToMap size)
    (hnext : s.machine.landmarks.get? Landmarks.mmapNext = some next) :
    mmapCall (arguments s.machine) s =
      match s.machine.allocate next size.toNat with
      | .ok m => (.ok next.toInt,
          ⟨m.mark Landmarks.mmapNext (next + size), s.kernel.record next size.toNat⟩)
      | .error _ => (.ok Errno.outOfMemory.result, s) := by
  have hgood : ¬((arguments s.machine)[1] = 0 ∨ (arguments s.machine)[3] &&& mapAnonymous = 0) :=
    not_or.mpr ⟨hasks.length, hasks.anonymous⟩
  have hsize : Word.alignUp? (arguments s.machine)[1] (BitVec.ofNat 64 Span.pageSize) = some size :=
    mapSize?_eq_some_iff.mpr hasks.rounded
  have hfixed : ¬(arguments s.machine)[3] &&& mapFixed ≠ 0 := not_not.mpr hasks.anywhere
  rw [mmapCall, if_neg hgood, hsize]
  dsimp only
  rw [get_bind_apply, if_neg hfixed, hnext]
  dsimp only
  cases hallocate : s.machine.allocate next size.toNat with
  | error e =>
    cases e with
    | regionOverlap addr n =>
      dsimp only
      rw [if_neg hfixed]
      rfl
    | outOfBounds addr => rfl
    | outOfMemory n => rfl
  | ok m =>
    have hroom := Memory.finish_of_allocate (Machine.memory_of_allocate hallocate)
    dsimp only
    rw [modifyMachine, modify_bind_apply, if_pos hfixed, checkedAdd_bind_apply _ _ hroom]
    rfl

theorem allocate_ok_iff_vacant (hwell : s.machine.memory.WellFormed) (hpos : 0 < size.toNat)
    (hroom : s.Affords size) :
    (∃ m, s.machine.allocate next size.toNat = .ok m) ↔ s.Vacant next size := by
  rw [Machine.allocate, Except.exists_map_eq_ok_iff, hwell.allocate_ok_iff hpos, Vacant]
  exact ⟨fun h => ⟨h.1, h.2.1⟩, fun h => ⟨h.1, h.2, hroom⟩⟩

/-- A call that asks for memory anywhere, and no more than can be afforded, is given it at the
place for the next mapping, or is refused. -/
def OnePlace (s : Platform σ) : Prop :=
  ∀ size, s.AsksToMap size → s.Affords size →
    ∃ next, s.machine.landmarks.get? Landmarks.mmapNext = some next ∧
      (s.Vacant next size → s.MapsNext next size) ∧
      (¬s.Vacant next size → s.OnlyAnswers (BitVec.ofInt 64 Errno.outOfMemory.result))

theorem onePlace_of_notesNext (hwell : s.machine.memory.WellFormed)
    (hnotes : s.machine.NotesNext) : s.OnePlace := by
  intro size hasks hroom
  obtain ⟨next, hnext⟩ := hnotes
  have hpos : 0 < size.toNat := mapSize?_pos hasks.length (mapSize?_eq_some_iff.mpr hasks.rounded)
  have hrun := mmapCall_of_asksToMap hasks hnext
  refine ⟨next, hnext, ?_, ?_⟩
  · intro hvacant
    obtain ⟨m, hok⟩ := (allocate_ok_iff_vacant hwell hpos hroom).mpr hvacant
    rw [hok] at hrun
    have hcall := environmentCall_eq_of_map hasks.called rfl hrun rfl
    rw [BitVec.ofInt_toInt] at hcall
    have hbytes := hwell.byteMap_allocate (Machine.memory_of_allocate hok)
    constructor
    · rw [hcall]
    · exact answer_of_eq hcall
    · rw [served, hcall]
      exact List.mem_cons_self
    · intro a ha
      rw [served, hcall]
      exact (hbytes a).2.trans (if_pos ha)
    · rw [served, hcall]
      exact Landmarks.get?_set_self _ _ _
  · intro hvacant
    cases hallocate : s.machine.allocate next size.toNat with
    | ok m => exact absurd ((allocate_ok_iff_vacant hwell hpos hroom).mp ⟨m, hallocate⟩) hvacant
    | error e =>
      rw [hallocate] at hrun
      exact environmentCall_eq_of_map hasks.called rfl hrun rfl

/-- Whatever a guest has done since its process was prepared. -/
theorem onePlace_after {args : ProcessArgs} {config : Config} {m m' : Machine} (host : Host σ)
    (hostState : σ) (seed : Word) (hwell : m.memory.WellFormed)
    (hboot : m.bootstrap args config = (.ok (), m')) (moves : List GuestMove)
    (registers : Registers) :
    ((after ⟨m', Kernel.start host hostState seed⟩ moves).facing registers).OnePlace := by
  have hstart : m'.memory.Budgeted m.memory.capacity := by
    have h := Machine.budgeted_bootstrap args config m ⟨hwell, rfl⟩
    rwa [hboot] at h
  have hbudgeted := (lasting_budgeted (σ := σ) m.memory.capacity).after
    (s := ⟨m', Kernel.start host hostState seed⟩) hstart moves
  have hnotes := lasting_notesNext.after (s := ⟨m', Kernel.start host hostState seed⟩)
    (Machine.notesNext_bootstrap hboot) moves
  exact onePlace_of_notesNext hbudgeted.toWellFormed hnotes

/-! ## A process with room for two mappings -/

def roomyProgram : Machine :=
  MemoryRequest.performAll [.allocate 0x1000 16] (.start (.empty 0x4000) 0x1000)

def roomyProcess : Except (Failure Fault) Unit × Machine :=
  roomyProgram.bootstrap ⟨["a"], []⟩ smallConfig

def roomy (moves : List GuestMove) : Platform Unit :=
  after ⟨roomyProcess.2, Kernel.start (Host.unsupported (σ := Unit)) () 0⟩ moves

def mapPageAt (addr : Word) : GuestMove := .call (callRegisters .mmap [addr, 0x1000, 3, 0x32])

def pageAnywhere : Registers := callRegisters .mmap [0, 0x1000, 3, 0x22]

theorem wellFormed_roomyProgram : roomyProgram.memory.WellFormed :=
  MemoryRequest.wellFormed_performAll _ _ [.allocate 0x1000 16] (.start (.empty 0x4000) 0x1000)

theorem roomyProcess_eq : roomyProcess = (.ok (), roomyProcess.2) := by
  have hok : roomyProcess.1 = .ok () := by decide +kernel
  rw [← hok]

theorem asksToMap_pageAnywhere (s : Platform σ) : (s.facing pageAnywhere).AsksToMap 0x1000 := by
  have harguments : ∀ i, (s.facing pageAnywhere).argument i =
      ((roomy []).facing pageAnywhere).argument i := fun _ => rfl
  have hcalled : (s.facing pageAnywhere).called? = ((roomy []).facing pageAnywhere).called? := rfl
  constructor
  · rw [hcalled]
    decide +kernel
  all_goals
    simp only [harguments]
    decide +kernel

/-- One mapping in the place for the next is enough for all that come after it to fail, although
the addresses right above it are free. -/
theorem refused_beside_room :
    roomyProgram.memory.WellFormed ∧ roomyProcess = (.ok (), roomyProcess.2) ∧
      ((roomy [mapPageAt 0x200000000000]).facing pageAnywhere).AsksToMap 0x1000 ∧
      ((roomy [mapPageAt 0x200000000000]).facing pageAnywhere).Affords 0x1000 ∧
      (roomy [mapPageAt 0x200000000000]).machine.landmarks.get? Landmarks.mmapNext =
        some 0x200000000000 ∧
      (∀ a : Word, a.Within 0x200000001000 0x1000 →
        (roomy [mapPageAt 0x200000000000]).machine.memory.byteMap a = none) ∧
      ((roomy [mapPageAt 0x200000000000]).facing pageAnywhere).answer =
        BitVec.ofInt 64 Errno.outOfMemory.result := by
  refine ⟨wellFormed_roomyProgram, roomyProcess_eq, asksToMap_pageAnywhere _, ?_, ?_, ?_, ?_⟩
  · exact ⟨by decide +kernel, by decide +kernel⟩
  · decide +kernel
  · have hlayout : (roomy [mapPageAt 0x200000000000]).machine.memory.layout =
        [(0x200000000000, 0x1000), (0x4000, 0x100), (0x2000, 18), (0x1000, 16)] := by
      decide +kernel
    rintro a ⟨hlow, -⟩
    rw [Memory.byteMap_eq_none_iff_layout, hlayout]
    simp [Word.Within] at hlow ⊢
    omega
  · decide +kernel

theorem onePlace_after_mapPageAt :
    roomyProgram.memory.WellFormed ∧ roomyProcess = (.ok (), roomyProcess.2) ∧
      ((roomy [mapPageAt 0x200000002000]).facing pageAnywhere).AsksToMap 0x1000 ∧
      ((roomy [mapPageAt 0x200000002000]).facing pageAnywhere).answer = 0x200000000000 ∧
      ((roomy [mapPageAt 0x200000002000]).facing pageAnywhere).OnePlace :=
  ⟨wellFormed_roomyProgram, roomyProcess_eq, asksToMap_pageAnywhere _, by decide +kernel,
    onePlace_after (Host.unsupported (σ := Unit)) () 0 wellFormed_roomyProgram roomyProcess_eq
      [mapPageAt 0x200000002000] pageAnywhere⟩

end Platform

end RiscvHart
