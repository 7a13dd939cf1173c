import RiscvHart.Proofs.Kernel.StackBlock
import RiscvHart.Proofs.Register.Bank

/-!
# The image of a new process

A process is prepared in four stages: its addresses are named, its stack is mapped, its texts are
put on the heap, and its block is put on the stack. `Outcome` follows these stages to their end.
The image that the process finds is then read off, and so is what becomes of the memory that was
mapped before.
-/

namespace RiscvHart

open Exec

namespace Bootstrap

def textPlace (args : ProcessArgs) (config : Config) (k : Nat) : Nat :=
  config.heapStart.toNat + 16 + ((args.texts.take k).map fun text => text.length + 1).sum

def textPointers (args : ProcessArgs) (config : Config) : List Word :=
  (List.range args.texts.length).map fun k => BitVec.ofNat 64 (textPlace args config k)

/-- The words that a process finds at its stack pointer: the number of its arguments, where they
lie, zero, where the settings of its environment lie, zero, and three pairs, for the size of a
page, for the address of its random bytes, and for the end. -/
def initialBlock (args : ProcessArgs) (config : Config) : List Word :=
  BitVec.ofNat 64 args.arguments.length ::
    (textPointers args config).take args.arguments.length ++
    0 :: (textPointers args config).drop args.arguments.length ++
    [0, 6, 4096, 25, config.heapStart, 0, 0]

theorem length_terminated (texts : List (List Byte)) :
    (terminated texts).length = (texts.map fun text => text.length + 1).sum := by
  simp [terminated, List.length_flatMap]

theorem places_eq_map (pos : Nat) (texts : List (List Byte)) :
    places pos texts = (List.range texts.length).map fun k =>
      BitVec.ofNat 64 (pos + ((texts.take k).map fun text => text.length + 1).sum) := by
  induction texts generalizing pos with
  | nil => rfl
  | cons text rest ih =>
    rw [places, ih, List.length_cons, List.range_succ_eq_map, List.map_cons, List.map_map]
    refine congrArg₂ _ ?_ (List.map_congr_left fun k _ => ?_)
    · simp
    · simp [Nat.add_assoc]

theorem places_append (pos : Nat) (xs ys : List (List Byte)) :
    places pos (xs ++ ys) = places pos xs ++ places (pos + (terminated xs).length) ys := by
  induction xs generalizing pos with
  | nil => simp [places]
  | cons text rest ih =>
    simp [places, ih, Nat.add_assoc, Nat.add_comm, Nat.add_left_comm]

/-- The block is put together from the addresses that were given to the texts. -/
theorem words_eq_initialBlock (args : ProcessArgs) (config : Config) :
    words (places (config.heapStart.toNat + 16) args.argumentTexts)
      (places (config.heapStart.toNat + 16 + (terminated args.argumentTexts).length)
        args.settingTexts) config.heapStart = initialBlock args config := by
  have hpointers : textPointers args config = places (config.heapStart.toNat + 16) args.texts :=
    (places_eq_map _ _).symm
  have hlength : (places (config.heapStart.toNat + 16) args.argumentTexts).length =
      args.arguments.length := by
    rw [places_eq_map]
    simp [ProcessArgs.argumentTexts]
  rw [initialBlock, hpointers, ProcessArgs.texts, places_append, List.take_left' hlength,
    List.drop_left' hlength, words, hlength]
  rfl

end Bootstrap

namespace Machine

open Bootstrap

variable {before m : Machine} {args : ProcessArgs} {config : Config} {addrs : List Word}

/-- Nothing is mapped where the stack is to lie. -/
def StackFree (m : Machine) (config : Config) : Prop :=
  ∀ a : Word, a.Within config.stackStart config.stackSize.toNat → m.memory.byteMap a = none

def reach (args : ProcessArgs) (config : Config) : Nat :=
  max (config.stackStart.toNat + config.stackSize.toNat)
    (config.heapStart.toNat + randomLength + (terminated args.texts).length)

def named (m : Machine) (config : Config) : Machine :=
  ((m.mark Landmarks.heapStart config.heapStart).mark Landmarks.heapEnd config.heapStart).mark
    Landmarks.mmapNext config.mmapBase

/-- A process has its stack and all its texts. -/
structure LaidOut (before : Machine) (args : ProcessArgs) (config : Config)
    (m : Machine) : Prop where
  preparing : Preparing before config (randomBytes config ++ terminated args.texts) m
  stackFits : config.stackStart.toNat + config.stackSize.toNat < addressLimit
  stackFree : before.StackFree config

/-- The block of a process has been put on the stack of a machine that was `laidOut`, and the
stack pointer is on it. -/
structure Started (laidOut : Machine) (args : ProcessArgs) (config : Config) (sp : Word)
    (m : Machine) : Prop where
  others : m = { laidOut with memory := m.memory }.setRegister Reg.sp sp
  above : config.stackStart.toNat ≤ sp.toNat
  below : sp.toNat + blockSize (initialBlock args config).length =
    config.stackStart.toNat + config.stackSize.toNat
  put : laidOut.memory.WordsPut m.memory sp (initialBlock args config)

def Prepared (before : Machine) (args : ProcessArgs) (config : Config) (m : Machine) : Prop :=
  ∃ laidOut sp, before.LaidOut args config laidOut ∧ laidOut.Started args config sp m

theorem preparing_of_mapStack (hwell : before.memory.WellFormed) (hfree : before.HeapFree config)
    {memory : Memory} {log : EventLog}
    (hok : before.memory.allocate config.stackStart config.stackSize.toNat = .ok memory) :
    Preparing before config []
      { before with
        memory := memory, log := log,
        landmarks :=
          ((before.named config).landmarks.set Landmarks.stackStart config.stackStart).set
            Landmarks.stackEnd (config.stackStart + config.stackSize) } where
  wellFormed := hwell.allocate hok
  others := rfl
  names name _ := rfl
  heapEnd := by
    rw [Landmarks.get?_set_ne _ _ (by decide), Landmarks.get?_set_ne _ _ (by decide), named, mark,
      mark, mark, Landmarks.get?_set_ne _ _ (by decide), Landmarks.get?_set_self]
    simp
  fits := config.heapStart.isLt
  heap := by
    have hnone : before.memory.sizeFrom config.heapStart = 0 := by
      by_contra hne
      obtain ⟨r, hr, hbase, hsize⟩ := hwell.exists_of_sizeFrom_pos (Nat.pos_of_ne_zero hne)
      exact hfree r hr (by omega) hbase
    exact (Memory.filledFrom_nil hnone).allocate hwell hok
  stack := by
    rcases Nat.eq_zero_or_pos config.stackSize.toNat with hzero | hpos
    · rw [hzero]
      exact Nat.zero_le _
    · rw [hwell.sizeFrom_allocate hpos hok, if_pos rfl]
  kept _ hr hfull := hwell.mem_of_allocate hok hr hfull

theorem mapStack_meets (hwell : before.memory.WellFormed) (hfree : before.HeapFree config) :
    Meets (fun m => m = before.named config) (mapStack config)
      (fun finish m => (finish = config.stackStart + config.stackSize ∧
          config.stackStart.toNat + config.stackSize.toNat < addressLimit ∧
          before.StackFree config) ∧ Preparing before config [] m)
      (Refused before (config.stackStart.toNat + config.stackSize.toNat)) := by
  rintro _ rfl
  by_cases hover : addressLimit ≤ config.stackStart.toNat + config.stackSize.toNat
  · refine Or.inr ⟨.crash .sumTooLarge, before.named config, ?_, fun _ hr _ => hr, Or.inr hover⟩
    rw [mapStack, checkedAdd_bind_of_too_large _ _ hover]
  have hsum := Nat.lt_of_not_le hover
  cases hallocate : (before.named config).allocate config.stackStart config.stackSize.toNat with
  | error e =>
    refine Or.inr ⟨.error (.ofMemory e), before.named config, ?_, fun _ hr _ => hr, Or.inl ⟨_, rfl⟩⟩
    rw [mapStack, checkedAdd_bind_apply _ _ hsum, bind_apply, attempt, hallocate]
    rfl
  | ok mapped =>
    have hmemory := memory_of_allocate hallocate
    change before.memory.allocate _ _ = _ at hmemory
    have hothers := MemoryRequest.eq_of_serve (r := .allocate _ _) hallocate
    refine Or.inl ⟨config.stackStart + config.stackSize,
      (mapped.mark Landmarks.stackStart config.stackStart).mark Landmarks.stackEnd
        (config.stackStart + config.stackSize), ?_, ⟨rfl, hsum, fun a ha => ?_⟩, ?_⟩
    · rw [mapStack, checkedAdd_bind_apply _ _ hsum, bind_apply, attempt, hallocate]
      rfl
    · exact (hwell.byteMap_allocate hmemory a).1 ha
    · rw [mark, mark, hothers]
      exact preparing_of_mapStack hwell hfree hmemory

/-- The random bytes are on the heap. -/
theorem takeRandom_meets (hfree : before.HeapFree config) {α : Type} {f : Word → Exec Machine α}
    {Q : α → Machine → Prop} {E : Failure Fault → Machine → Prop}
    (herror : ∀ e m, Refused before (config.heapStart.toNat + randomLength) e m → E e m)
    (hf : Meets (Preparing before config (randomBytes config)) (f config.heapStart) Q E) :
    Meets (Preparing before config [])
      (takeHeap randomLength >>= fun random =>
        put random (randomBytes config) >>= fun _ => f random) Q E := by
  have hlength : (randomBytes config).length = randomLength := ChaCha.Generator.length_bytes _ _
  have htake := @takeHeap_meets before config [] hfree randomLength
  refine (htake.weaken_error herror).bind fun addr => Meets.of_assumption ?_
  rintro rfl
  have hput := @put_meets before config [] _ _ hfree (Nat.le_of_eq hlength)
  refine (hput.weaken_error fun _ _ hfalse => hfalse.elim).bind fun _ => ?_
  rw [hlength]
  simpa using hf

theorem putBlock_meets :
    Meets (before.LaidOut args config)
      (putBlock config (config.stackStart + config.stackSize) (initialBlock args config))
      (fun _ => before.Prepared args config)
      (fun _ => before.LaidOut args config) := by
  intro laidOut h
  rcases putBlock_cases h.preparing.wellFormed h.preparing.stack h.stackFits
      (initialBlock args config) with ⟨e, hrun⟩ | ⟨sp, memory, hrun, habove, hbelow, hput⟩
  · exact Or.inr ⟨e, laidOut, hrun, h⟩
  · exact Or.inl ⟨(), _, hrun, laidOut, sp, h, rfl, habove, hbelow, hput⟩

/-- The texts are put on the heap, and their addresses on the stack. -/
theorem putTextsAndBlock_meets (hfree : before.HeapFree config)
    (hfits : config.stackStart.toNat + config.stackSize.toNat < addressLimit)
    (hstack : before.StackFree config) :
    Meets (Preparing before config (randomBytes config))
      (do
        let arguments ← putTexts args.argumentTexts
        let environment ← putTexts args.settingTexts
        putBlock config (config.stackStart + config.stackSize)
          (words arguments environment config.heapStart))
      (fun _ => before.Prepared args config)
      (fun e m => before.Refused (reach args config) e m ∨ before.LaidOut args config m) := by
  have hlength : (randomBytes config).length = 16 := ChaCha.Generator.length_bytes _ _
  have hlength' : (randomBytes config ++ terminated args.argumentTexts).length =
      16 + (terminated args.argumentTexts).length := by
    rw [List.length_append, hlength]
  have htotal : (terminated args.texts).length =
      (terminated args.argumentTexts).length + (terminated args.settingTexts).length := by
    rw [ProcessArgs.texts, terminated_append, List.length_append]
  have hreach : config.heapStart.toNat + 16 + (terminated args.texts).length ≤ reach args config :=
    Nat.le_max_right _ _
  have harguments := @putTexts_meets before config (randomBytes config) hfree (by omega)
    args.argumentTexts
  have henvironment := @putTexts_meets before config
    (randomBytes config ++ terminated args.argumentTexts) hfree (by omega) args.settingTexts
  rw [hlength] at harguments
  rw [hlength', ← Nat.add_assoc, List.append_assoc, ← terminated_append] at henvironment
  refine (harguments.weaken_error fun e m h => Or.inl (h.mono (by omega))).bind
    fun addrs => Meets.of_assumption ?_
  rintro rfl
  refine (henvironment.weaken_error fun e m h => Or.inl (h.mono (by omega))).bind
    fun addrs => Meets.of_assumption ?_
  rintro rfl
  rw [words_eq_initialBlock]
  exact fun m h => (putBlock_meets.weaken_error fun _ _ => Or.inr) m ⟨h, hfits, hstack⟩

/-- Preparing a process gives it its stack, its texts and its block. It fails while it gives the
process its stack and its texts, or when the block does not fit. -/
theorem bootstrap_meets (hwell : before.memory.WellFormed) (hfree : before.HeapFree config)
    (args : ProcessArgs) :
    Meets (fun m => m = before) (bootstrap args config)
      (fun _ => before.Prepared args config)
      (fun e m => before.Refused (reach args config) e m ∨ before.LaidOut args config m) := by
  intro m hm
  rw [bootstrap, modify_bind_apply, hm]
  have hstack : Meets _ _ _ fun e m =>
      before.Refused (reach args config) e m ∨ before.LaidOut args config m :=
    (mapStack_meets hwell hfree).weaken_error fun e m h => Or.inl (h.mono (Nat.le_max_left _ _))
  refine hstack.bind (fun finish => Meets.of_assumption ?_) _ rfl
  rintro ⟨rfl, hfits, hstackFree⟩
  refine takeRandom_meets hfree (fun e m h => Or.inl (h.mono ?_))
    (putTextsAndBlock_meets hfree hfits hstackFree)
  exact Nat.le_trans (Nat.le_add_right _ _) (Nat.le_max_right _ _)

/-! ## What the process finds -/

/-- The state of the machine that was `before` as the process that `args` and `config` describe
finds it when it starts. -/
structure ProcessImage (before : Machine) (args : ProcessArgs) (config : Config) (m : Machine) :
    Prop where
  word : ∀ i (h : i < (initialBlock args config).length),
    m.memory.peek .double (m.registers.read Reg.sp + BitVec.ofNat 64 (8 * i)) =
      .ok (initialBlock args config)[i]
  random : m.memory.slice config.heapStart 16 = .ok (randomBytes config)
  text : ∀ k (h : k < args.texts.length),
    m.memory.slice (BitVec.ofNat 64 (textPlace args config k)) (args.texts[k].length + 1) =
      .ok (args.texts[k] ++ [0])
  heapFits : textPlace args config args.texts.length < addressLimit
  heapStart : m.landmarks.get? Landmarks.heapStart = some config.heapStart
  heapEnd : m.landmarks.get? Landmarks.heapEnd =
    some (BitVec.ofNat 64 (textPlace args config args.texts.length))
  stackFits : config.stackStart.toNat + config.stackSize.toNat < addressLimit
  stackPointer : (m.registers.read Reg.sp).toNat + blockSize (initialBlock args config).length =
    config.stackStart.toNat + config.stackSize.toNat
  stackRegion : ∃ r ∈ m.memory.regions, r.base = config.stackStart ∧
    r.Covers (m.registers.read Reg.sp) (blockSize (initialBlock args config).length)
  aligned : (config.stackStart.toNat + config.stackSize.toNat) % 16 = 0 →
    (m.registers.read Reg.sp).toNat % 16 = 0
  stackStart : m.landmarks.get? Landmarks.stackStart = some config.stackStart
  stackEnd : m.landmarks.get? Landmarks.stackEnd = some (config.stackStart + config.stackSize)
  mmapNext : m.landmarks.get? Landmarks.mmapNext = some config.mmapBase
  otherNames : ∀ name, name ∉ [Landmarks.heapStart, Landmarks.heapEnd, Landmarks.stackStart,
    Landmarks.stackEnd, Landmarks.mmapNext] → m.landmarks.get? name = before.landmarks.get? name
  /-- No other register has changed, and nothing but memory, names and the list of events. -/
  others : m = { before with
    registers := before.registers.write Reg.sp (m.registers.read Reg.sp)
    memory := m.memory, landmarks := m.landmarks, log := m.log }

theorem length_take_terminated (args : ProcessArgs) (config : Config) (k : Nat) :
    config.heapStart.toNat +
      (randomBytes config ++ terminated (args.texts.take k)).length = textPlace args config k := by
  rw [List.length_append, randomBytes, ChaCha.Generator.length_bytes, randomLength, textPlace,
    length_terminated, Nat.add_assoc]

theorem Started.stackRegion {laidOut : Machine} {sp : Word} (h : laidOut.Started args config sp m)
    (hlaid : before.LaidOut args config laidOut) :
    ∃ r ∈ laidOut.memory.regions, r.base = config.stackStart ∧
      r.Covers sp (blockSize (initialBlock args config).length) := by
  have hcount : 0 < (initialBlock args config).length := by simp [initialBlock]
  have hge := blockSize_ge (initialBlock args config).length
  have habove := h.above
  have hbelow := h.below
  have hstack := hlaid.preparing.stack
  have hsome : 0 < laidOut.memory.sizeFrom config.stackStart := by omega
  obtain ⟨r, hr, hbase, hsize⟩ := hlaid.preparing.wellFormed.exists_of_sizeFrom_pos hsome
  refine ⟨r, hr, hbase, ?_, ?_⟩
  · rw [hbase]
    exact habove
  · rw [Region.finish, hbase, hsize]
    omega

/-- The block lies in the stack, so it leaves the heap alone. -/
theorem Started.filledFrom {laidOut : Machine} {sp : Word} (h : laidOut.Started args config sp m)
    (hlaid : before.LaidOut args config laidOut) (hne : config.heapStart ≠ config.stackStart) :
    m.memory.FilledFrom config.heapStart (randomBytes config ++ terminated args.texts) := by
  have hwell := hlaid.preparing.wellFormed
  have hsize : m.memory.sizeFrom config.heapStart = laidOut.memory.sizeFrom config.heapStart :=
    hwell.sizeFrom_congr h.put.wellFormed fun n => by rw [h.put.layout]
  obtain ⟨r, hr, hbase, hstart, hend⟩ := h.stackRegion hlaid
  have hge := blockSize_ge (initialBlock args config).length
  refine hlaid.preparing.heap.of_byteMap_eq hsize fun a ha => h.put.rest a fun hin => ?_
  refine hwell.not_within_of_base_ne hr (hbase ▸ hne.symm) ha ?_
  exact ⟨Nat.le_trans hstart hin.1, Nat.lt_of_lt_of_le hin.2 (by rw [Region.finish] at hend; omega)⟩

/-- Each text is read back from the heap with the zero after it. -/
theorem slice_text (hwell : m.memory.WellFormed)
    (hfilled : m.memory.FilledFrom config.heapStart (randomBytes config ++ terminated args.texts))
    (hfits : textPlace args config args.texts.length < addressLimit) {k : Nat}
    (hk : k < args.texts.length) :
    m.memory.slice (BitVec.ofNat 64 (textPlace args config k)) (args.texts[k].length + 1) =
      .ok (args.texts[k] ++ [0]) := by
  have hsplit : args.texts = args.texts.take k ++ args.texts[k] :: args.texts.drop (k + 1) := by
    rw [List.cons_getElem_drop_succ, List.take_append_drop]
  have hbytes : randomBytes config ++ terminated args.texts =
      randomBytes config ++ terminated (args.texts.take k) ++ (args.texts[k] ++ [0]) ++
        terminated (args.texts.drop (k + 1)) := by
    conv => lhs; rw [hsplit]
    rw [terminated_append, terminated_cons, List.append_assoc, List.append_assoc, List.append_assoc,
      List.append_assoc]
  have hle : textPlace args config k ≤ textPlace args config args.texts.length := by
    have hshort := (List.take_sublist k args.texts).map fun text => text.length + 1
    rw [textPlace, textPlace, List.take_length]
    exact Nat.add_le_add_left (hshort.sum_le_sum fun _ _ => Nat.zero_le _) _
  have haddr : (BitVec.ofNat 64 (textPlace args config k)).toNat = config.heapStart.toNat +
      (randomBytes config ++ terminated (args.texts.take k)).length := by
    rw [BitVec.toNat_ofNat, length_take_terminated]
    exact Nat.mod_eq_of_lt (Nat.lt_of_le_of_lt hle hfits)
  rw [hbytes] at hfilled
  have hslice := hfilled.slice_eq hwell haddr
  rwa [List.length_append, List.length_singleton] at hslice

/-- When a process has been prepared it finds its block, its texts and its random bytes. -/
theorem processImage_of_bootstrap (hwell : before.memory.WellFormed)
    (hfree : before.HeapFree config)
    (hne : config.heapStart ≠ config.stackStart)
    (hrun : before.bootstrap args config = (.ok (), m)) :
    before.ProcessImage args config m := by
  obtain ⟨laidOut, sp, hlaid, hstarted⟩ := (bootstrap_meets hwell hfree args).of_eq_ok rfl hrun
  have hprep := hlaid.preparing
  have hfilled := hstarted.filledFrom hlaid hne
  have hput := hstarted.put
  have hplace := length_take_terminated args config args.texts.length
  rw [List.take_length] at hplace
  have hfits := hprep.fits
  rw [hplace] at hfits
  have hothers := hstarted.others
  have hlandmarks : m.landmarks = laidOut.landmarks := by rw [hothers]; rfl
  have hregisters : m.registers = before.registers.write Reg.sp sp := by
    rw [hothers, hprep.others]
    rfl
  have hsp : m.registers.read Reg.sp = sp := by
    rw [hregisters, Registers.read_write, if_pos ⟨rfl, by decide⟩]
  have hbelow := hstarted.below
  have habove := hstarted.above
  have hmod := blockSize_mod (initialBlock args config).length
  have hname : ∀ name, name ≠ Landmarks.heapEnd →
      m.landmarks.get? name = (names config before.landmarks).get? name := by
    rw [hlandmarks]
    exact hprep.names
  constructor
  · rw [hsp]
    exact hput.word
  · rw [← List.nil_append (randomBytes config)] at hfilled
    have hslice := hfilled.slice_eq hput.wellFormed (Nat.add_zero _).symm
    rwa [randomBytes, ChaCha.Generator.length_bytes] at hslice
  · exact fun k hk => slice_text hput.wellFormed hfilled hfits hk
  · exact hfits
  · rw [hlandmarks]
    exact hprep.heapStart
  · rw [hlandmarks, hprep.heapEnd, ← hplace, BitVec.ofNat_add, BitVec.ofNat_toNat,
      BitVec.setWidth_eq]
  · exact hlaid.stackFits
  · rw [hsp]
    exact hbelow
  · obtain ⟨r, hr, hbase, hcovers⟩ := hstarted.stackRegion hlaid
    obtain ⟨r', hr', hbase', hsize'⟩ := Memory.exists_region_of_layout_eq hput.layout hr
    refine ⟨r', hr', hbase'.trans hbase, ?_⟩
    rw [hsp, Region.Covers, Region.finish, hbase', hsize']
    exact hcovers
  · rw [hsp]
    omega
  · rw [hname _ (by decide), names_stackStart]
  · rw [hname _ (by decide), names_stackEnd]
  · rw [hname _ (by decide), names_mmapNext]
  · intro name hother
    have hend : name ≠ Landmarks.heapEnd := fun heq => hother (by simp [heq])
    rw [hname _ hend, names_of_not_mem _ _ hother]
  · rw [hsp, ← hregisters]
    have hall : m = { laidOut with memory := m.memory, registers := m.registers } := by
      rw [hothers]
      rfl
    rw [hlandmarks, hall, hprep.others]

def withProgram : Machine :=
  MemoryRequest.performAll [.allocate 0x1000 16] (.start (.empty 0x20000) 0x1000)

theorem wellFormed_withProgram : withProgram.memory.WellFormed :=
  MemoryRequest.wellFormed_performAll _ _ [.allocate 0x1000 16] (.start (.empty 0x20000) 0x1000)

theorem heapFree_withProgram (hne : config.heapStart ≠ 0x1000) : withProgram.HeapFree config := by
  have hbases : withProgram.memory.regions.map Region.base = [0x1000] := by decide +kernel
  exact heapFree_of_bases hbases fun hmem => hne (List.mem_singleton.mp hmem)

def verboseRun : ProcessArgs := ⟨["prog", "-v"], [("HOME", "/root")]⟩

theorem processImage_of_verboseRun :
    withProgram.memory.WellFormed ∧ withProgram.HeapFree Config.standard ∧
      Config.standard.heapStart ≠ Config.standard.stackStart ∧
      ∃ m, withProgram.bootstrap verboseRun Config.standard = (.ok (), m) ∧
        withProgram.ProcessImage verboseRun Config.standard m := by
  have hfree : withProgram.HeapFree Config.standard := heapFree_withProgram (by decide)
  have hne : Config.standard.heapStart ≠ Config.standard.stackStart := by decide
  have hok : (withProgram.bootstrap verboseRun Config.standard).1 = .ok () := by decide +kernel
  have hrun : withProgram.bootstrap verboseRun Config.standard =
      (.ok (), (withProgram.bootstrap verboseRun Config.standard).2) := by rw [← hok]
  exact ⟨wellFormed_withProgram, hfree, hne, _, hrun,
    processImage_of_bootstrap wellFormed_withProgram hfree hne hrun⟩

end Machine

end RiscvHart
