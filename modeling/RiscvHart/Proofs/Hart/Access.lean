import RiscvHart.Proofs.Hart.Conformance
import RiscvHart.Proofs.Isa.Access
import RiscvHart.Proofs.Isa.Completeness
import RiscvHart.Proofs.Kernel.Reachable
import RiscvHart.Proofs.Machine.Access

/-!
# Steps that access memory

A step on a word of a load or a store either does what the instruction set prescribes or ends in
a fault with the address, and which of the two depends on nothing but the regions.
-/

namespace RiscvHart

namespace Isa

theorem format_of_load :
    ∀ e ∈ (table : List Entry), e.instr ∈ loads → e.encoding.format = .i := by
  decide

theorem format_of_store :
    ∀ e ∈ (table : List Entry), e.instr ∈ stores → e.encoding.format = .s := by
  decide

theorem not_store_of_load {i : Instr} (hi : i ∈ loads) : i ∉ stores := by
  fin_cases hi <;> decide

end Isa

def Machine.accessAddress (m : Machine) (i : Instr) (c : Code) : Word :=
  BitVec.ofInt 64 ((m.registers.read (Isa.rs1 c.toNat)).toNat + Isa.offset i c.toNat)

namespace Platform

variable {σ : Type} {s s' t : Platform σ} {c : Code} {i : Instr} {index : Nat} {e : Entry}

/-- The bytes that an instruction word accesses lie in one region. -/
def Accessible (i : Instr) (c : Code) (s : Platform σ) : Prop :=
  s.machine.memory.Mapped (s.machine.accessAddress i c) (Isa.accessed i)

def storedByte? (i : Instr) (c : Code) (s : Platform σ) (a : Word) : Option Byte :=
  if a.Within (s.machine.accessAddress i c) (Isa.accessed i) then
    some ((s.machine.registers.read (Isa.rs2 c.toNat)).extractLsb'
      (8 * (a.toNat - (s.machine.accessAddress i c).toNat)) 8)
  else s.machine.memory.byteMap a

/-- That a step has loaded: the bytes at the address, from the lowest up, have gone into the
destination. -/
def Loads (i : Instr) (index : Nat) (c : Code) (s s' : Platform σ) : Prop :=
  ∃ bs : List Byte, bs.length = Isa.accessed i ∧
    (∀ a : Word, a.Within (s.machine.accessAddress i c) (Isa.accessed i) →
      s.machine.memory.byteMap a = bs[a.toNat - (s.machine.accessAddress i c).toNat]?) ∧
    Retires i index c (Isa.loaded i (LittleEndian.ofBytes bs)) s s'

/-- That a step has stored: the low bytes of the operand are in memory, all other bytes are what
they were, and so are the regions. -/
structure Stores (i : Instr) (index : Nat) (c : Code) (s s' : Platform σ) : Prop where
  word : ∃ bs, s.machine.memory.slice s.machine.pc.current 4 = .ok bs ∧
    c.toNat = LittleEndian.ofBytes bs
  encodes : Isa.Encodes i c.toNat
  next : s'.machine.pc.current = BitVec.ofInt 64 (s.machine.pc.current.toNat + 4)
  bytes : ∀ a, s'.machine.memory.byteMap a = s.storedByte? i c a
  layout : s'.machine.memory.layout = s.machine.memory.layout
  used : s'.machine.memory.used = s.machine.memory.used
  /-- Instructions are fetched from what was stored. -/
  fetches : ∀ p, s.machine.memory.Mapped p 4 → ∃ d, s'.machine.memory.fetch p = .ok d ∧
    ∀ a : Word, a.Within p 4 →
      s.storedByte? i c a = some (d.extractLsb' (8 * (a.toNat - p.toNat)) 8)
  /-- Nothing else changes but the log and what the machine notes of the step. -/
  others : s' = { s with machine := { s.machine with
    pc := ⟨s'.machine.pc.current, s.machine.pc.current⟩
    memory := s'.machine.memory
    last := some ⟨s.machine.pc.current, c, index, i⟩
    log := s'.machine.log } }

theorem accessAddress_of_load (hi : i ∈ Isa.loads) :
    s.machine.registers.read c.rs1 + c.immI.signExtend 64 = s.machine.accessAddress i c := by
  rw [Isa.add_signExtend_eq_ofInt, c.toInt_immI, Machine.accessAddress, Isa.offset_of_load hi,
    c.rs1_eq]

theorem accessAddress_of_store (hi : i ∈ Isa.stores) :
    s.machine.registers.read c.rs1 + c.immS.signExtend 64 = s.machine.accessAddress i c := by
  rw [Isa.add_signExtend_eq_ofInt, c.toInt_immS, Machine.accessAddress, Isa.offset_of_store hi,
    c.rs1_eq]

/-! ## Loads -/

theorem step_of_load (hwell : s.machine.memory.WellFormed)
    (hfetch : s.machine.memory.fetch s.machine.pc.current = .ok c)
    (hdecode : Decoder.select table c = .known index e) (hi : e.instr ∈ Isa.loads)
    (hmapped : s.Accessible e.instr c) :
    ∃ s', step s = (.ok (), s') ∧ Loads e.instr index c s s' := by
  obtain ⟨w, sign, haction, hbytes, hloaded⟩ := Isa.action_of_load hi
  have hformat := Isa.format_of_load e (Decoder.select_known hdecode).1 hi
  unfold Accessible at hmapped
  unfold Loads
  rw [← hbytes] at hmapped ⊢
  rw [← accessAddress_of_load hi] at hmapped ⊢
  obtain ⟨v, hpeek⟩ := (hwell.bounded_peek w _).ok_of_mapped hmapped
  obtain ⟨bs, hslice, rfl⟩ := Except.map_eq_ok_iff.mp hpeek
  obtain ⟨hlen, hmap⟩ := hwell.byteMap_slice hslice
  obtain ⟨m, hperform, hm⟩ := Action.perform_load_of_ok sign c.rd
    (m := s.machine.emit (.before s.machine.pc.current c)) hpeek
  have hrun : e.instr.action.perform (e.read c).operands
      (s.machine.emit (.before s.machine.pc.current c)) = (.ok none, m) := by
    rw [haction, Entry.read, hformat]
    exact hperform
  refine ⟨_, step_of_perform hfetch hdecode hrun, bs, hlen, hmap, ?_⟩
  have hvalue : (Word.ofBytes bs).toNat = LittleEndian.ofBytes bs :=
    Word.toNat_ofBytes (hlen ▸ w.bytes_le)
  rw [← hvalue]
  refine retires_of_write hfetch (Isa.encodes_of_select hdecode) ?_ ?_ ?_
  all_goals rw [hm]
  · rfl
  · rw [← hloaded]
    rfl
  · rfl

theorem step_of_refused_load (hwell : s.machine.memory.WellFormed)
    (hfetch : s.machine.memory.fetch s.machine.pc.current = .ok c)
    (hdecode : Decoder.select table c = .known index e) (hi : e.instr ∈ Isa.loads)
    (hunmapped : ¬s.Accessible e.instr c) :
    step s = (.error (.error (.outOfBounds (s.machine.accessAddress e.instr c))),
      { s with
        machine := ((s.machine.emit (.before s.machine.pc.current c)).readRegister c.rs1).2 }) := by
  obtain ⟨w, sign, haction, hbytes, -⟩ := Isa.action_of_load hi
  have hformat := Isa.format_of_load e (Decoder.select_known hdecode).1 hi
  unfold Accessible at hunmapped
  rw [← hbytes] at hunmapped
  rw [← accessAddress_of_load hi] at hunmapped ⊢
  have hpeek := (hwell.bounded_peek w _).error_of_unmapped hunmapped
  refine step_of_perform_error hfetch hdecode ?_
  rw [haction, Entry.read, hformat]
  exact Action.perform_load_of_error (m := s.machine.emit (.before s.machine.pc.current c)) hpeek

/-! ## Stores -/

theorem step_of_store (hwell : s.machine.memory.WellFormed)
    (hfetch : s.machine.memory.fetch s.machine.pc.current = .ok c)
    (hdecode : Decoder.select table c = .known index e) (hi : e.instr ∈ Isa.stores)
    (hmapped : s.Accessible e.instr c) :
    ∃ s', step s = (.ok (), s') ∧ Stores e.instr index c s s' := by
  obtain ⟨w, haction, hbytes⟩ := Isa.action_of_store hi
  have hformat := Isa.format_of_store e (Decoder.select_known hdecode).1 hi
  have haddr := accessAddress_of_store (s := s) (c := c) hi
  have hrange : s.machine.memory.Mapped (s.machine.accessAddress e.instr c) w.bytes := by
    rw [hbytes]
    exact hmapped
  obtain ⟨old, hpeek⟩ := (hwell.bounded_peek w _).ok_of_mapped hrange
  obtain ⟨memory, hpoke⟩ :=
    (hwell.bounded_poke w _ (s.machine.registers.read c.rs2)).ok_of_mapped hrange
  obtain ⟨m, hperform, hm⟩ := Action.perform_store_of_ok c.rs1 c.rs2 c.immS
    (m := s.machine.emit (.before s.machine.pc.current c)) (haddr ▸ hpeek)
    (by rw [Memory.poke_cut]; exact haddr ▸ hpoke)
  have hrun : e.instr.action.perform (e.read c).operands
      (s.machine.emit (.before s.machine.pc.current c)) = (.ok none, m) := by
    rw [haction, Entry.read, hformat]
    exact hperform
  have hmap : ∀ a, memory.byteMap a = s.storedByte? e.instr c a := by
    intro a
    rw [hwell.byteMap_poke hpoke, storedByte?, hbytes, c.rs2_eq]
  obtain ⟨hlayout, hused, -⟩ := Memory.frame_fill hpoke
  have hwell' : memory.WellFormed := hwell.fill hpoke
  refine ⟨_, step_of_perform hfetch hdecode hrun, ?_⟩
  rw [hm]
  refine ⟨Memory.slice_of_fetch hfetch, Isa.encodes_of_select hdecode,
    Isa.add_four_eq_ofInt s.machine.pc.current, hmap, hlayout, hused, fun p hp => ?_, rfl⟩
  obtain ⟨d, hd⟩ :=
    (hwell'.bounded_fetch p).ok_of_mapped ((Memory.mapped_iff_of_layout_eq hlayout).mpr hp)
  refine ⟨d, hd, fun a ha => ?_⟩
  rw [← hmap, hwell'.byteMap_fetch hd ha]

theorem step_of_refused_store (hwell : s.machine.memory.WellFormed)
    (hfetch : s.machine.memory.fetch s.machine.pc.current = .ok c)
    (hdecode : Decoder.select table c = .known index e) (hi : e.instr ∈ Isa.stores)
    (hunmapped : ¬s.Accessible e.instr c) :
    step s = (.error (.error (.outOfBounds (s.machine.accessAddress e.instr c))),
      { s with machine := (((s.machine.emit
        (.before s.machine.pc.current c)).readRegister c.rs1).2.readRegister c.rs2).2 }) := by
  obtain ⟨w, haction, hbytes⟩ := Isa.action_of_store hi
  have hformat := Isa.format_of_store e (Decoder.select_known hdecode).1 hi
  unfold Accessible at hunmapped
  rw [← hbytes] at hunmapped
  rw [← accessAddress_of_store hi] at hunmapped ⊢
  have hpeek := (hwell.bounded_peek w _).error_of_unmapped hunmapped
  refine step_of_perform_error hfetch hdecode ?_
  rw [haction, Entry.read, hformat]
  exact Action.perform_store_of_error (m := s.machine.emit (.before s.machine.pc.current c)) hpeek

/-! ## A store and the loads after it -/

theorem wellFormed_step (hwell : s.machine.memory.WellFormed) :
    (step s).2.machine.memory.WellFormed :=
  ((lasting_budgeted s.machine.memory.capacity).step s ⟨hwell, rfl⟩).toWellFormed

/-- The bytes that were stored spell what fits into them of the operand. -/
theorem Stores.slice_eq {bs : List Byte} (hstores : Stores i index c s s')
    (hwell : s'.machine.memory.WellFormed)
    (hslice : s'.machine.memory.slice (s.machine.accessAddress i c) (Isa.accessed i) = .ok bs) :
    LittleEndian.ofBytes bs =
      (s.machine.registers.read (Isa.rs2 c.toNat)).toNat % 2 ^ (8 * Isa.accessed i) := by
  have hbytes : bs = LittleEndian.toBytes (s.machine.registers.read (Isa.rs2 c.toNat)).toNat
      (Isa.accessed i) := by
    refine hwell.slice_eq hslice (LittleEndian.length_toBytes _ _) fun a ha => ?_
    have hlow := ha.1
    have hhigh := ha.2
    rw [hstores.bytes, storedByte?, if_pos ha, LittleEndian.getElem?_toBytes _ (by omega)]
    congr 1
    apply BitVec.eq_of_toNat_eq
    rw [BitVec.toNat_ofNat, BitVec.extractLsb'_toNat, Nat.shiftRight_eq_div_pow, Nat.pow_mul]
  rw [hbytes, LittleEndian.ofBytes_toBytes, BitVec.toNat_ofNat]

theorem step_of_load_after_store {j : Instr} {d : Code} {index' : Nat} {f : Entry}
    (hstores : Stores i index c s s') (hmapped : s.Accessible i c)
    (hwell : s'.machine.memory.WellFormed) (hmemory : t.machine.memory = s'.machine.memory)
    (hfetch : t.machine.memory.fetch t.machine.pc.current = .ok d)
    (hdecode : Decoder.select table d = .known index' f) (hf : f.instr = j) (hj : j ∈ Isa.loads)
    (hwidth : Isa.accessed j = Isa.accessed i)
    (haddr : t.machine.accessAddress j d = s.machine.accessAddress i c) :
    ∃ t', step t = (.ok (), t') ∧ Retires j index' d
      (Isa.loaded j ((s.machine.registers.read (Isa.rs2 c.toNat)).toNat %
        2 ^ (8 * Isa.accessed i) : Nat)) t t' := by
  subst hf
  have hmapped' : s'.machine.memory.Mapped (s.machine.accessAddress i c) (Isa.accessed i) :=
    (Memory.mapped_iff_of_layout_eq hstores.layout).mpr hmapped
  have haccessible : t.Accessible f.instr d := by
    rw [Accessible, hmemory, haddr, hwidth]
    exact hmapped'
  obtain ⟨t', hstep, bs, hlen, hbytes, hretires⟩ :=
    step_of_load (hmemory ▸ hwell) hfetch hdecode hj haccessible
  rw [hmemory, haddr, hwidth] at hbytes
  rw [hwidth] at hlen
  obtain ⟨bs', hslice⟩ := (hwell.bounded_slice _ _).ok_of_mapped hmapped'
  have hsame : bs' = bs := hwell.slice_eq hslice hlen hbytes
  rw [← hstores.slice_eq hwell hslice, hsame]
  exact ⟨t', hstep, hretires⟩

/-- All that a step on a word of a load or a store can do. -/
structure Accesses (i : Instr) (c : Code) (s : Platform σ) : Prop where
  succeeds : (∃ s', step s = (.ok (), s')) ↔ s.Accessible i c
  refused : ¬s.Accessible i c →
    (step s).1 = .error (.error (.outOfBounds (s.machine.accessAddress i c)))
  loads : i ∈ Isa.loads → ∀ s', step s = (.ok (), s') → ∃ index, Loads i index c s s'
  stores : i ∈ Isa.stores → ∀ s', step s = (.ok (), s') → ∃ index, Stores i index c s s'
  /-- A load of as many bytes at the same address, while memory is what the store has left, gives
  what was stored. -/
  reloads : i ∈ Isa.stores → ∀ s', step s = (.ok (), s') → ∀ (t : Platform σ) (d : Code),
    ∀ j ∈ Isa.loads, t.machine.memory = s'.machine.memory →
      t.machine.memory.fetch t.machine.pc.current = .ok d → Isa.Encodes j d.toNat →
      Isa.accessed j = Isa.accessed i →
      t.machine.accessAddress j d = s.machine.accessAddress i c →
      ∃ index t', step t = (.ok (), t') ∧ Retires j index d
        (Isa.loaded j ((s.machine.registers.read (Isa.rs2 c.toNat)).toNat %
          2 ^ (8 * Isa.accessed i) : Nat)) t t'

theorem step_access_cases (hwell : s.machine.memory.WellFormed)
    (hfetch : s.machine.memory.fetch s.machine.pc.current = .ok c)
    (hdecode : Decoder.select table c = .known index e) (hi : e.instr ∈ Isa.loads ++ Isa.stores) :
    (s.Accessible e.instr c ∧ ∃ s', step s = (.ok (), s') ∧
        (e.instr ∈ Isa.loads → Loads e.instr index c s s') ∧
        (e.instr ∈ Isa.stores → Stores e.instr index c s s')) ∨
      (¬s.Accessible e.instr c ∧ ∃ m, s.machine.Noted m ∧ step s =
        (.error (.error (.outOfBounds (s.machine.accessAddress e.instr c))),
          { s with machine := m })) := by
  by_cases hmapped : s.Accessible e.instr c
  · refine Or.inl ⟨hmapped, ?_⟩
    rcases List.mem_append.mp hi with hload | hstore
    · obtain ⟨s', hstep, hloads⟩ := step_of_load hwell hfetch hdecode hload hmapped
      exact ⟨s', hstep, fun _ => hloads, fun hstore => absurd hstore (Isa.not_store_of_load hload)⟩
    · obtain ⟨s', hstep, hstores⟩ := step_of_store hwell hfetch hdecode hstore hmapped
      exact ⟨s', hstep, fun hload => absurd hstore (Isa.not_store_of_load hload), fun _ => hstores⟩
  · refine Or.inr ⟨hmapped, ?_⟩
    have hbefore := s.machine.noted_before s.machine.pc.current c
    rcases List.mem_append.mp hi with hload | hstore
    · exact ⟨_, hbefore.readRegister c.rs1, step_of_refused_load hwell hfetch hdecode hload hmapped⟩
    · exact ⟨_, (hbefore.readRegister c.rs1).readRegister c.rs2,
        step_of_refused_store hwell hfetch hdecode hstore hmapped⟩

/-- Whether a load or a store succeeds is a question of the regions only. If it does, it is met
in full, and a load after a store gives back what was stored. -/
theorem step_accesses (hs : s.Reachable)
    (hfetch : s.machine.memory.fetch s.machine.pc.current = .ok c)
    (hencodes : Isa.Encodes i c.toNat) (hi : i ∈ Isa.loads ++ Isa.stores) :
    Accesses i c s := by
  have hwell := hs.wellFormed
  obtain ⟨index, e, hdecode, rfl⟩ := (Isa.encodes_iff_select i c).mp hencodes
  rcases step_access_cases hwell hfetch hdecode hi with
    ⟨hmapped, after, hstep, hloads, hstores⟩ | ⟨hunmapped, m, -, hrefused⟩
  · have hafter : ∀ s', step s = (.ok (), s') → after = s' := fun s' hstep' =>
      congrArg Prod.snd (hstep.symm.trans hstep')
    refine ⟨iff_of_true ⟨after, hstep⟩ hmapped, absurd hmapped, ?_, ?_, ?_⟩
    · intro hload s' hstep'
      exact ⟨index, hafter s' hstep' ▸ hloads hload⟩
    · intro hstore s' hstep'
      exact ⟨index, hafter s' hstep' ▸ hstores hstore⟩
    · intro hstore s' hstep' t d j hj hmemory hfetch' hencodes' hwidth haddr
      obtain rfl := hafter s' hstep'
      obtain ⟨index', f, hdecode', hf⟩ := (Isa.encodes_iff_select j d).mp hencodes'
      have hwell' : after.machine.memory.WellFormed := by
        have hkept := wellFormed_step hwell
        rwa [hstep] at hkept
      exact ⟨index', step_of_load_after_store (hstores hstore) hmapped hwell' hmemory hfetch'
        hdecode' hf hj hwidth haddr⟩
  · have hfails : ∀ s', step s ≠ (.ok (), s') := by
      intro s' hok
      rw [hrefused] at hok
      cases hok
    exact ⟨iff_of_false (fun ⟨s', hok⟩ => hfails s' hok) hunmapped, fun _ => by rw [hrefused],
      fun _ s' hok => absurd hok (hfails s'), fun _ s' hok => absurd hok (hfails s'),
      fun _ s' hok => absurd hok (hfails s')⟩

/-- A platform before a store over its next instruction, of the word for loading
that same word. -/
def storing : Platform Unit where
  machine :=
    { MemoryRequest.performAll [.allocate 0x1000 16, .write .word 0x1000 0x0062A223]
        (.start (.empty 0x2000) 0x1000) with
      registers := Registers.write (Registers.write (.zero gpr) 5 0x1000) 6 0xFFFFFFFF0042A383 }
  kernel := .start .unsupported () 0

theorem step_accesses_sw :
    storing.Reachable ∧
      storing.machine.memory.fetch storing.machine.pc.current = .ok 0x0062A223 ∧
      Isa.Encodes .sw 0x0062A223 ∧
      ∃ s' index t', step storing = (.ok (), s') ∧
        s'.machine.memory.fetch s'.machine.pc.current = .ok 0x0042A383 ∧
        step s' = (.ok (), t') ∧ Retires .lw index 0x0042A383 0x0042A383 s' t' := by
  have hfetch : storing.machine.memory.fetch storing.machine.pc.current = .ok 0x0062A223 := by
    decide +kernel
  have hencodes : Isa.Encodes .sw (0x0062A223 : Code).toNat := ⟨rfl, rfl⟩
  have hreachable : storing.Reachable := reachable_of_memory_eq 0x2000 0x1000
    [.allocate 0x1000 16, .write .word 0x1000 0x0062A223] (by simp only [storing])
  have haccesses := step_accesses hreachable hfetch hencodes (by decide)
  have hok : (step storing).1 = .ok () := by decide +kernel
  have hstep : step storing = (.ok (), (step storing).2) := by rw [← hok]
  have hnext : (step storing).2.machine.memory.fetch (step storing).2.machine.pc.current =
      .ok 0x0042A383 := by
    decide +kernel
  have haddr : (step storing).2.machine.accessAddress .lw 0x0042A383 =
      storing.machine.accessAddress .sw 0x0062A223 := by
    decide +kernel
  obtain ⟨index, t', hload, hretires⟩ := haccesses.reloads (by decide) _ hstep _ 0x0042A383 .lw
    (by decide) rfl hnext ⟨rfl, rfl⟩ rfl haddr
  have hvalue : Isa.loaded .lw ((storing.machine.registers.read (Isa.rs2
      (0x0062A223 : Code).toNat)).toNat % 2 ^ (8 * Isa.accessed .sw) : Nat) = 0x0042A383 := by
    decide +kernel
  rw [hvalue] at hretires
  exact ⟨hreachable, hfetch, hencodes, _, index, t', hstep, hnext, hload, hretires⟩

end Platform

end RiscvHart
