import RiscvHart.Proofs.Kernel.HeapImage

/-!
# The block on the stack of a new process

The block is written word by word, upwards from the stack pointer. Each word can be read back
when all are written, and no address outside the block has another byte than before.
-/

namespace RiscvHart

open Exec

namespace Memory

variable {m m' : Memory} {addr a v : Word} {w : Width} {len k : Nat} {ws : List Word}

theorem Mapped.sub {b : Word} (h : m.Mapped addr len) (hb : b.toNat = addr.toNat + k) {n : Nat}
    (hle : k + n ≤ len) : m.Mapped b n := by
  rcases h with hzero | ⟨r, hr, hstart, hend⟩
  · exact Or.inl (by omega)
  · exact Or.inr ⟨r, hr, by omega, by omega⟩

/-- What is read is told by the bytes at the addresses that are read. -/
theorem WellFormed.peek_congr (h : m.WellFormed) (h' : m'.WellFormed)
    (hlayout : m'.layout = m.layout) (hok : m.peek w addr = .ok v)
    (hbytes : ∀ a : Word, a.Within addr w.bytes → m'.byteMap a = m.byteMap a) :
    m'.peek w addr = .ok v := by
  obtain ⟨bs, hslice, rfl⟩ := Except.map_eq_ok_iff.mp hok
  have hmapped := (mapped_iff_of_layout_eq hlayout).mpr (h.mapped_of_slice hslice)
  obtain ⟨bs', hslice'⟩ := (h'.bounded_slice addr w.bytes).ok_of_mapped hmapped
  obtain ⟨hlen, hold⟩ := h.byteMap_slice hslice
  have hsame := h'.slice_eq hslice' hlen fun a ha => (hbytes a ha).trans (hold a ha)
  rw [peek, hslice', hsame]
  rfl

theorem WellFormed.peek_of_poke_double (h : m.WellFormed) (hok : m.poke .double addr v = .ok m') :
    m'.peek .double addr = .ok v := by
  have h' : m'.WellFormed := h.fill hok
  have hmapped : m.Mapped addr 8 := h.mapped_of_fill hok
  obtain ⟨bs, hslice⟩ := (h'.bounded_slice addr 8).ok_of_mapped
    ((mapped_iff_of_layout_eq (frame_fill hok).1).mpr hmapped)
  have hbytes : bs = v.toBytes .double := by
    refine h'.slice_eq hslice (Word.length_toBytes v .double) fun a ha => ?_
    rw [h.byteMap_fill hok, Word.length_toBytes, Width.bytes, if_pos ha]
  rw [peek, Width.bytes, hslice, hbytes]
  refine congrArg Except.ok ?_
  rw [Word.ofBytes, Word.toBytes, LittleEndian.ofBytes_toBytes]
  simp [Width.bytes]

/-- The words `ws` have been written one after the other from `addr` on. -/
structure WordsPut (m m' : Memory) (addr : Word) (ws : List Word) : Prop where
  wellFormed : m'.WellFormed
  layout : m'.layout = m.layout
  word : ∀ i (h : i < ws.length), m'.peek .double (addr + BitVec.ofNat 64 (8 * i)) = .ok ws[i]
  rest : ∀ a : Word, ¬a.Within addr (8 * ws.length) → m'.byteMap a = m.byteMap a
  regions : ∀ r ∈ m.regions,
    (∀ a : Word, a.Within addr (8 * ws.length) → ¬a.Within r.base r.size) → r ∈ m'.regions

theorem WordsPut.cons {m₁ : Memory} (h : m.WellFormed) (hroom : addr.toNat + 8 < addressLimit)
    (hpoke : m.poke .double addr v = .ok m₁) (hrest : m₁.WordsPut m' (addr + 8) ws) :
    m.WordsPut m' addr (v :: ws) := by
  have hnext : (addr + 8).toNat = addr.toNat + 8 := Word.toNat_add_ofNat hroom
  have hlength : 8 * (v :: ws).length = 8 + 8 * ws.length := by
    rw [List.length_cons]
    omega
  have hout : ∀ a : Word, ¬a.Within addr 8 → m₁.byteMap a = m.byteMap a := fun a ha => by
    rw [h.byteMap_poke hpoke, Width.bytes, if_neg ha]
  constructor
  · exact hrest.wellFormed
  · exact hrest.layout.trans (frame_fill hpoke).1
  · intro i hi
    cases i with
    | zero =>
      refine WellFormed.peek_congr (h.fill hpoke) hrest.wellFormed hrest.layout ?_ fun a ha => ?_
      · simpa using h.peek_of_poke_double hpoke
      · refine hrest.rest a fun hlater => ?_
        have hlow := hlater.1
        have hhigh := ha.2
        simp only [Nat.mul_zero, BitVec.add_zero, Width.bytes] at hhigh
        omega
    | succ i =>
      have hword := hrest.word i (Nat.lt_of_succ_lt_succ hi)
      have haddr : addr + BitVec.ofNat 64 (8 * (i + 1)) = addr + 8 + BitVec.ofNat 64 (8 * i) := by
        rw [Nat.mul_succ, Nat.add_comm, BitVec.ofNat_add, BitVec.add_assoc]
        rfl
      rw [haddr]
      exact hword
  · intro a ha
    have hlater : ¬a.Within (addr + 8) (8 * ws.length) := fun hin =>
      ha ⟨by have := hin.1; omega, by have := hin.2; omega⟩
    rw [hrest.rest a hlater, hout a]
    exact fun hin => ha ⟨hin.1, by have := hin.2; omega⟩
  · intro r hr hclear
    refine hrest.regions r (h.mem_of_fill hpoke hr fun _ => ?_) fun a hin => ?_
    · exact hclear addr ⟨Nat.le_refl _, by omega⟩
    · exact hclear a ⟨by have := hin.1; omega, by have := hin.2; omega⟩

end Memory

namespace Bootstrap

variable {m : Machine} {config : Config} {addr : Word} {ws : List Word}

theorem putWords_cons_apply {place w : Word} {i : Nat} (hplace : place.toNat = addr.toNat + 8 * i)
    (m : Machine) :
    putWords addr i (w :: ws) m =
      (attempt (fun m : Machine =>
          (m.memory.poke .double place w).map fun memory => ((), { m with memory := memory })) >>=
        fun _ => putWords addr (i + 1) ws) m := by
  have hlimit : place.toNat < addressLimit := place.isLt
  have hoffset : (BitVec.ofNat 64 (8 * i)).toNat = 8 * i := by
    rw [BitVec.toNat_ofNat]
    exact Nat.mod_eq_of_lt (by unfold addressLimit at hlimit; omega)
  have heq : addr + BitVec.ofNat 64 (8 * i) = place := by
    refine BitVec.eq_of_toNat_eq ?_
    rw [BitVec.toNat_add, hoffset, hplace]
    exact Nat.mod_eq_of_lt (by unfold addressLimit at hlimit; omega)
  rw [putWords, checkedAdd_bind_apply _ _ (by omega), heq]

theorem putWords_wordsPut {place : Word} {i : Nat} (h : m.memory.WellFormed)
    (hplace : place.toNat = addr.toNat + 8 * i)
    (hmapped : m.memory.Mapped place (8 * ws.length)) :
    ∃ memory, putWords addr i ws m = (.ok (), { m with memory := memory }) ∧
      m.memory.WordsPut memory place ws := by
  induction ws generalizing place i m with
  | nil =>
    exact ⟨m.memory, rfl, h, rfl, fun i hi => absurd hi (Nat.not_lt_zero i), fun _ _ => rfl,
      fun _ hr _ => hr⟩
  | cons w rest ih =>
    rw [List.length_cons] at hmapped
    have hroom : place.toNat + 8 * (rest.length + 1) < addressLimit :=
      h.finish_of_mapped hmapped (by omega)
    have hnext : (place + 8).toNat = place.toNat + 8 :=
      Word.toNat_add_ofNat (n := 8) (by omega)
    have hhere : m.memory.Mapped place 8 := hmapped.sub (Nat.add_zero _).symm (by omega)
    obtain ⟨m₁, hpoke⟩ := (h.bounded_poke .double place w).ok_of_mapped hhere
    have hlater : m.memory.Mapped (place + 8) (8 * rest.length) := hmapped.sub hnext (by omega)
    have hplace' : (place + 8).toNat = addr.toNat + 8 * (i + 1) := by omega
    obtain ⟨m₂, hrun, hput⟩ := ih (m := { m with memory := m₁ }) (h.fill hpoke) hplace'
      ((Memory.mapped_iff_of_layout_eq (Memory.frame_fill hpoke).1).mpr hlater)
    refine ⟨m₂, ?_, hput.cons h (by omega) hpoke⟩
    have hfirst : attempt (fun m : Machine =>
        (m.memory.poke .double place w).map fun memory => ((), { m with memory := memory })) m =
        (.ok (), { m with memory := m₁ }) := by
      rw [attempt_eq_ok_iff, hpoke]
      rfl
    rw [putWords_cons_apply hplace, bind_ok hfirst, hrun]

def blockSize (words : Nat) : Nat := (8 * words + 127) / 128 * 128

theorem blockSize_ge (words : Nat) : 8 * words ≤ blockSize words := by
  unfold blockSize
  omega

theorem blockSize_mod (words : Nat) : blockSize words % 16 = 0 := by
  unfold blockSize
  omega

/-- The block is refused with nothing written, or the stack has room for it and the stack pointer
is on its first word. -/
theorem putBlock_cases (hwell : m.memory.WellFormed)
    (hstack : config.stackSize.toNat ≤ m.memory.sizeFrom config.stackStart)
    (hend : config.stackStart.toNat + config.stackSize.toNat < addressLimit) (block : List Word) :
    (∃ e, putBlock config (config.stackStart + config.stackSize) block m = (.error e, m)) ∨
      ∃ sp memory,
        putBlock config (config.stackStart + config.stackSize) block m =
          (.ok (), { m with memory := memory }.setRegister Reg.sp sp) ∧
        config.stackStart.toNat ≤ sp.toNat ∧
        sp.toNat + blockSize block.length = config.stackStart.toNat + config.stackSize.toNat ∧
        m.memory.WordsPut memory sp block := by
  have hend' : config.stackStart.toNat + config.stackSize.toNat < 2 ^ 64 := hend
  have hge := blockSize_ge block.length
  unfold putBlock
  dsimp only
  split
  · exact Or.inl ⟨_, rfl⟩
  next hcount =>
  have hcount' : 8 * block.length < 2 ^ 64 := Nat.lt_of_not_le hcount
  have hlength : (BitVec.ofNat 64 (8 * block.length)).toNat = 8 * block.length := by
    rw [BitVec.toNat_ofNat]
    omega
  have hup : Word.alignUp? (BitVec.ofNat 64 (8 * block.length)) stackAlign =
      if blockSize block.length < addressLimit then some (BitVec.ofNat 64 (blockSize block.length))
      else none := by
    rw [Word.alignUp?, hlength]
    rfl
  by_cases hlarge : addressLimit ≤ blockSize block.length
  · rw [hup, if_neg (Nat.not_lt.mpr hlarge)]
    exact Or.inl ⟨_, rfl⟩
  have hfits : blockSize block.length < 2 ^ 64 := Nat.lt_of_not_le hlarge
  rw [hup, if_pos (Nat.lt_of_not_le hlarge)]
  dsimp only
  have hblock : (BitVec.ofNat 64 (blockSize block.length)).toNat = blockSize block.length := by
    rw [BitVec.toNat_ofNat]
    omega
  rw [hblock]
  split
  · exact Or.inl ⟨_, rfl⟩
  next hroom =>
  have hsp : (config.stackStart + config.stackSize -
      BitVec.ofNat 64 (blockSize block.length)).toNat =
      config.stackStart.toNat + (config.stackSize.toNat - blockSize block.length) := by
    rw [BitVec.toNat_sub, BitVec.toNat_add, hblock]
    omega
  have hmapped : m.memory.Mapped _ (8 * block.length) :=
    hwell.mapped_of_sizeFrom hsp (by omega)
  obtain ⟨memory, hrun, hput⟩ := putWords_wordsPut hwell (i := 0) (Nat.add_zero _).symm hmapped
  refine Or.inr ⟨_, memory, ?_, by omega, by omega, hput⟩
  rw [checkedSub_bind_apply _ _ (by rw [BitVec.toNat_add, hblock]; omega), bind_ok hrun]
  rfl

end Bootstrap

end RiscvHart
