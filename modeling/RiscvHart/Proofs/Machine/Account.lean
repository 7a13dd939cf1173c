import RiscvHart.Proofs.Kernel.Calls
import RiscvHart.Proofs.Memory.ByteMap
import RiscvHart.Proofs.Register.Bank

/-!
# Accounts kept from events

Whoever sees only the events of a machine can keep an account of a part of it: the registers, the
bytes in memory, the addresses that are mapped. An account is told the truth if each event fits
what is held when it comes, and in the end the account holds what the machine holds.
-/

namespace RiscvHart

/-- How someone who sees only events follows something on the machine. -/
structure Account (α : Type) where
  /-- What is held after an event. -/
  next : α → Event → α
  /-- Whether an event agrees with what is held when it comes. -/
  Fits : α → Event → Prop

namespace Account

variable {α : Type} {a : Account α} {x y z : α} {e : Event} {es fs : List Event}

/-- Events in order agree with what is held from `x` on, and replaying them ends with `y`. -/
def Told (a : Account α) (x : α) : List Event → α → Prop
  | [], y => y = x
  | e :: es, y => a.Fits x e ∧ a.Told (a.next x e) es y

theorem Told.append (h : a.Told x es y) (h' : a.Told y fs z) : a.Told x (es ++ fs) z := by
  induction es generalizing x with
  | nil =>
    obtain rfl : y = x := h
    exact h'
  | cons e es ih => exact ⟨h.1, ih h.2⟩

theorem told_singleton (hfits : a.Fits x e) (hnext : a.next x e = y) : a.Told x [e] y :=
  ⟨hfits, hnext.symm⟩

def registers : Account (Reg → Word) where
  next x e :=
    match e with
    | .registerWrite r new _ => if r = 0 then x else Function.update x r new
    | _ => x
  Fits x e :=
    match e with
    | .registerRead r value => value = x r
    | .registerWrite r _ old => old = x r
    | _ => True

/-- A value is the number that the bytes from an address up spell, least significant first. -/
def Spells (b : Word → Option Byte) (addr v : Word) (w : Width) : Prop :=
  addr.toNat + w.bytes ≤ addressLimit ∧ v.toNat < 256 ^ w.bytes ∧
    ∀ x : Word, x.Within addr w.bytes →
      b x = some (v.extractLsb' (8 * (x.toNat - addr.toNat)) 8)

def bytes : Account (Word → Option Byte) where
  next b e :=
    match e with
    | .memoryWrite addr new _ w => fun x =>
      if x.Within addr w.bytes then some (new.extractLsb' (8 * (x.toNat - addr.toNat)) 8) else b x
    | _ => b
  Fits b e :=
    match e with
    | .memoryRead addr value w => Spells b addr value w
    | .memoryWrite addr _ old w => Spells b addr old w
    | _ => True

def mapped : Account (Word → Prop) where
  next X e :=
    match e with
    | .allocated addr size => fun x => X x ∨ x.Within addr size
    | _ => X
  Fits X e :=
    match e with
    | .allocated addr size =>
      addr.toNat + size ≤ addressLimit ∧ ∀ x : Word, x.Within addr size → ¬X x
    | _ => True

def only (P : Event → Prop) : Account Unit where
  next _ _ := ()
  Fits _ e := P e

theorem told_only_iff {P : Event → Prop} : (only P).Told () es () ↔ ∀ e ∈ es, P e := by
  induction es with
  | nil => simp [Told]
  | cons e es ih => simp [Told, only, ← ih]

end Account

namespace Machine

variable {α : Type} {a : Account α} {view : Machine → α} {m m' : Machine} {e : Event}

/-- The events from one machine to another are all that an account needs to follow. -/
def Tells (a : Account α) (view : Machine → α) (m m' : Machine) : Prop :=
  ∃ es, m'.events = m.events ++ es ∧ a.Told (view m) es (view m')

instance (a : Account α) (view : Machine → α) : IsPreorder Machine (Tells a view) where
  refl m := ⟨[], by simp, rfl⟩
  trans m m' m'' := by
    rintro ⟨es, hes, h⟩ ⟨fs, hfs, h'⟩
    exact ⟨es ++ fs, by rw [hfs, hes, List.append_assoc], h.append h'⟩

theorem Tells.told {es : List Event} (h : Tells a view m m') (hes : m'.events = m.events ++ es) :
    a.Told (view m) es (view m') := by
  obtain ⟨fs, hfs, htold⟩ := h
  rw [hes] at hfs
  rwa [List.append_cancel_left hfs]

theorem tells_of_quiet (hlog : m'.log = m.log) (hview : view m' = view m) : Tells a view m m' :=
  ⟨[], by rw [events, events, hlog, List.append_nil], hview⟩

theorem tells_of_event (hlog : m'.log = m.log.add e) (hfits : a.Fits (view m) e)
    (hnext : a.next (view m) e = view m') : Tells a view m m' :=
  ⟨[e], by rw [events, events, hlog, EventLog.toList_add], Account.told_singleton hfits hnext⟩

theorem events_of_load {w : Width} {addr v : Word} (h : m.load w addr = .ok (v, m')) :
    m' = m.emit (.memoryRead addr v w) ∧ m.memory.peek w addr = .ok v := by
  obtain ⟨value, hpeek, heq⟩ := Except.map_eq_ok_iff.mp h
  cases heq
  exact ⟨rfl, hpeek⟩

theorem events_of_store {w : Width} {addr v : Word} (h : m.store w addr v = .ok m') :
    ∃ old memory, m.memory.peek w addr = .ok old ∧ m.memory.poke w addr (v.cut w) = .ok memory ∧
      m' = { m with memory := memory }.emit (.memoryWrite addr (v.cut w) old w) := by
  obtain ⟨old, hold, h⟩ := Except.bind_eq_ok_iff.mp h
  obtain ⟨memory, hmemory, heq⟩ := Except.bind_eq_ok_iff.mp h
  cases heq
  exact ⟨old, memory, hold, hmemory, rfl⟩

theorem events_of_allocate {addr : Word} {size : Nat} (h : m.allocate addr size = .ok m') :
    m'.registers = m.registers ∧
      m'.log = if size = 0 then m.log else m.log.add (.allocated addr size) := by
  obtain ⟨mapped, -, rfl⟩ := Except.map_eq_ok_iff.mp h
  dsimp only
  split <;> exact ⟨rfl, rfl⟩

theorem events_of_extend {base : Word} {size : Nat} {r : Region}
    (hr : m.memory.regionFrom? base = some r) (hlt : r.size < size)
    (h : m.resize base size = .ok m') :
    m'.registers = m.registers ∧
      m'.log = m.log.add (.allocated (base + BitVec.ofNat 64 r.size) (size - r.size)) := by
  rw [resize_eq_map] at h
  obtain ⟨resized, -, rfl⟩ := Except.map_eq_ok_iff.mp h
  simp only [hr, hlt, if_true]
  exact ⟨rfl, rfl⟩

theorem events_of_release {base : Word} {size : Nat} (h : m.release base = .ok (size, m')) :
    m'.registers = m.registers ∧ m'.log = m.log := by
  obtain ⟨⟨released, rest⟩, -, heq⟩ := Except.map_eq_ok_iff.mp h
  cases heq
  exact ⟨rfl, rfl⟩

def Inner (e : Event) : Prop := e.kind? ≠ some .before ∧ e.kind? ≠ some .after

theorem not_inner_before (pc : Word) (c : Code) : ¬Inner (.before pc c) := fun h => h.1 rfl

theorem not_inner_after (x : Executed) (pc : Word) : ¬Inner (.after x pc) := fun h => h.2 rfl

theorem eq_of_not_inner (h : ¬Inner e) :
    (∃ pc c, e = .before pc c) ∨ ∃ x pc, e = .after x pc := by
  cases e <;> simp_all [Inner, Event.kind?]

/-- What calls that neither map nor unmap memory leave alone until their result is delivered. -/
structure Footing where
  registers : Registers
  log : EventLog
  layout : List (Word × Nat)
  used : Nat
  capacity : Nat

def footing (m : Machine) : Footing :=
  ⟨m.registers, m.log, m.memory.layout, m.memory.used, m.memory.capacity⟩

/-- A relation holds over actions, remarks, and changes of what no event is about. -/
structure Notes (R : Machine → Machine → Prop) : Prop extends Follows R where
  quiet : ∀ m m', m'.registers = m.registers → m'.memory = m.memory → m'.log = m.log → R m m'
  remark : ∀ m r, R m (m.emit (.remarked r))

def Marks (R : Machine → Machine → Prop) : Prop := ∀ m e, ¬Inner e → R m (m.emit e)

/-- A relation holds over what calls do as well, but for unmapping. -/
structure Serves (R : Machine → Machine → Prop) : Prop extends Notes R where
  still : ∀ m m', m'.footing = m.footing → R m m'
  allocate : ∀ m addr size m', m.allocate addr size = .ok m' → R m m'
  extend : ∀ m base size m' r, m.memory.regionFrom? base = some r → r.size < size →
    m.resize base size = .ok m' → R m m'

theorem Serves.answers {R : Machine → Machine → Prop} (h : Serves R) : Answers R where
  writeRegister := h.writeRegister
  remark := h.remark
  mark _ _ _ := h.quiet _ _ rfl rfl rfl
  allocate := h.allocate
  extend := h.extend

/-! ## Registers -/

def held (m : Machine) : Reg → Word := m.registers.read

theorem held_eq (h : m'.registers = m.registers) : m'.held = m.held := by
  rw [held, held, h]

theorem held_writeRegister (m : Machine) (r : Reg) (v : Word) :
    (m.writeRegister r v).held = if r = 0 then m.held else Function.update m.held r v := by
  funext q
  show (m.registers.write r v).read q = _
  rw [Registers.read_write]
  by_cases hr : r = 0
  · rw [if_pos hr, if_neg fun h => h.2 hr]
    rfl
  · by_cases hq : q = r
    · rw [if_neg hr, if_pos ⟨hq, hr⟩, hq, Function.update_self]
    · rw [if_neg hr, if_neg fun h => hq h.1, Function.update_of_ne hq]
      rfl

theorem serves_held : Serves (Tells .registers held) where
  readRegister m r := tells_of_event rfl rfl rfl
  writeRegister m r v := tells_of_event rfl rfl (held_writeRegister m r v).symm
  jump m target := tells_of_quiet rfl rfl
  load m w addr v m' h := by
    obtain ⟨rfl, -⟩ := events_of_load h
    exact tells_of_event rfl trivial rfl
  store m w addr v m' h := by
    obtain ⟨old, memory, -, -, rfl⟩ := events_of_store h
    exact tells_of_event rfl trivial rfl
  quiet m m' hregisters _ hlog := tells_of_quiet hlog (held_eq hregisters)
  remark m r := tells_of_event rfl trivial rfl
  still m m' hsame :=
    tells_of_quiet (congrArg Footing.log hsame) (held_eq (congrArg Footing.registers hsame))
  allocate m addr size m' h := by
    obtain ⟨hregisters, hlog⟩ := events_of_allocate h
    by_cases hsize : size = 0
    · rw [if_pos hsize] at hlog
      exact tells_of_quiet hlog (held_eq hregisters)
    · rw [if_neg hsize] at hlog
      exact tells_of_event hlog trivial (held_eq hregisters).symm
  extend m base size m' r hr hlt h := by
    obtain ⟨hregisters, hlog⟩ := events_of_extend hr hlt h
    exact tells_of_event hlog trivial (held_eq hregisters).symm

theorem marks_held : Marks (Tells .registers held) := by
  intro m e he
  rcases eq_of_not_inner he with ⟨pc, c, rfl⟩ | ⟨x, pc, rfl⟩ <;>
    exact tells_of_event rfl trivial rfl

theorem releases_held : Releases (Tells .registers held) := by
  intro m base size m' h
  obtain ⟨hregisters, hlog⟩ := events_of_release h
  exact tells_of_quiet hlog (held_eq hregisters)

/-! ## Bytes -/

/-- A relation as far as memory is in order, which stays so. -/
def InOrder (R : Machine → Machine → Prop) (m m' : Machine) : Prop :=
  m.memory.WellFormed → m'.memory.WellFormed ∧ R m m'

instance (R : Machine → Machine → Prop) [IsPreorder Machine R] :
    IsPreorder Machine (InOrder R) where
  refl m hwell := ⟨hwell, refl_of R m⟩
  trans m m' m'' h h' hwell := by
    obtain ⟨hwell', hfirst⟩ := h hwell
    obtain ⟨hwell'', hsecond⟩ := h' hwell'
    exact ⟨hwell'', trans_of R hfirst hsecond⟩

theorem spells_of_peek {w : Width} {addr v : Word} (hwell : m.memory.WellFormed)
    (h : m.memory.peek w addr = .ok v) : Account.Spells m.memory.byteMap addr v w := by
  obtain ⟨hlt, hbytes⟩ := hwell.byteMap_peek h
  have hfinish := hwell.finish_of_mapped (hwell.mapped_of_peek h) w.bytes_pos
  exact ⟨hfinish.le, hlt, hbytes⟩

theorem notes_bytes : Notes (InOrder (Tells .bytes fun m => m.memory.byteMap)) where
  readRegister m r hwell := ⟨hwell, tells_of_event rfl trivial rfl⟩
  writeRegister m r v hwell := ⟨hwell, tells_of_event rfl trivial rfl⟩
  jump m target hwell := ⟨hwell, tells_of_quiet rfl rfl⟩
  load m w addr v m' h hwell := by
    obtain ⟨rfl, hpeek⟩ := events_of_load h
    exact ⟨hwell, tells_of_event rfl (spells_of_peek hwell hpeek) rfl⟩
  store m w addr v m' h hwell := by
    obtain ⟨old, memory, hold, hpoke, rfl⟩ := events_of_store h
    refine ⟨hwell.fill hpoke, tells_of_event rfl (spells_of_peek hwell hold) ?_⟩
    funext x
    exact (hwell.byteMap_poke hpoke x).symm
  quiet m m' _ hmemory hlog hwell := by
    refine ⟨hmemory ▸ hwell, tells_of_quiet hlog ?_⟩
    rw [hmemory]
  remark m r hwell := ⟨hwell, tells_of_event rfl trivial rfl⟩

theorem marks_bytes : Marks (InOrder (Tells .bytes fun m => m.memory.byteMap)) := by
  intro m e he hwell
  rcases eq_of_not_inner he with ⟨pc, c, rfl⟩ | ⟨x, pc, rfl⟩
  · exact ⟨hwell, tells_of_event rfl trivial rfl⟩
  · exact ⟨hwell, tells_of_event rfl trivial rfl⟩

/-! ## Mapped addresses -/

def Maps (m : Machine) (x : Word) : Prop := m.memory.byteMap x ≠ none

theorem maps_of_layout_eq (h : m'.memory.layout = m.memory.layout) : m'.Maps = m.Maps := by
  have hnone : ∀ {m m' : Machine}, m'.memory.layout = m.memory.layout → ∀ x,
      m'.memory.byteMap x = none → m.memory.byteMap x = none := by
    intro m m' h x hx
    rw [Memory.byteMap_eq_none_iff] at hx ⊢
    intro r hr
    obtain ⟨s, hs, hbase, hsize⟩ := Memory.exists_region_of_layout_eq h hr
    rw [← hbase, ← hsize]
    exact hx s hs
  funext x
  exact propext (not_congr ⟨hnone h x, hnone h.symm x⟩)

theorem tells_mapped_of_allocate {addr : Word} {size : Nat} (hwell : m.memory.WellFormed)
    (h : m.allocate addr size = .ok m') : Tells .mapped Maps m m' := by
  have hok := memory_of_allocate h
  have hbytes := hwell.byteMap_allocate hok
  obtain ⟨-, hlog⟩ := events_of_allocate h
  by_cases hsize : size = 0
  · rw [if_pos hsize] at hlog
    refine tells_of_quiet hlog (funext fun x => ?_)
    have hempty : ¬x.Within addr size := fun hx => absurd hx.pos (by omega)
    rw [Maps, Maps, (hbytes x).2, if_neg hempty]
  · rw [if_neg hsize] at hlog
    have hfinish := Memory.finish_of_allocate hok
    refine tells_of_event hlog ⟨hfinish.le, fun x hx hmaps => hmaps ((hbytes x).1 hx)⟩ ?_
    funext x
    show (m.Maps x ∨ x.Within addr size) = m'.Maps x
    rw [Maps, Maps, (hbytes x).2]
    by_cases hx : x.Within addr size <;> simp [hx]

theorem tells_mapped_of_extend {base : Word} {size : Nat} {r : Region}
    (hwell : m.memory.WellFormed) (hr : m.memory.regionFrom? base = some r) (hlt : r.size < size)
    (h : m.resize base size = .ok m') : Tells .mapped Maps m m' := by
  have hok := memory_of_resize h
  obtain ⟨hmem, rfl⟩ := hwell.regionFrom?_eq_some_iff.mp hr
  obtain ⟨s, hs, hbase, hbytes, -⟩ := hwell.byteMap_resize hok
  obtain rfl := Region.eq_of_mem_of_base_eq hwell.apart hs hmem hbase
  obtain ⟨-, hlog⟩ := events_of_extend hr hlt h
  have hfinish : s.base.toNat + size < addressLimit := (hwell.inRange.resizings _ _ _ hok).1
  have hplace : (s.base + BitVec.ofNat 64 s.size).toNat = s.base.toNat + s.size :=
    Word.toNat_add_ofNat (by omega)
  -- The added addresses are those of the new size that the old one has not.
  have hadded : ∀ x : Word, x.Within (s.base + BitVec.ofNat 64 s.size) (size - s.size) ↔
      x.Within s.base size ∧ ¬x.Within s.base s.size := by
    intro x
    rw [Word.Within, Word.Within, Word.Within, hplace]
    omega
  have hgrown : ∀ x : Word, x.Within s.base s.size → x.Within s.base size := by
    intro x hx
    exact ⟨hx.1, by have := hx.2; omega⟩
  have hmapped : ∀ x : Word, x.Within s.base s.size → m.Maps x := by
    intro x hx
    rw [Maps, hwell.byteMap_of_mem hmem hx, Region.byte?_of_within hx]
    exact Option.some_ne_none _
  refine tells_of_event hlog ⟨?_, fun x hx => ?_⟩ ?_
  · rw [hplace]
    omega
  · obtain ⟨hnew, hold⟩ := (hadded x).mp hx
    exact fun hmaps => hmaps (hwell.byteMap_of_growth hr hok hnew hold)
  · funext x
    show (m.Maps x ∨ x.Within (s.base + BitVec.ofNat 64 s.size) (size - s.size)) = m'.Maps x
    rw [hadded, Maps, Maps, hbytes]
    by_cases hnew : x.Within s.base size
    · by_cases hold : x.Within s.base s.size
      · simp [hnew, hold]
      · simp [hnew, hold]
    · have hold : ¬x.Within s.base s.size := fun hx => hnew (hgrown x hx)
      simp [hnew, hold]

theorem serves_maps : Serves (InOrder (Tells .mapped Maps)) where
  readRegister m r hwell := ⟨hwell, tells_of_event rfl trivial rfl⟩
  writeRegister m r v hwell := ⟨hwell, tells_of_event rfl trivial rfl⟩
  jump m target hwell := ⟨hwell, tells_of_quiet rfl rfl⟩
  load m w addr v m' h hwell := by
    obtain ⟨rfl, -⟩ := events_of_load h
    exact ⟨hwell, tells_of_event rfl trivial rfl⟩
  store m w addr v m' h hwell := by
    obtain ⟨old, memory, -, hpoke, rfl⟩ := events_of_store h
    obtain ⟨hlayout, -⟩ := Memory.frame_fill hpoke
    exact ⟨hwell.fill hpoke, tells_of_event rfl trivial (maps_of_layout_eq hlayout).symm⟩
  quiet m m' _ hmemory hlog hwell := by
    refine ⟨hmemory ▸ hwell, tells_of_quiet hlog (maps_of_layout_eq ?_)⟩
    rw [hmemory]
  remark m r hwell := ⟨hwell, tells_of_event rfl trivial rfl⟩
  still m m' hsame hwell := by
    have hlayout := congrArg Footing.layout hsame
    refine ⟨hwell.of_layout_eq hlayout (congrArg Footing.used hsame)
      (congrArg Footing.capacity hsame), ?_⟩
    exact tells_of_quiet (congrArg Footing.log hsame) (maps_of_layout_eq hlayout)
  allocate m addr size m' h hwell :=
    ⟨hwell.allocate (memory_of_allocate h), tells_mapped_of_allocate hwell h⟩
  extend m base size m' r hr hlt h hwell :=
    ⟨hwell.resize (memory_of_resize h), tells_mapped_of_extend hwell hr hlt h⟩

theorem marks_maps : Marks (InOrder (Tells .mapped Maps)) := by
  intro m e he hwell
  rcases eq_of_not_inner he with ⟨pc, c, rfl⟩ | ⟨x, pc, rfl⟩
  · exact ⟨hwell, tells_of_event rfl trivial rfl⟩
  · exact ⟨hwell, tells_of_event rfl trivial rfl⟩

/-! ## Events within an instruction -/

theorem tells_inner (hlog : m'.log = m.log.add e) (he : Inner e) :
    Tells (.only Inner) (fun _ => ()) m m' := tells_of_event hlog he rfl

theorem serves_inner : Serves (Tells (.only Inner) fun _ => ()) where
  readRegister m r := tells_inner rfl (by simp [Inner, Event.kind?])
  writeRegister m r v := tells_inner rfl (by simp [Inner, Event.kind?])
  jump m target := tells_of_quiet rfl rfl
  load m w addr v m' h := by
    obtain ⟨rfl, -⟩ := events_of_load h
    exact tells_inner rfl (by simp [Inner, Event.kind?])
  store m w addr v m' h := by
    obtain ⟨old, memory, -, -, rfl⟩ := events_of_store h
    exact tells_inner rfl (by simp [Inner, Event.kind?])
  quiet m m' _ _ hlog := tells_of_quiet hlog rfl
  remark m r := tells_inner rfl (by simp [Inner, Event.kind?])
  still m m' hsame := tells_of_quiet (congrArg Footing.log hsame) rfl
  allocate m addr size m' h := by
    obtain ⟨-, hlog⟩ := events_of_allocate h
    by_cases hsize : size = 0
    · rw [if_pos hsize] at hlog
      exact tells_of_quiet hlog rfl
    · rw [if_neg hsize] at hlog
      exact tells_inner hlog (by simp [Inner, Event.kind?])
  extend m base size m' r hr hlt h := by
    obtain ⟨-, hlog⟩ := events_of_extend hr hlt h
    exact tells_inner hlog (by simp [Inner, Event.kind?])

theorem releases_inner : Releases (Tells (.only Inner) fun _ => ()) := fun _ _ _ _ h =>
  tells_of_quiet (events_of_release h).2 rfl

end Machine

end RiscvHart
