import RiscvHart.Proofs.Program.Loading

/-!
# Loading executables

What a file says of its segments stands in its program headers. When the file is loaded, memory
gains the pages of those segments that are to be in memory, with the bytes that the file has for
them.
-/

namespace RiscvHart

namespace ProgramHeader

variable {h : ProgramHeader} {file : List Byte} {a : Word}

def IsLoadable (h : ProgramHeader) : Prop := h.kind = 1 ∧ h.memSize ≠ 0

instance (h : ProgramHeader) : Decidable h.IsLoadable := inferInstanceAs (Decidable (_ ∧ _))

/-- The bytes of the segment are in the file, and the segment has room for them. -/
def InFile (h : ProgramHeader) (file : List Byte) : Prop :=
  h.offset + h.fileSize ≤ file.length ∧ h.fileSize ≤ h.memSize

def EndFits (h : ProgramHeader) : Prop :=
  (h.vaddr.toNat + h.memSize + 4095) / 4096 * 4096 < addressLimit

def OnPages (h : ProgramHeader) (a : Word) : Prop :=
  h.vaddr.toNat / 4096 * 4096 ≤ a.toNat ∧ a.toNat < (h.vaddr.toNat + h.memSize + 4095) / 4096 * 4096

def byte? (h : ProgramHeader) (file : List Byte) (a : Word) : Option Byte :=
  if a.Within h.vaddr h.fileSize then file[h.offset + (a.toNat - h.vaddr.toNat)]? else none

def place (h : ProgramHeader) : SegmentPlace := ⟨h.vaddr, h.fileSize, h.memSize⟩

def segment (h : ProgramHeader) (file : List Byte) : Segment :=
  ⟨h.vaddr, h.memSize, (file.drop h.offset).take h.fileSize⟩

theorem length_data (hin : h.InFile file) : (h.segment file).data.length = h.fileSize := by
  have hend := hin.1
  rw [segment, List.length_take, List.length_drop]
  omega

theorem sized_segment (hload : h.IsLoadable) (hin : h.InFile file) : (h.segment file).Sized := by
  refine ⟨Nat.pos_of_ne_zero hload.2, ?_⟩
  rw [length_data hin]
  exact hin.2

theorem place_segment (hin : h.InFile file) : (h.segment file).place = h.place := by
  rw [Segment.place, length_data hin]
  rfl

theorem byte?_segment (hin : h.InFile file) (a : Word) :
    (h.segment file).byte? a = h.byte? file a := by
  rw [Segment.byte?, byte?, length_data hin]
  refine ite_congr rfl (fun ha => ?_) fun _ => rfl
  have hlow := ha.1
  have hhigh := ha.2
  show ((file.drop h.offset).take h.fileSize)[a.toNat - h.vaddr.toNat]? = _
  rw [List.getElem?_take_of_lt (by omega), List.getElem?_drop]

end ProgramHeader

namespace Elf

variable {file : List Byte} {pos : Nat} {positions : List Nat} {h : ProgramHeader}
  {found : List Segment} {x : Executable}

def loadableAt (file : List Byte) (positions : List Nat) : List ProgramHeader :=
  (positions.map (header file)).filter fun h => h.IsLoadable

def loadable (file : List Byte) : List ProgramHeader := loadableAt file (programHeaders file)

def ReadableAt (file : List Byte) (pos : Nat) : Prop :=
  56 ≤ number file 54 2 ∧ pos + number file 54 2 ≤ file.length ∧ pos % 8 = 0

/-- The header of the file and all its program headers can be read. -/
structure Readable (file : List Byte) : Prop where
  fileHeader : 64 ≤ file.length
  programHeaders : ∀ pos ∈ programHeaders file, ReadableAt file pos

theorem mem_loadableAt (hh : h ∈ loadableAt file positions) : h.IsLoadable := by
  simpa using (List.mem_filter.mp hh).2

theorem headerAt_of_readable (hread : ReadableAt file pos) :
    headerAt file pos = .ok (header file pos) := by
  obtain ⟨hlength, hend, hgrain⟩ := hread
  exact if_neg (not_or.mpr ⟨Nat.not_lt.mpr hlength, not_or.mpr ⟨Nat.not_lt.mpr hend,
    not_not_intro hgrain⟩⟩)

theorem headerAt_of_unreadable (hread : ¬ReadableAt file pos) :
    headerAt file pos = .error .unreadableHeader := by
  refine if_pos ?_
  by_contra hnone
  obtain ⟨hlength, hrest⟩ := not_or.mp hnone
  obtain ⟨hend, hgrain⟩ := not_or.mp hrest
  exact hread ⟨Nat.not_lt.mp hlength, Nat.not_lt.mp hend, not_not.mp hgrain⟩

/-- A segment is refused, left out, or taken. -/
theorem segmentOf?_cases (file : List Byte) (h : ProgramHeader) :
    (∃ e, segmentOf? file h = .error e) ∨
    (¬h.IsLoadable ∧ segmentOf? file h = .ok none) ∨
    (h.IsLoadable ∧ h.InFile file ∧ segmentOf? file h = .ok (some (h.segment file))) := by
  unfold segmentOf? ProgramHeader.kind?
  by_cases hkind : isKnownKind h.kind
  · rw [if_pos hkind]
    dsimp only
    split_ifs with hskip hbad
    · exact Or.inr (Or.inl ⟨fun hload => hskip.elim (· hload.1) hload.2, rfl⟩)
    · exact Or.inl ⟨_, rfl⟩
    · rw [not_or, not_not] at hskip
      rw [not_or, Nat.not_lt, Nat.not_lt] at hbad
      exact Or.inr (Or.inr ⟨hskip, hbad, rfl⟩)
  · rw [if_neg hkind]
    exact Or.inl ⟨_, rfl⟩

theorem segment?_cases (file : List Byte) (pos : Nat) :
    (¬ReadableAt file pos ∧ segment? file pos = .error (.crash .unreadableHeader)) ∨
    (∃ e, segment? file pos = .error (.error e)) ∨
    (¬(header file pos).IsLoadable ∧ segment? file pos = .ok none) ∨
    ((header file pos).IsLoadable ∧ (header file pos).InFile file ∧
      segment? file pos = .ok (some ((header file pos).segment file))) := by
  unfold segment?
  by_cases hread : ReadableAt file pos
  · rw [headerAt_of_readable hread]
    dsimp only
    rcases segmentOf?_cases file (header file pos) with
      ⟨e, hone⟩ | ⟨hskip, hone⟩ | ⟨hload, hin, hone⟩
    all_goals rw [hone]
    · exact Or.inr (Or.inl ⟨e, rfl⟩)
    · exact Or.inr (Or.inr (Or.inl ⟨hskip, rfl⟩))
    · exact Or.inr (Or.inr (Or.inr ⟨hload, hin, rfl⟩))
  · rw [headerAt_of_unreadable hread]
    exact Or.inl ⟨hread, rfl⟩

theorem loadableAt_cons_of_loadable (h : (header file pos).IsLoadable) :
    loadableAt file (pos :: positions) = header file pos :: loadableAt file positions := by
  rw [loadableAt, List.map_cons, List.filter_cons_of_pos (by simpa using h)]
  rfl

theorem loadableAt_cons_of_not_loadable (h : ¬(header file pos).IsLoadable) :
    loadableAt file (pos :: positions) = loadableAt file positions := by
  rw [loadableAt, List.map_cons, List.filter_cons_of_neg (by simpa using h)]
  rfl

theorem segments_ok (hok : segments file positions = .ok found) :
    found = (loadableAt file positions).map (·.segment file) ∧
      ∀ h ∈ loadableAt file positions, h.InFile file := by
  induction positions generalizing found with
  | nil =>
    cases hok
    exact ⟨rfl, fun h hh => absurd hh List.not_mem_nil⟩
  | cons pos rest ih =>
    rw [segments] at hok
    rcases segment?_cases file pos with ⟨-, hone⟩ | ⟨e, hone⟩ | ⟨hskip, hone⟩ | ⟨hload, hin, hone⟩
    all_goals rw [hone] at hok
    · cases hok
    · cases hok
    · rw [loadableAt_cons_of_not_loadable hskip]
      exact ih hok
    · obtain ⟨others, hothers, rfl⟩ := Except.map_eq_ok_iff.mp hok
      obtain ⟨rfl, hall⟩ := ih hothers
      rw [loadableAt_cons_of_loadable hload]
      exact ⟨rfl, List.forall_mem_cons.mpr ⟨hin, hall⟩⟩

/-- Headers that can be read are taken or refused. -/
theorem segments_of_readable (hread : ∀ pos ∈ positions, ReadableAt file pos) :
    (∃ found, segments file positions = .ok found) ∨
      ∃ e, segments file positions = .error (.error e) := by
  induction positions with
  | nil => exact Or.inl ⟨[], rfl⟩
  | cons pos rest ih =>
    obtain ⟨hpos, hrest⟩ := List.forall_mem_cons.mp hread
    rw [segments]
    rcases segment?_cases file pos with ⟨hnot, -⟩ | ⟨e, hone⟩ | ⟨-, hone⟩ | ⟨-, -, hone⟩
    · exact absurd hpos hnot
    all_goals rw [hone]
    · exact Or.inr ⟨e, rfl⟩
    · exact ih hrest
    · rcases ih hrest with ⟨others, hothers⟩ | ⟨e, herror⟩
      · exact Or.inl ⟨_, by rw [hothers]; rfl⟩
      · exact Or.inr ⟨e, by rw [herror]; rfl⟩

theorem read_ok (hok : read file = .ok x) :
    x = ⟨BitVec.ofNat 64 (number file 24 8), (loadable file).map (·.segment file)⟩ ∧
      ∀ h ∈ loadable file, h.InFile file := by
  unfold read at hok
  split at hok
  · cases hok
  split at hok
  · cases hok
  obtain ⟨found, hfound, rfl⟩ := Except.map_eq_ok_iff.mp hok
  obtain ⟨rfl, hall⟩ := segments_ok hfound
  exact ⟨rfl, hall⟩

theorem read_of_readable (hread : Readable file) :
    (∃ x, read file = .ok x) ∨ ∃ e, read file = .error (.error e) := by
  unfold read
  split
  · next e _ => exact Or.inr ⟨e, rfl⟩
  have hopen : openFile file = .ok () := if_neg (Nat.not_lt.mpr hread.fileHeader)
  rw [hopen]
  dsimp only
  rcases segments_of_readable hread.programHeaders with ⟨found, hfound⟩ | ⟨e, herror⟩
  · exact Or.inl ⟨_, by rw [hfound]; rfl⟩
  · exact Or.inr ⟨e, by rw [herror]; rfl⟩

theorem sized_of_read (hok : read file = .ok x) : ∀ s ∈ x.segments, s.Sized := by
  obtain ⟨rfl, hall⟩ := read_ok hok
  intro s hs
  obtain ⟨h, hh, rfl⟩ := List.mem_map.mp hs
  exact ProgramHeader.sized_segment (mem_loadableAt hh) (hall h hh)

/-- The byte that a file has for an address: that of the last segment that has one there, or else
zero. -/
def content (file : List Byte) (a : Word) : Byte :=
  ((loadable file).reverse.findSome? (·.byte? file a)).getD 0

theorem findSome?_segment {hs : List ProgramHeader} (hall : ∀ h ∈ hs, h.InFile file) (a : Word) :
    (hs.map (·.segment file)).findSome? (·.byte? a) = hs.findSome? (·.byte? file a) := by
  induction hs with
  | nil => rfl
  | cons h rest ih =>
    obtain ⟨hin, hrest⟩ := List.forall_mem_cons.mp hall
    rw [List.map_cons, List.findSome?_cons, List.findSome?_cons, ih hrest,
      ProgramHeader.byte?_segment hin]

end Elf

namespace Memory

variable {m : Memory} {file : List Byte} {image : Image} {x : Executable}

/-- A file has been loaded into the memory that was `m`, which is `after` then. -/
structure LoadedElf (m : Memory) (file : List Byte) (image : Image) (after : Memory) : Prop where
  entry : image.entry = BitVec.ofNat 64 (Elf.number file 24 8)
  segments : image.segments = (Elf.loadable file).map ProgramHeader.place
  inFile : ∀ h ∈ Elf.loadable file, h.InFile file
  covered : ∀ h ∈ Elf.loadable file, ∃ r ∈ after.regions, r.Covers h.vaddr h.memSize
  pages : ∀ a, (∃ h ∈ Elf.loadable file, h.OnPages a) ↔
    m.byteMap a = none ∧ after.byteMap a ≠ none
  content : ∀ a, m.byteMap a = none → after.byteMap a ≠ none →
    after.byteMap a = some (Elf.content file a)
  bytes : ∀ a b, m.byteMap a = some b → after.byteMap a = some b
  regions : m.Outlasts after

theorem Loaded.loadedElf {after : Memory} (hread : Elf.read file = .ok x)
    (h : m.Loaded after x.segments) :
    m.LoadedElf file ⟨x.entry, x.segments.map Segment.place⟩ after := by
  obtain ⟨rfl, hall⟩ := Elf.read_ok hread
  constructor
  · rfl
  · rw [List.map_map]
    exact List.map_congr_left fun h hh => ProgramHeader.place_segment (hall h hh)
  · exact hall
  · exact fun h' hh => h.covered _ (List.mem_map_of_mem hh)
  · intro a
    rw [← h.pages a]
    simp only [List.mem_map, exists_exists_and_eq_and]
    rfl
  · intro a hfree hmem
    rw [h.bytes a hfree hmem, ← List.map_reverse, Elf.findSome?_segment]
    · rfl
    · exact fun h hh => hall h (List.mem_reverse.mp hh)
  · exact fun a b hb => h.kept.byteMap h.wellFormed hb
  · exact h.kept

theorem fits_of_pagesAre {pages : List Span} (hread : Elf.read file = .ok x)
    (hpages : Segment.PagesAre x.segments pages) :
    ∀ h ∈ Elf.loadable file, h.InFile file ∧ h.EndFits := by
  obtain ⟨rfl, hall⟩ := Elf.read_ok hread
  intro h hh
  obtain ⟨p, -, hp⟩ := hpages.exists_pages (List.mem_map_of_mem hh)
  obtain ⟨-, hfinish, hlimit⟩ := Span.pages?_eq_some_iff.mp hp
  rw [hfinish] at hlimit
  exact ⟨hall h hh, hlimit⟩

theorem loadElf_of_read_ok (hread : Elf.read file = .ok x) :
    m.loadElf file = m.loadExecutable x := by
  rw [loadElf, hread]

theorem loadElf_of_read_error {e : Failure LoadError} (hread : Elf.read file = .error e) :
    m.loadElf file = ⟨m, [], .error e⟩ := by
  rw [loadElf, hread]

/-- A file that is loaded puts its segments into memory and nothing else. A file whose headers
can be read is loaded or refused, and refused if one of its segments cannot be had in full. -/
theorem loadElf_segments (hm : m.WellFormed) (file : List Byte) :
    (∀ image, (m.loadElf file).result = .ok image →
      m.LoadedElf file image (m.loadElf file).memory) ∧
    (Elf.Readable file →
      (∀ c, (m.loadElf file).result ≠ .error (.crash c)) ∧
      ((∃ h ∈ Elf.loadable file, ¬h.InFile file ∨ ¬h.EndFits) →
        ∃ e, (m.loadElf file).result = .error (.error e))) := by
  rcases hread : Elf.read file with e | x
  · rw [loadElf_of_read_error hread]
    refine ⟨fun image hok => (by cases hok), fun hreadable => ?_⟩
    rcases Elf.read_of_readable hreadable with ⟨x, hok⟩ | ⟨e', herror⟩
    · rw [hread] at hok
      cases hok
    · rw [hread] at herror
      cases herror
      exact ⟨fun c => nofun, fun _ => ⟨e', rfl⟩⟩
  · rw [loadElf_of_read_ok hread]
    rcases hm.loadExecutable_cases (Elf.sized_of_read hread) with
      ⟨e, herror, -, -⟩ | ⟨pages, hpages, ⟨e, -, herror, -⟩ | ⟨-, hok, hloaded⟩⟩
    · rw [herror]
      exact ⟨fun image h => (by cases h), fun _ => ⟨fun c => nofun, fun _ => ⟨e, rfl⟩⟩⟩
    · rw [herror]
      exact ⟨fun image h => (by cases h), fun _ => ⟨fun c => nofun, fun _ => ⟨_, rfl⟩⟩⟩
    · rw [hok]
      refine ⟨fun image h => ?_, fun _ => ⟨fun c => nofun, fun hbad => ?_⟩⟩
      · cases h
        exact hloaded.loadedElf hread
      · obtain ⟨h, hh, hbad⟩ := hbad
        obtain ⟨hin, hfits⟩ := fits_of_pagesAre hread hpages h hh
        exact absurd hbad (not_or.mpr ⟨not_not_intro hin, not_not_intro hfits⟩)

end Memory

/-! ## A small file -/

namespace Elf

open LittleEndian

def fileHeaderBytes (entry count : Nat) : List Byte :=
  magic ++ [2, 1, 1] ++ List.replicate 9 0 ++ toBytes 2 2 ++ toBytes machineRiscv 2 ++
    toBytes 1 4 ++ toBytes entry 8 ++ toBytes 64 8 ++ toBytes 0 8 ++ toBytes 0 4 ++
    toBytes 64 2 ++ toBytes 56 2 ++ toBytes count 2 ++ toBytes 64 2 ++ toBytes 0 4

def programHeaderBytes (offset vaddr fileSize memSize : Nat) : List Byte :=
  toBytes kindLoad 4 ++ toBytes 5 4 ++ toBytes offset 8 ++ toBytes vaddr 8 ++ toBytes vaddr 8 ++
    toBytes fileSize 8 ++ toBytes memSize 8 ++ toBytes Span.pageSize 8

def hello : List Byte :=
  fileHeaderBytes 0x10000 2 ++ programHeaderBytes 0xB0 0x10000 4 4 ++
    programHeaderBytes 0xB4 0x20000 5 0x25 ++ toBytes 0x6F 4 ++ [0x68, 0x65, 0x6C, 0x6C, 0x6F]

end Elf

namespace Memory

/-- The file is loaded; without its last byte it is refused. -/
theorem loadElf_hello :
    (empty 0x10000000).WellFormed ∧ Elf.Readable Elf.hello ∧ Elf.Readable Elf.hello.dropLast ∧
      (∃ image, ((empty 0x10000000).loadElf Elf.hello).result = .ok image ∧
        (empty 0x10000000).LoadedElf Elf.hello image
          ((empty 0x10000000).loadElf Elf.hello).memory) ∧
      ∃ e, ((empty 0x10000000).loadElf Elf.hello.dropLast).result = .error (.error e) := by
  have hwell : (empty 0x10000000).WellFormed := wellFormed_emptyOver _ _
  have hread : Elf.Readable Elf.hello :=
    ⟨by decide +kernel, by unfold Elf.ReadableAt; decide +kernel⟩
  have hcut : Elf.Readable Elf.hello.dropLast :=
    ⟨by decide +kernel, by unfold Elf.ReadableAt; decide +kernel⟩
  have hok : ((empty 0x10000000).loadElf Elf.hello).result =
      .ok ⟨0x10000, [⟨0x10000, 4, 4⟩, ⟨0x20000, 5, 0x25⟩]⟩ := by cbv
  have hbad : ∃ h ∈ Elf.loadable Elf.hello.dropLast, ¬h.InFile Elf.hello.dropLast ∨ ¬h.EndFits := by
    unfold ProgramHeader.InFile
    exact ⟨Elf.header Elf.hello.dropLast 120, by decide +kernel, Or.inl (by decide +kernel)⟩
  refine ⟨hwell, hread, hcut, ⟨_, hok, (loadElf_segments hwell Elf.hello).1 _ hok⟩, ?_⟩
  exact ((loadElf_segments hwell Elf.hello.dropLast).2 hcut).2 hbad

end Memory

end RiscvHart
