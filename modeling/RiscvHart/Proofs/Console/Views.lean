import RiscvHart.Console.Session
import RiscvHart.Proofs.Kernel.PathNames

/-!
# What a console shows of memory

A console shows bytes in lines of sixteen, and instructions in a list of ten around the program
counter. What it shows is told by the bytes of the memory. Both walk upwards by sums of addresses
that are checked: near the end of the addresses the answer breaks off.
-/

namespace RiscvHart

namespace Memory

variable {m : Memory}

/-- What there is at an address for an instruction: a word with the bytes there, from the lowest
up, or nothing if they do not lie in one region. -/
def Tells (m : Memory) (addr : Word) : Option Code → Prop
  | some c => m.Mapped addr 4 ∧ ∀ a : Word, a.Within addr 4 →
      m.byteMap a = some (c.extractLsb' (8 * (a.toNat - addr.toNat)) 8)
  | none => ¬m.Mapped addr 4

def codeAt (m : Memory) (addr : Word) : Option Code := (m.fetch addr).toOption

theorem WellFormed.tells_codeAt (h : m.WellFormed) (addr : Word) :
    m.Tells addr (m.codeAt addr) := by
  rcases h.bounded_fetch addr with ⟨hmapped, c, hc⟩ | ⟨hunmapped, herror⟩
  · rw [codeAt, hc]
    exact ⟨hmapped, fun a ha => h.byteMap_fetch hc ha⟩
  · rw [codeAt, herror]
    exact hunmapped

end Memory

namespace Console

/-! ## Bytes -/

def byteText : Option Byte → String
  | some b => Numeral.hexPadded 2 b.toNat ++ " "
  | none => "** "

def rowCount (n : Nat) : Nat := (n + 15) / 16

def rowIndices (n k : Nat) : List Nat := List.range' (16 * k) (min 16 (n - 16 * k))

def byteAt (m : Memory) (addr : Word) (i : Nat) : String :=
  byteText (m.byteMap (addr + BitVec.ofNat 64 i))

def row (m : Memory) (addr : Word) (n k : Nat) : String :=
  showAddress (addr + BitVec.ofNat 64 (16 * k)) ++ ": " ++
    String.join ((rowIndices n k).map (byteAt m addr))

def dump (m : Memory) (addr : Word) (n : Nat) : String :=
  String.join ((List.range (rowCount n)).map fun k => row m addr n k ++ "\n")

/-- What comes before byte `i` in the text: its address where a line begins. -/
def heading (addr : Word) (i : Nat) : String :=
  if i % 16 = 0 then
    (if i = 0 then "" else "\n") ++ showAddress (addr + BitVec.ofNat 64 i) ++ ": "
  else ""

def piece (m : Memory) (addr : Word) (i : Nat) : String :=
  heading addr i ++ byteAt m addr i

variable {m : Memory} {addr : Word} {n k : Nat}

theorem rowIndices_of_last (h : n ≤ 16 * (k + 1)) :
    rowIndices n k = List.range' (16 * k) (n - 16 * k) := by
  rw [rowIndices, Nat.min_eq_right (by omega)]

theorem range'_of_not_last (h : 16 * (k + 1) < n) :
    List.range' (16 * k) (n - 16 * k) =
      rowIndices n k ++ List.range' (16 * (k + 1)) (n - 16 * (k + 1)) := by
  have hlength : n - 16 * k = 16 + (n - 16 * (k + 1)) := by omega
  rw [rowIndices, Nat.min_eq_left (by omega), hlength, Nat.mul_succ,
    List.range'_append_1]

/-- Each byte is in one line. -/
theorem flatMap_rowIndices (n : Nat) :
    (List.range (rowCount n)).flatMap (rowIndices n) = List.range n := by
  -- From line `k` on, by induction on the number of lines that are left.
  have hrows : ∀ q k, n ≤ 16 * (k + q) → 16 * (k + q) < n + 16 →
      (List.range' k q).flatMap (rowIndices n) = List.range' (16 * k) (n - 16 * k) := by
    intro q
    induction q with
    | zero =>
      intro k hle _
      rw [Nat.sub_eq_zero_of_le (by omega)]
      rfl
    | succ q ih =>
      intro k hle hlt
      rw [List.range'_succ, List.flatMap_cons, ih (k + 1) (by omega) (by omega)]
      by_cases hlast : n ≤ 16 * (k + 1)
      · rw [rowIndices_of_last hlast, Nat.sub_eq_zero_of_le hlast,
          List.range'_zero, List.append_nil]
      · rw [range'_of_not_last (Nat.lt_of_not_le hlast)]
  have hall := hrows (rowCount n) 0 (by unfold rowCount; omega) (by unfold rowCount; omega)
  rwa [← List.range_eq_range', Nat.mul_zero, Nat.sub_zero, ← List.range_eq_range'] at hall

theorem join_flatMap {α : Type} (l : List α) (f : α → List String) :
    String.join (l.flatMap f) = String.join (l.map fun a => String.join (f a)) := by
  induction l with
  | nil => rfl
  | cons a rest ih =>
    rw [List.flatMap_cons, String.join_append, ih, List.map_cons, String.join_cons]

/-- An end before each line but the first and one after the last are an end after each line. -/
theorem join_separated (f : Nat → String) (q : Nat) :
    String.join ((List.range (q + 1)).map fun k => (if k = 0 then "" else "\n") ++ f k) ++ "\n" =
      String.join ((List.range (q + 1)).map fun k => f k ++ "\n") := by
  induction q with
  | zero => simp
  | succ q ih =>
    rw [List.range_succ, List.map_append, List.map_append, String.join_append, String.join_append,
      ← ih]
    simp [String.append_assoc]

/-- Only the first byte of a line has an address before it. -/
theorem join_pieces_row (h : 16 * k < n) :
    String.join ((rowIndices n k).map (piece m addr)) =
      (if k = 0 then "" else "\n") ++ row m addr n k := by
  obtain ⟨c, hc⟩ := Nat.exists_eq_succ_of_ne_zero (show min 16 (n - 16 * k) ≠ 0 by omega)
  have hindices : rowIndices n k = 16 * k :: List.range' (16 * k + 1) c := by
    rw [rowIndices, hc, List.range'_succ]
  have hrest : (List.range' (16 * k + 1) c).map (piece m addr) =
      (List.range' (16 * k + 1) c).map (byteAt m addr) := by
    refine List.map_congr_left fun i hi => ?_
    have hin := List.mem_range'_1.mp hi
    rw [piece, heading, if_neg (by omega), String.empty_append]
  have hfirst : heading addr (16 * k) =
      (if k = 0 then "" else "\n") ++ showAddress (addr + BitVec.ofNat 64 (16 * k)) ++ ": " := by
    rw [heading, if_pos (by omega)]
    simp
  rw [row, hindices, List.map_cons, List.map_cons, hrest, String.join_cons, String.join_cons, piece,
    hfirst]
  simp only [String.append_assoc]

theorem join_pieces_eq_dump (h : 0 < n) :
    String.join ((List.range n).map (piece m addr)) ++ "\n" = dump m addr n := by
  obtain ⟨q, hq⟩ := Nat.exists_eq_succ_of_ne_zero (show rowCount n ≠ 0 by unfold rowCount; omega)
  have hlines : String.join ((List.range n).map (piece m addr)) =
      String.join ((List.range (rowCount n)).map fun k =>
        (if k = 0 then "" else "\n") ++ row m addr n k) := by
    rw [← flatMap_rowIndices, List.map_flatMap, join_flatMap]
    refine congrArg _ (List.map_congr_left fun k hk => join_pieces_row ?_)
    have hlast := List.mem_range.mp hk
    unfold rowCount at hlast
    omega
  rw [hlines, dump, hq]
  exact join_separated _ q

namespace Session

variable {σ : Type} {s : Session σ} {i left : Nat}

theorem cell_eq (h : s.memory.WellFormed) (addr : Word) :
    s.cell addr = byteText (s.memory.byteMap addr) := by
  rw [cell, h.peek_byte]
  cases s.memory.byteMap addr with
  | some b =>
    have hvalue : (b.setWidth 64).toNat = b.toNat := BitVec.toNat_setWidth_of_le (by decide)
    simp only [hvalue, byteText]
  | none => rfl

theorem cells_succ (h : s.memory.WellFormed) (hroom : addr.toNat + i < addressLimit) (left : Nat) :
    s.cells addr i (left + 1) =
      (Answer.text (piece s.memory addr i)).andThen (s.cells addr (i + 1) left) := by
  rw [cells, if_neg (Nat.not_le.mpr hroom)]
  dsimp only
  rw [cell_eq h]
  rfl

theorem cells_of_room (h : s.memory.WellFormed) (hroom : addr.toNat + (i + left) ≤ addressLimit) :
    s.cells addr i left =
      .text (String.join ((List.range' i left).map (piece s.memory addr)) ++
        if i + left = 0 then "" else "\n") := by
  induction left generalizing i with
  | zero => simp [cells]
  | succ left ih =>
    rw [cells_succ h (by omega), ih (by omega), List.range'_succ, List.map_cons, String.join_cons,
      Nat.add_right_comm, Nat.add_assoc i left 1, String.append_assoc]
    rfl

/-- The bytes below the end of the addresses are shown before the sum fails. -/
theorem cells_of_no_room (h : s.memory.WellFormed) (hstart : addr.toNat + i ≤ addressLimit)
    (hroom : addressLimit < addr.toNat + (i + left)) :
    s.cells addr i left =
      ⟨String.join ((List.range' i (addressLimit - (addr.toNat + i))).map (piece s.memory addr)),
        .crashed .sumTooLarge⟩ := by
  induction left generalizing i with
  | zero => omega
  | succ left ih =>
    rcases Nat.eq_or_lt_of_le hstart with hend | hmore
    · rw [cells, if_pos (Nat.le_of_eq hend.symm), hend, Nat.sub_self]
      rfl
    · have hcount : addressLimit - (addr.toNat + i) =
          addressLimit - (addr.toNat + (i + 1)) + 1 := by
        omega
      rw [cells_succ h hmore, ih (by omega) (by omega), hcount, List.range'_succ, List.map_cons,
        String.join_cons]
      rfl

end Session

/-! ## Instructions -/

/-- A line about the instruction at an address, with an arrow if it is the next one. -/
def instructionLine (next : Bool) (addr : Word) (code : Option Code) : String :=
  let shown :=
    match code with
    | some c =>
      Ink.data.write (Numeral.hexMarkedPadded 8 c.toNat) ++ " " ++
        Ink.instruction.write (disassemble c addr)
    | none => Ink.invalid.write "<invalid>" ++ " " ++ Ink.invalid.write "<unmapped>"
  (if next then Ink.arrow.write ">" ++ " " else "  ") ++ showAddress addr ++ ": " ++ shown ++ "\n"

/-- Ten places, a word apart, of which the sixth is the program counter unless there are not
enough addresses below it. -/
def window (pc : Word) : List Nat := List.range' (pc.toNat - 20) 10 4

def visible (pc : Word) : List Nat := (window pc).filter (· < addressLimit)

theorem length_visible (pc : Word) : (visible pc).length = 10 ↔ pc.toNat + 16 < addressLimit := by
  have hlength : (window pc).length = 10 := List.length_range'
  rw [visible, ← hlength, List.length_filter_eq_length_iff]
  constructor
  · intro h
    have hlast : pc.toNat - 20 + 36 ∈ window pc := List.mem_range'.mpr ⟨9, by omega, rfl⟩
    have hlimit := of_decide_eq_true (h _ hlast)
    omega
  · intro h a ha
    obtain ⟨i, hi, rfl⟩ := List.mem_range'.mp ha
    refine decide_eq_true ?_
    unfold addressLimit at h ⊢
    omega

/-- The program counter is in the window once, unless its window starts at zero
and passes it by. -/
theorem count_visible (pc : Word) :
    (visible pc).count pc.toNat = if 20 ≤ pc.toNat ∨ 4 ∣ pc.toNat then 1 else 0 := by
  have hnodup : (window pc).Nodup := List.nodup_range' 4 (by decide)
  have hmem : pc.toNat ∈ window pc ↔ 20 ≤ pc.toNat ∨ 4 ∣ pc.toNat := by
    rw [window, List.mem_range']
    constructor
    · rintro ⟨i, hi, heq⟩
      omega
    · rintro (hfar | ⟨q, hq⟩)
      -- The window is not cut off below, so the program counter is its sixth place.
      · exact ⟨5, by omega, by omega⟩
      · exact ⟨(20 - (20 - pc.toNat)) / 4, by omega, by omega⟩
  rw [visible, List.count_filter (p := (· < addressLimit)) (decide_eq_true pc.isLt),
    hnodup.count]
  simp only [hmem]

namespace Session

variable {σ : Type} {s : Session σ} {left : Nat}

def lineOf (s : Session σ) (a : Nat) : String :=
  instructionLine (a = s.pc.toNat) (BitVec.ofNat 64 a) (s.memory.codeAt (BitVec.ofNat 64 a))

theorem listing_succ {a : Nat} (ha : a < addressLimit) (left : Nat) :
    s.listing a (left + 1) =
      (Answer.text (s.lineOf a)).andThen
        (if addressLimit ≤ a + 4 then ⟨"", .crashed .sumTooLarge⟩ else s.listing (a + 4) left) := by
  have hplace : (BitVec.ofNat 64 a).toNat = a := by
    rw [BitVec.toNat_ofNat]
    exact Nat.mod_eq_of_lt ha
  have hnext : BitVec.ofNat 64 a = s.pc ↔ a = s.pc.toNat := by
    rw [← BitVec.toNat_inj, hplace]
  rw [listing]
  refine congrArg (fun line => (Answer.text line).andThen _) ?_
  simp only [lineOf, instructionLine, hnext, wordAt, assemblyAt, Memory.codeAt]
  cases s.memory.fetch (BitVec.ofNat 64 a) with
  | ok c => simp [Except.toOption, String.append_assoc]
  | error e => simp [Except.toOption, String.append_assoc]

/-- The lines of the places that are addresses are shown, and then the sum fails if the
next place is none. -/
theorem listing_eq (left : Nat) : ∀ {a : Nat}, a < addressLimit →
    s.listing a left =
      ⟨String.join (((List.range' a left 4).filter (· < addressLimit)).map s.lineOf),
        if left = 0 ∨ a + 4 * left < addressLimit then .goOn else .crashed .sumTooLarge⟩ := by
  induction left with
  | zero => exact fun _ => rfl
  | succ left ih =>
    intro a ha
    rw [listing_succ ha, List.range'_succ,
      List.filter_cons_of_pos (p := (· < addressLimit)) (decide_eq_true ha), List.map_cons,
      String.join_cons]
    by_cases hlast : addressLimit ≤ a + 4
    -- The sum fails after this line, whether or not it was to be the last one.
    · have hnone : (List.range' (a + 4) left 4).filter (· < addressLimit) = [] := by
        refine List.filter_eq_nil_iff.mpr fun b hb => ?_
        obtain ⟨i, -, rfl⟩ := List.mem_range'.mp hb
        simp only [decide_eq_true_eq]
        omega
      rw [if_pos hlast, hnone, if_neg (by omega)]
      rfl
    · rw [if_neg hlast, ih (Nat.lt_of_not_le hlast)]
      refine congrArg (Answer.mk _) (if_congr ?_ rfl rfl)
      omega

/-- What the console shows of memory is so, as far as it gets. -/
structure TruthfulViews (s : Session σ) (fuel : Nat) : Prop where
  /-- A list shows the lines of its window. It goes on if there is an address after them. -/
  list : ∀ line, readLine line = .ok .list → s.respond fuel line =
    (⟨String.join ((visible s.pc).map s.lineOf),
      if s.pc.toNat + 20 < addressLimit then .goOn else .crashed .sumTooLarge⟩, s)
  /-- Each line shows what there is at its place. -/
  line : ∀ addr, s.memory.Tells addr (s.memory.codeAt addr)
  ten : (visible s.pc).length = 10 ↔ s.pc.toNat + 16 < addressLimit
  /-- One line has the arrow, but for a few program counters next to zero. -/
  arrow : (visible s.pc).count s.pc.toNat = if 20 ≤ s.pc.toNat ∨ 4 ∣ s.pc.toNat then 1 else 0
  /-- All the bytes are shown if each is at an address. -/
  bytes : ∀ line text n addr, readLine line = .ok (.print (.memory text n)) →
    Numeral.readWord text = .ok addr → addr.toNat + n ≤ addressLimit →
    s.respond fuel line = (.text (dump s.memory addr n), s)
  /-- The lines of bytes are for one byte each after the other. -/
  cells : ∀ n, (List.range (rowCount n)).flatMap (rowIndices n) = List.range n
  /-- Otherwise those that are at addresses are shown, and the last line has no end. -/
  rest : ∀ line text n addr, readLine line = .ok (.print (.memory text n)) →
    Numeral.readWord text = .ok addr → addressLimit < addr.toNat + n →
    ∃ shown, s.respond fuel line = (⟨shown, .crashed .sumTooLarge⟩, s) ∧
      shown ++ "\n" = dump s.memory addr (addressLimit - addr.toNat)

theorem respond_of_readLine {fuel : Nat} {line : String} {c : Command} (h : readLine line = .ok c) :
    s.respond fuel line = s.obey fuel c := by
  rw [respond, h]

theorem obey_print_memory {fuel : Nat} {text : String} {addr : Word} {n : Nat}
    (h : Numeral.readWord text = .ok addr) :
    s.obey fuel (.print (.memory text n)) = (s.cells addr 0 n, s) := by
  rw [obey, withView, View.ofRequest, h]
  rfl

theorem truthfulViews (h : s.memory.WellFormed) (fuel : Nat) : s.TruthfulViews fuel where
  list line hline := by
    have hstart : s.pc.toNat - 20 < addressLimit := Nat.lt_of_le_of_lt (Nat.sub_le _ _) s.pc.isLt
    have hnext : 10 = 0 ∨ s.pc.toNat - 20 + 4 * 10 < addressLimit ↔
        s.pc.toNat + 20 < addressLimit := by
      unfold addressLimit
      omega
    have hlisting := listing_eq (s := s) 10 hstart
    rw [if_congr hnext rfl rfl] at hlisting
    rw [respond_of_readLine hline, obey]
    exact congrArg (·, s) hlisting
  line := h.tells_codeAt
  ten := length_visible s.pc
  arrow := count_visible s.pc
  bytes line text n addr hline htext hroom := by
    have hcells : s.cells addr 0 n = _ := cells_of_room h (by omega)
    rw [respond_of_readLine hline, obey_print_memory htext, hcells, ← List.range_eq_range',
      Nat.zero_add]
    rcases Nat.eq_zero_or_pos n with rfl | hpos
    · rfl
    · rw [if_neg hpos.ne', join_pieces_eq_dump hpos]
  cells := flatMap_rowIndices
  rest line text n addr hline htext hroom := by
    have hlt : addr.toNat < addressLimit := addr.isLt
    refine ⟨_, ?_, join_pieces_eq_dump (Nat.sub_pos_of_lt hlt)⟩
    have hcells : s.cells addr 0 n = _ := cells_of_no_room h (Nat.le_of_lt hlt) (by omega)
    rw [respond_of_readLine hline, obey_print_memory htext, hcells, ← List.range_eq_range',
      Nat.add_zero]

def onProgram : Session Unit :=
  .start (.new (MemoryRequest.performAll [.allocate 0x1000 0x100, .write .word 0x1000 0x0000006F]
    (.start (.empty 0x10000000) 0x1000)).memory 0x1000 .standard .unsupported ()) false

theorem truthfulViews_onProgram :
    onProgram.memory.WellFormed ∧ onProgram.TruthfulViews 0 ∧
      onProgram.memory.codeAt 0x1000 = some 0x0000006F ∧ onProgram.memory.codeAt 0x10FE = none ∧
      onProgram.respond 0 "p mem 0x10f8 -l 16" =
        (.text (dump onProgram.memory 0x10F8 16), onProgram) := by
  have hwell : onProgram.memory.WellFormed :=
    MemoryRequest.wellFormed_performAll _ 0x10000000 _ (.start (.empty 0x10000000) 0x1000)
  have hviews := truthfulViews hwell 0
  refine ⟨hwell, hviews, by decide +kernel, by decide +kernel, ?_⟩
  exact hviews.bytes _ "0x10f8" 16 0x10F8 rfl (by decide +kernel) (by decide)

def onNothing (entry : Word) : Session Unit :=
  .start (.new (.empty 0x10000000) entry .standard .unsupported ()) false

/-- The bytes at the end of the addresses and a list there break off. A list next to zero passes
the program counter by. -/
theorem views_break_off :
    ((onNothing 0x1000).respond 0 "p mem 0xfffffffffffffff8 -l 16").1.ending =
        .crashed .sumTooLarge ∧
      ((onNothing 0xFFFFFFFFFFFFFFFC).respond 0 "list").1.ending = .crashed .sumTooLarge ∧
      (onNothing 2).pc.toNat = 2 ∧
      ((onNothing 2).respond 0 "list").1 =
        .text (String.join ([0, 4, 8, 12, 16, 20, 24, 28, 32, 36].map (onNothing 2).lineOf)) := by
  have hlist : readLine "list" = .ok .list := rfl
  refine ⟨?_, ?_, by decide, ?_⟩
  · rw [respond_of_readLine (c := .print (.memory "0xfffffffffffffff8" 16)) rfl]
    decide +kernel
  · rw [respond_of_readLine hlist]
    decide +kernel
  · rw [respond_of_readLine hlist, obey]
    exact listing_eq 10 (by decide)

end Session

end Console

end RiscvHart
