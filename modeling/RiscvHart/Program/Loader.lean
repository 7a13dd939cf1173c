import RiscvHart.Program.Elf
import RiscvHart.Program.Span

/-!
# Loading programs

A program is put into memory in two steps: the pages of its segments are mapped, then the bytes
of the file are written. A step that fails leaves what the steps before it did.
-/

namespace RiscvHart

structure SegmentPlace where
  vaddr : Word
  fileSize : Nat
  memSize : Nat
  deriving DecidableEq, Repr

structure Image where
  entry : Word
  segments : List SegmentPlace
  deriving DecidableEq, Repr

/-- The memory after an attempt to load, the spans that were mapped on the way, and
what came of it. -/
structure Loading where
  memory : Memory
  mapped : List Span
  result : Except (Failure LoadError) Image

namespace Segment

def place (s : Segment) : SegmentPlace := ⟨s.vaddr, s.data.length, s.memSize⟩

def pages (s : Segment) : Except LoadError Span :=
  match Span.pages? s.vaddr s.memSize with
  | some span => .ok span
  | none => .error (.addressOverflow s.vaddr)

end Segment

namespace Memory

/-- Maps spans in order, up to the first that cannot be mapped. Gives the spans that were
mapped, and the error. -/
def mapSpans (m : Memory) : List Span → Memory × List Span × Option MemoryError
  | [] => (m, [], none)
  | s :: rest =>
    match m.allocate (BitVec.ofNat 64 s.start) s.size with
    | .error e => (m, [], some e)
    | .ok mapped =>
      let (after, spans, error?) := mapped.mapSpans rest
      (after, s :: spans, error?)

/-- Writes the bytes of segments in order, so that of two that meet the later one is seen. -/
def writeSegments (m : Memory) : List Segment → Memory × Option MemoryError
  | [] => (m, none)
  | s :: rest =>
    match m.fill s.vaddr s.data with
    | .error e => (m, some e)
    | .ok written => written.writeSegments rest

def loadExecutable (m : Memory) (x : Executable) : Loading :=
  match x.segments.mapM Segment.pages with
  | .error e => ⟨m, [], .error (.error e)⟩
  | .ok pages =>
    match m.mapSpans (Span.join pages) with
    | (after, spans, some e) => ⟨after, spans, .error (.error (.memory e))⟩
    | (after, spans, none) =>
      match after.writeSegments x.segments with
      | (written, some e) => ⟨written, spans, .error (.error (.memory e))⟩
      | (written, none) => ⟨written, spans, .ok ⟨x.entry, x.segments.map Segment.place⟩⟩

def loadElf (m : Memory) (file : List Byte) : Loading :=
  match Elf.read file with
  | .error e => ⟨m, [], .error e⟩
  | .ok x => m.loadExecutable x

/-- Loads the bytes of a file at `base`, where they also start to run. An empty file still gets a
page. -/
def loadFlat (m : Memory) (file : List Byte) (base : Word) : Loading :=
  let pages := (max file.length 1 + (Span.pageSize - 1)) / Span.pageSize
  let span : Span := ⟨base.toNat, base.toNat + pages * Span.pageSize⟩
  match m.mapSpans [span] with
  | (after, spans, some e) => ⟨after, spans, .error (.error (.memory e))⟩
  | (after, spans, none) =>
    match after.fill base file with
    | .error e => ⟨after, spans, .error (.error (.memory e))⟩
    | .ok written => ⟨written, spans, .ok ⟨base, [⟨base, file.length, file.length⟩]⟩⟩

end Memory

end RiscvHart
