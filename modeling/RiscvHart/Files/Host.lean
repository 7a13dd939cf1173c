import RiscvHart.Files.Tree
import RiscvHart.Kernel.Host

/-!
# Hosts with files

A host whose calls work on a tree of files and on three pipes: the input, the output and the
output for errors. Each descriptor that is open has a position of its own, and a new one gets the
smallest number that is free. The engine reads and writes through the same descriptors as its
guest, so what the guest does to them is seen by both.
-/

namespace RiscvHart

inductive Stream where
  | output | error
  deriving DecidableEq, Repr

inductive Target where
  | input
  | stream (s : Stream)
  | device (d : Device)
  | folder (p : Place)
  | file (id : Nat)
  /-- A link itself. -/
  | link
  deriving DecidableEq, Repr

structure Descriptor where
  target : Target
  pos : Nat
  reads : Bool
  writes : Bool
  appends : Bool
  /-- Whether it stands only for a place, at which nothing can be read, written or sought. -/
  bare : Bool
  deriving DecidableEq, Repr

/-- The state of a host with files. -/
structure FileHost where
  tree : FileTree
  /-- The folder that paths start from. -/
  home : Place
  /-- What is left of the input. -/
  input : List Byte
  /-- What was written to the two pipes, the newest piece first. -/
  output : List (List Byte)
  error : List (List Byte)
  /-- What is open, by number, the smallest number first. -/
  descriptors : List (Nat × Descriptor)

structure OpenMode where
  reads : Bool
  writes : Bool
  creates : Bool
  mustBeNew : Bool
  empties : Bool
  appends : Bool
  folderOnly : Bool
  /-- Whether a link is not to be followed. -/
  ownOnly : Bool
  /-- Whether a file without a place is to be made in a folder. -/
  unnamed : Bool
  bare : Bool
  deriving DecidableEq, Repr

namespace OpenMode

def forReading : OpenMode := ⟨true, false, false, false, false, false, false, false, false, false⟩

/-- Opens an empty file for writing, which is made if there is none. -/
def forOutput : OpenMode := ⟨false, true, true, false, true, false, false, false, false, false⟩

/-- Takes an opening mode apart. A bare opening knows only two other flags. A folder cannot be
made, and a file without a place needs a folder and has to be written. -/
def ofFlags? (flags : BitVec 32) : Option OpenMode :=
  let bare := flags.getLsbD 21
  let has (i : Nat) : Bool := flags.getLsbD i && !bare
  let access := if bare then 0 else flags.extractLsb' 0 2
  let folderOnly := flags.getLsbD 16
  let creates := has 6
  let unnamed := has 22
  if creates && folderOnly then none
  else if unnamed && (!folderOnly || access = 0) then none
  else
    some
      { reads := access = 0 || access = 2
        writes := access = 1 || access = 2
        creates := creates
        mustBeNew := has 7
        empties := has 9
        appends := has 10
        folderOnly := folderOnly
        ownOnly := flags.getLsbD 17
        unnamed := unnamed
        bare := bare }

/-- Whether the right to write is asked for. An access of both kinds at once asks for it too,
though its descriptor neither reads nor writes. -/
def asksToWrite (m : OpenMode) : Bool := m.writes || m.empties || !m.reads

end OpenMode

namespace FileHost

def start (tree : FileTree) (home : Place) (input : List Byte) : FileHost where
  tree := tree
  home := home
  input := input
  output := []
  error := []
  descriptors :=
    [(0, ⟨.input, 0, true, false, false, false⟩),
     (1, ⟨.stream .output, 0, false, true, false, false⟩),
      (2, ⟨.stream .error, 0, false, true, false, false⟩)]

def get? (h : FileHost) (fd : Nat) : Option Descriptor := h.descriptors.lookup fd

def insert (fd : Nat) (d : Descriptor) : List (Nat × Descriptor) → List (Nat × Descriptor)
  | [] => [(fd, d)]
  | e :: rest =>
    if e.1 < fd then e :: insert fd d rest
    else if e.1 = fd then (fd, d) :: rest
    else (fd, d) :: e :: rest

def put (h : FileHost) (fd : Nat) (d : Descriptor) : FileHost :=
  { h with descriptors := insert fd d h.descriptors }

def freeFrom (n : Nat) : List (Nat × Descriptor) → Nat
  | [] => n
  | e :: rest => if e.1 = n then freeFrom (n + 1) rest else n

def free (h : FileHost) : Nat := freeFrom 0 h.descriptors

/-! ## Reading and writing -/

def readFrom (h : FileHost) (fd count : Nat) : Except Errno (List Byte) × FileHost :=
  match h.get? fd with
  | none => (.error .badDescriptor, h)
  | some d =>
    if d.bare || !d.reads then (.error .badDescriptor, h)
    else
      match d.target with
      | .input => (.ok (h.input.take count), { h with input := h.input.drop count })
      | .stream _ | .device .null | .device .terminal => (.ok [], h)
      | .device _ => (.ok (List.replicate count 0), h)
      | .folder _ => (.error .isFolder, h)
      | .link => (.error .badDescriptor, h)
      | .file id =>
        let data := (h.tree.contents id).read d.pos count
        (.ok data, h.put fd { d with pos := d.pos + data.length })

def largestSize : Nat := 0xFFFFFFFF000

def folderSize : Nat := 0x7FFFFFFFFFFFFFFF

def writeFile (h : FileHost) (fd : Nat) (d : Descriptor) (id : Nat) (bytes : List Byte) :
    Except Errno Nat × FileHost :=
  let old := h.tree.contents id
  let pos := if d.appends then old.size else d.pos
  let bytes := bytes.take (largestSize - pos)
  let written := { h with tree := h.tree.setContents id (old.write pos bytes) }
  (.ok bytes.length, written.put fd { d with pos := pos + bytes.length })

/-- Writes bytes. Gives how many were written. -/
def writeTo (h : FileHost) (fd : Nat) (bytes : List Byte) : Except Errno Nat × FileHost :=
  match h.get? fd with
  | none => (.error .badDescriptor, h)
  | some d =>
    if d.bare || !d.writes then (.error .badDescriptor, h)
    else
      match d.target with
      | .input => (.ok bytes.length, { h with input := h.input ++ bytes })
      | .stream .output => (.ok bytes.length, { h with output := bytes :: h.output })
      | .stream .error => (.ok bytes.length, { h with error := bytes :: h.error })
      | .device .full => (.error .noSpace, h)
      | .device _ => (.ok bytes.length, h)
      | .folder _ | .link => (.error .badDescriptor, h)
      | .file id =>
        if bytes = [] then (.ok 0, h)
        else if !d.appends && largestSize ≤ d.pos then (.error .fileTooLarge, h)
        else h.writeFile fd d id bytes

/-- Writes bytes for the engine, which does not mind if there is nothing to write to. Gives
any other error. -/
def say (h : FileHost) (fd : Nat) (bytes : List Byte) : Option Errno × FileHost :=
  match h.writeTo fd bytes with
  | (.error .badDescriptor, h) => (none, h)
  | (.error e, h) => (some e, h)
  | (.ok _, h) => (none, h)

/-! ## Opening -/

def visible (h : FileHost) : FileTree :=
  h.tree.withNumbers (h.descriptors.map fun (fd, d) =>
    match d.target with
    | .folder p => (fd, some p)
    | _ => (fd, none))

def targetAt (h : FileHost) (p : Place) : Node → Except Errno Target
  | .folder => .ok (.folder p)
  | .file id => .ok (.file id)
  | .device d => .ok (.device d)
  | .link _ => .error .linkRefused
  | .descriptor fd _ =>
    match h.get? fd with
    | some d => .ok d.target
    | none => .error .missingFile

/-- What is to be opened at a node; a link may have to be opened itself. -/
def targetOf (h : FileHost) (p : Place) (ownOnly : Bool) (n : Node) : Except Errno Target :=
  match n, ownOnly with
  | .link _, true | .descriptor _ _, true => .ok .link
  | .link other, false =>
    match h.visible.node? other with
    | some n => h.targetAt other n
    | none => .error .missingFile
  | n, _ => h.targetAt p n

def descriptorOf (mode : OpenMode) (target : Target) : Descriptor :=
  ⟨target, 0, mode.reads, mode.writes, mode.appends, mode.bare⟩

def openTarget (h : FileHost) (mode : OpenMode) (target : Target) :
    Except Errno Descriptor × FileHost :=
  match target with
  | .folder p =>
    if mode.unnamed then
      if (FileTree.keeper p).takesUnnamed then
        let (id, tree) := h.tree.newFile .empty
        (.ok (descriptorOf mode (.file id)), { h with tree := tree })
      else (.error .notSupported, h)
    else if mode.creates || mode.asksToWrite then (.error .isFolder, h)
    else (.ok (descriptorOf mode (.folder p)), h)
  | target =>
    if mode.folderOnly then (.error .notFolder, h)
    else
      match target with
      | .file id =>
        let tree := if mode.empties then h.tree.setContents id .empty else h.tree
        (.ok (descriptorOf mode target), { h with tree := tree })
      | .device .terminal =>
        (if mode.bare then .ok (descriptorOf mode target) else .error .missingDevice, h)
      | .link => (if mode.bare then .ok (descriptorOf mode target) else .error .linkRefused, h)
      | .input | .stream _ =>
        (if mode.reads || mode.writes then .ok (descriptorOf mode target)
          else .error .invalidArgument, h)
      | target => (.ok (descriptorOf mode target), h)

/-- Opens what a path leads to from a folder, but does not give it a number yet. -/
def openFrom (h : FileHost) (start : Place) (path : List Byte) (mode : OpenMode) :
    Except Errno Descriptor × FileHost :=
  match h.visible.resolve start path mode.creates with
  | .error e => (.error e, h)
  | .ok (.found p n) =>
    if mode.creates && mode.mustBeNew then (.error .fileExists, h)
    else
      match h.targetOf p mode.ownOnly n with
      | .error e => (.error e, h)
      | .ok target => h.openTarget mode target
  | .ok (.free p) =>
    if !mode.creates then (.error .missingFile, h)
    else
      match (FileTree.keeper p).refusal? with
      | some e => (.error e, h)
      | none =>
        let (id, tree) := h.tree.makeFile p .empty
        (.ok (descriptorOf mode (.file id)), { h with tree := tree })

def enter (opened : Except Errno Descriptor × FileHost) : Except Errno Nat × FileHost :=
  match opened with
  | (.error e, h) => (.error e, h)
  | (.ok d, h) => (.ok h.free, h.put h.free d)

def openPath (h : FileHost) (path : List Byte) (mode : OpenMode) : Except Errno Nat × FileHost :=
  enter (h.openFrom h.home path mode)

def homeNumber : BitVec 32 := BitVec.ofInt 32 (-100)

def startFolder (h : FileHost) (dirfd : BitVec 32) (path : List Byte) : Except Errno Place :=
  match FileTree.pathFault? path with
  | some e => .error e
  | none =>
    if dirfd = homeNumber ∨ path.head? = some FileTree.separator then .ok h.home
    else
      match (h.get? dirfd.toNat).map Descriptor.target with
      | none => .error .badDescriptor
      | some (.folder p) => .ok p
      | some _ => .error .notFolder

def openWith (h : FileHost) (dirfd : BitVec 32) (path : List Byte) (flags : BitVec 32) :
    Except Errno Nat × FileHost :=
  match OpenMode.ofFlags? flags with
  | none => (.error .invalidArgument, h)
  | some mode =>
    match h.startFolder dirfd path with
    | .error e => (.error e, h)
    | .ok start => enter (h.openFrom start path mode)

def shut (h : FileHost) (fd : Nat) : Except Errno Nat × FileHost :=
  match h.get? fd with
  | none => (.error .badDescriptor, h)
  | some _ => (.ok 0, { h with descriptors := h.descriptors.filter fun e => e.1 ≠ fd })

/-! ## Positions -/

/-- What can be sought in: a size, and the next place with data and the next hole
from a place on. -/
structure Sought where
  /-- Where its end is, if it has one. -/
  size? : Option Nat
  /-- The largest position. -/
  limit : Nat
  dataFrom? : Nat → Option Nat
  holeFrom? : Nat → Option Nat

def Sought.ofContents (c : Contents) : Sought :=
  ⟨some c.size, largestSize, c.dataFrom?, c.holeFrom?⟩

/-- The largest position in a folder that is not kept with files. -/
def shortLimit : Nat := 0x7FFFFFFF

/-- A folder of files can be sought in as if it were full of data, other folders as if they were
empty; those of devices have no end. -/
def Sought.ofFolder (p : Place) : Sought :=
  match FileTree.keeper p with
  | .files =>
    ⟨some folderSize, folderSize, fun n => if n < folderSize then some n else none,
      fun n => if n < folderSize then some folderSize else none⟩
  | .devices => ⟨none, folderSize, fun _ => none, fun _ => none⟩
  | .processes | .kernel => ⟨some 0, shortLimit, fun _ => none, fun _ => none⟩

/-- The position that is meant: an offset from the start, from the position or from the end, or
the first place with data or the first hole from an offset on. -/
def Sought.position (s : Sought) (pos : Nat) (offset : Int) (whence : Nat) : Except Errno Nat :=
  let inside (target : Int) : Except Errno Nat :=
    if target < 0 ∨ (s.limit : Int) < target then .error .invalidArgument else .ok target.toNat
  let found (next? : Nat → Option Nat) : Except Errno Nat :=
    match if offset < 0 then none else next? offset.toNat with
    | some n => .ok n
    | none => .error .missingDevice
  match whence, s.size? with
  | 0, _ => inside offset
  | 1, _ => inside (pos + offset)
  | _, none => .error .invalidArgument
  | 2, some size => inside (size + offset)
  | 3, _ => found s.dataFrom?
  | _, _ => found s.holeFrom?

def lastWhence : Nat := 4

def seekTo (h : FileHost) (fd : Nat) (offset : Int) (whence : Nat) : Except Errno Nat × FileHost :=
  match h.get? fd with
  | none => (.error .badDescriptor, h)
  | some d =>
    if d.bare then (.error .badDescriptor, h)
    else if lastWhence < whence then (.error .invalidArgument, h)
    else
      let position : Except Errno Nat :=
        match d.target with
        | .input | .stream _ => .error .notSeekable
        | .device _ | .link => .ok 0
        | .folder p => (Sought.ofFolder p).position d.pos offset whence
        | .file id => (Sought.ofContents (h.tree.contents id)).position d.pos offset whence
      match position with
      | .error e => (.error e, h)
      | .ok pos => (.ok pos, h.put fd { d with pos := pos })

/-! ## Whole files -/

/-- The first bytes of a file; what is taken from the input is gone. None if there
are not so many. -/
def firstBytes (h : FileHost) (path : List Byte) (count : Nat) : Option (List Byte) × FileHost :=
  match h.openFrom h.home path .forReading with
  | (.error _, h) => (none, h)
  | (.ok d, h) =>
    match ({ h with descriptors := [(0, d)] } : FileHost).readFrom 0 count with
    | (.error _, _) => (none, h)
    | (.ok bytes, after) =>
      (if bytes.length < count then none else some bytes, { h with input := after.input })

/-- The bytes of a file up to its end, which some devices do not have. -/
def wholeFile (h : FileHost) (path : List Byte) : Except Errno (List Byte) × FileHost :=
  match h.openFrom h.home path .forReading with
  | (.error e, h) => (.error e, h)
  | (.ok d, h) =>
    match d.target with
    | .input => (.ok h.input, { h with input := [] })
    | .stream _ | .device .null | .device .terminal => (.ok [], h)
    | .device _ => (.error .outOfMemory, h)
    | .folder _ => (.error .isFolder, h)
    | .link => (.error .linkRefused, h)
    | .file id => (.ok (h.tree.contents id).toList, h)

/-! ## Calls -/

def known : List Syscall :=
  [.read, .write, .openat, .close, .lseek, .getpid, .getppid, .getuid, .geteuid, .getgid, .getegid]

/-- The host numbers its calls as the guest does. -/
def remap (_ : FileHost) (c : Syscall) : Option Int := if c ∈ known then some c.number else none

def reply (r : Except Errno Nat × FileHost) : Reply FileHost :=
  match r with
  | (.ok n, h) => ⟨n, h⟩
  | (.error e, h) => ⟨e.result, h⟩

def read (fd : BitVec 32) (length : Nat) (h : FileHost) : Reply FileHost × List Byte :=
  match h.readFrom fd.toNat length with
  | (.ok data, h) => (⟨data.length, h⟩, data)
  | (.error e, h) => (⟨e.result, h⟩, [])

def write (fd : BitVec 32) (bytes : List Byte) (h : FileHost) : Reply FileHost :=
  reply (h.writeTo fd.toNat bytes)

def openat (dirfd : BitVec 32) (path : List Byte) (flags _mode : BitVec 32) (h : FileHost) :
    Reply FileHost :=
  reply (h.openWith dirfd path flags)

/-- Makes a call that takes no buffer. The process is the first one, and nobody in
particular owns it. -/
def invoke (number : Int) (arguments : List HostArgument) (h : FileHost) : Reply FileHost :=
  let value (i : Nat) : Word :=
    match arguments[i]? with
    | some (.value v) => v
    | _ => 0
  let low (i : Nat) : Nat := ((value i).setWidth 32).toNat
  match Syscall.ofNumber? (BitVec.ofInt 64 number) with
  | some .close => reply (h.shut (low 0))
  | some .lseek => reply (h.seekTo (low 0) (value 1).toInt (low 2))
  | some .getpid | some .getppid => ⟨1, h⟩
  | _ => ⟨0, h⟩

end FileHost

namespace Host

def files : Host FileHost where
  hear _ h := h
  remap := FileHost.remap
  invoke := FileHost.invoke
  read := FileHost.read
  write := FileHost.write
  openat := FileHost.openat
  clock _ _ := (0, 0)

end Host

end RiscvHart
