import RiscvHart.Files.Contents
import RiscvHart.Kernel.Errno
import RiscvHart.Text.Utf8

/-!
# Trees of files

A tree has folders, files and devices at its places. The contents of files are kept apart from
the places, so that a file can be open without having one. A path leads from a folder down and up
the tree; above the top there is only the top again.
-/

namespace RiscvHart

/-- A place in a tree: the names on the way down to it. -/
abbrev Place := List (List Byte)

inductive Device where
  /-- Takes everything and gives nothing. -/
  | null
  /-- Takes everything and gives zeros. -/
  | zero
  /-- Takes nothing and gives zeros. -/
  | full
  /-- Takes everything and gives bytes that mean nothing. -/
  | random
  /-- The terminal of the process, which it does not have. -/
  | terminal
  deriving DecidableEq, Repr

inductive Node where
  | folder
  /-- A file, by the number of its contents. -/
  | file (id : Nat)
  | device (d : Device)
  /-- Whatever is at another place, which has no link itself. -/
  | link (other : Place)
  /-- Whatever a descriptor of the process stands for, with its place if that is a folder. -/
  | descriptor (fd : Nat) (folder? : Option Place)
  deriving DecidableEq, Repr

/-- Nodes at their places, and the contents of files by number. -/
structure FileTree where
  nodes : List (Place × Node)
  store : Array Contents

inductive PathTarget where
  | found (p : Place) (n : Node)
  /-- Nothing is there, but its folder is. -/
  | free (p : Place)
  deriving DecidableEq, Repr

namespace FileTree

def bare : FileTree := ⟨[([], .folder)], #[]⟩

def node? (t : FileTree) (p : Place) : Option Node := t.nodes.lookup p

def setNode (t : FileTree) (p : Place) (n : Node) : FileTree :=
  { t with nodes := (p, n) :: t.nodes.filter fun e => e.1 ≠ p }

def contents (t : FileTree) (id : Nat) : Contents := t.store[id]?.getD .empty

def setContents (t : FileTree) (id : Nat) (c : Contents) : FileTree :=
  { t with store := t.store.setIfInBounds id c }

/-- Makes a file that has no place. Gives its number. -/
def newFile (t : FileTree) (c : Contents) : Nat × FileTree :=
  (t.store.size, { t with store := t.store.push c })

/-- Makes a file at a place. Gives its number. -/
def makeFile (t : FileTree) (p : Place) (c : Contents) : Nat × FileTree :=
  let (id, t) := t.newFile c
  (id, t.setNode p (.file id))

/-- The places on the way to a place, the place itself included, from the top on. -/
def way (p : Place) : List Place := (List.range (p.length + 1)).map p.take

def makeFolders (t : FileTree) (p : Place) : FileTree :=
  (way p).foldl (fun t f => if (t.node? f).isSome then t else t.setNode f .folder) t

def addFile (t : FileTree) (p : Place) (bytes : List Byte) : FileTree :=
  ((t.makeFolders p.dropLast).makeFile p (.ofList bytes)).2

def placeOf (names : List String) : Place := names.map Text.utf8

def systemFolders : List (List String) :=
  [["bin"], ["boot"], ["dev", "pts"], ["dev", "shm"], ["etc"], ["home"], ["lib"], ["media"],
   ["mnt"], ["opt"], ["proc", "self", "fd"], ["root"], ["run"], ["sbin"], ["srv"], ["sys"],
   ["tmp"], ["usr", "bin"], ["usr", "lib"], ["usr", "share"], ["var", "tmp"]]

/-- The folder in which the descriptors of the process have their numbers as names. -/
def numberFolder : Place := placeOf ["proc", "self", "fd"]

def numberPlace (fd : Nat) : Place := numberFolder ++ [Text.utf8 (Numeral.decimal fd)]

def systemDevices : List (String × Node) :=
  [("null", .device .null), ("zero", .device .zero), ("full", .device .full),
    ("random", .device .random), ("urandom", .device .random), ("tty", .device .terminal),
    ("fd", .link numberFolder), ("stdin", .link (numberPlace 0)), ("stdout", .link (numberPlace 1)),
    ("stderr", .link (numberPlace 2))]

/-- The files that every system has. What they say differs from system to system, so
nothing is kept of it. -/
def systemFiles : List (List String) :=
  [["etc", "group"], ["etc", "hostname"], ["etc", "hosts"], ["etc", "passwd"], ["proc", "cpuinfo"],
    ["proc", "meminfo"], ["proc", "version"], ["proc", "self", "exe"], ["proc", "self", "maps"],
    ["proc", "self", "status"]]

def system : FileTree :=
  let folders := systemFolders.foldl (fun t names => t.makeFolders (placeOf names)) bare
  let files := systemFiles.foldl (fun t names => t.addFile (placeOf names) []) folders
  systemDevices.foldl (fun t (name, n) => t.setNode (placeOf ["dev", name]) n) files

/-- The tree with descriptors under their numbers; those of folders come with their places. -/
def withNumbers (t : FileTree) (numbers : List (Nat × Option Place)) : FileTree :=
  let entries := numbers.map fun (fd, folder?) => (numberPlace fd, Node.descriptor fd folder?)
  { t with nodes := entries ++ t.nodes }

/-- What keeps the folders of a part of the tree. -/
inductive Keeper where
  | files | devices | processes | kernel
  deriving DecidableEq, Repr

def keeper (p : Place) : Keeper :=
  match p with
  | [] => .files
  | top :: _ =>
    if top = Text.utf8 "dev" then .devices
    else if top = Text.utf8 "proc" then .processes
    else if top = Text.utf8 "sys" then .kernel
    else .files

/-- Why nothing can be made at a place where nothing is. -/
def Keeper.refusal? : Keeper → Option Errno
  | files | devices => none
  | processes => some .missingFile
  | kernel => some .accessDenied

def Keeper.takesUnnamed : Keeper → Bool
  | files | devices => true
  | processes | kernel => false

def separator : Byte := 0x2F

/-- The names of a path; between two separators, and after the last, there is an empty one. -/
def names : List Byte → List (List Byte)
  | [] => [[]]
  | b :: rest =>
    if b = separator then [] :: names rest
    else
      match names rest with
      | [] => [[b]]
      | first :: others => (b :: first) :: others

def longestName : Nat := 255

def pathLimit : Nat := 4096

def pathFault? (path : List Byte) : Option Errno :=
  if path = [] then some .missingFile
  else if pathLimit ≤ path.length then some .nameTooLong
  else none

def here : List Byte := Text.utf8 "."

def above : List Byte := Text.utf8 ".."

/-- How a path is written at its end, and what it is followed for. -/
structure PathEnd where
  /-- Whether a separator follows the last name, so that it has to name a folder. -/
  marked : Bool
  /-- Whether a file is to be made if there is none. A path that ends like a folder's cannot make
  one. -/
  creates : Bool

def folderAt (t : FileTree) (p : Place) : Node → Except Errno Place
  | .folder => .ok p
  | .file _ | .device _ => .error .notFolder
  | .descriptor _ folder? => folder?.elim (.error .notFolder) .ok
  | .link other =>
    match t.node? other with
    | none => .error .missingFile
    | some .folder => .ok other
    | some (.descriptor _ (some f)) => .ok f
    | some _ => .error .notFolder

def followLast (t : FileTree) (ending : PathEnd) (p : Place) (name : List Byte) :
    Except Errno PathTarget :=
  if ending.marked ∧ ending.creates then .error .isFolder
  else if longestName < name.length then .error .nameTooLong
  else
    match t.node? p with
    | some n =>
      if ending.marked then (t.folderAt p n).map fun f => .found f .folder else .ok (.found p n)
    | none => if ending.marked then .error .missingFile else .ok (.free p)

def follow (t : FileTree) (ending : PathEnd) (start : Place) :
    List (List Byte) → Except Errno PathTarget
  | [] => .ok (.found start .folder)
  | name :: rest =>
    if name = here then follow t ending start rest
    else if name = above then follow t ending start.dropLast rest
    else if rest = [] then t.followLast ending (start ++ [name]) name
    else if longestName < name.length then .error .nameTooLong
    else
      match t.node? (start ++ [name]) with
      | none => .error .missingFile
      | some n =>
        match t.folderAt (start ++ [name]) n with
        | .ok f => follow t ending f rest
        | .error e => .error e

def resolve (t : FileTree) (start : Place) (path : List Byte) (creates : Bool) :
    Except Errno PathTarget :=
  match pathFault? path with
  | some e => .error e
  | none =>
    let start := if path.head? = some separator then [] else start
    let names := names path
    t.follow ⟨names.getLast? = some [], creates⟩ start (names.filter fun n => n ≠ [])

def bytesAt? (t : FileTree) (start : Place) (path : List Byte) : Option (List Byte) :=
  match t.resolve start path false with
  | .ok (.found _ (.file id)) => some (t.contents id).toList
  | .ok (.found _ (.device .null)) => some []
  | _ => none

end FileTree

end RiscvHart
