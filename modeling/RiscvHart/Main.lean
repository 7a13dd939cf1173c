import RiscvHart.Shell.Run

/-!
# The command line

The program works on a picture of the folder that it is started in: the files are read first, and
those that a run has changed are written when it is over.
-/

namespace RiscvHart.Main

/-- No run takes so many instructions. -/
def fuel : Nat := 0x4000000000000000

def bytesOf (b : ByteArray) : List Byte := b.toList.map UInt8.toBitVec

def arrayOf (bs : List Byte) : ByteArray := ⟨(bs.map UInt8.ofBitVec).toArray⟩

def workingFolder : IO Place := do
  let path := Text.utf8 (← IO.currentDir).toString
  return (FileTree.names path).filter fun n => n ≠ []

def readFolder (home : Place) : IO FileTree := do
  let mut tree := FileTree.system.makeFolders home
  for entry in ← (← IO.currentDir).readDir do
    let place := home ++ [Text.utf8 entry.fileName]
    if ← entry.path.isDir then
      tree := tree.makeFolders place
    else
      if let some contents ← (some <$> IO.FS.readBinFile entry.path) <|> pure none then
        tree := tree.addFile place (bytesOf contents)
  return tree

def filesBelow (t : FileTree) (home : Place) : List (Place × List Byte) :=
  t.nodes.filterMap fun (place, node) =>
    match node with
    | .file id =>
      if home.isPrefixOf place then some (place.drop home.length, (t.contents id).toList) else none
    | _ => none

def writeChanges (home : Place) (before after : FileTree) : IO Unit := do
  let old := filesBelow before home
  for (place, contents) in filesBelow after home do
    if old.lookup place ≠ some contents then
      if let some path := Text.ofUtf8? (List.intercalate [FileTree.separator] place) then
        IO.FS.writeBinFile path (arrayOf contents)

/-- Reads a stream to its end. -/
partial def readAll (stream : IO.FS.Stream) (done : ByteArray) : IO ByteArray := do
  let block ← stream.read 65536
  if block.isEmpty then return done else readAll stream (done ++ block)

end RiscvHart.Main

open RiscvHart RiscvHart.Main in
def main (words : List String) : IO UInt32 := do
  let home ← workingFolder
  let tree ← readFolder home
  let input ← readAll (← IO.getStdin) ByteArray.empty
  let outcome := Shell.run words fuel (.start tree home (bytesOf input))
  let output ← IO.getStdout
  output.write (arrayOf outcome.output)
  output.flush
  let error ← IO.getStderr
  error.write (arrayOf outcome.error)
  error.flush
  writeChanges home tree outcome.tree
  return UInt32.ofNat outcome.code
