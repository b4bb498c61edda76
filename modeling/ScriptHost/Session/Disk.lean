import ScriptHost.Session.Basic

/-!
A directory of files held in memory, seen from within. A path goes through its parts one after
another, each of which but the last must lead to a directory. Of the world outside of the directory
only the root and a few devices are known.
-/

namespace ScriptHost

/-- Files by their path from the directory they are seen from, each part of it a name. -/
structure Disk where
  files : List (List String × ByteArray)

/-- What a path leads to: a directory of the disk or a known one outside of it, each under its
names, any other directory, or a file. A stream is a pipe that cannot be measured before it is
read. -/
inductive Place
  | directory (path : List String)
  | system (path : List String)
  | unknown
  | file (contents : ByteArray)
  | stream

namespace Place

/-- What a name leads to from the root or from the directory of devices. The devices that can be
measured have no contents. -/
def enterSystem? : List String → String → Option Place
  | [], "dev" => some (.system ["dev"])
  | ["dev"], "fd" => some (.system ["dev", "fd"])
  | ["dev"], "stdin" | ["dev"], "stdout" | ["dev"], "stderr" => some .stream
  | ["dev", "fd"], "0" | ["dev", "fd"], "1" | ["dev", "fd"], "2" => some .stream
  | ["dev"], "null" | ["dev"], "zero" | ["dev"], "full" | ["dev"], "random" | ["dev"], "urandom" =>
    some (.file ByteArray.empty)
  | _, _ => none

end Place

namespace Disk

/-- A directory without files. -/
def empty : Disk := ⟨[]⟩

/-- The names that a path consists of. -/
def partsOf (path : String) : List String :=
  (path.splitOn "/").filter fun part => part != "" && part != "."

/-- Writes a file in place of one of the same path. -/
def write (d : Disk) (path : String) (contents : ByteArray) : Disk :=
  let parts := partsOf path
  ⟨(parts, contents) :: d.files.filter (·.1 != parts)⟩

/-- What a name leads to from a directory of the disk. -/
def enter? (d : Disk) (path : List String) (name : String) : Option Place :=
  let path := path ++ [name]
  match d.files.lookup path with
  | some contents => some (.file contents)
  | none => if d.files.any fun f => path.isPrefixOf f.1 then some (.directory path) else none

/-- What a part of a path leads to. An empty part or a dot stays in a directory, two dots leave it;
the root is left for itself. -/
def step? (d : Disk) (place : Place) (part : String) : Option Place :=
  match place with
  | .file _ | .stream => none
  | .directory path =>
    if part = "" ∨ part = "." then some place
    else if part = ".." then some (if path.isEmpty then .unknown else .directory path.dropLast)
    else d.enter? path part
  | .system path =>
    if part = "" ∨ part = "." then some place
    else if part = ".." then some (.system path.dropLast)
    else Place.enterSystem? path part
  | .unknown => if part = "" ∨ part = "." ∨ part = ".." then some place else none

/-- Least number of bytes of a path that is too long to be followed. -/
def pathLimit : Nat := 4096

/-- What a path leads to. -/
def find? (d : Disk) (path : String) : Option Place :=
  if path = "" ∨ pathLimit ≤ path.utf8ByteSize then none
  else
    let start := if path.startsWith "/" then Place.system [] else .directory []
    (path.splitOn "/").foldlM d.step? start

/-- Reads the contents of a file whole. A stream cannot be measured before it is read, and a
directory holds nothing to be read. -/
def read (d : Disk) (path : String) : Except FileProblem ByteArray :=
  match d.find? path with
  | some (.file contents) => .ok contents
  | some .stream => .error .cannotSeek
  | some (.directory _) | some (.system _) | some .unknown => .error .cannotRead
  | none => .error .cannotOpen

theorem read_eq_ok_iff {d : Disk} {path : String} {contents : ByteArray} :
    d.read path = .ok contents ↔ d.find? path = some (.file contents) := by
  unfold read
  split <;> simp_all

end Disk

end ScriptHost
