import Chip8.Fault

/-!
# Finding a program file

A path is a row of names between slashes.  Empty names and `.` mean nothing, so doubled and
trailing slashes do not matter, and `..` goes one folder up.  `Folder.read` follows a path from
the current folder: each name but the last has to lead to a folder, and the last one to a file.

Above the current folder nothing is known but that there are folders.
-/

namespace Chip8

/-- What the current folder holds, by path. -/
structure Folder where
  /-- The files with their contents. -/
  files : List (List String × Array UInt8) := []
  /-- The folders. -/
  folders : List (List String) := []

/-- Where a path leads on its way. -/
inductive Place where
  /-- The folder reached by these names from the current one. -/
  | folder (names : List String)
  /-- A file. -/
  | file (contents : Array UInt8)
  /-- A folder that the current one lies in, so many levels up. -/
  | above (levels : Nat)
  /-- The folder at the top of everything. -/
  | top

namespace Folder

/-- The greatest number of bytes in a name. -/
def nameLimit : Nat := 255

/-- The greatest number of bytes in a path. -/
def pathLimit : Nat := 4095

/-- The names of a path. -/
def names (path : String) : List String :=
  (path.splitOn "/").filter fun name => name ≠ "" ∧ name ≠ "."

/-- The names of the same place without going up, if the place lies in the current folder. -/
def settle? (names : List String) : Option (List String) :=
  names.foldlM (fun here name =>
    if name ≠ ".." then some (here ++ [name])
    else if here = [] then none
    else some here.dropLast) []

/-- The folder with a folder more in it, and with those on the way there. -/
def addFolder (f : Folder) (names : List String) : Folder :=
  { f with
    folders := f.folders ++
      (List.range names.length).filterMap fun n => settle? (names.take (n + 1)) }

/-- The folder with a file more in it, in the place of any file of the same name, and with the
folders on the way there. -/
def addFile (f : Folder) (names : List String) (contents : Array UInt8) : Folder :=
  let f := f.addFolder names.dropLast
  match settle? names with
  | some place =>
    { f with files := f.files.filter (fun entry => entry.1 ≠ place) ++ [(place, contents)] }
  | none => f

/-- The path begins at the top of everything. -/
def isAbsolute (path : String) : Bool := path.startsWith "/"

/-- The slashes that a path keeps at its front: two slashes stay two, and more are as good as
one. -/
def leadingSlashes (path : String) : Nat :=
  match (path.toList.takeWhile (· = '/')).length with
  | 0 => 0
  | 2 => 2
  | _ => 1

/-- The length in bytes of a path without the parts that mean nothing. -/
def length (path : String) : Nat :=
  leadingSlashes path + ("/".intercalate (names path)).utf8ByteSize

/-- Goes up from a folder. -/
def leave : Place → Except FileError Place
  | .file _ => .error .notDirectory
  | .top => .ok .top
  | .above levels => .ok (.above (levels + 1))
  | .folder [] => .ok (.above 1)
  | .folder here => .ok (.folder here.dropLast)

/-- Goes down from a folder along a name. -/
def enter (f : Folder) (place : Place) (name : String) : Except FileError Place :=
  match place with
  | .file _ => .error .notDirectory
  | place =>
    if nameLimit < name.utf8ByteSize then .error .nameTooLong
    else match place with
      | .folder here =>
        let there := here ++ [name]
        match f.files.find? fun entry => entry.1 = there with
        | some entry => .ok (.file entry.2)
        | none => if there ∈ f.folders then .ok (.folder there) else .error .missing
      | _ => .error .missing

/-- Goes along one name. -/
def follow (f : Folder) (place : Place) (name : String) : Except FileError Place :=
  if name = ".." then leave place else f.enter place name

/-- The contents of the file that a path leads to. -/
def find (f : Folder) (path : String) : Except FileError (Array UInt8) := do
  if pathLimit < length path then .error .nameTooLong
  else match ← (names path).foldlM f.follow (if isAbsolute path then .top else .folder []) with
    | .file contents => .ok contents
    | _ => .error .isDirectory

/-- Reads a program file. -/
def read (f : Folder) (path : String) : Except Fault (Array UInt8) :=
  if '\x00' ∈ path.toList then .error .badValue
  else match f.find path with
    | .ok contents => .ok contents
    | .error error => .error (.unreadable path error)

end Folder

end Chip8
