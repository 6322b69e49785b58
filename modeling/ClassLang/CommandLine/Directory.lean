/-! # Directories

A directory of files, as far as compiling needs one: files are read as text and written whole. A path
is followed name by name from the directory; every name but the last must lead to a directory. What
lies above the directory is not kept: nothing is found there, and what is written there is lost. -/

namespace ClassLang.CommandLine

/-- Why a file cannot be read or written. -/
inductive FileFault where
  /-- There is no such file, or no directory to write it to. -/
  | missing
  /-- A file stands where a directory is needed. -/
  | notDirectory
  /-- A directory stands where a file is needed. -/
  | isDirectory
  /-- A name or the whole path is too long. -/
  | nameTooLong
  /-- The bytes of the file are no text. -/
  | invalidText
  /-- Any other reason, in the words of the system. -/
  | other (reason : String)
  deriving DecidableEq, Repr

/-- What is said of a file that cannot be read or written. -/
def FileFault.message : FileFault → String
  | .missing => "No such file or directory (os error 2)"
  | .notDirectory => "Not a directory (os error 20)"
  | .isDirectory => "Is a directory (os error 21)"
  | .nameTooLong => "File name too long (os error 36)"
  | .invalidText => "stream did not contain valid UTF-8"
  | .other reason => reason

/-! ## Paths -/

/-- The greatest size of a name in bytes. -/
def maxNameSize : Nat := 255

/-- The greatest size of a path in bytes. -/
def maxPathSize : Nat := 4095

/-- The names along a path. -/
def pathNames (path : String) : List String := (path.splitOn "/").filter (· ≠ "")

/-- Where a path leads to. -/
inductive Spot where
  /-- A directory above the one of the files. -/
  | above
  /-- A place below the directory of the files, by the names that lead to it. -/
  | below (names : List String)
  deriving DecidableEq, Repr

/-- The directory around a place. -/
def Spot.parent : Spot → Spot
  | .below (name :: names) => .below (name :: names).dropLast
  | _ => .above

/-- Where a path starts: one that begins with a slash does not start at the directory. -/
def Spot.ofPath (path : String) : Spot :=
  if path.toList.head? = some '/' then .above else .below []

/-! ## Directories -/

/-- A directory: the names of its files with their bytes. Files in a subdirectory have slashes in
their names. -/
structure Directory where
  /-- The files in order. -/
  files : List (String × ByteArray)

/-- What a place holds. -/
inductive Entry where
  /-- A file with its bytes. -/
  | file (bytes : ByteArray)
  /-- A directory. -/
  | directory
  /-- Nothing. -/
  | absent

namespace Directory

variable (directory : Directory)

/-- What the place that names lead to holds. A directory is there if it is the outermost one or holds
a file. -/
def entry (names : List String) : Entry :=
  match directory.files.find? (fun file => pathNames file.1 = names) with
  | some file => .file file.2
  | none =>
    if names = [] || directory.files.any (fun file => names.isPrefixOf (pathNames file.1)) then
      .directory
    else .absent

/-- Follow a name that is neither a point nor two points. -/
def look (spot : Spot) (name : String) : Except FileFault Entry :=
  if maxNameSize < name.utf8ByteSize then .error .nameTooLong
  else
    match spot with
    | .above => .ok .absent
    | .below names => .ok (directory.entry (names ++ [name]))

/-- Follow a name that must lead to a directory. One point stands for the directory itself and two
for the one around it. -/
def enter (spot : Spot) (name : String) : Except FileFault Spot :=
  if name = "." then .ok spot
  else if name = ".." then .ok spot.parent
  else do
    match ← directory.look spot name, spot with
    | .directory, .below names => return .below (names ++ [name])
    | .file _, _ => throw .notDirectory
    | _, _ => throw .missing

/-- Follow a path up to its last name; there is no name if the path leads to a directory whatever it
holds. -/
def locate (path : String) : Except FileFault (Spot × Option String) :=
  if path = "" then .error .missing
  else if maxPathSize < path.utf8ByteSize then .error .nameTooLong
  else
    match (pathNames path).getLast? with
    | none => .ok (.above, none)
    | some last => do
      let spot ← (pathNames path).dropLast.foldlM directory.enter (Spot.ofPath path)
      return (spot, if last = "." || last = ".." then none else some last)

/-- Whether a path ends with a slash. -/
def endsWithSlash (path : String) : Bool := path.toList.getLast? = some '/'

/-- The text that bytes stand for. -/
def decode (bytes : ByteArray) : Except FileFault String :=
  match String.fromUTF8? bytes with
  | some text => .ok text
  | none => .error .invalidText

/-- Read the text of a file. -/
def read (path : String) : Except FileFault String := do
  match ← directory.locate path with
  | (_, none) => throw .isDirectory
  | (spot, some name) =>
    match ← directory.look spot name with
    | .file bytes => if endsWithSlash path then throw .notDirectory else decode bytes
    | .directory => throw .isDirectory
    | .absent => throw .missing

/-- Replace the bytes of the file that names lead to, or add it at the end. -/
def put (names : List String) (bytes : ByteArray) :
    List (String × ByteArray) → List (String × ByteArray)
  | [] => [("/".intercalate names, bytes)]
  | file :: rest =>
    if pathNames file.1 = names then (file.1, bytes) :: rest else file :: put names bytes rest

/-- Write a text to a file. -/
def write (path text : String) : Except FileFault Directory := do
  match ← directory.locate path with
  | (_, none) => throw .isDirectory
  | (spot, some name) =>
    if endsWithSlash path then throw .isDirectory
    else
      match ← directory.look spot name, spot with
      | .directory, _ => throw .isDirectory
      | _, .below names => return ⟨put (names ++ [name]) text.toUTF8 directory.files⟩
      | _, .above => return directory

end Directory

end ClassLang.CommandLine
