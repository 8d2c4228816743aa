import ThreadedForth.Source.Utf8
/-!
# ThreadedForth.Source.File

Source files: how bytes become source text, and what can keep a file from being read.

In a source file a line may end with a carriage return, a line feed or both; all are read as a line
feed (`unifyLineEnds`). A conversation is cut into lines at line feeds alone (`splitLines`).

Which file a name leads to is up to the host. All that a run needs of a host is what comes of reading
the file of a name, whatever the name looks like (`Files`). One host is a folder of files held in
memory, in which names are resolved as paths (`Folder.read`); nothing is known about what lies outside
of it.
-/

namespace ThreadedForth

/-! ### Lines -/

/-- Turn every line end into a line feed. -/
def unifyLineEnds : List Char → List Char
  | [] => []
  | '\r' :: '\n' :: cs => '\n' :: unifyLineEnds cs
  | c :: cs => (if c = '\r' then '\n' else c) :: unifyLineEnds cs

/-- The lines of a text, without their line feeds; a text that ends with one has no further
line. -/
def splitLines : List Char → List (List Char)
  | [] => []
  | '\n' :: cs => [] :: splitLines cs
  | c :: cs =>
    match splitLines cs with
    | [] => [[c]]
    | l :: ls => (c :: l) :: ls

/-! ### Reading a file -/

/-- Why a file could not be read. -/
inductive ReadFailure where
  /-- There is nothing of that name. -/
  | missing
  /-- The name belongs to a folder. -/
  | isFolder
  /-- The name goes through something that is no folder. -/
  | notAFolder
  /-- The name, or a part of it, is too long. -/
  | nameTooLong
  /-- Reading is not allowed. -/
  | denied
  /-- The name holds a NUL character, which no file name can. -/
  | nullInName
  /-- The bytes are not UTF-8. -/
  | undecodable (flaw : Utf8.Flaw)
  deriving DecidableEq, Repr

/-- The wording of a failure to read the file of the given name. -/
def ReadFailure.message (name : String) : ReadFailure → String
  | missing => "[Errno 2] No such file or directory: " ++ Text.quoted name
  | denied => "[Errno 13] Permission denied: " ++ Text.quoted name
  | notAFolder => "[Errno 20] Not a directory: " ++ Text.quoted name
  | isFolder => "[Errno 21] Is a directory: " ++ Text.quoted name
  | nameTooLong => "[Errno 36] File name too long: " ++ Text.quoted name
  | nullInName => "embedded null byte"
  | undecodable flaw => flaw.message

/-- The files of a host: what comes of reading the file of a name, its bytes or a failure. -/
abbrev Files := String → Except ReadFailure ByteArray

/-- The source text in the bytes of a file. -/
def sourceOfBytes (bytes : ByteArray) : Except ReadFailure String :=
  match Utf8.decode bytes with
  | .ok text => .ok (String.ofList (unifyLineEnds text.toList))
  | .error flaw => .error (.undecodable flaw)

/-! ### Folders in memory -/

/-- Something that has a name in a folder. -/
inductive Item where
  /-- A file with its bytes. -/
  | file (bytes : ByteArray)
  /-- A folder. -/
  | folder

/-- A folder: its items by path, a path being the names from the folder down. -/
structure Folder where
  /-- The items. -/
  items : List (List String × Item) := []

namespace Folder

/-- The longest name of a single item, in bytes. -/
def longestName : Nat := 255

/-- The longest path, in bytes. -/
def longestPath : Nat := 4095

/-- The folder with an item added under a path written with slashes. -/
def insert (f : Folder) (path : String) (item : Item) : Folder :=
  { f with items := f.items ++ [(path.splitOn "/", item)] }

/-- The item at a path. A path that only leads to items is a folder. -/
def item? (f : Folder) (path : List String) : Option Item :=
  if path.isEmpty then some .folder
  else
    match f.items.find? (·.1 = path) with
    | some (_, item) => some item
    | none => if f.items.any (fun i => path.isPrefixOf i.1) then some .folder else none

/-- Where a path leads: to a file, to a folder, or to a folder that is not under this one and
about which nothing is known. -/
inductive Place where
  /-- A file. -/
  | file (bytes : ByteArray)
  /-- This folder or one under it, by its path. -/
  | inside (path : List String)
  /-- A folder elsewhere. -/
  | outside

/-- Go from a place along one part of a path. -/
def advance (f : Folder) (part : String) : Place → Except ReadFailure Place
  | .file _ => .error .notAFolder
  | .outside =>
    if part = "" || part = "." || part = ".." then .ok .outside
    else if longestName < part.utf8ByteSize then .error .nameTooLong
    else .error .missing
  | .inside path =>
    if part = "" || part = "." then .ok (.inside path)
    else if part = ".." then .ok (if path.isEmpty then .outside else .inside path.dropLast)
    else if longestName < part.utf8ByteSize then .error .nameTooLong
    else
      match f.item? (path ++ [part]) with
      | none => .error .missing
      | some .folder => .ok (.inside (path ++ [part]))
      | some (.file bytes) => .ok (.file bytes)

/-- Read the file of a name. -/
def read (f : Folder) (name : String) : Except ReadFailure ByteArray :=
  if name.contains '\x00' then .error .nullInName
  else if name.isEmpty then .error .missing
  else if longestPath < name.utf8ByteSize then .error .nameTooLong
  else
    let start := if name.startsWith "/" then Place.outside else .inside []
    match (name.splitOn "/").foldlM (fun place part => f.advance part place) start with
    | .error failure => .error failure
    | .ok (.file bytes) => .ok bytes
    | .ok _ => .error .isFolder

/-- A folder in memory is a host's files. -/
instance : Coe Folder Files := ⟨read⟩

end Folder

end ThreadedForth
