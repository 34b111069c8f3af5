/-! # A directory in memory

Files and directories below a working directory, with the rules by which a path finds
them: a step goes through a directory that is there, dots stay or go up, and a slash at
the end asks for a directory.
-/

namespace KCompiler

/-- Why a file cannot be read or written. -/
inductive FileError where
  | notFound
  | notDirectory
  | isDirectory
  | nameTooLong
  | invalidText
  /-- Another error of the system, in its own words. -/
  | other (message : String)
  deriving DecidableEq, Repr

def FileError.message : FileError → String
  | .notFound => "No such file or directory (os error 2)"
  | .notDirectory => "Not a directory (os error 20)"
  | .isDirectory => "Is a directory (os error 21)"
  | .nameTooLong => "File name too long (os error 36)"
  | .invalidText => "stream did not contain valid UTF-8"
  | .other message => message

/-- What a path leads to. -/
inductive Entry where
  | file (content : ByteArray)
  | directory
  deriving Inhabited

instance : DecidableEq Entry
  | .directory, .directory => isTrue rfl
  | .directory, .file _ => isFalse nofun
  | .file _, .directory => isFalse nofun
  | .file content, .file other =>
    if hdata : content.data = other.data then
      isTrue (congrArg Entry.file (congrArg ByteArray.mk hdata))
    else isFalse fun hfile => hdata (by cases hfile; rfl)

/-- The entries below a working directory, each with the names on its path. The directories
above an entry are entries too. -/
structure Directory where
  entries : List (List String × Entry) := []

namespace Directory

/-- The entry at a path of plain names; the empty path is the working directory. -/
def entry? (directory : Directory) : List String → Option Entry
  | [] => some .directory
  | names => directory.entries.lookup names

/-- Sets the entry at a path, behind the others if it is new. -/
def set (directory : Directory) (names : List String) (entry : Entry) : Directory :=
  if directory.entries.any (·.1 = names) then
    ⟨directory.entries.map fun old => if old.1 = names then (names, entry) else old⟩
  else ⟨directory.entries ++ [(names, entry)]⟩

/-- A path as it is written: its names, and whether a slash ends it. -/
structure Path where
  absolute : Bool
  names : List String
  slashed : Bool

/-- Cuts a text at its slashes. -/
def splitSlashes : List Char → List (List Char)
  | [] => [[]]
  | c :: rest =>
    match splitSlashes rest with
    | [] => [[c]]
    | first :: more => if c = '/' then [] :: first :: more else (c :: first) :: more

def Path.parse (text : String) : Path where
  absolute := text.toList.head? = some '/'
  names := ((splitSlashes text.toList).filter (!·.isEmpty)).map String.ofList
  slashed := text.toList.getLast? = some '/'

/-- The longest name a directory can hold, in bytes. -/
def maxNameBytes : Nat := 255

/-- Follows names from a directory that is there, and gives the plain names of the place
they lead to. What lies above the working directory is not known. -/
def walk (directory : Directory) (place : List String) : List String → Except FileError (List String)
  | [] => .ok place
  | name :: rest =>
    match directory.entry? place with
    | none => .error .notFound
    | some (.file _) => .error .notDirectory
    | some .directory =>
      if name = "." then directory.walk place rest
      else if name = ".." then
        if place.isEmpty then .error .notFound else directory.walk place.dropLast rest
      else if maxNameBytes < name.utf8ByteSize then .error .nameTooLong
      else directory.walk (place ++ [name]) rest

/-- The place that a path leads to. -/
def resolve (directory : Directory) (path : Path) : Except FileError (List String) :=
  if path.absolute then
    if path.names.isEmpty then .error .isDirectory else .error .notFound
  else directory.walk [] path.names

/-- The text of a file. -/
def read (directory : Directory) (path : String) : Except FileError String := do
  let parsed := Path.parse path
  let place ← directory.resolve parsed
  match directory.entry? place with
  | none => .error .notFound
  | some .directory => .error .isDirectory
  | some (.file content) =>
    if parsed.slashed then .error .notDirectory
    else
      match String.fromUTF8? content with
      | some text => .ok text
      | none => .error .invalidText

/-- Whether the last step of a path does not name an entry of its own. -/
def Path.endsInDots (path : Path) : Bool :=
  path.names.getLast? == some "." || path.names.getLast? == some ".."

/-- The directory after a text has been written to a file, which is made if need be. -/
def write (directory : Directory) (path : String) (text : String) :
    Except FileError Directory := do
  let parsed := Path.parse path
  let place ← directory.resolve parsed
  let parent := directory.entry? place.dropLast
  if parent.isNone then .error .notFound
  else if parsed.slashed || parsed.endsInDots || directory.entry? place == some .directory then
    .error .isDirectory
  else .ok (directory.set place (.file text.toUTF8))

/-- A directory with one more entry, and all directories above it. -/
def make (directory : Directory) (path : String) (entry : Entry) : Directory :=
  let names := (Path.parse path).names
  let above := (List.range names.length).tail.map names.take
  (above.foldl (fun directory names => directory.set names .directory) directory).set names entry

/-- The files of a directory that an earlier one has not, or not with this content, by path. -/
def changes (earlier later : Directory) : List (String × ByteArray) :=
  later.entries.filterMap fun (names, entry) =>
    match entry with
    | .file content =>
      if earlier.entry? names == some entry then none else some ("/".intercalate names, content)
    | .directory => none

end Directory
end KCompiler
