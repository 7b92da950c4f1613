import TopDown.Text.Quoted

/-!
# File systems

A run reads one file and writes one. A file system offers these two operations and the reasons for
which it refuses a path. One that is held in memory stands in for a disk: a table of files and
directories, in which a path is walked name by name. Of what lies outside the working directory it
knows the directories above it and the root, with nothing else in them.
-/

namespace TopDown

/-- Why a file system refuses a path. -/
inductive Refusal where
  | notFound | denied | notDirectory | isDirectory | nameTooLong
  deriving DecidableEq, Inhabited

namespace Refusal

def all : List Refusal :=
  [.notFound, .denied, .notDirectory, .isDirectory, .nameTooLong]

/-- The number of the reason among the errors of the operating system. -/
def number : Refusal → Nat
  | notFound => 2
  | denied => 13
  | notDirectory => 20
  | isDirectory => 21
  | nameTooLong => 36

def text : Refusal → String
  | notFound => "No such file or directory"
  | denied => "Permission denied"
  | notDirectory => "Not a directory"
  | isDirectory => "Is a directory"
  | nameTooLong => "File name too long"

end Refusal

inductive FileError where
  | refused (reason : Refusal) (path : String)
  /-- The path holds the null character, so that no file can have it. -/
  | malformed
  deriving DecidableEq, Inhabited

def FileError.message : FileError → String
  | refused reason path => s!"[Errno {reason.number}] {reason.text}: {Text.quoted path}"
  | malformed => "embedded null byte"

structure FileSystem (m : Type → Type) where
  read : (path : String) → m (Except FileError ByteArray)
  write : (path content : String) → m (Except FileError Unit)

inductive Entry where
  | file (content : ByteArray)
  | directory

/-- Files are the same if their bytes are. -/
instance : DecidableEq Entry
  | .file a, .file b =>
    decidable_of_iff (a.data = b.data) (by rw [Entry.file.injEq, ByteArray.ext_iff])
  | .directory, .directory => .isTrue rfl
  | .file _, .directory => .isFalse nofun
  | .directory, .file _ => .isFalse nofun

/-- Entries by the names on the way to them from the working directory, which has the empty way
itself. A way that leaves it begins with the steps up; one from the root begins with a slash. -/
structure Files where
  entries : List (List String × Entry) := []
  deriving DecidableEq

namespace Files

def entry? (fs : Files) (way : List String) : Option Entry :=
  if way.all (· = "..") ∨ way = ["/"] then some .directory else fs.entries.lookup way

/-- The way to the directory above. The root is above itself. -/
def above (way : List String) : List String :=
  match way.getLast? with
  | none | some ".." => way ++ [".."]
  | some "/" => way
  | some _ => way.dropLast

def put (fs : Files) (way : List String) (entry : Entry) : Files :=
  ⟨(way, entry) :: fs.entries.filter (·.1 ≠ way)⟩

/-- The greatest number of bytes in a name. -/
def nameLimit : Nat := 255

/-- The greatest number of bytes in a path. -/
def pathLimit : Nat := 4095

/-- Follows the names from a directory. The last name may be missing, and every other one names a
directory. -/
def walk (fs : Files) (way : List String) : List String → Except Refusal (List String)
  | [] => .ok way
  | name :: rest =>
    if name = "." then fs.walk way rest
    else if name = ".." then fs.walk (above way) rest
    else if name.utf8ByteSize > nameLimit then .error .nameTooLong
    else
      match fs.entry? (way ++ [name]) with
      | some .directory => fs.walk (way ++ [name]) rest
      | some (.file _) => if rest.isEmpty then .ok (way ++ [name]) else .error .notDirectory
      | none => if rest.isEmpty then .ok (way ++ [name]) else .error .notFound

/-- The names in a path. -/
def names (path : String) : List String :=
  (path.splitOn "/").filter (·.length > 0)

/-- Whether a path asks for a directory by its last character. -/
def asksDirectory (path : String) : Bool :=
  path.toList.getLast? = some '/'

/-- Follows `names`, which are taken from `path`, from the directory where the path starts. -/
def locate (fs : Files) (path : String) (names : List String) : Except Refusal (List String) :=
  if path.isEmpty then .error .notFound
  else if path.utf8ByteSize > pathLimit then .error .nameTooLong
  else fs.walk (if path.toList.head? = some '/' then ["/"] else []) names

/-- The content of the file with the given path. -/
def read (fs : Files) (path : String) : Except Refusal ByteArray := do
  let last := if asksDirectory path then ["."] else []
  match fs.entry? (← fs.locate path (names path ++ last)) with
  | none => throw .notFound
  | some .directory => throw .isDirectory
  | some (.file content) => return content

/-- Makes or replaces the file with the given path. A path that asks for a directory makes none,
whatever its last name. -/
def write (fs : Files) (path content : String) : Except Refusal Files := do
  if asksDirectory path then
    let _ ← fs.locate path ((names path).dropLast ++ ["."])
    throw .isDirectory
  let way ← fs.locate path (names path)
  match fs.entry? way with
  | some .directory => throw .isDirectory
  | _ => return fs.put way (.file content.toUTF8)

/-- Adds an entry and the directories on the way to it. -/
def add (fs : Files) (way : List String) (entry : Entry) : Files :=
  let parents := (List.range way.length).tail.map way.take
  (parents.foldl (fun fs parent => fs.put parent .directory) fs).put way entry

def isMalformed (path : String) : Bool :=
  path.toList.contains '\x00'

/-- The file system that these files make up. -/
def system : FileSystem (StateM Files) where
  read path := do
    let fs ← get
    if isMalformed path then return .error .malformed
    return (fs.read path).mapError (.refused · path)
  write path content := do
    let fs ← get
    if isMalformed path then return .error .malformed
    match fs.write path content with
    | .ok fs => set fs; return .ok ()
    | .error reason => return .error (.refused reason path)

end Files

end TopDown
