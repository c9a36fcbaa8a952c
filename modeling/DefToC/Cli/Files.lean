/-!
# Files

What the program needs of the system that it runs on, and a directory held in memory that answers
like a real one.

## The model

A path is a row of names between slashes, read from the working directory. Inside the directory in
memory a file is known by its names from there; a name that begins the path of a file is a
directory. Beyond the working directory nothing is known to exist but the directories around it and
what every system has: the root, the directories for devices and for temporary files, and the null
device.

Names are followed one after another, and all but the last have to lead to directories. The faults
are those of a real system and have its wording, since the wording is shown. A name or a path that
is too long is refused before anything is looked up.

## What is not modelled

There are no links, no rights and no limit of space, and nobody else writes to the directory. A
directory without a file in it does not exist. The clock of the directory in memory stands still.
-/

namespace DefToC.Cli

/-- Why a file could not be read or written. -/
inductive FileFault where
  /-- There is no such file. -/
  | notFound
  /-- A name in front of a slash is not a directory. -/
  | notDirectory
  /-- A directory stands where a file is wanted. -/
  | isDirectory
  /-- A name or the whole path is too long. -/
  | nameTooLong
  /-- The bytes of the file are no text. -/
  | notText
  /-- Something else, in the words of the system. -/
  | other (message : String)

/-- The wording of a fault. -/
def FileFault.message : FileFault → String
  | notFound => "No such file or directory (os error 2)"
  | notDirectory => "Not a directory (os error 20)"
  | isDirectory => "Is a directory (os error 21)"
  | nameTooLong => "File name too long (os error 36)"
  | notText => "stream did not contain valid UTF-8"
  | other message => message

/-- What the program needs of the system. -/
structure Host (m : Type → Type) where
  /-- The bytes of a file. -/
  read : String → m (Except FileFault ByteArray)
  /-- Write a text to a file. -/
  write : String → String → m (Except FileFault Unit)
  /-- The reading of a clock. -/
  clock : m Nat
  /-- How long ago the clock had a reading, as text. -/
  elapsed : Nat → m String

/-- The pieces of a text between slashes. -/
def splitSlashes : List Char → List (List Char)
  | [] => [[]]
  | c :: cs =>
    if c = '/' then [] :: splitSlashes cs
    else
      match splitSlashes cs with
      | [] => [[c]]
      | piece :: pieces => (c :: piece) :: pieces

/-- The names of a path. A slash at its end leaves an empty name. -/
def pathNames (path : String) : List String := (splitSlashes path.toList).map String.ofList

/-- The last name of a path, by which messages call the file. -/
def fileName (path : String) : String :=
  match ((pathNames path).filter fun n => n ≠ "" ∧ n ≠ ".").getLast? with
  | none => path
  | some name => if name = ".." then path else name

/-- The names of a path without the slashes at its end. -/
def bareNames (path : String) : List String :=
  ((pathNames path).reverse.dropWhile (· = "")).reverse

/-- The most bytes that a name may have. -/
def nameLimit : Nat := 255

/-- The most bytes that a path may have. -/
def pathLimit : Nat := 4095

/-- What a path leads to. -/
inductive Entry where
  /-- A file. -/
  | file (bytes : ByteArray)
  /-- A directory. -/
  | directory
  /-- The device that holds nothing and keeps nothing. -/
  | null

/-- A directory held in memory: its files by the names of their paths. -/
structure Directory where
  /-- The files. -/
  files : List (List String × ByteArray)

namespace Directory

/-- A directory with the given files, which are named by their paths. -/
def ofList (files : List (String × ByteArray)) : Directory :=
  ⟨files.map fun (name, bytes) => (pathNames name, bytes)⟩

/-- The places beyond the working directory that every system has. A place that is counted
from the root begins with a slash. -/
def common : List (List String × Entry) :=
  [(["/"], .directory), (["/", "dev"], .directory), (["/", "tmp"], .directory),
   (["/", "dev", "null"], .null)]

/-- What stands at a place. The places that lead out of the directory are directories. -/
def entry? (d : Directory) (place : List String) : Option Entry :=
  match d.files.lookup place with
  | some bytes => some (.file bytes)
  | none =>
    if place.all (· = "..") ∨ d.files.any (fun f => place.isPrefixOf f.1) then some .directory
    else common.lookup place

/-- The place of the directory around a directory. -/
def parent (place : List String) : List String :=
  if place.all (· = "..") then place ++ [".."]
  else if place = ["/"] then place
  else place.dropLast

/-- Follow names from a directory. All but the last have to lead to directories. -/
def follow (d : Directory) (place : List String) : List String → Except FileFault (List String)
  | [] => .ok place
  | name :: names =>
    if name = "" ∨ name = "." then d.follow place names
    else if name = ".." then d.follow (parent place) names
    else if nameLimit < name.utf8ByteSize then .error .nameTooLong
    else if names = [] then .ok (place ++ [name])
    else
      match d.entry? (place ++ [name]) with
      | none => .error .notFound
      | some .directory => d.follow (place ++ [name]) names
      | some _ => .error .notDirectory

/-- The place that names lead to. An empty name in front begins at the root. -/
def resolve (d : Directory) : List String → Except FileFault (List String)
  | "" :: names => d.follow ["/"] names
  | names => d.follow [] names

/-- Check that a path is not too long. -/
def checkLength (path : String) : Except FileFault Unit :=
  if pathLimit < path.utf8ByteSize then .error .nameTooLong else .ok ()

/-- The bytes of a file. -/
def read (d : Directory) (path : String) : Except FileFault ByteArray := do
  checkLength path
  match d.entry? (← d.resolve (pathNames path)) with
  | none => throw .notFound
  | some .directory => throw .isDirectory
  | some (.file bytes) => return bytes
  | some .null => return .empty

/-- Does a slash stand behind the last name of a path, if that is a name of its own? Such a
path can only be meant for a directory. -/
def endsInSlash (path : String) : Bool :=
  match (bareNames path).getLast? with
  | none => false
  | some name => name ≠ "." && name ≠ ".." && bareNames path ≠ pathNames path

/-- The place that a file is written to. The directories on the way have to exist, even if
the path is refused because of the slash behind its last name. -/
def destination (d : Directory) (path : String) : Except FileFault (List String) :=
  if endsInSlash path then do
    let _ ← d.resolve ((bareNames path).dropLast ++ ["."])
    throw .isDirectory
  else d.resolve (pathNames path)

/-- The directory after a file is written. -/
def write (d : Directory) (path : String) (bytes : ByteArray) : Except FileFault Directory := do
  checkLength path
  let place ← d.destination path
  match d.entry? place with
  | none => return ⟨(place, bytes) :: d.files⟩
  | some .directory => throw .isDirectory
  | some (.file _) => return ⟨(place, bytes) :: d.files.filter (·.1 ≠ place)⟩
  | some .null => return d

/-- The files right in a directory that another directory does not hold as they are. -/
def changes (d before : Directory) : List (String × ByteArray) :=
  d.files.filterMap fun (place, bytes) =>
    match place with
    | [name] =>
      match before.files.lookup place with
      | some old => if old.data = bytes.data then none else some (name, bytes)
      | none => some (name, bytes)
    | _ => none

/-- A directory in memory as the system that the program runs on. Its clock stands still,
and how long something took is not told. -/
def host : Host (StateM Directory) where
  read path := do return (← get).read path
  write path text := do
    match (← get).write path text.toUTF8 with
    | .error fault => return .error fault
    | .ok after =>
      set after
      return .ok ()
  clock := pure 0
  elapsed _ := pure "_"

end Directory

end DefToC.Cli
