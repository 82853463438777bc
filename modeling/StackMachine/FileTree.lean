/-!
# File trees

A program is given the path of a file, and the path leads through a tree of directories.
It is walked name by name, from the root if it starts with a slash and else from the
current directory. Two names are no names of entries: a point stays where it is, and two
points go up. What stands between two slashes, or behind the last one, may be empty, and
that stays where it is too. Each of these asks for a directory as any name does, so a
path that ends in a slash never leads to a file.

A walk ends at the first obstacle, and the obstacle is what the program learns
(`FileError`): there is no such entry, what should be passed through is a file, or a name
is longer than any entry's name can be. That a path leads to a directory is no obstacle to
the walk, but there is nothing to read at its end.
-/

namespace StackMachine

/-- Why a file cannot be read as text. -/
inductive FileError where
  /-- There is no such file. -/
  | missing
  /-- The path goes through something that is no directory. -/
  | notDirectory
  /-- It is a directory. -/
  | directory
  /-- A name in the path, or the path itself, is too long. -/
  | nameTooLong
  /-- Its bytes are no text. -/
  | notText
  deriving DecidableEq, Inhabited

/-- How trouble with a file reads. -/
def FileError.message : FileError → String
  | missing => "No such file or directory (os error 2)"
  | notDirectory => "Not a directory (os error 20)"
  | directory => "Is a directory (os error 21)"
  | nameTooLong => "File name too long (os error 36)"
  | notText => "stream did not contain valid UTF-8"

/-- What a file tree has in a place. -/
inductive Entry where
  /-- A directory. -/
  | directory
  /-- A file with these bytes. -/
  | file (bytes : ByteArray)
  deriving Inhabited

/-- A place in a file tree: the names that lead there from the root. -/
abbrev Place := List String

/-- **A tree of directories and files.** -/
structure FileTree where
  /-- What lies in which place. A directory that holds an entry need not be mentioned. -/
  entries : List (Place × Entry)
  /-- The current directory. -/
  current : Place
  deriving Inhabited

namespace FileTree

/-- How many bytes the name of an entry can have. -/
def maxName : Nat := 255

/-- How many bytes a path can have. -/
def maxPath : Nat := 4095

/-- What lies in a place. The root and the current directory are directories, and so is
every place on the way to an entry. -/
def entry? (t : FileTree) (place : Place) : Option Entry :=
  match t.entries.lookup place with
  | some entry => some entry
  | none =>
    let places := t.current :: t.entries.map Prod.fst
    if places.any fun p => place.isPrefixOf p then some .directory else none

/-- Goes from a directory to the place that a name stands for. -/
def enter (t : FileTree) (place : Place) (name : String) : Except FileError Place :=
  if name = "" ∨ name = "." then .ok place
  else if name = ".." then .ok place.dropLast
  else if maxName < name.utf8ByteSize then .error .nameTooLong
  else if (t.entry? (place ++ [name])).isSome then .ok (place ++ [name])
  else .error .missing

/-- Follows one name of a path. -/
def follow (t : FileTree) (place : Place) (name : String) : Except FileError Place :=
  match t.entry? place with
  | some .directory => t.enter place name
  | some (.file _) => .error .notDirectory
  | none => .error .missing

/-- Follows the names of a path one after the other. -/
def walk (t : FileTree) (place : Place) : List String → Except FileError Place
  | [] => .ok place
  | name :: rest =>
    match t.follow place name with
    | .error e => .error e
    | .ok next => t.walk next rest

/-- The names in a path: what stands between its slashes. -/
def names (path : String) : List String :=
  (path.toList.splitOnP fun c => c == '/').map String.ofList

/-- Where a path starts. -/
def origin (t : FileTree) (path : String) : Place :=
  if path.toList.head? = some '/' then [] else t.current

/-- The place that a path leads to. -/
def resolve (t : FileTree) (path : String) : Except FileError Place :=
  if path.isEmpty then .error .missing
  else if maxPath < path.utf8ByteSize then .error .nameTooLong
  else t.walk (t.origin path) (names path)

/-- **Reads the file that a path leads to.** -/
def read (t : FileTree) (path : String) : Except FileError ByteArray :=
  match t.resolve path with
  | .error e => .error e
  | .ok place =>
    match t.entry? place with
    | none => .error .missing
    | some .directory => .error .directory
    | some (.file bytes) => .ok bytes

/-- The text of a file that was read, or why there is none. -/
def textOf : Except FileError ByteArray → Except FileError String
  | .error e => .error e
  | .ok bytes =>
    match String.fromUTF8? bytes with
    | none => .error .notText
    | some text => .ok text

/-! ## Small laws -/

/-- The empty path leads nowhere. -/
theorem read_empty (t : FileTree) : t.read "" = .error .missing := rfl

/-- A path is walked in two parts as it is walked in one. -/
theorem walk_append (t : FileTree) (place : Place) (front back : List String) :
    t.walk place (front ++ back) = (t.walk place front).bind fun p => t.walk p back := by
  induction front generalizing place with
  | nil => rfl
  | cons name rest ih =>
    simp only [List.cons_append, walk]
    cases t.follow place name with
    | error e => rfl
    | ok next => exact ih next

/-- **A file is never passed through**, not even by a name that stays where it is. -/
theorem follow_file {t : FileTree} {place : Place} {bytes : ByteArray}
    (h : t.entry? place = some (.file bytes)) (name : String) :
    t.follow place name = .error .notDirectory := by
  unfold follow
  rw [h]

/-- The text of a file that holds a text. -/
@[simp] theorem textOf_toUTF8 (text : String) : textOf (.ok text.toUTF8) = .ok text := by
  have hvalid : text.toUTF8.IsValidUTF8 := text.isValidUTF8
  rw [textOf, String.fromUTF8?, dif_pos hvalid]
  rfl

end FileTree

end StackMachine
