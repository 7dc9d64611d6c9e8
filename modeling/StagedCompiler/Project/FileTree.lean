import StagedCompiler.Project.FileStore

/-!
# File trees

A file system in memory, seen from the current directory.  A path is followed name by name; whatever
a name, a separator or a dot follows has to be a directory.  A place is the list of names that leads
to it, in front of which two dots stand for every step out of the current directory; the directories
around the current one are always there.  Names and paths have a greatest length in bytes.
-/

namespace StagedCompiler

/-- Files and directories, by the names that lead to them. -/
structure FileTree : Type where
  files : List (List String × String) := []
  dirs : List (List String) := []
  deriving Inhabited

namespace FileTree

/-- The greatest length of a name, in bytes. -/
def maxName : Nat := 255

/-- The greatest length of a path, in bytes. -/
def maxPath : Nat := 4095

/-- The name that leads out of a directory. -/
def outward : String := ".."

/-- Whether names lead to the current directory or to one around it. -/
def isAround (names : List String) : Bool :=
  names.all (· == outward)

/-- The names that lead to the directory around a place. -/
def above (names : List String) : List String :=
  if isAround names then names ++ [outward] else names.dropLast

/-- Whether names lead to a directory. -/
def isDir (t : FileTree) (names : List String) : Bool :=
  isAround names || t.dirs.contains names

/-- The text of the file that names lead to. -/
def file? (t : FileTree) (names : List String) : Option String := t.files.lookup names

/-- What stands in the way of an operation. -/
inductive Obstacle : Type where
  | missing
  | occupied
  | notDirectory
  | isDirectory
  | tooLong
  | nullCharacter
  deriving DecidableEq, Repr

/-- The reason that is given for an obstacle; those that an operating system has a number for come
with it. -/
def Obstacle.text : Obstacle → String
  | .missing => "No such file or directory (os error 2)"
  | .occupied => "File exists (os error 17)"
  | .notDirectory => "Not a directory (os error 20)"
  | .isDirectory => "Is a directory (os error 21)"
  | .tooLong => "File name too long (os error 36)"
  | .nullCharacter => "file name contained an unexpected NUL byte"

/-- The segments of a path that can be followed: it is relative, not too long, and holds no null
character. -/
def segments (path : Path) : Except Obstacle (List (List Char)) :=
  let cs := path.text.toList
  if cs.contains '\x00' then .error .nullCharacter
  else if maxPath < path.text.utf8ByteSize then .error .tooLong
  else if path.isAbsolute then .error .missing
  else .ok (Path.segments cs)

/-- What is in the way behind names that do not lead to a directory. -/
def obstacleAt (t : FileTree) (names : List String) : Obstacle :=
  if (t.file? names).isSome then .notDirectory else .missing

/-- Follow the segments of a path from a directory.  The last name need not lead anywhere. -/
def follow (t : FileTree) : List String → List (List Char) → Except Obstacle (List String)
  | names, [] => .ok names
  | names, segment :: rest =>
    if !t.isDir names then .error (t.obstacleAt names)
    else if segment = [] ∨ segment = ['.'] then t.follow names rest
    else if segment = ['.', '.'] then t.follow (above names) rest
    else
      let name := String.ofList segment
      if maxName < name.utf8ByteSize then .error .tooLong else t.follow (names ++ [name]) rest

/-- The names that a relative path leads to. -/
def resolve (t : FileTree) (path : Path) : Except Obstacle (List String) := do
  if path.text.isEmpty then .error .missing else t.follow [] (← segments path)

/-- The tree with a file at names. -/
def putFile (t : FileTree) (names : List String) (content : String) : FileTree :=
  { t with files := (names, content) :: t.files.filter fun (n, _) => n != names }

/-- The tree with a directory at names. -/
def putDir (t : FileTree) (names : List String) : FileTree :=
  if t.isDir names then t else { t with dirs := names :: t.dirs }

/-- Follow the segments of a path and make the directories that are missing, up to the first that
cannot be made, and give the tree afterwards. -/
def makeDirsFrom (t : FileTree) :
    List String → List (List Char) → Except Obstacle Unit × FileTree
  | _, [] => (.ok (), t)
  | names, segment :: rest =>
    if segment = [] ∨ segment = ['.'] then t.makeDirsFrom names rest
    else if segment = ['.', '.'] then t.makeDirsFrom (above names) rest
    else
      let name := String.ofList segment
      let names := names ++ [name]
      if maxName < name.utf8ByteSize then (.error .tooLong, t)
      else if (t.file? names).isSome then
        (.error (if rest.isEmpty then .occupied else .notDirectory), t)
      else (t.putDir names).makeDirsFrom names rest

/-- Whether there is a file or a directory at a path. -/
def isPresent (t : FileTree) (path : Path) : Bool :=
  match t.resolve path with
  | .error _ => false
  | .ok names => t.isDir names || (t.file? names).isSome

/-- The text of the file at a path. -/
def read (t : FileTree) (path : Path) : Except Obstacle String := do
  let names ← t.resolve path
  match t.file? names with
  | some content => .ok content
  | none => .error (if t.isDir names then .isDirectory else .missing)

/-- Make the directory at a path and those it lies in, and give the tree afterwards. -/
def makeDirs (t : FileTree) (path : Path) : Except Obstacle Unit × FileTree :=
  match segments path with
  | .error e => (.error e, t)
  | .ok all => t.makeDirsFrom [] all

/-- The tree with a file at a path.  The file must lie in a directory and must not be one. -/
def write (t : FileTree) (path : Path) (content : String) : Except Obstacle FileTree := do
  let names ← t.resolve path
  if t.isDir names then .error .isDirectory else .ok (t.putFile names content)

/-- The paths of all files below the current directory, in ascending order. -/
def filePaths (t : FileTree) : List String :=
  let below := t.files.filter fun (names, _) => names.head? != some outward
  (below.map fun (names, _) => "/".intercalate names).mergeSort fun a b => a ≤ b

instance : FileStore (StateM FileTree) where
  isPresent path := do return (← get).isPresent path
  readText path := do return ((← get).read path).mapError Obstacle.text
  makeDirs path := do
    let (result, t) := (← get).makeDirs path
    set t
    return result.mapError Obstacle.text
  writeText path content := do
    match (← get).write path content with
    | .ok t => set t; return .ok ()
    | .error e => return .error e.text

end FileTree

end StagedCompiler
