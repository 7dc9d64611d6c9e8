/-!
# Paths

A `Path` keeps the text it was written as.  What it leads to is decided by its `components`: repeated
and trailing separators and inner `.` segments do not count, `..` is kept, and a `.` in front of a
relative path counts.  Two paths name the same place exactly if their components agree.
-/

namespace StagedCompiler

/-- A path of a file system, as it is written. -/
structure Path : Type where
  text : String
  deriving DecidableEq, Repr, Inhabited

namespace Path

/-- A part of a path that counts. -/
inductive Component : Type where
  | root
  | current
  | parent
  | normal (name : String)
  deriving DecidableEq, Repr

/-- The texts between the separators. -/
def segments : List Char → List (List Char)
  | [] => [[]]
  | c :: rest =>
    if c == '/' then [] :: segments rest
    else match segments rest with
      | [] => [[c]]
      | segment :: more => (c :: segment) :: more

/-- The component that a segment behind the first separator is; an empty one and `.` are none. -/
def Component.ofSegment? (segment : List Char) : Option Component :=
  if segment = [] ∨ segment = ['.'] then none
  else if segment = ['.', '.'] then some .parent
  else some (.normal (String.ofList segment))

/-- The components of a path's characters. -/
def componentsOf (cs : List Char) : List Component :=
  match segments cs with
  | [] => []
  | [] :: rest =>
    (if cs.isEmpty then [] else [.root]) ++ rest.filterMap Component.ofSegment?
  | first :: rest =>
    (if first = ['.'] then [.current] else (Component.ofSegment? first).toList) ++
      rest.filterMap Component.ofSegment?

/-- The components of a path. -/
def components (p : Path) : List Component :=
  componentsOf p.text.toList

/-- Whether two paths name the same place. -/
def same (p q : Path) : Bool :=
  p.components == q.components

/-- Whether a path starts at the root. -/
def isAbsolute (p : Path) : Bool :=
  p.text.toList.head? == some '/'

/-- The path `q` seen from the directory `p`.  An absolute `q` is itself, and nothing stands in front
of a path seen from the empty one. -/
def join (p q : Path) : Path :=
  if q.isAbsolute then q
  else if p.text.isEmpty then q
  else if p.text.toList.getLast? == some '/' then ⟨p.text ++ q.text⟩
  else ⟨p.text ++ "/" ++ q.text⟩

/-- A path seen from a directory. -/
instance : Div Path := ⟨join⟩

/-- The part of a path in front of the segments that can be dropped: the root, or a leading `.`. -/
def start : List Char → List Char
  | '/' :: _ => ['/']
  | ['.'] => ['.']
  | '.' :: '/' :: _ => ['.']
  | _ => []

/-- A body, last character first, without the separators and `.` segments at its end. -/
def dropIdle : List Char → List Char
  | '/' :: rest => dropIdle rest
  | ['.'] => []
  | '.' :: '/' :: rest => dropIdle rest
  | cs => cs

/-- The directory that a path's last component lies in: the text in front of that component, without
the separators between them.  The root and the empty path lie nowhere. -/
def parent? (p : Path) : Option Path :=
  let cs := p.text.toList
  let front := start cs
  match dropIdle (cs.drop front.length).reverse with
  | [] => if front == ['.'] then some ⟨""⟩ else none
  | body =>
    let shorter := dropIdle (body.dropWhile (· != '/'))
    some ⟨String.ofList (front ++ shorter.reverse)⟩

/-- The name of the file that a path ends in. -/
def fileName? (p : Path) : Option String :=
  match p.components.getLast? with
  | some (.normal name) => some name
  | _ => none

/-- A file name without its extension: up to its last dot, unless that is its first character. -/
def stemOf (name : String) : String :=
  let cs := name.toList
  match cs.reverse.dropWhile (· != '.') with
  | [] => name
  | [_] => name
  | _ :: front => String.ofList front.reverse

/-- The name of the file that a path ends in, without its extension. -/
def stem? (p : Path) : Option String :=
  p.fileName?.map stemOf

end Path

end StagedCompiler
