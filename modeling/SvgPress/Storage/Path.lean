import SvgPress.Text.Blank

/-!
File paths. A path is its text; what it means is the list of its components. Repeated separators,
a separator at the end, and `.` anywhere but in front do not count.
-/

namespace SvgPress

structure Path where
  text : String
  deriving DecidableEq, Repr, Inhabited

namespace Path

inductive Component where
  /-- The separator that an absolute path starts with. -/
  | root
  /-- A leading `.`. -/
  | current
  /-- `..`. -/
  | parent
  | name (name : String)
  deriving DecidableEq, Repr

/-- The pieces between separators. -/
def pieces (p : Path) : List (List Char) :=
  Text.splitChars (· == '/') p.text.toList

def isAbsolute (p : Path) : Bool :=
  p.text.toList.head? == some '/'

/-- Whether a piece counts for nothing. -/
def isIdle (piece : List Char) : Bool :=
  piece.isEmpty || piece == ['.']

/-- What a path starts with, if that is more than a name, and the pieces after it. -/
def split (p : Path) : Option Component × List (List Char) :=
  match p.pieces with
  | [] => (none, [])
  | piece :: rest =>
    if p.isAbsolute then (some .root, rest)
    else if piece = ['.'] then (some .current, rest)
    else (none, piece :: rest)

def Component.ofPiece (piece : List Char) : Component :=
  if piece = ['.', '.'] then .parent else .name (String.ofList piece)

def components (p : Path) : List Component :=
  p.split.1.toList ++ (p.split.2.filter (!isIdle ·)).map Component.ofPiece

/-- Whether two paths mean the same without looking at any file. -/
def same (p q : Path) : Bool :=
  p.components == q.components

/-- The last component, if it is a name. -/
def fileName? (p : Path) : Option String :=
  match p.components.getLast? with
  | some (.name n) => some n
  | _ => none

/-- A file name cut at its last dot. A dot in front is part of the name. -/
def cutExtension (name : List Char) : List Char × Option (List Char) :=
  match name.reverse.dropWhile (· != '.') with
  | [] => (name, none)
  | [_] => (name, none)
  | _ :: stem => (stem.reverse, some (name.drop (stem.length + 1)))

/-- The file name without its extension. -/
def stem? (p : Path) : Option String :=
  p.fileName?.map fun name => String.ofList (cutExtension name.toList).1

/-- The extension of the file name, without the dot. -/
def extension? (p : Path) : Option String :=
  p.fileName?.bind fun name => (cutExtension name.toList).2.map String.ofList

/-- Pieces without those at the end that count for nothing. -/
def trimPieces (pieces : List (List Char)) : List (List Char) :=
  Text.dropBack isIdle pieces

def joinPieces (pieces : List (List Char)) : String :=
  "/".intercalate (pieces.map String.ofList)

/-- The path without its last component. Its text is kept as it is written up to there. The root
and the empty path have no parent. -/
def parent? (p : Path) : Option Path :=
  let (start, rest) := p.split
  match trimPieces rest with
  | [] => if start = some .current then some ⟨""⟩ else none
  | pieces =>
    let kept := trimPieces pieces.dropLast
    match start with
    | some .root => some ⟨"/" ++ joinPieces kept⟩
    | some _ => some ⟨if kept.isEmpty then "." else "./" ++ joinPieces kept⟩
    | none => some ⟨joinPieces kept⟩

/-- A path seen from another one. An absolute path stands for itself. -/
def join (base p : Path) : Path :=
  if p.isAbsolute then p
  else if base.text.isEmpty || base.text.toList.getLast? == some '/' then ⟨base.text ++ p.text⟩
  else ⟨base.text ++ "/" ++ p.text⟩

end Path

end SvgPress
