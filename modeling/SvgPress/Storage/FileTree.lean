import SvgPress.Storage.Path

/-!
Files as the library sees them: what a path holds, and why it may hold nothing. `Files` is the view
that readers need; `FileTree` is a file system in memory that gives this view and takes new files.
-/

namespace SvgPress

/-- Why a file cannot be read or written. -/
inductive FileFault where
  | notFound
  | notDirectory
  | isDirectory
  | nameTooLong
  | nulInPath
  | notText
  /-- Any other refusal of the operating system, in its words. -/
  | refused (text : String)
  deriving DecidableEq, Repr

def FileFault.message : FileFault → String
  | .notFound => "No such file or directory (os error 2)"
  | .notDirectory => "Not a directory (os error 20)"
  | .isDirectory => "Is a directory (os error 21)"
  | .nameTooLong => "File name too long (os error 36)"
  | .nulInPath => "file name contained an unexpected NUL byte"
  | .notText => "stream did not contain valid UTF-8"
  | .refused text => text

/-- What readers see of a file system. -/
structure Files where
  /-- Whether something is there, be it a file or a directory. -/
  has : Path → Bool
  /-- The text of a file. -/
  read : Path → Except FileFault String

/-- A file or a directory. Of a file whose bytes are no text only that is known. -/
inductive FileNode where
  | text (content : String)
  | binary
  | directory (entries : List (String × FileNode))
  deriving Inhabited

/-- A file system and the names that lead from its root to the working directory. -/
structure FileTree where
  root : FileNode
  workingDirectory : List String

namespace FileNode

/-- What stands at the end of a list of names. -/
def get? : FileNode → List String → Option FileNode
  | n, [] => some n
  | .directory entries, name :: rest => (entries.lookup name).bind (get? · rest)
  | _, _ :: _ => none

/-- Entries with one of them set; a new one comes last. -/
def setEntry (name : String) (node : FileNode) :
    List (String × FileNode) → List (String × FileNode)
  | [] => [(name, node)]
  | (n, old) :: rest =>
    if n = name then (name, node) :: rest else (n, old) :: setEntry name node rest

/-- Put something at the end of a list of names. Missing directories on the way are made. -/
def put : FileNode → List String → FileNode → FileNode
  | _, [], node => node
  | .directory entries, name :: rest, node =>
    let inner := (entries.lookup name).getD (.directory [])
    .directory (setEntry name (inner.put rest node) entries)
  | other, _ :: _, _ => other
termination_by _ names => names

end FileNode

namespace FileTree

/-- The longest name that a directory can hold and the longest path that can be given, in bytes. -/
def maxName : Nat := 255

def maxPath : Nat := 4095

/-- Follow one piece of a path from the place that some names lead to, which has to be a
directory. -/
def step (root : FileNode) (place : List String) (piece : List Char) :
    Except FileFault (List String) :=
  match root.get? place with
  | some (.directory entries) =>
    if Path.isIdle piece then .ok place
    else if piece = ['.', '.'] then .ok place.dropLast
    else if maxName < Text.byteLength piece then .error .nameTooLong
    else
      let name := String.ofList piece
      if (entries.lookup name).isSome then .ok (place ++ [name]) else .error .notFound
  | _ => .error .notDirectory

/-- The names that the pieces of a path lead to. -/
def follow (tree : FileTree) (p : Path) (pieces : List (List Char)) :
    Except FileFault (List String) :=
  pieces.foldlM (step tree.root) (if p.isAbsolute then [] else tree.workingDirectory)

/-- Refuse what is no path at all. -/
def check (p : Path) : Except FileFault Unit :=
  if p.text.toList.any (·.toNat == 0) then .error .nulInPath
  else if p.text.isEmpty then .error .notFound
  else if maxPath < Text.byteLength p.text.toList then .error .nameTooLong
  else .ok ()

/-- The names that a path leads to. -/
def locate (tree : FileTree) (p : Path) : Except FileFault (List String) := do
  check p
  tree.follow p p.pieces

def read (tree : FileTree) (p : Path) : Except FileFault String := do
  match tree.root.get? (← tree.locate p) with
  | some (.text content) => .ok content
  | some .binary => .error .notText
  | some (.directory _) => .error .isDirectory
  | none => .error .notFound

/-- The view of the tree that readers need. -/
def files (tree : FileTree) : Files where
  has p := (tree.locate p).isOk
  read := tree.read

/-- Where a file of that path would be: the names that lead there. Its directory has to be there,
and the path has to end in a name. -/
def target (tree : FileTree) (p : Path) : Except FileFault (List String) := do
  check p
  let pieces := Text.dropBack List.isEmpty p.pieces
  let last := pieces.getLastD []
  let place ← tree.follow p pieces.dropLast
  match tree.root.get? place with
  | some (.directory _) =>
    if pieces.length < p.pieces.length || Path.isIdle last || last = ['.', '.'] then
      .error .isDirectory
    else if maxName < Text.byteLength last then .error .nameTooLong
    else .ok (place ++ [String.ofList last])
  | _ => .error .notDirectory

/-- The tree with a text written to a file, which is made if it is not there. -/
def write (tree : FileTree) (p : Path) (content : String) : Except FileFault FileTree := do
  let place ← tree.target p
  match tree.root.get? place with
  | some (.directory _) => .error .isDirectory
  | _ => .ok { tree with root := tree.root.put place (.text content) }

end FileTree

end SvgPress
