/-!
White space in text. Every rule here is a total function on lists of characters, so that a
property of a text is a property of a list; the `String` forms add nothing to it.
-/

namespace SvgPress.Text

/-- The characters with the Unicode property White_Space. Neither the zero-width space nor the
information separators U+001C to U+001F have it. -/
def isBlank (c : Char) : Bool :=
  c == ' ' || (0x09 ≤ c.toNat && c.toNat ≤ 0x0D) || c.toNat == 0x85 || c.toNat == 0xA0
    || c.toNat == 0x1680 || (0x2000 ≤ c.toNat && c.toNat ≤ 0x200A) || c.toNat == 0x2028
    || c.toNat == 0x2029 || c.toNat == 0x202F || c.toNat == 0x205F || c.toNat == 0x3000

/-- The text without its leading characters of the class. -/
def dropFront (p : Char → Bool) (cs : List Char) : List Char :=
  cs.dropWhile p

/-- A list without its last items, as far as they are of the class. -/
def dropBack {α : Type} (p : α → Bool) (cs : List α) : List α :=
  (cs.reverse.dropWhile p).reverse

/-- White space dropped at both ends. -/
def trimChars (cs : List Char) : List Char :=
  dropBack isBlank (dropFront isBlank cs)

def trim (s : String) : String :=
  String.ofList (trimChars s.toList)

def trimEnd (s : String) : String :=
  String.ofList (dropBack isBlank s.toList)

/-- Whether nothing but white space is left of a text. -/
def isBlankText (s : String) : Bool :=
  s.toList.all isBlank

/-- Every run of two or more white space characters becomes one space; a character that stands
alone is kept, whichever it is. A space put in for a pair meets what follows it again, which is
how longer runs collapse. -/
def squeeze : List Char → List Char
  | c :: d :: rest =>
    if isBlank c && isBlank d then squeeze (' ' :: rest) else c :: squeeze (d :: rest)
  | cs => cs
termination_by cs => cs.length

/-- Line feeds, each with at most one carriage return before it, become spaces. -/
def joinLines : List Char → List Char
  | '\r' :: '\n' :: rest => ' ' :: joinLines rest
  | '\n' :: rest => ' ' :: joinLines rest
  | c :: rest => c :: joinLines rest
  | [] => []

/-- Every maximal run of white space becomes one hyphen. -/
def hyphenate : List Char → List Char
  | [] => []
  | c :: rest =>
    if isBlank c then
      match rest with
      | d :: _ => if isBlank d then hyphenate rest else '-' :: hyphenate rest
      | [] => ['-']
    else c :: hyphenate rest

/-- The lines of a text. A line ends at a line feed, and one carriage return before that line feed
belongs to the ending; an empty remainder after the last line feed is no line. -/
def lines (cs : List Char) : List (List Char) :=
  collect [] cs
where
  /-- The carriage return that an ended line, held in reverse, gives up to its ending. -/
  ended : List Char → List Char
    | '\r' :: line => line.reverse
    | line => line.reverse
  collect (line : List Char) : List Char → List (List Char)
    | [] => if line.isEmpty then [] else [line.reverse]
    | '\n' :: rest => ended line :: collect [] rest
    | c :: rest => collect (c :: line) rest

/-- Cut at every character of the class; the cut characters are dropped, and the pieces between
them, empty ones included, are kept in order. There is always at least one piece. -/
def splitChars (p : Char → Bool) : List Char → List (List Char)
  | [] => [[]]
  | c :: rest =>
    if p c then [] :: splitChars p rest
    else
      match splitChars p rest with
      | piece :: pieces => (c :: piece) :: pieces
      | [] => [[c]]

/-- The pieces between maximal runs of the class. A run at either end leaves an empty piece
there. -/
def splitRuns (p : Char → Bool) : List Char → List (List Char)
  | [] => [[]]
  | c :: rest =>
    if p c then
      match rest with
      | d :: _ => if p d then splitRuns p rest else [] :: splitRuns p rest
      | [] => [[], []]
    else
      match splitRuns p rest with
      | piece :: pieces => (c :: piece) :: pieces
      | [] => [[c]]

/-- What follows a given beginning, or nothing if the text begins otherwise. -/
def stripFront? : List Char → List Char → Option (List Char)
  | [], cs => some cs
  | _ :: _, [] => none
  | p :: ps, c :: cs => if p = c then stripFront? ps cs else none

/-- Whether a text begins with another. -/
def startsWith (s beginning : String) : Bool :=
  (stripFront? beginning.toList s.toList).isSome

/-- Whether a text ends with another. -/
def endsWith (s ending : String) : Bool :=
  (stripFront? ending.toList.reverse s.toList.reverse).isSome

/-- What follows a given beginning of a text. -/
def dropPrefix? (s beginning : String) : Option String :=
  (stripFront? beginning.toList s.toList).map String.ofList

/-- The text before and after the first place where `mark` stands. -/
def cutAt? (mark : List Char) : List Char → Option (List Char × List Char)
  | [] => if mark.isEmpty then some ([], []) else none
  | c :: rest =>
    match stripFront? mark (c :: rest) with
    | some after => some ([], after)
    | none => (cutAt? mark rest).map fun (before, after) => (c :: before, after)

/-- The text before and after the first `mark`. -/
def splitOnce? (s mark : String) : Option (String × String) :=
  (cutAt? mark.toList s.toList).map fun (before, after) =>
    (String.ofList before, String.ofList after)

/-- Length in bytes of the UTF-8 form. -/
def byteLength (cs : List Char) : Nat :=
  cs.foldl (fun n c => n + c.utf8Size) 0

/-- Capital ASCII letters become small ones; every other character is kept. -/
def lowerAscii (s : String) : String :=
  String.ofList (s.toList.map Char.toLower)

/-- A text of `n` spaces. -/
def spaces (n : Nat) : String :=
  String.ofList (List.replicate n ' ')

end SvgPress.Text
