import SvgPress.Pass.Numerals

/-!
The data of paths: commands and numbers. Numbers are written in a short style, and separators stay
only where two numbers would run together. Arcs are left alone, because their flags may be written
without any separator.
-/

namespace SvgPress.PathData

/-- A command or a number, as written. -/
inductive Token where
  | command (letter : Char)
  | number (written : List Char)
  deriving DecidableEq, Repr

def commands : List Char :=
  "MmZzLlHhVvCcSsQqTt".toList

/-- What comes next in path data, and the data after it. -/
def token? : List Char → Option (Token × List Char)
  | [] => none
  | c :: rest =>
    if commands.contains c then some (.command c, rest)
    else
      let cs := c :: rest
      (Decimal.takeNumeral? (Decimal.takeSign cs).2).map fun (_, after) =>
        (.number (cs.take (cs.length - after.length)), after)

/-- The tokens of path data, or nothing if something else stands between the separators. Every
token takes at least one character, so a budget of the data's length is never used up. -/
def scan : Nat → List Char → Option (List Token)
  | 0, cs => if cs.all Numerals.isSeparator then some [] else none
  | budget + 1, cs =>
    match cs.dropWhile Numerals.isSeparator with
    | [] => some []
    | cs => do
      let (t, rest) ← token? cs
      let ts ← scan budget rest
      some (t :: ts)

/-- The tokens of path data that has no arcs. -/
def tokens? (data : List Char) : Option (List Token) :=
  if data.contains 'a' || data.contains 'A' then none else scan data.length data

/-- Whether a number may follow another one directly: its sign or its point marks it off. -/
def joins (earlier number : List Char) : Bool :=
  number.head? == some '-' || (number.head? == some '.' && earlier.contains '.')

/-- Tokens written out. `earlier` is the number that stands directly before, if one does. -/
def write (style : Numerals.Style) (earlier : Option (List Char)) : List Token → Option (List Char)
  | [] => some []
  | .command c :: rest => (write style none rest).map (c :: ·)
  | .number written :: rest => do
    let number := style.write (← Decimal.read? written)
    let more ← write style (some number) rest
    let gap := if earlier.any fun e => !joins e number then [' '] else []
    some (gap ++ number ++ more)

/-- Path data in its short form, if it can be read. -/
def minify? (style : Numerals.Style) (data : List Char) : Option (List Char) :=
  (tokens? data).bind (write style none)

/-- The elements whose `d` attribute is path data. -/
def elements : List String :=
  ["path", "glyph", "missing-glyph"]

def minifyTag (style : Numerals.Style) (tag : Tag) : Tag :=
  if elements.contains tag.name then
    tag.mapValues fun a =>
      if a.name = "d" then ((minify? style a.value.toList).map String.ofList).getD a.value
      else a.value
  else tag

def convert : Pass where
  name := "convertPathData"
  description := "rounds path data coordinates and drops redundant separators"
  defaults := some [("floatPrecision", .ofNat 3), ("leadingZero", .bool true)]
  apply := fun params doc => do
    let precision ← params.natural "floatPrecision" 3
    let stripZero ← params.bool "leadingZero" true
    return doc.mapTags (minifyTag ⟨precision, stripZero⟩)

end SvgPress.PathData
