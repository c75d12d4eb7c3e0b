import SvgPress.Number.Decimal
import SvgPress.Pass.Basic

/-!
Numbers in attribute values: rounded to a fixed count of decimals and written as short as that
allows.
-/

namespace SvgPress.Numerals

/-- How numbers are written. -/
structure Style where
  /-- The count of decimals that are kept. -/
  precision : Nat
  /-- Whether the zero before the point of a number below one goes. -/
  stripZero : Bool
  deriving DecidableEq, Repr

/-- More decimals than this would only show digits that the number does not carry. -/
def maxPrecision : Nat := 15

/-- The zeros at the end of the decimals go, and the point with them if nothing stays behind it. -/
def trimDecimals (cs : List Char) : List Char :=
  if cs.contains '.' then
    let kept := Text.dropBack (· == '0') cs
    Text.dropBack (· == '.') kept
  else cs

/-- The zero between the sign and the point goes. -/
def stripLeadingZero : List Char → List Char
  | '0' :: '.' :: rest => '.' :: rest
  | '-' :: '0' :: '.' :: rest => '-' :: '.' :: rest
  | cs => cs

/-- The text of a number in a style. A negative number that rounds to zero loses its sign. -/
def Style.write (style : Style) (x : Binary64) : List Char :=
  let cs := trimDecimals (Decimal.fixed (min style.precision maxPrecision) x)
  let cs := if cs = ['-', '0'] then ['0'] else cs
  if style.stripZero then stripLeadingZero cs else cs

/-- A number at the front of a text, with its sign: the number and the text after it. -/
def takeNumber? (cs : List Char) : Option (Binary64 × List Char) :=
  let (negative, body) := Decimal.takeSign cs
  (Decimal.takeNumeral? body).map fun ((n, e), rest) => (Decimal.ofScaled negative n e, rest)

/-- The units that may follow a number. -/
def units : List String :=
  ["px", "pt", "pc", "mm", "cm", "in", "em", "ex", "%"]

/-- A single number with its unit, cleaned up. Pixels are the default unit and go if they may. -/
def cleanLength? (style : Style) (dropPixels : Bool) (value : String) : Option String := do
  let (x, rest) ← takeNumber? (Text.trim value).toList
  let unit := String.ofList rest
  if unit.isEmpty || units.contains unit then
    some (String.ofList (style.write x) ++ if unit = "px" && dropPixels then "" else unit)
  else none

/-- Whether a character stands between the numbers of a list. -/
def isSeparator (c : Char) : Bool :=
  Text.isBlank c || c == ','

/-- A list of numbers, each cleaned up, with single spaces between them. -/
def cleanList? (style : Style) (value : String) : Option String := do
  let numbers ← (Text.splitRuns isSeparator (Text.trim value).toList).mapM Decimal.read?
  some (" ".intercalate (numbers.map fun x => String.ofList (style.write x)))

/-- The attributes that hold one number. -/
def attributes : List String :=
  ["x", "y", "x1", "y1", "x2", "y2", "cx", "cy", "r", "rx", "ry", "fx", "fy", "width", "height",
    "offset", "opacity", "fill-opacity", "stroke-opacity", "stop-opacity", "stroke-width",
    "stroke-miterlimit", "stroke-dashoffset", "font-size"]

/-- The value of an attribute, cleaned up if it holds numbers. -/
def clean (style : Style) (dropPixels : Bool) (a : Attribute) : String :=
  if a.name = "viewBox" then (cleanList? style a.value).getD a.value
  else if attributes.contains a.name then (cleanLength? style dropPixels a.value).getD a.value
  else a.value

def cleanup : Pass where
  name := "cleanupNumericValues"
  description := "rounds numeric values to the fixed precision, removes default 'px' units"
  defaults := some [("defaultPx", .bool true), ("floatPrecision", .ofNat 3),
    ("leadingZero", .bool true)]
  apply := fun params doc => do
    let precision ← params.natural "floatPrecision" 3
    let stripZero ← params.bool "leadingZero" true
    let dropPixels ← params.bool "defaultPx" true
    return doc.mapTags (·.mapValues (clean ⟨precision, stripZero⟩ dropPixels))

end SvgPress.Numerals
