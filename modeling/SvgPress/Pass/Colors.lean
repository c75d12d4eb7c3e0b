import SvgPress.Json.Printer
import SvgPress.Number.Decimal
import SvgPress.Pass.Basic

/-!
Colors in their shortest common form: names and `rgb()` become hexadecimal, and six digits become
three where each pair is the same digit twice.
-/

namespace SvgPress.Colors

/-- The attributes that hold a color. -/
def attributes : List String :=
  ["fill", "stroke", "color", "stop-color", "flood-color", "lighting-color"]

/-- The names of colors with what they stand for. -/
def names : List (String × String) :=
  [("aqua", "#0ff"), ("azure", "#f0ffff"), ("beige", "#f5f5dc"), ("black", "#000"),
    ("blue", "#00f"), ("brown", "#a52a2a"), ("coral", "#ff7f50"), ("crimson", "#dc143c"),
    ("cyan", "#0ff"), ("darkblue", "#00008b"), ("darkgray", "#a9a9a9"), ("darkgreen", "#006400"),
    ("darkgrey", "#a9a9a9"), ("darkred", "#8b0000"), ("fuchsia", "#f0f"), ("gold", "#ffd700"),
    ("gray", "#808080"), ("green", "#008000"), ("grey", "#808080"), ("indigo", "#4b0082"),
    ("ivory", "#fffff0"), ("khaki", "#f0e68c"), ("lavender", "#e6e6fa"),
    ("lightblue", "#add8e6"), ("lightgray", "#d3d3d3"), ("lightgrey", "#d3d3d3"),
    ("lime", "#0f0"), ("magenta", "#f0f"), ("maroon", "#800000"), ("navy", "#000080"),
    ("olive", "#808000"), ("orange", "#ffa500"), ("orchid", "#da70d6"), ("pink", "#ffc0cb"),
    ("plum", "#dda0dd"), ("purple", "#800080"), ("red", "#f00"), ("salmon", "#fa8072"),
    ("silver", "#c0c0c0"), ("tan", "#d2b48c"), ("teal", "#008080"), ("tomato", "#ff6347"),
    ("turquoise", "#40e0d0"), ("violet", "#ee82ee"), ("wheat", "#f5deb3"), ("white", "#fff"),
    ("yellow", "#ff0")]

/-- The length of a byte's step where a whole is a hundred percent. -/
def percentStep : Binary64 :=
  .ofRatio false 255 100

/-- The value of a channel: a number, or a share of the whole range in percent. Values outside of
the range become its ends. -/
def channel? (written : List Char) : Option Nat :=
  match written.reverse with
  | '%' :: digits => (Decimal.read? digits.reverse).map fun x => (x.mul percentStep).toByte
  | _ => (Decimal.read? written).map Binary64.toByte

/-- A channel at the front of a text: digits and points, with a percent sign perhaps, and white
space around them. The text after it starts with the mark that has to end the channel. -/
def takeChannel? (mark : Char) (cs : List Char) : Option (List Char × List Char) :=
  let (digits, rest) := (cs.dropWhile Text.isBlank).span fun c => c.isDigit || c == '.'
  let (percent, rest) := rest.span (· == '%')
  if digits.isEmpty || 1 < percent.length then none
  else
    match rest.dropWhile Text.isBlank with
    | c :: after => if c = mark then some (digits ++ percent, after) else none
    | [] => none

/-- The channels of a color written as `rgb(red, green, blue)`. -/
def rgb? (cs : List Char) : Option (Nat × Nat × Nat) := do
  let cs ← Text.stripFront? "rgb(".toList cs
  let (red, cs) ← takeChannel? ',' cs
  let (green, cs) ← takeChannel? ',' cs
  let (blue, cs) ← takeChannel? ')' cs
  if cs.isEmpty then some (← channel? red, ← channel? green, ← channel? blue) else none

/-- Two hexadecimal digits. -/
def hexByte (n : Nat) : List Char :=
  [Json.hexDigit (n / 16), Json.hexDigit (n % 16)]

def hexColor : Nat × Nat × Nat → List Char
  | (red, green, blue) => '#' :: (hexByte red ++ hexByte green ++ hexByte blue)

def isHexDigit (c : Char) : Bool :=
  c.isDigit || ('a' ≤ c && c ≤ 'f') || ('A' ≤ c && c ≤ 'F')

/-- Six digits shortened to three where each pair is one digit twice. -/
def shortHex : List Char → List Char
  | ['#', a, b, c, d, e, f] =>
    if [a, b, c, d, e, f].all isHexDigit && a == b && c == d && e == f then ['#', a, c, e]
    else ['#', a, b, c, d, e, f]
  | cs => cs

/-- Which conversions are wanted. -/
structure Conversion where
  currentColor : Bool
  fromNames : Bool
  fromRgb : Bool
  shorten : Bool

/-- A color by name, where that is known. -/
def ofName (cs : List Char) : List Char :=
  match names.lookup (String.ofList (cs.map Char.toLower)) with
  | some hex => hex.toList
  | none => cs

def ofRgb (cs : List Char) : List Char :=
  ((rgb? cs).map hexColor).getD cs

def Conversion.convert (c : Conversion) (value : String) : String :=
  let cs := Text.trimChars value.toList
  if c.currentColor && cs != "none".toList && (Text.stripFront? "url(".toList cs).isNone then
    "currentColor"
  else
    let cs := if c.fromNames then ofName cs else cs
    let cs := if c.fromRgb then ofRgb cs else cs
    if cs.head? == some '#' then
      let cs := cs.map Char.toLower
      String.ofList (if c.shorten then shortHex cs else cs)
    else String.ofList cs

def convertColors : Pass where
  name := "convertColors"
  description := "converts colors: rgb() to #rrggbb, names to hex, #rrggbb to #rgb"
  defaults := some [("currentColor", .bool false), ("names2hex", .bool true),
    ("rgb2hex", .bool true), ("shorthex", .bool true)]
  apply := fun params doc => do
    let currentColor ← params.bool "currentColor" false
    let fromNames ← params.bool "names2hex" true
    let fromRgb ← params.bool "rgb2hex" true
    let shorten ← params.bool "shorthex" true
    let conversion : Conversion := ⟨currentColor, fromNames, fromRgb, shorten⟩
    return doc.mapTags (·.mapValues fun a =>
      if attributes.contains a.name then conversion.convert a.value else a.value)

end SvgPress.Colors
