import SvgPress.Text.Blank
import SvgPress.Text.Pattern

/-!
What the reading of patterns needs besides their syntax: the letters that names of groups can have,
the sets that properties stand for, and how large a program a pattern may become. `Engine.standard`
is an engine of this kind with the tables at hand. It knows general categories and a few properties
with two values, but no scripts, blocks or ages and no other properties; of the letters it lacks
those that are marks or symbols by their category; and it only estimates how large a program is.
-/

namespace SvgPress.Text.Pattern

/-- The written form of a pattern that is meant to match a whole text. The pattern is put between
anchors as it stands, so one that closes the group around it takes the anchors apart. -/
def whole (written : String) : String :=
  "^(?:" ++ written ++ ")$"

/-- What readings of patterns depend on besides their syntax. -/
structure Engine where
  /-- The characters that names of groups can have like letters. -/
  alphabetic : Char → Bool
  /-- The set that a letter in an escape stands for, or a text in braces there. -/
  property : List Char → Option CharSet
  /-- Whether the program for a written pattern is small enough. -/
  fits : String → Pattern → Bool
  /-- The pattern for texts without a line feed is no large one. -/
  fits_any : fits (whole ".*") anyLine.anchored

/-- A set that a name in an escape stands for. Letters' case, blanks, hyphens and underscores of a
name do not count, nor does a leading `is`. -/
def normalName (name : List Char) : String :=
  let kept := (name.filter fun c => !isBlank c && c != '_' && c != '-').map Char.toLower
  let kept := kept.filter (·.toNat < 0x80)
  match stripFront? "is".toList kept with
  | some rest => if kept = "isc".toList then "isc" else String.ofList rest
  | none => String.ofList kept

/-- Every code point of a character. -/
def anyChar : CharSet :=
  .ranges [(0, 0x10FFFF)]

/-- The general category, or group of categories, of a normalized name. -/
def categorySet? (name : String) : Option CharSet :=
  if name = "any" then some anyChar
  else if name = "assigned" then some (.categories Category.assigned)
  else if name = "ascii" then some (.ranges [(0, 0x7F)])
  else if name = "unassigned" ∨ name = "cn" then
    some (.diff (.negate (.categories Category.assigned)) (.ranges [(0xD800, 0xDFFF)]))
  else if name = "other" ∨ name = "c" then
    some (.union (.categories [.control, .format, .privateUse])
      (.negate (.categories Category.assigned)))
  else if name = "surrogate" ∨ name = "cs" then some .empty
  else (table.find? fun (names, _) => names.contains name).map fun (_, cs) => .categories cs
where
  table : List (List String × List Category) :=
    [(["l", "letter"], Category.letters), (["lu", "uppercaseletter"], [.uppercaseLetter]),
      (["ll", "lowercaseletter"], [.lowercaseLetter]),
      (["lt", "titlecaseletter"], [.titlecaseLetter]),
      (["lc", "casedletter"], [.uppercaseLetter, .lowercaseLetter, .titlecaseLetter]),
      (["lm", "modifierletter"], [.modifierLetter]), (["lo", "otherletter"], [.otherLetter]),
      (["m", "mark", "combiningmark"], Category.marks),
      (["mn", "nonspacingmark"], [.nonspacingMark]), (["mc", "spacingmark"], [.spacingMark]),
      (["me", "enclosingmark"], [.enclosingMark]), (["n", "number"], Category.numbers),
      (["nd", "decimalnumber", "digit"], [.decimalNumber]),
      (["nl", "letternumber"], [.letterNumber]), (["no", "othernumber"], [.otherNumber]),
      (["p", "punctuation", "punct"], Category.punctuation),
      (["pc", "connectorpunctuation"], [.connectorPunctuation]),
      (["pd", "dashpunctuation"], [.dashPunctuation]),
      (["ps", "openpunctuation"], [.openPunctuation]),
      (["pe", "closepunctuation"], [.closePunctuation]),
      (["pi", "initialpunctuation"], [.initialPunctuation]),
      (["pf", "finalpunctuation"], [.finalPunctuation]),
      (["po", "otherpunctuation"], [.otherPunctuation]), (["s", "symbol"], Category.symbols),
      (["sm", "mathsymbol"], [.mathSymbol]), (["sc", "currencysymbol"], [.currencySymbol]),
      (["sk", "modifiersymbol"], [.modifierSymbol]), (["so", "othersymbol"], [.otherSymbol]),
      (["z", "separator"], Category.separators), (["zs", "spaceseparator"], [.spaceSeparator]),
      (["zl", "lineseparator"], [.lineSeparator]),
      (["zp", "paragraphseparator"], [.paragraphSeparator]),
      (["cc", "control", "cntrl"], [.control]), (["cf", "format"], [.format]),
      (["co", "privateuse"], [.privateUse])]

/-- White space as a set. -/
def blankSet : CharSet :=
  .ranges [(0x09, 0x0D), (0x20, 0x20), (0x85, 0x85), (0xA0, 0xA0), (0x1680, 0x1680),
    (0x2000, 0x200A), (0x2028, 0x2029), (0x202F, 0x202F), (0x205F, 0x205F), (0x3000, 0x3000)]

/-- The code points with case that are capitals without being capital letters. -/
def extraUpperRanges : CodeRanges :=
  [(0x2160, 0x216F), (0x24B6, 0x24CF), (0x1F130, 0x1F149), (0x1F150, 0x1F169), (0x1F170, 0x1F189)]

/-- The properties with two values that can be asked for by name. -/
def propertySet? (name : String) : Option CharSet :=
  if name = "whitespace" ∨ name = "wspace" ∨ name = "space" then some blankSet
  else if name = "cased" then
    some (.union (.categories [.uppercaseLetter, .lowercaseLetter, .titlecaseLetter])
      (.ranges extraCasedRanges))
  else if name = "uppercase" ∨ name = "upper" then
    some (.union (.categories [.uppercaseLetter]) (.ranges extraUpperRanges))
  else if name = "lowercase" ∨ name = "lower" then
    some (.union (.categories [.lowercaseLetter])
      (.diff (.ranges extraCasedRanges) (.ranges extraUpperRanges)))
  else if name = "caseignorable" ∨ name = "ci" then
    some (.union
      (.categories [.nonspacingMark, .enclosingMark, .format, .modifierLetter, .modifierSymbol])
      (.ranges extraIgnorableRanges))
  else none

/-- The set that the inside of a property escape names: a property, a category, or a category
after the name of that property. -/
def namedSet? (name : List Char) : Option CharSet :=
  match cutAt? "!=".toList name with
  | some (property, value) => (categoryOf? property value).map .negate
  | none =>
    match cutAt? [':'] name with
    | some (property, value) => categoryOf? property value
    | none =>
      match cutAt? ['='] name with
      | some (property, value) => categoryOf? property value
      | none =>
        let name := normalName name
        (propertySet? name).or (categorySet? name)
where
  categoryOf? (property value : List Char) : Option CharSet :=
    if normalName property = "generalcategory" ∨ normalName property = "gc" then
      categorySet? (normalName value)
    else none

/-- How many ranges there are where those that touch are put together. -/
def runsOf (rs : List (Nat × Nat)) : Nat :=
  let sorted := rs.mergeSort fun r s => r.1 ≤ s.1
  (sorted.foldl (fun (count, past) r =>
    (if 0 < count ∧ r.1 ≤ past then count else count + 1, max past (r.2 + 1))) (0, 0)).1

/-- How many ranges of code points a set is made of, about. -/
def weightOf : CharSet → Nat
  | .ranges rs => max 1 (runsOf rs)
  | .categories cs => runsOf (cs.flatMap Category.ranges)
  | .union a b => weightOf a + weightOf b
  | .inter a b => weightOf a + weightOf b
  | .negate a => weightOf a + 1
  | .fold a => 2 * weightOf a
  | .foldAscii a => 2 * weightOf a

/-- How many steps the program for a pattern has, about: one for every range of a set and for every
place, and all of them again for every copy of a part that is repeated. -/
def weight : Pattern → Nat
  | .empty => 1
  | .one set => weightOf set
  | .at _ => 1
  | .seq a b => a.weight + b.weight
  | .alt a b => a.weight + b.weight + 1
  | .repeated a least most => a.weight * max 1 (most.getD least) + 1

/-- The greatest number of steps: ten mebibytes with 64 bytes for each. -/
def weightLimit : Nat := 163840

/-- The tables at hand as an engine. -/
def Engine.standard : Engine where
  alphabetic c := isLetter c || Category.letterNumber.contains c
  property := namedSet?
  fits _ p := p.weight ≤ weightLimit
  fits_any := by decide +kernel

end SvgPress.Text.Pattern
