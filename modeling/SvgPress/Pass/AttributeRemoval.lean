import SvgPress.Number.Decimal
import SvgPress.Pass.Basic
import SvgPress.Text.Pattern.Parser

/-!
Passes that drop attributes: empty ones, the size of the root element, and those that patterns
name.
-/

namespace SvgPress.AttributeRemoval

/-- Attributes whose emptiness means something: an empty condition is never met. -/
def conditions : List String :=
  ["requiredFeatures", "requiredExtensions", "systemLanguage"]

/-- Whether an attribute says something. -/
def isTelling (a : Attribute) : Bool :=
  !Text.isBlankText a.value || conditions.contains a.name

def removeEmpty : Pass :=
  .always "removeEmptyAttrs" "removes attributes with empty values"
    (·.mapTags (·.keepAttributes isTelling))

/-- A text without the unit of pixels, however often it stands at the end. -/
def dropPixels (s : String) : String :=
  String.ofList (go s.toList.reverse).reverse
where
  go : List Char → List Char
    | 'x' :: 'p' :: rest => go rest
    | cs => cs

/-- A length in pixels. -/
def pixels? (s : String) : Option Binary64 :=
  Decimal.read? (dropPixels s).toList

/-- A root tag with a view box in place of its width and height. Without a view box one is made
from the two, if both are lengths in pixels; else the tag stays as it is. -/
def withoutSize (tag : Tag) : Tag :=
  let drop (tag : Tag) : Tag := (tag.removeAttribute "width").removeAttribute "height"
  if tag.hasAttribute "viewBox" then drop tag
  else
    match (tag.attribute? "width").bind pixels?, (tag.attribute? "height").bind pixels? with
    | some width, some height =>
      drop (tag.setAttribute "viewBox"
        ("0 0 " ++ String.ofList (Decimal.plain width) ++ " " ++
          String.ofList (Decimal.plain height)))
    | _, _ => tag

def removeDimensions : Pass :=
  .always "removeDimensions" "removes width/height from the root and keeps a viewBox instead"
    (·.mapRoot fun tag children => .element (withoutSize tag) children)

/-- A rule for attributes: which elements it speaks of, and which of their attributes. -/
structure Rule where
  element : Text.Pattern
  attributes : Text.Pattern

/-- Whether an attribute of an element is meant. -/
def Rule.meets (rule : Rule) (element attributeName : String) : Bool :=
  rule.element.matchesIn element && rule.attributes.matchesIn attributeName

/-- The pattern for whole names that a text writes. -/
def pattern (engine : Text.Pattern.Engine) (written : String) : Except PassFault Text.Pattern :=
  match Text.Pattern.parseWhole? engine written with
  | some p => .ok p
  | none => .error (.invalidParam "attrs" (Text.Pattern.complaint written))

/-- The rule that a text writes: a pattern for elements and one for attributes with the separator
between them, or one for attributes alone, which speaks of every element. -/
def rule (engine : Text.Pattern.Engine) (separator written : String) : Except PassFault Rule :=
  match Text.splitOnce? written separator with
  | some (element, attributes) => return ⟨← pattern engine element, ← pattern engine attributes⟩
  | none => return ⟨← pattern engine ".*", ← pattern engine written⟩

/-- Drop the attributes that some rule means. -/
def applyRules (rules : List Rule) (tag : Tag) : Tag :=
  tag.keepAttributes fun a => !rules.any (·.meets tag.name a.name)

/-- The attributes that patterns name are dropped, as the engine reads these. -/
def removeMatching (engine : Text.Pattern.Engine) : Pass where
  name := "removeAttrs"
  description := "removes attributes matching `attrs` patterns (`attr` or `element:attr`)"
  defaults := some [("attrs", .array []), ("elemSeparator", .string ":")]
  apply := fun params doc => do
    let separator ← params.text "elemSeparator" ":"
    if separator.isEmpty then throw (.invalidParam "elemSeparator" "must not be empty")
    let rules ← (← params.texts "attrs").mapM (rule engine separator)
    return doc.mapTags (applyRules rules)

end SvgPress.AttributeRemoval
