import SvgPress.Pass.Basic
import SvgPress.Text.Blank

/-!
Identifiers: unused ones go, used ones get short names, and every reference follows. A reference is
`url(#name)` in any attribute, or `#name` as the value of a link. Short names start with a prefix
that the caller chooses, so that drawings on one page do not take names from each other.
-/

namespace SvgPress.Identifiers

/-- The letters of short names, in their order. -/
def letters : List Char :=
  "abcdefghijklmnopqrstuvwxyzABCDEFGHIJKLMNOPQRSTUVWXYZ".toList

/-- The letters of the short name with a number, the last one first. The empty name does not count,
so every carry takes one off. -/
def shortNameReversed (n : Nat) : List Char :=
  if h : n < 52 then [letters.getD n 'a']
  else letters.getD (n % 52) 'a' :: shortNameReversed (n / 52 - 1)
termination_by n
decreasing_by omega

/-- The short name with a number: all names of one letter come first, then those of two. -/
def shortName (n : Nat) : String :=
  String.ofList (shortNameReversed n).reverse

/-- Whether an attribute is a link. -/
def isLink (name : String) : Bool :=
  name = "href" || Text.endsWith name ":href"

/-- A part of an attribute value: plain text, or a reference as it is written and what it
names. -/
inductive Segment where
  | plain (c : Char)
  | reference (written name : List Char)
  deriving DecidableEq, Repr

/-- Whether a character may stand in the name of a reference. -/
def isNameChar (c : Char) : Bool :=
  c != '\'' && c != '"' && c != ')' && !Text.isBlank c

def dropQuote : List Char → List Char
  | '"' :: rest => rest
  | '\'' :: rest => rest
  | cs => cs

/-- The name in a reference that stands at the front of a text, and the text after the reference.
Quotes around the name and its mark may be missing on either side. -/
def takeReference? (cs : List Char) : Option (List Char × List Char) := do
  let rest ← Text.stripFront? "url(".toList cs
  let rest ← Text.stripFront? ['#'] (dropQuote (rest.dropWhile Text.isBlank))
  let (name, rest) := rest.span isNameChar
  if name.isEmpty then none
  else
    let rest ← Text.stripFront? [')'] ((dropQuote rest).dropWhile Text.isBlank)
    some (name, rest)

/-- The segments of a value. Every segment takes at least one character, so a budget of the value's
length is never used up. -/
def split : Nat → List Char → List Segment
  | 0, cs => cs.map .plain
  | _, [] => []
  | budget + 1, c :: cs =>
    match takeReference? (c :: cs) with
    | some (name, rest) =>
      .reference ((c :: cs).take (cs.length + 1 - rest.length)) name :: split budget rest
    | none => .plain c :: split budget cs

def segments (value : String) : List Segment :=
  split value.toList.length value.toList

/-- The name that a link's value refers to, if it stays in the document. -/
def target? (a : Attribute) : Option String :=
  if isLink a.name then Text.dropPrefix? a.value "#" else none

/-- The name in a segment that is a reference. -/
def Segment.name? : Segment → Option String
  | .plain _ => none
  | .reference _ name => some (String.ofList name)

/-- The names in the references of a value, in order. -/
def namesIn (value : String) : List String :=
  (segments value).filterMap Segment.name?

/-- The names that an attribute refers to. -/
def references (a : Attribute) : List String :=
  namesIn a.value ++ (target? a).toList

/-- The new names, each with the name it replaces. -/
abbrev Renaming := List (String × String)

/-- A segment as it is written once names are replaced. A renamed reference is written without
quotes and spaces; the others stay as they are. -/
def Segment.renamed (renames : Renaming) : Segment → List Char
  | .plain c => [c]
  | .reference written name =>
    match renames.lookup (String.ofList name) with
    | some new => "url(#".toList ++ new.toList ++ [')']
    | none => written

/-- A value with its references renamed. -/
def renameInValue (renames : Renaming) (value : String) : String :=
  String.ofList ((segments value).flatMap (Segment.renamed renames))

/-- The value of an attribute with all its references renamed. -/
def follow (renames : Renaming) (a : Attribute) : String :=
  let value := renameInValue renames a.value
  match (target? ⟨a.name, value⟩).bind fun name => renames.lookup name with
  | some new => "#" ++ new
  | none => value

/-- What the pass is asked for. -/
structure Policy where
  remove : Bool
  minify : Bool
  namePrefix : String
  preserve : List String
  preservePrefixes : List String
  force : Bool

/-- Whether a name has to stay as it is. -/
def Policy.preserves (policy : Policy) (name : String) : Bool :=
  policy.preserve.contains name || policy.preservePrefixes.any (Text.startsWith name)

/-- The first short name from a number on that is not preserved, and the number after it. Short
names differ from one another, so it suffices to try one more than there are preserved names. -/
def freshName (policy : Policy) : Nat → Nat → String × Nat
  | 0, n => (policy.namePrefix ++ shortName n, n + 1)
  | tries + 1, n =>
    let name := policy.namePrefix ++ shortName n
    if policy.preserve.contains name then freshName policy tries (n + 1) else (name, n + 1)

/-- The name that replaces another one, and the number from which the next short name is taken. -/
def Policy.rename (policy : Policy) (name : String) (n : Nat) : String × Nat :=
  if policy.minify then freshName policy policy.preserve.length n
  else if Text.startsWith name policy.namePrefix then (name, n)
  else (policy.namePrefix ++ name, n)

/-- Names for the identifiers of a document in order. Only those that are referred to and need not
be preserved get one, and each only once. -/
def Policy.assign (policy : Policy) (referenced : List String) :
    Renaming → Nat → List String → Renaming
  | renames, _, [] => renames
  | renames, n, id :: ids =>
    if (renames.lookup id).isSome || policy.preserves id || !referenced.contains id then
      policy.assign referenced renames n ids
    else
      let (new, n) := policy.rename id n
      policy.assign referenced (renames ++ [(id, new)]) n ids

/-- The identifier of a tag renamed, or removed if nothing refers to it. -/
def Policy.settleId (policy : Policy) (referenced : List String) (renames : Renaming)
    (tag : Tag) : Tag :=
  match tag.attribute? "id" with
  | none => tag
  | some id =>
    match renames.lookup id with
    | some new => tag.setAttribute "id" new
    | none =>
      if policy.remove && !referenced.contains id && !policy.preserves id then
        tag.removeAttribute "id"
      else tag

/-- Whether identifiers may be used from where they are not looked for. -/
def isScripted (doc : Document) : Bool :=
  doc.tags.any fun tag => tag.name == "style" || tag.name == "script"

/-- The identifiers of a document in order. -/
def identifiers (doc : Document) : List String :=
  doc.tags.filterMap (·.attribute? "id")

/-- The names that a document refers to. -/
def referenced (doc : Document) : List String :=
  doc.tags.flatMap fun tag => tag.attributes.flatMap references

/-- A document under a policy. A scripted one stays as it is, unless the policy insists. -/
def Policy.apply (policy : Policy) (doc : Document) : Document :=
  if isScripted doc && !policy.force then doc
  else
    let used := referenced doc
    let renames := policy.assign used [] 0 (identifiers doc)
    doc.mapTags fun tag => (policy.settleId used renames tag).mapValues (follow renames)

def Policy.read (params : Params) : Except PassFault Policy := do
  let remove ← params.bool "remove" true
  let minify ← params.bool "minify" true
  let namePrefix ← params.text "prefix" ""
  let preserve ← params.texts "preserve"
  let preservePrefixes ← params.texts "preservePrefixes"
  let force ← params.bool "force" false
  return ⟨remove, minify, namePrefix, preserve, preservePrefixes, force⟩

def cleanup : Pass where
  name := "cleanupIDs"
  description := "removes unused IDs and minifies used ones"
  defaults := some [("force", .bool false), ("minify", .bool true), ("prefix", .string ""),
    ("preserve", .array []), ("preservePrefixes", .array []), ("remove", .bool true)]
  apply := fun params doc => do return (← Policy.read params).apply doc

end SvgPress.Identifiers
