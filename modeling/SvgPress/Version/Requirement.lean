import SvgPress.Number.Decimal

/-!
Requirements on a version: comparators between commas, all of which a version has to meet. A
comparator may leave the minor and the patch number open.
-/

namespace SvgPress.Version

/-- A released version. -/
structure Release where
  major : Nat
  minor : Nat
  patch : Nat
  deriving DecidableEq, Repr

def Release.text (r : Release) : String :=
  toString r.major ++ "." ++ toString r.minor ++ "." ++ toString r.patch

/-- The version of this library, which files of declared passes may put requirements on. -/
def current : Release :=
  ⟨0, 1, 0⟩

inductive Operator where
  | exact
  | greater
  | atLeast
  | less
  | atMost
  /-- The same up to the minor number. -/
  | tilde
  /-- The same up to the first number that is not zero. -/
  | caret
  deriving DecidableEq, Repr

/-- One comparator. Of a pre-release it is only kept that there is one: a release comes after all
of its own pre-releases. -/
structure Comparator where
  operator : Operator
  major : Nat
  minor : Option Nat
  patch : Option Nat
  preRelease : Bool
  deriving DecidableEq, Repr

namespace Comparator

/-- Whether the numbers that the comparator gives are those of a release. -/
def meetsExactly (c : Comparator) (r : Release) : Bool :=
  r.major == c.major && c.minor.all (r.minor == ·) && c.patch.all (r.patch == ·) && !c.preRelease

/-- Whether a release is beyond the comparator, where `beyond` compares numbers. A number that is
left open is never passed. -/
def isPassedBy (beyond : Nat → Nat → Bool) (samePasses : Bool) (c : Comparator) (r : Release) :
    Bool :=
  if r.major != c.major then beyond r.major c.major
  else
    match c.minor with
    | none => false
    | some minor =>
      if r.minor != minor then beyond r.minor minor
      else
        match c.patch with
        | none => false
        | some patch => if r.patch != patch then beyond r.patch patch else samePasses

def isAfter (c : Comparator) (r : Release) : Bool :=
  c.isPassedBy (fun a b => b < a) c.preRelease r

def isBefore (c : Comparator) (r : Release) : Bool :=
  c.isPassedBy (fun a b => a < b) false r

def meetsTilde (c : Comparator) (r : Release) : Bool :=
  r.major == c.major && c.minor.all (r.minor == ·) && c.patch.all (· ≤ r.patch)

def meetsCaret (c : Comparator) (r : Release) : Bool :=
  r.major == c.major &&
    match c.minor, c.patch with
    | none, _ => true
    | some minor, none => if 0 < c.major then minor ≤ r.minor else r.minor == minor
    | some minor, some patch =>
      if 0 < c.major then minor < r.minor || (r.minor == minor && patch ≤ r.patch)
      else if 0 < minor then r.minor == minor && patch ≤ r.patch
      else r.minor == minor && r.patch == patch

def meets (c : Comparator) (r : Release) : Bool :=
  match c.operator with
  | .exact => c.meetsExactly r
  | .greater => c.isAfter r
  | .atLeast => c.meetsExactly r || c.isAfter r
  | .less => c.isBefore r
  | .atMost => c.meetsExactly r || c.isBefore r
  | .tilde => c.meetsTilde r
  | .caret => c.meetsCaret r

end Comparator

/-- A requirement; without comparators every version meets it. -/
abbrev Requirement := List Comparator

def Requirement.meets (requirement : Requirement) (r : Release) : Bool :=
  requirement.all (·.meets r)

namespace Requirement

def dropSpaces (cs : List Char) : List Char :=
  cs.dropWhile (· == ' ')

/-- The text after a wildcard, if it starts with one. -/
def afterWildcard? : List Char → Option (List Char)
  | c :: rest => if c = '*' ∨ c = 'x' ∨ c = 'X' then some rest else none
  | [] => none

/-- A number without leading zeros that fits into 64 bits. -/
def number? (cs : List Char) : Option (Nat × List Char) :=
  match Decimal.takeDigits cs with
  | ([], _) => none
  | (['0'], rest) => some (0, rest)
  | (d :: ds, rest) =>
    let n := Decimal.digitsValue (d :: ds)
    if d = '0' ∨ Nat.pow 2 64 ≤ n then none else some (n, rest)

def operator? : List Char → Option Operator × List Char
  | '=' :: rest => (some .exact, rest)
  | '>' :: '=' :: rest => (some .atLeast, rest)
  | '>' :: rest => (some .greater, rest)
  | '<' :: '=' :: rest => (some .atMost, rest)
  | '<' :: rest => (some .less, rest)
  | '~' :: rest => (some .tilde, rest)
  | '^' :: rest => (some .caret, rest)
  | cs => (none, cs)

/-- A number that may be left open: not there at all, or a wildcard. After a wildcard only another
one may stand. -/
def openNumber? (afterOpen : Bool) : List Char → Option ((Option Nat × Bool) × List Char)
  | '.' :: rest =>
    match afterWildcard? rest with
    | some rest => some ((none, true), rest)
    | none =>
      if afterOpen then none
      else (number? rest).map fun (n, rest) => ((some n, false), rest)
  | cs => some ((none, false), cs)

/-- Whether a part between dots is allowed. A number in a pre-release has no leading zeros. -/
def isPart (preRelease : Bool) (part : List Char) : Bool :=
  !part.isEmpty &&
    !(preRelease && part.all Char.isDigit && 1 < part.length && part.head? == some '0')

/-- Parts of letters, digits and hyphens with dots between them. -/
def parts? (preRelease : Bool) (cs : List Char) : Option (Unit × List Char) :=
  let (text, rest) := cs.span fun c => c.isAlphanum || c == '-' || c == '.'
  if (Text.splitChars (· == '.') text).all (isPart preRelease) then some ((), rest) else none

def comparator? (cs : List Char) : Option (Comparator × List Char) := do
  let (operator, cs) := operator? cs
  let (major, cs) ← number? (dropSpaces cs)
  let ((minor, minorOpen), cs) ← openNumber? false cs
  let ((patch, patchOpen), cs) ← openNumber? minorOpen cs
  let isFull := patch.isSome
  let (preRelease, cs) ←
    match cs with
    | '-' :: rest =>
      if isFull then (parts? true rest).map fun (_, cs) => (true, cs) else some (false, cs)
    | _ => some (false, cs)
  let cs ←
    match cs with
    | '+' :: rest => if isFull then (parts? false rest).map (·.2) else some cs
    | _ => some cs
  let byDefault := if minorOpen || patchOpen then Operator.exact else .caret
  some (⟨operator.getD byDefault, major, minor, patch, preRelease⟩, dropSpaces cs)

/-- At most so many comparators may be given. -/
def maxComparators : Nat := 32

/-- Comparators up to the end of the text, at most `left` of them. -/
def comparators? : Nat → List Char → Option Requirement
  | 0, _ => none
  | left + 1, cs => do
    let (c, rest) ← comparator? cs
    match rest with
    | [] => some [c]
    | ',' :: rest => (comparators? left (dropSpaces rest)).map (c :: ·)
    | _ => none

/-- The requirement that a text writes: comparators, or a wildcard alone. -/
def parse? (text : String) : Option Requirement :=
  let cs := dropSpaces text.toList
  match afterWildcard? cs with
  | some rest => if (dropSpaces rest).isEmpty then some [] else none
  | none => comparators? maxComparators cs

end Requirement

end SvgPress.Version
