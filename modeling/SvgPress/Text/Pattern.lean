import SvgPress.Text.Case

/-!
Patterns over texts: sets of characters, what a place in a text looks like, and their combination
by sequence, choice and repetition. The meaning of a pattern is the set of places where a match
that starts at a given place can end. Whether a text matches depends on that set alone, so greedy
and lazy repetition are the same here.
-/

namespace SvgPress.Text

/-- A set of code points, built up from ranges. -/
inductive CharSet where
  /-- Inclusive ranges in any order. -/
  | ranges (ranges : List (Nat × Nat))
  | categories (categories : List Category)
  | union (a b : CharSet)
  | inter (a b : CharSet)
  /-- Every code point outside the set. -/
  | negate (a : CharSet)
  /-- Together with each member, all that differ from it in case only. -/
  | fold (a : CharSet)
  /-- The same for the letters of ASCII alone. -/
  | foldAscii (a : CharSet)
  deriving Repr

namespace CharSet

def empty : CharSet :=
  .ranges []

/-- The set of one character. -/
def single (c : Char) : CharSet :=
  .ranges [(c.toNat, c.toNat)]

/-- The code points that differ from an ASCII letter in case only, or the given one alone. -/
def asciiOrbit (n : Nat) : List Nat :=
  if 0x41 ≤ n ∧ n ≤ 0x5A then [n, n + 0x20]
  else if 0x61 ≤ n ∧ n ≤ 0x7A then [n, n - 0x20]
  else [n]

/-- Membership of a code point. -/
def has : CharSet → Nat → Bool
  | .ranges rs, n => rs.any fun (low, high) => low ≤ n && n ≤ high
  | .categories cs, n => cs.any fun category => category.ranges.contains n
  | .union a b, n => a.has n || b.has n
  | .inter a b, n => a.has n && b.has n
  | .negate a, n => !a.has n
  | .fold a, n => (foldOrbit n).any a.has
  | .foldAscii a, n => (asciiOrbit n).any a.has

/-- The members of the first set that are not in the second. -/
def diff (a b : CharSet) : CharSet :=
  .inter a (.negate b)

end CharSet

/-- What a pattern may ask of a place without taking any character. -/
inductive Place where
  | textStart
  | textEnd
  /-- The start of a line. Lines end at a line feed, or at a carriage return too. -/
  | lineStart (returns : Bool)
  | lineEnd (returns : Bool)
  /-- Between a character of a word and none. -/
  | wordBoundary (ascii : Bool)
  | noWordBoundary (ascii : Bool)
  /-- Before a word's first character. -/
  | wordStart (ascii : Bool)
  /-- After a word's last character. -/
  | wordEnd (ascii : Bool)
  /-- Not after a character of a word. -/
  | wordStartHalf (ascii : Bool)
  /-- Not before a character of a word. -/
  | wordEndHalf (ascii : Bool)
  deriving DecidableEq, Repr

/-- Whether a character is a letter, digit or underscore of ASCII. -/
def isAsciiWordChar (c : Char) : Bool :=
  c.isAlphanum || c == '_'

/-- Whether a place between two neighbours, either of which may be missing, is as asked. -/
def Place.holds (place : Place) (before after : Option Char) : Bool :=
  let word (ascii : Bool) (c : Option Char) : Bool :=
    c.any fun c => if ascii then isAsciiWordChar c else isWordChar c
  match place with
  | .textStart => before.isNone
  | .textEnd => after.isNone
  | .lineStart returns =>
    before.isNone || before == some '\n' ||
      (returns && before == some '\r' && after != some '\n')
  | .lineEnd returns =>
    if returns then
      after.isNone || after == some '\r' || (after == some '\n' && before != some '\r')
    else after.isNone || after == some '\n'
  | .wordBoundary ascii => word ascii before != word ascii after
  | .noWordBoundary ascii => word ascii before == word ascii after
  | .wordStart ascii => !word ascii before && word ascii after
  | .wordEnd ascii => word ascii before && !word ascii after
  | .wordStartHalf ascii => !word ascii before
  | .wordEndHalf ascii => !word ascii after

inductive Pattern where
  /-- Matches without taking anything. -/
  | empty
  /-- One character of a set. -/
  | one (set : CharSet)
  | at (place : Place)
  | seq (a b : Pattern)
  | alt (a b : Pattern)
  /-- At least `least` matches in a row, and at most `most` where that is given. -/
  | repeated (a : Pattern) (least : Nat) (most : Option Nat)
  deriving Repr

namespace Pattern

/-- Take a step from a set of places a given number of times. The steps stop early once the set
stays the same. -/
def iterate (step : List Nat → List Nat) : Nat → List Nat → List Nat
  | 0, places => places
  | n + 1, places =>
    let next := step places
    if next == places then places else iterate step n next

/-- The places reached by at most a given number of steps. The steps stop early once no new place
comes up. -/
def reach (step : List Nat → List Nat) : Nat → List Nat → List Nat
  | 0, places => places
  | n + 1, places =>
    let next := (places ++ step places).eraseDups
    if next.length == places.length then places else reach step n next

/-- The places where a match that starts at place `i` can end. Places count characters. -/
def ends (text : Array Char) : Pattern → Nat → List Nat
  | .empty, i => [i]
  | .one set, i =>
    match text[i]? with
    | some c => if set.has c.toNat then [i + 1] else []
    | none => []
  | .at place, i =>
    let before := if i = 0 then none else text[i - 1]?
    if place.holds before text[i]? then [i] else []
  | .seq a b, i => ((a.ends text i).flatMap (b.ends text)).eraseDups
  | .alt a b, i => (a.ends text i ++ b.ends text i).eraseDups
  | .repeated a least most, i =>
    let step (places : List Nat) : List Nat := (places.flatMap (a.ends text)).eraseDups
    let begun := iterate step least [i]
    match most with
    | none => reach step (text.size + 1) begun
    | some most => reach step (most - least) begun

/-- Any text without a line feed. -/
def anyLine : Pattern :=
  .repeated (.one (.negate (.single '\n'))) 0 none

/-- A pattern between anchors. -/
def anchored (p : Pattern) : Pattern :=
  .seq (.at .textStart) (.seq p (.at .textEnd))

/-- Whether the pattern matches somewhere in a text. -/
def matchesIn (p : Pattern) (s : String) : Bool :=
  let text := s.toList.toArray
  (List.range (text.size + 1)).any fun i => !(p.ends text i).isEmpty

end Pattern

end SvgPress.Text
