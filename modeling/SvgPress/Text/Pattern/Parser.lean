import SvgPress.Text.Pattern.Engine

/-!
Reading the written form of patterns: literals and escapes, sets in brackets with their operations,
groups with flags, alternatives and repetitions. A text that is no pattern has no reading; there is
no look-around and no reference back to a group. The syntax is read here; which properties there
are, what the names of groups can hold and how large a pattern may become is left to an engine, and
`Engine.standard` has no scripts, few other properties, and only an estimate of the size. What is
wrong with a text that is refused is not told.
-/

namespace SvgPress.Text.Pattern

/-- The flags in force at a place of a pattern. -/
structure Flags where
  ignoreCase : Bool := false
  multiLine : Bool := false
  dotAll : Bool := false
  returns : Bool := false
  unicode : Bool := true
  spaced : Bool := false
  deriving Repr

/-- How far the reading has come: the rest of the written form, the flags in force and the group
names that are taken. -/
structure State where
  rest : List Char
  flags : Flags
  names : List (List Char)

/-- A part of the written form is read, or the whole is refused. -/
abbrev Parser := StateT State Option

/-- Groups and repetitions may be inside one another up to this depth. -/
def depthLimit : Nat := 250

/-- The greatest count of a repetition. -/
def countLimit : Nat := Nat.pow 2 32 - 1

def peek? : Parser (Option Char) := do
  return (← get).rest.head?

def peekSecond? : Parser (Option Char) := do
  return (← get).rest[1]?

def advance (n : Nat) : Parser Unit :=
  modify fun s => { s with rest := s.rest.drop n }

/-- Blanks and comments dropped from the front of a spaced-out pattern. -/
def dropSpacing (inComment : Bool) : List Char → List Char
  | [] => []
  | c :: rest =>
    if inComment then dropSpacing (c != '\n') rest
    else if isBlank c then dropSpacing false rest
    else if c = '#' then dropSpacing true rest
    else c :: rest

/-- Pass over blanks and comments where the flag for spacing is in force. -/
def skipSpacing : Parser Unit :=
  modify fun s => if s.flags.spaced then { s with rest := dropSpacing false s.rest } else s

/-- Pass over one character and the spacing after it. The text must not end there. -/
def advanceToMore : Parser Char := do
  advance 1
  skipSpacing
  match ← peek? with
  | some c => return c
  | none => failure

/-- Take a given text from the front, if it stands there. -/
def take? (word : String) : Parser Bool := do
  match stripFront? word.toList (← get).rest with
  | some rest =>
    modify fun s => { s with rest := rest }
    return true
  | none => return false

/-- The characters that mean something outside of sets or inside them. -/
def isMeta (c : Char) : Bool :=
  "\\.+*?()|[]\x7b\x7d^$#&-~".toList.contains c

/-- Whether a backslash may stand before a character that stands for itself. -/
def isEscapable (c : Char) : Bool :=
  isMeta c || (c.toNat < 0x80 && !c.isAlphanum && c != '<' && c != '>')

def hexValue? (c : Char) : Option Nat :=
  if '0' ≤ c ∧ c ≤ '9' then some (c.toNat - '0'.toNat)
  else if 'a' ≤ c ∧ c ≤ 'f' then some (c.toNat - 'a'.toNat + 10)
  else if 'A' ≤ c ∧ c ≤ 'F' then some (c.toNat - 'A'.toNat + 10)
  else none

/-- The character with a number, if there is one. -/
def charOf? (n : Nat) : Option Char :=
  if h : n.isValidChar then some (Char.ofNatAux n h) else none

/-- Exactly `count` hexadecimal digits, with the place on the first of them. -/
def hexDigits : Nat → Nat → Parser Nat
  | 0, n => return n
  | count + 1, n => do
    let some c ← peek? | failure
    let some d := hexValue? c | failure
    advance 1
    skipSpacing
    hexDigits count (16 * n + d)

/-- Hexadecimal digits up to the closing brace, at least one. -/
def bracedHex : Nat → List Nat → Parser Nat
  | 0, _ => failure
  | budget + 1, ds => do
    let c ← advanceToMore
    if c = '\x7d' then
      advance 1
      skipSpacing
      if ds.isEmpty then failure
      let n := ds.reverse.foldl (fun n d => 16 * n + d) 0
      if n < Nat.pow 2 32 then return n else failure
    else
      let some d := hexValue? c | failure
      bracedHex budget (d :: ds)

/-- The sets that classes of ASCII stand for inside brackets. -/
def asciiSet? (name : String) : Option CharSet :=
  (table.lookup name).map .ranges
where
  table : List (String × List (Nat × Nat)) :=
    [("alnum", [(0x30, 0x39), (0x41, 0x5A), (0x61, 0x7A)]),
      ("alpha", [(0x41, 0x5A), (0x61, 0x7A)]), ("ascii", [(0, 0x7F)]),
      ("blank", [(0x09, 0x09), (0x20, 0x20)]), ("cntrl", [(0, 0x1F), (0x7F, 0x7F)]),
      ("digit", [(0x30, 0x39)]), ("graph", [(0x21, 0x7E)]), ("lower", [(0x61, 0x7A)]),
      ("print", [(0x20, 0x7E)]),
      ("punct", [(0x21, 0x2F), (0x3A, 0x40), (0x5B, 0x60), (0x7B, 0x7E)]),
      ("space", [(0x09, 0x0D), (0x20, 0x20)]), ("upper", [(0x41, 0x5A)]),
      ("word", [(0x30, 0x39), (0x41, 0x5A), (0x5F, 0x5F), (0x61, 0x7A)]),
      ("xdigit", [(0x30, 0x39), (0x41, 0x46), (0x61, 0x66)])]

/-- The set of `\d`, `\s` or `\w`, by its small letter. -/
def shorthandSet (unicode : Bool) (c : Char) : CharSet :=
  if unicode then
    if c = 'd' then .categories [.decimalNumber]
    else if c = 's' then blankSet
    else
      .union
        (.categories (Category.letters ++ Category.marks ++
          [.decimalNumber, .letterNumber, .connectorPunctuation]))
        (.ranges extraWordRanges)
  else
    if c = 'd' then .ranges [(0x30, 0x39)]
    else if c = 's' then .ranges [(0x09, 0x0D), (0x20, 0x20)]
    else .ranges [(0x30, 0x39), (0x41, 0x5A), (0x5F, 0x5F), (0x61, 0x7A)]

/-- One atom of a pattern or of a set in brackets. -/
inductive Atom where
  | literal (c : Char)
  /-- A literal written by two hexadecimal digits, which without Unicode means a byte. -/
  | byte (n : Nat)
  | chars (set : CharSet)
  | place (place : Place)

/-- Ignoring case as the flags say. -/
def Flags.folded (flags : Flags) (set : CharSet) : CharSet :=
  if flags.ignoreCase then (if flags.unicode then .fold set else .foldAscii set) else set

/-- A set that is in order under the flags: without Unicode no set may hold a byte beyond ASCII. -/
def Flags.checked (flags : Flags) (set : CharSet) : Parser CharSet :=
  if !flags.unicode && (List.range 128).any fun i => set.has (128 + i) then failure
  else return set

/-- The kind of word place named in braces after `\b`, if letters stand in the braces. -/
def wordPlace? (ascii : Bool) : Parser (Option Place) := do
  let before ← get
  let c ← advanceToMore
  if !(c.isAlpha || c == '-') then
    set before
    return none
  let name ← letters (← get).rest.length []
  let place ←
    if name = "start".toList then pure (Place.wordStart ascii)
    else if name = "end".toList then pure (Place.wordEnd ascii)
    else if name = "start-half".toList then pure (Place.wordStartHalf ascii)
    else if name = "end-half".toList then pure (Place.wordEndHalf ascii)
    else failure
  if (← peek?) != some '\x7d' then failure
  advance 1
  return some place
where
  letters : Nat → List Char → Parser (List Char)
    | 0, acc => return acc.reverse
    | budget + 1, acc => do
      match ← peek? with
      | some c =>
        if c.isAlpha || c == '-' then
          advance 1
          skipSpacing
          letters budget (c :: acc)
        else return acc.reverse
      | none => return acc.reverse

/-- The name in a property escape and what it stands for, from the letter `p` or `P` on. -/
def property (engine : Engine) : Parser CharSet := do
  let state ← get
  if !state.flags.unicode then failure
  let negated := (← peek?) == some 'P'
  let c ← advanceToMore
  let found ←
    if c = '\x7b' then
      let name ← braced (← get).rest.length []
      pure (engine.property name)
    else if c = '\\' then failure
    else
      advance 1
      skipSpacing
      pure (engine.property [c])
  let some found := found | failure
  let found := state.flags.folded found
  return if negated then .negate found else found
where
  braced : Nat → List Char → Parser (List Char)
    | 0, _ => failure
    | budget + 1, acc => do
      let c ← advanceToMore
      if c = '\x7d' then
        advance 1
        return acc.reverse
      else braced budget (c :: acc)

/-- An escape, from its backslash on. -/
def escape (engine : Engine) : Parser Atom := do
  advance 1
  let flags := (← get).flags
  let some c ← peek? | failure
  if c.isDigit then failure
  if c = 'x' ∨ c = 'u' ∨ c = 'U' then
    let next ← advanceToMore
    if next = '\x7b' then
      let n ← bracedHex ((← get).rest.length + 1) []
      let some d := charOf? n | failure
      return .literal d
    let n ← hexDigits (if c = 'x' then 2 else if c = 'u' then 4 else 8) 0
    let some d := charOf? n | failure
    return if c = 'x' then .byte d.toNat else .literal d
  if c = 'p' ∨ c = 'P' then
    return .chars (← property engine)
  advance 1
  if c = 'd' ∨ c = 's' ∨ c = 'w' then
    return .chars (shorthandSet flags.unicode c)
  if c = 'D' ∨ c = 'S' ∨ c = 'W' then
    return .chars (← flags.checked (.negate (shorthandSet flags.unicode c.toLower)))
  if isEscapable c then
    return .literal c
  let ascii := !flags.unicode
  match c with
  | 'a' => return .literal (Char.ofNat 0x07)
  | 'f' => return .literal (Char.ofNat 0x0C)
  | 't' => return .literal '\t'
  | 'n' => return .literal '\n'
  | 'r' => return .literal '\r'
  | 'v' => return .literal (Char.ofNat 0x0B)
  | 'A' => return .place .textStart
  | 'z' => return .place .textEnd
  | 'b' =>
    if (← peek?) == some '\x7b' then
      match ← wordPlace? ascii with
      | some place => return .place place
      | none => return .place (.wordBoundary ascii)
    else return .place (.wordBoundary ascii)
  | 'B' => return .place (.noWordBoundary ascii)
  | '<' => return .place (.wordStart ascii)
  | '>' => return .place (.wordEnd ascii)
  | _ => failure

/-- The operations on sets in brackets. -/
inductive SetOperation where
  | intersection
  | difference
  | symmetricDifference

def SetOperation.apply (op : SetOperation) (a b : CharSet) : CharSet :=
  match op with
  | .intersection => .inter a b
  | .difference => .diff a b
  | .symmetricDifference => .diff (.union a b) (.inter a b)

/-- A class of ASCII such as `[:alpha:]` at the front of a text, whether it is negated, and the text
after it. -/
def asciiClass? (cs : List Char) : Option (CharSet × Bool × List Char) := do
  let rest ← stripFront? "[:".toList cs
  let (negated, rest) :=
    match rest with
    | '^' :: rest => (true, rest)
    | _ => (false, rest)
  let name := rest.takeWhile (· != ':')
  let rest ← stripFront? ":]".toList (rest.dropWhile (· != ':'))
  let set ← asciiSet? (String.ofList name)
  return (set, negated, rest)

/-- An atom inside brackets. -/
def setAtom (engine : Engine) : Parser Atom := do
  let some c ← peek? | failure
  if c = '\\' then escape engine
  else
    advance 1
    return .literal c

/-- The code point of an atom that can end a range. -/
def Atom.code? (flags : Flags) : Atom → Option Nat
  | .literal c => if flags.unicode || c.toNat < 0x80 then some c.toNat else none
  | .byte n => if flags.unicode || n < 0x80 then some n else none
  | _ => none

/-- An atom inside brackets as a set. -/
def Atom.charSet? (flags : Flags) : Atom → Option CharSet
  | .chars set => some set
  | .place _ => none
  | atom => (atom.code? flags).map fun n => .ranges [(n, n)]

/-- A text without a number sign in front and the blanks behind that. -/
def dropSign : List Char → List Char
  | [] => []
  | c :: rest => if c = '#' then rest.dropWhile isBlank else c :: rest

/-- The character that decides whether a hyphen begins a range, in a spaced-out pattern. A number
sign is passed over once, and what stands in the comment behind it is looked at. -/
def pastSpacing? (cs : List Char) : Option Char :=
  (dropSign (cs.dropWhile isBlank)).head?

/-- The next character after the place that is not spacing. -/
def peekPastSpacing? : Parser (Option Char) := do
  let state ← get
  let rest := state.rest.drop 1
  return if state.flags.spaced then pastSpacing? rest else rest.head?

/-- One item inside brackets: an atom, or a range of two literals. -/
def setItem (engine : Engine) : Parser CharSet := do
  let flags := (← get).flags
  let first ← setAtom engine
  skipSpacing
  let some c ← peek? | failure
  let next ← peekPastSpacing?
  if c != '-' || next == some ']' || next == some '-' then
    let some set := first.charSet? flags | failure
    return set
  let _ ← advanceToMore
  let last ← setAtom engine
  let some low := first.code? flags | failure
  let some high := last.code? flags | failure
  if low ≤ high then return .ranges [(low, high)] else failure

/-- Something read, and how deep it is: how many levels are inside one another in it. -/
abbrev Nested (α : Type) := α × Nat

/-- Items of a set that stand side by side: what they hold together, how many there are, and how
deep they are. -/
structure Items where
  set : CharSet := .empty
  count : Nat := 0
  depth : Nat := 0

namespace Items

def add (items : Items) (set : CharSet) (depth : Nat) : Items :=
  ⟨.union items.set set, items.count + 1, max items.depth depth⟩

/-- Items as one set. Where there is more than one, they are a level of their own. -/
def together (items : Items) : Nested CharSet :=
  (items.set, if items.count ≤ 1 then items.depth else items.depth + 1)

end Items

/-- An operation on sets with what stands on its left. -/
structure Waiting where
  op : SetOperation
  left : Nested CharSet

/-- Put items to the operation that waits for them. -/
def settle (flags : Flags) (items : Items) : Option Waiting → Nested CharSet
  | none => items.together
  | some waiting =>
    let right := items.together
    (waiting.op.apply (flags.folded waiting.left.1) (flags.folded right.1),
      max waiting.left.2 right.2 + 1)

/-- A set under the flags, or what is not in it. -/
def Flags.signed (flags : Flags) (negated : Bool) (set : CharSet) : Parser CharSet :=
  let set := flags.folded set
  flags.checked (if negated then .negate set else set)

/-- Hyphens at the start of a set stand for themselves. -/
def setOpening : Nat → Items → Parser Items
  | 0, _ => failure
  | budget + 1, items => do
    if (← peek?) == some '-' then
      let _ ← advanceToMore
      setOpening budget (items.add (.single '-') 0)
    else return items

mutual

/-- A set in brackets, from its opening bracket on. A closing bracket that comes first stands for
itself. -/
def bracketed (engine : Engine) : Nat → Parser (Nested CharSet)
  | 0 => failure
  | budget + 1 => do
    let flags := (← get).flags
    let c ← advanceToMore
    let negated := c == '^'
    if negated then
      let _ ← advanceToMore
    let items ← setOpening (← get).rest.length {}
    let items ←
      if items.count = 0 && (← peek?) == some ']' then
        let _ ← advanceToMore
        pure (items.add (.single ']') 0)
      else pure items
    let (set, depth) ← bracketItems engine budget items none
    return (← flags.signed negated set, depth + 1)

/-- The items of a set up to its closing bracket. -/
def bracketItems (engine : Engine) : Nat → Items → Option Waiting → Parser (Nested CharSet)
  | 0, _, _ => failure
  | budget + 1, items, waiting => do
    skipSpacing
    let flags := (← get).flags
    let some c ← peek? | failure
    if c = '[' then
      match asciiClass? (← get).rest with
      | some (set, negated, rest) =>
        modify fun s => { s with rest := rest }
        bracketItems engine budget (items.add (← flags.signed negated set) 0) waiting
      | none =>
        let (set, depth) ← bracketed engine budget
        bracketItems engine budget (items.add set depth) waiting
    else if c = ']' then
      advance 1
      return settle flags items waiting
    else
      let op :=
        if (← peekSecond?) != some c then none
        else if c = '&' then some SetOperation.intersection
        else if c = '-' then some .difference
        else if c = '~' then some .symmetricDifference
        else none
      match op with
      | some op =>
        advance 2
        bracketItems engine budget {} (some ⟨op, settle flags items waiting⟩)
      | none => bracketItems engine budget (items.add (← setItem engine) 0) waiting

end

/-- Read the letters of a flag setting up to the closing parenthesis or the colon, which is
returned. `seen` holds the letters so far, with the hyphen that turns flags off. -/
def flagLetters : Nat → List Char → Flags → Parser (Char × List Char × Flags)
  | 0, _, _ => failure
  | budget + 1, seen, flags => do
    let some c ← peek? | failure
    if c = ':' ∨ c = ')' then
      if seen.head? == some '-' then failure
      advance 1
      return (c, seen, flags)
    if seen.contains c then failure
    advance 1
    let on := !seen.contains '-'
    if c = '-' then flagLetters budget (c :: seen) flags
    else if c = 'i' then flagLetters budget (c :: seen) { flags with ignoreCase := on }
    else if c = 'm' then flagLetters budget (c :: seen) { flags with multiLine := on }
    else if c = 's' then flagLetters budget (c :: seen) { flags with dotAll := on }
    else if c = 'U' then flagLetters budget (c :: seen) flags
    else if c = 'u' then flagLetters budget (c :: seen) { flags with unicode := on }
    else if c = 'R' then flagLetters budget (c :: seen) { flags with returns := on }
    else if c = 'x' then flagLetters budget (c :: seen) { flags with spaced := on }
    else failure

/-- Whether a character may stand in the name of a group. -/
def isGroupNameChar (engine : Engine) (first : Bool) (c : Char) : Bool :=
  c == '_' || engine.alphabetic c ||
    (!first && (c == '.' || c == '[' || c == ']' || isNumeric c))

/-- The name of a group up to its closing bracket. A name belongs to one group only. -/
def groupName (engine : Engine) : Parser Unit := do
  let state ← get
  let name := state.rest.takeWhile (· != '>')
  match name with
  | [] => failure
  | c :: more =>
    if !(isGroupNameChar engine true c && more.all (isGroupNameChar engine false)) then failure
    if state.names.contains name then failure
    match state.rest.drop name.length with
    | _ :: rest => set { state with rest := rest, names := name :: state.names }
    | [] => failure

/-- A count in braces, with blanks allowed around its digits. -/
def count? : Parser (Option Nat) := do
  modify fun s => { s with rest := s.rest.dropWhile isBlank }
  let ds ← digits (← get).rest.length []
  modify fun s => { s with rest := s.rest.dropWhile isBlank }
  skipSpacing
  if ds.isEmpty then return none
  let n := ds.foldl (fun n c => 10 * n + (c.toNat - '0'.toNat)) 0
  if n ≤ countLimit then return some n else failure
where
  digits : Nat → List Char → Parser (List Char)
    | 0, acc => return acc.reverse
    | budget + 1, acc => do
      match ← peek? with
      | some c =>
        if c.isDigit then
          advance 1
          skipSpacing
          digits budget (c :: acc)
        else return acc.reverse
      | none => return acc.reverse

/-- The least and greatest count of a repetition in braces, from the opening brace on. -/
def countRange : Parser (Nat × Option Nat) := do
  let _ ← advanceToMore
  let some least ← count? | failure
  let some c ← peek? | failure
  let range ←
    if c = ',' then
      let next ← advanceToMore
      if next = '\x7d' then pure (least, none)
      else
        let some most ← count? | failure
        pure (least, some most)
    else pure (least, some least)
  if (← peek?) != some '\x7d' then failure
  advance 1
  skipSpacing
  if range.2.any (· < range.1) then failure
  return range

/-- One member of a sequence. A flag setting is a member too, but one that cannot be repeated. -/
inductive Piece where
  | setting
  | pattern (p : Pattern) (depth : Nat)

/-- A sequence of pieces, the last one first, as one pattern. -/
def sequence (pieces : List Piece) : Nested Pattern :=
  let patterns := pieces.map fun
    | .setting => (Pattern.empty, 0)
    | .pattern p depth => (p, depth)
  match patterns with
  | [] => (.empty, 0)
  | [p] => p
  | last :: earlier =>
    (earlier.foldl (fun rest p => .seq p.1 rest) last.1,
      1 + patterns.foldl (fun depth p => max depth p.2) 0)

/-- Alternatives, the last one first, as one pattern. -/
def choice (alternatives : List (Nested Pattern)) : Nested Pattern :=
  match alternatives with
  | [] => (.empty, 0)
  | [p] => p
  | last :: earlier =>
    (earlier.foldl (fun rest p => .alt p.1 rest) last.1,
      1 + alternatives.foldl (fun depth p => max depth p.2) 0)

/-- An atom as a pattern. -/
def Atom.pattern (flags : Flags) : Atom → Parser Pattern
  | .literal c => return .one (flags.folded (.single c))
  | .byte n =>
    if flags.unicode || n < 0x80 then return .one (flags.folded (.ranges [(n, n)])) else failure
  | .chars s => return .one s
  | .place p => return .at p

/-- The opening of a group after its parenthesis: either the group's own flags, or a setting of
flags for what follows. -/
inductive Opening where
  | group (flags : Flags)
  | setting (flags : Flags)

def groupOpening (engine : Engine) : Parser Opening := do
  skipSpacing
  let flags := (← get).flags
  if (← take? "?=") || (← take? "?!") || (← take? "?<=") || (← take? "?<!") then failure
  if ← take? "?P<" then
    groupName engine
    return .group flags
  if ← take? "?<" then
    groupName engine
    return .group flags
  if ← take? "?" then
    let (ending, seen, flags) ← flagLetters ((← get).rest.length + 1) [] flags
    if ending = ':' then return .group flags
    if seen.isEmpty then failure
    return .setting flags
  return .group flags

/-- The repetition of the last piece of a sequence. -/
def repeatLast (pieces : List Piece) (least : Nat) (most : Option Nat) : Parser (List Piece) := do
  match pieces with
  | .pattern p depth :: earlier =>
    -- A question mark makes the repetition lazy, which changes no set of places.
    let _ ← take? "?"
    return .pattern (.repeated p least most) (depth + 1) :: earlier
  | _ => failure

/-- Alternatives up to a closing parenthesis or the end. Every call but the first has taken a
character since the one before, so a budget of the text's length is never used up. -/
def alternatives (engine : Engine) :
    Nat → List Piece → List (Nested Pattern) → Parser (Nested Pattern)
  | 0, _, _ => failure
  | budget + 1, pieces, done => do
    skipSpacing
    let flags := (← get).flags
    match ← peek? with
    | none => return choice (sequence pieces :: done)
    | some ')' => return choice (sequence pieces :: done)
    | some '|' =>
      advance 1
      alternatives engine budget [] (sequence pieces :: done)
    | some '(' =>
      advance 1
      match ← groupOpening engine with
      | .setting flags =>
        modify fun s => { s with flags := flags }
        alternatives engine budget (.setting :: pieces) done
      | .group inner =>
        modify fun s => { s with flags := inner }
        let (p, depth) ← alternatives engine budget [] []
        if !(← take? ")") then failure
        modify fun s => { s with flags := flags }
        alternatives engine budget (.pattern p (depth + 1) :: pieces) done
    | some '[' =>
      let (set, depth) ← bracketed engine (2 * (← get).rest.length + 2)
      alternatives engine budget (.pattern (.one set) depth :: pieces) done
    | some '*' =>
      advance 1
      alternatives engine budget (← repeatLast pieces 0 none) done
    | some '+' =>
      advance 1
      alternatives engine budget (← repeatLast pieces 1 none) done
    | some '?' =>
      advance 1
      alternatives engine budget (← repeatLast pieces 0 (some 1)) done
    | some '\x7b' =>
      if !(pieces.head?.any fun | .pattern .. => true | .setting => false) then failure
      let (least, most) ← countRange
      alternatives engine budget (← repeatLast pieces least most) done
    | some '.' =>
      advance 1
      if !flags.unicode then failure
      let set : CharSet :=
        if flags.dotAll then anyChar
        else if flags.returns then .negate (.ranges [(0x0A, 0x0A), (0x0D, 0x0D)])
        else .negate (.single '\n')
      alternatives engine budget (.pattern (.one set) 0 :: pieces) done
    | some '^' =>
      advance 1
      let place := if flags.multiLine then Place.lineStart flags.returns else .textStart
      alternatives engine budget (.pattern (.at place) 0 :: pieces) done
    | some '$' =>
      advance 1
      let place := if flags.multiLine then Place.lineEnd flags.returns else .textEnd
      alternatives engine budget (.pattern (.at place) 0 :: pieces) done
    | some '\\' =>
      let p ← Atom.pattern flags (← escape engine)
      alternatives engine budget (.pattern p 0 :: pieces) done
    | some c =>
      advance 1
      let p ← Atom.pattern flags (.literal c)
      alternatives engine budget (.pattern p 0 :: pieces) done

/-- The pattern that a text writes, if it writes one. -/
def parse? (engine : Engine) (written : String) : Option Pattern := do
  let cs := written.toList
  let ((p, depth), state) ← (alternatives engine (2 * cs.length + 2) [] []).run ⟨cs, {}, []⟩
  if state.rest.isEmpty && depth ≤ depthLimit && engine.fits written p then some p else none

/-- The pattern that is meant to match a whole text. -/
def parseWhole? (engine : Engine) (written : String) : Option Pattern :=
  parse? engine (whole written)

/-- The complaint about a text that writes no pattern. -/
def complaint (written : String) : String :=
  "regex parse error:\n    " ++ whole written ++ "\nerror: not a valid pattern"

end SvgPress.Text.Pattern
