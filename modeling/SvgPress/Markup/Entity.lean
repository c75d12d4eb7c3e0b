import SvgPress.Text.Blank

/-!
References and escapes. Five names and the numbered characters can be decoded; what cannot be
decoded stays as written. Escaping is the way back for the characters that markup gives a meaning.
-/

namespace SvgPress.Entity

/-- The value of digits in a base of at most sixteen, if there are any and all are digits of it. -/
def number? (base : Nat) (cs : List Char) : Option Nat :=
  if cs.isEmpty then none
  else cs.foldl (fun n c => n.bind fun n => (digit? c).map (n * base + ·)) (some 0)
where
  digit? (c : Char) : Option Nat :=
    let value :=
      if '0' ≤ c ∧ c ≤ '9' then some (c.toNat - '0'.toNat)
      else if 'a' ≤ c ∧ c ≤ 'f' then some (c.toNat - 'a'.toNat + 10)
      else if 'A' ≤ c ∧ c ≤ 'F' then some (c.toNat - 'A'.toNat + 10)
      else none
    value.filter (· < base)

/-- The character with a given number. The number zero, surrogates and everything beyond the last
character have none. -/
def character? (n : Nat) : Option Char :=
  if h : n.isValidChar then (if n = 0 then none else some (Char.ofNatAux n h)) else none

/-- The character that the reference `&name;` stands for. -/
def decode? : List Char → Option Char
  | '#' :: 'x' :: ds => (number? 16 ds).bind character?
  | '#' :: ds => (number? 10 ds).bind character?
  | name =>
    if name = "lt".toList then some '<'
    else if name = "gt".toList then some '>'
    else if name = "amp".toList then some '&'
    else if name = "apos".toList then some '\''
    else if name = "quot".toList then some '"'
    else none

/-- The name of a reference after its ampersand, and the text after its semicolon. A character of
`stops` before the semicolon means that there is no reference. -/
def takeName? (stops : List Char) : List Char → Option (List Char × List Char)
  | [] => none
  | c :: rest =>
    if c = ';' then some ([], rest)
    else if stops.contains c then none
    else (takeName? stops rest).map fun (name, after) => (c :: name, after)

theorem takeName?_eq {stops cs name after : List Char}
    (h : takeName? stops cs = some (name, after)) : cs = name ++ ';' :: after := by
  induction cs generalizing name with
  | nil => simp [takeName?] at h
  | cons c rest ih =>
    unfold takeName? at h
    split at h
    · simp_all
    · split at h
      · simp at h
      · obtain ⟨⟨n, a⟩, hn, hp⟩ := Option.map_eq_some_iff.1 h
        simp only [Prod.mk.injEq] at hp
        obtain ⟨rfl, rfl⟩ := hp
        simp [ih hn]

/-- Decode every reference of an attribute value, or nothing at all if one of them is bad. -/
def decodeAll? (cs : List Char) : Option (List Char) :=
  match cs with
  | [] => some []
  | c :: rest =>
    if c = '&' then
      match _h : takeName? ['&'] rest with
      | none => none
      | some (name, after) =>
        match decode? name with
        | none => none
        | some d => (decodeAll? after).map (d :: ·)
    else (decodeAll? rest).map (c :: ·)
termination_by cs.length
decreasing_by
  · have := congrArg List.length (takeName?_eq _h)
    simp at this ⊢
    omega
  · simp

/-- An attribute value with its references decoded. One bad reference leaves the whole value as
written. -/
def decodeValue (cs : List Char) : String :=
  String.ofList ((decodeAll? cs).getD cs)

/-- The text that a reference in character data stands for; a bad one stays as written. -/
def decodeReference (name : List Char) : String :=
  match decode? name with
  | some c => String.ofList [c]
  | none => String.ofList ('&' :: name ++ [';'])

/-- How a character stands in character data. -/
def escapeTextChar (c : Char) : List Char :=
  if c = '<' then "&lt;".toList
  else if c = '>' then "&gt;".toList
  else if c = '&' then "&amp;".toList
  else [c]

/-- How a character stands in an attribute value, where both quotes are escaped as well. -/
def escapeValueChar (c : Char) : List Char :=
  if c = '\'' then "&apos;".toList
  else if c = '"' then "&quot;".toList
  else escapeTextChar c

def escapeText (s : String) : String :=
  String.ofList (s.toList.flatMap escapeTextChar)

def escapeValue (s : String) : String :=
  String.ofList (s.toList.flatMap escapeValueChar)

end SvgPress.Entity
