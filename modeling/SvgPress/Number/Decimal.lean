import SvgPress.Number.Binary64
import SvgPress.Text.Blank

/-!
Decimal text of binary64 numbers: reading, printing with a fixed count of decimals, and printing
with the fewest digits that read back. All three go through exact natural numbers.
-/

namespace SvgPress.Decimal

open Binary64 (roundHalfEven)

/-- The value of a list of ASCII digits. -/
def digitsValue (ds : List Char) : Nat :=
  ds.foldl (fun n c => 10 * n + (c.toNat - '0'.toNat)) 0

/-- The digits of a number, without leading zeros; zero is one digit. -/
def digits (n : Nat) : List Char :=
  Nat.toDigits 10 n

/-- How many decimal digits a number has; zero has none. -/
def digitCount (n : Nat) : Nat :=
  if n = 0 then 0 else (digits n).length

/-- Read off the longest run of ASCII digits at the front. -/
def takeDigits (cs : List Char) : List Char × List Char :=
  cs.span Char.isDigit

/-- The number nearest to `n * 10 ^ e`. Exponents so large or small that the answer cannot depend
on the digits are settled without computing the power. -/
def ofScaled (negative : Bool) (n : Nat) (e : Int) : Binary64 :=
  if n = 0 then .zero negative
  else if 400 < (digitCount n : Int) + e then .infinite negative
  else if (digitCount n : Int) + e < -400 then .zero negative
  else if 0 ≤ e then .ofRatio negative (n * Nat.pow 10 e.toNat) 1
  else .ofRatio negative n (Nat.pow 10 (-e).toNat)

/-- An optional sign at the front of a text. -/
def takeSign : List Char → Bool × List Char
  | '-' :: rest => (true, rest)
  | '+' :: rest => (false, rest)
  | cs => (false, cs)

/-- A decimal numeral without sign: digits with an optional point (a digit on at least one side)
and an optional exponent. The whole significand, its power of ten, and the text after it. An `e`
that no digit follows is not part of the numeral. -/
def takeNumeral? (cs : List Char) : Option ((Nat × Int) × List Char) :=
  let (whole, rest) := takeDigits cs
  let (fraction, rest) :=
    match rest with
    | '.' :: more => takeDigits more
    | _ => ([], rest)
  if whole.isEmpty && fraction.isEmpty then none
  else
    let value := digitsValue (whole ++ fraction)
    let scale : Int := -(fraction.length : Int)
    some <|
      match takeExponent? rest with
      | some (e, after) => ((value, scale + e), after)
      | none => ((value, scale), rest)
where
  /-- An exponent mark, an optional sign and at least one digit. -/
  takeExponent? : List Char → Option (Int × List Char)
    | c :: rest =>
      if c = 'e' ∨ c = 'E' then
        let (negative, rest) := takeSign rest
        let (ds, after) := takeDigits rest
        if ds.isEmpty then none
        else some (if negative then -(digitsValue ds : Int) else digitsValue ds, after)
      else none
    | [] => none

/-- Read a whole text as a number: an optional sign, then a numeral or one of the words `inf`,
`infinity` and `nan` in any mix of cases. Nothing else is allowed, spaces neither. -/
def read? (cs : List Char) : Option Binary64 :=
  let (negative, body) := takeSign cs
  match takeNumeral? body with
  | some ((n, e), []) => some (ofScaled negative n e)
  | some _ => none
  | none =>
    let word := String.ofList (body.map Char.toLower)
    if word = "inf" ∨ word = "infinity" then some (.infinite negative)
    else if word = "nan" then some .nan
    else none

/-- The text of `n / 10 ^ places` with exactly that many decimals. -/
def placeText (n places : Nat) : List Char :=
  let ds := digits n
  if places = 0 then ds
  else
    let ds := List.replicate (places + 1 - ds.length) '0' ++ ds
    ds.take (ds.length - places) ++ '.' :: ds.drop (ds.length - places)

/-- A sign in front of a text. -/
def signed (negative : Bool) (cs : List Char) : List Char :=
  if negative then '-' :: cs else cs

/-- A number with a fixed count of decimals: the exact value, rounded to that place with a half to
the even neighbour. The sign of a negative number stays even where all digits are zero. -/
def fixed (places : Nat) : Binary64 → List Char
  | .finite n s e =>
    let (a, b) := Binary64.magnitude s e
    signed n (placeText (roundHalfEven (a * Nat.pow 10 places) b) places)
  | .infinite n => signed n "inf".toList
  | .nan => "NaN".toList

/-- The greatest `k` with `10 ^ k ≤ num / den`, for positive `num` and `den`. -/
def floorLog10 (num den : Nat) : Int :=
  if den ≤ num then (digitCount (num / den) : Int) - 1
  else -(digitCount ((den - 1) / num) : Int)

/-- The two neighbours of `num / den` on the grid of multiples of `10 ^ k`, the nearer one first;
of two equally near ones the even one comes first. -/
def neighbours (num den : Nat) (k : Int) : List Nat :=
  let (a, b) :=
    if 0 ≤ k then (num, den * Nat.pow 10 k.toNat) else (num * Nat.pow 10 (-k).toNat, den)
  let q := a / b
  if roundHalfEven a b = q then [q, q + 1] else [q + 1, q]

/-- The decimal significand and power of ten of a positive number with the fewest digits that read
back as the number, and of those the nearest. Seventeen digits always suffice; the last alternative
is never taken. -/
def shortest (significand : Nat) (exponent : Int) : Nat × Int :=
  let (a, b) := Binary64.magnitude significand exponent
  let top := floorLog10 a b
  let readsBack (k : Int) (n : Nat) : Bool :=
    ofScaled false n k == .finite false significand exponent
  let attempt (count : Nat) : Option (Nat × Int) :=
    let k := top - (count : Int)
    ((neighbours a b k).find? (readsBack k)).map fun n => (n, k)
  ((List.range 17).findSome? attempt).getD (significand, exponent)

/-- The significand without its trailing zeros, which move into the power of ten. -/
def stripZeros : Nat → Nat × Int → Nat × Int
  | 0, x => x
  | fuel + 1, (n, k) => if n != 0 && n % 10 == 0 then stripZeros fuel (n / 10, k + 1) else (n, k)

/-- `n * 10 ^ k` written out without an exponent. -/
def positional (n : Nat) (k : Int) : List Char :=
  if 0 ≤ k then digits n ++ List.replicate k.toNat '0' else placeText n (-k).toNat

/-- The shortest text that reads back, never with an exponent; a whole number has no point. -/
def plain : Binary64 → List Char
  | .finite n s e =>
    if s = 0 then signed n ['0']
    else
      let (d, k) := stripZeros 20 (shortest s e)
      signed n (positional d k)
  | .infinite n => signed n "inf".toList
  | .nan => "NaN".toList

/-- The shortest text that reads back, in the form that data files use: positional with at least
one decimal while the leading digit's power of ten is between -5 and 15, else one digit before the
point and an exponent with its sign. Only finite numbers have such a text. -/
def scientific : Binary64 → List Char
  | .finite n s e =>
    if s = 0 then signed n "0.0".toList
    else
      let (d, k) := stripZeros 20 (shortest s e)
      let ds := digits d
      let lead : Int := (ds.length : Int) - 1 + k
      signed n <|
        if -5 ≤ lead ∧ lead < 16 then
          if 0 ≤ k then positional d k ++ ".0".toList else positional d k
        else
          let mantissa :=
            match ds with
            | first :: second :: more => first :: '.' :: second :: more
            | _ => ds
          let sign := if lead < 0 then '-' else '+'
          mantissa ++ 'e' :: sign :: digits lead.natAbs
  | _ => "null".toList

end SvgPress.Decimal
