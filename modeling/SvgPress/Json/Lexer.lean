import SvgPress.Json.Value

/-!
The lexical part of JSON reading: blanks, keywords, strings and numbers, each as a function from
the remaining text to a result and the text after it. What is wrong with a text is one of three
causes, and the first problem from the left decides.
-/

namespace SvgPress.Json

/-- Why a text was refused. -/
inductive Fault where
  /-- The text ended inside a value. -/
  | endOfInput
  /-- The text is not JSON, or a number in it is too large. -/
  | malformed
  /-- The text is JSON, but a value in it is not what was asked for. -/
  | mismatch
  deriving DecidableEq, Repr

def Fault.message : Fault → String
  | .endOfInput => "the JSON text ends too early"
  | .malformed => "the JSON text is malformed"
  | .mismatch => "the JSON text holds an unexpected value"

/-- Only these four characters may stand between the parts of a JSON text. -/
def isGap (c : Char) : Bool :=
  c == ' ' || c == '\t' || c == '\n' || c == '\r'

def skipGap (cs : List Char) : List Char :=
  cs.dropWhile isGap

/-- The rest of a keyword. -/
def keyword : List Char → List Char → Except Fault (Unit × List Char)
  | [], cs => .ok ((), cs)
  | _ :: _, [] => .error .endOfInput
  | k :: ks, c :: cs => if k = c then keyword ks cs else .error .malformed

def hexValue? (c : Char) : Option Nat :=
  if '0' ≤ c ∧ c ≤ '9' then some (c.toNat - '0'.toNat)
  else if 'a' ≤ c ∧ c ≤ 'f' then some (c.toNat - 'a'.toNat + 10)
  else if 'A' ≤ c ∧ c ≤ 'F' then some (c.toNat - 'A'.toNat + 10)
  else none

/-- Four hexadecimal digits. The text counts as ended when fewer than four bytes are left. -/
def hex4 (cs : List Char) : Except Fault Nat :=
  if Text.byteLength (cs.take 4) < 4 then .error .endOfInput
  else
    match cs with
    | a :: b :: c :: d :: _ =>
      match hexValue? a, hexValue? b, hexValue? c, hexValue? d with
      | some a, some b, some c, some d => .ok (((a * 16 + b) * 16 + c) * 16 + d)
      | _, _, _, _ => .error .malformed
    | _ => .error .malformed

def isLeadSurrogate (n : Nat) : Bool :=
  0xD800 ≤ n && n ≤ 0xDBFF

def isTrailSurrogate (n : Nat) : Bool :=
  0xDC00 ≤ n && n ≤ 0xDFFF

/-- The character that an escape stands for, and how many characters after the backslash it takes.
Two surrogates make one character; a lone one makes none. -/
def escaped : List Char → Except Fault (Char × Nat)
  | [] => .error .endOfInput
  | 'u' :: more => do
    let n ← hex4 more
    if isTrailSurrogate n then .error .malformed
    else if isLeadSurrogate n then
      match more.drop 4 with
      | [] => .error .endOfInput
      | '\\' :: [] => .error .endOfInput
      | '\\' :: 'u' :: low => do
        let m ← hex4 low
        if isTrailSurrogate m then
          .ok (Char.ofNat (0x10000 + (n - 0xD800) * 0x400 + (m - 0xDC00)), 11)
        else .error .malformed
      | _ => .error .malformed
    else .ok (Char.ofNat n, 5)
  | c :: _ =>
    match c with
    | '"' => .ok ('"', 1)
    | '\\' => .ok ('\\', 1)
    | '/' => .ok ('/', 1)
    | 'b' => .ok (Char.ofNat 0x08, 1)
    | 'f' => .ok (Char.ofNat 0x0C, 1)
    | 'n' => .ok ('\n', 1)
    | 'r' => .ok ('\r', 1)
    | 't' => .ok ('\t', 1)
    | _ => .error .malformed

/-- The rest of a string after its opening quote; `acc` holds what was read, in reverse. -/
def stringBody (acc : List Char) : List Char → Except Fault (String × List Char)
  | [] => .error .endOfInput
  | c :: rest =>
    if c = '"' then .ok (String.ofList acc.reverse, rest)
    else if c = '\\' then
      match escaped rest with
      | .ok (d, n) => stringBody (d :: acc) (rest.drop n)
      | .error fault => .error fault
    else if c.toNat < 0x20 then .error .malformed
    else stringBody (c :: acc) rest
termination_by cs => cs.length
decreasing_by
  · simp only [List.length_drop, List.length_cons]; omega
  · simp

/-- The rest of a string that nobody wants. Its escapes must be well formed, but surrogates need
not pair up. -/
def skipString : List Char → Except Fault (Unit × List Char)
  | [] => .error .endOfInput
  | c :: rest =>
    if c = '"' then .ok ((), rest)
    else if c = '\\' then
      match rest with
      | [] => .error .endOfInput
      | 'u' :: more =>
        match hex4 more with
        | .ok _ => skipString (more.drop 4)
        | .error fault => .error fault
      | e :: more =>
        if "\"\\/bfnrt".toList.contains e then skipString more else .error .malformed
    else if c.toNat < 0x20 then .error .malformed
    else skipString rest
termination_by cs => cs.length
decreasing_by
  · simp only [List.length_drop, List.length_cons]; omega
  · simp only [List.length_cons]; omega
  · simp

namespace Number

/-- The greatest significand that is collected digit by digit. -/
def limit : Nat := Nat.pow 2 64 - 1

/-- Collect digits into a significand as long as it stays within the limit. Also how many digits
went in. -/
def collect (n taken : Nat) : List Char → (Nat × Nat) × List Char
  | [] => ((n, taken), [])
  | c :: rest =>
    let m := 10 * n + (c.toNat - '0'.toNat)
    if c.isDigit && m ≤ limit then collect m (taken + 1) rest else ((n, taken), c :: rest)

/-- Divide down by a power of ten beyond the table's end, in steps of the table's last entry. Two
steps take any significand to zero, so a budget of four is never used up. -/
def scale : Nat → Binary64 → Int → Except Fault Binary64
  | 0, x, _ => .ok x
  | budget + 1, x, e =>
    if e.natAbs ≤ 308 then
      if 0 ≤ e then
        let y := x.mul (.ofNat (Nat.pow 10 e.natAbs))
        if y.isInfinite then .error .malformed else .ok y
      else .ok (x.div (.ofNat (Nat.pow 10 e.natAbs)))
    else if x == .zero false then .ok x
    else if 0 ≤ e then .error .malformed
    else scale budget (x.div (.ofNat (Nat.pow 10 308))) (e + 308)

/-- The floating point number of a significand and a power of ten: the significand is rounded
first, then multiplied or divided once. -/
def ofParts (negative : Bool) (n : Nat) (e : Int) : Except Fault Number := do
  let x ← scale 4 (.ofNat n) e
  .ok (.float (if negative then x.negate else x))

/-- The exponent after its mark. An exponent so large that its digits exceed a signed word of 32
bits makes zero, or a fault when the number would grow without bound. -/
def exponent (negative : Bool) (n : Nat) (e : Int) (cs : List Char) :
    Except Fault (Number × List Char) :=
  let (down, cs) := Decimal.takeSign cs
  match cs with
  | [] => .error .endOfInput
  | c :: _ =>
    if c.isDigit then
      let (ds, rest) := Decimal.takeDigits cs
      let k := Decimal.digitsValue ds
      if Nat.pow 2 31 - 1 < k then
        if n != 0 && !down then .error .malformed
        else .ok (.float (.zero negative), rest)
      else do
        let x ← ofParts negative n (if down then e - k else e + k)
        .ok (x, rest)
    else .error .malformed

/-- What follows the digits of a number that is floating point by now. -/
def finish (negative : Bool) (n : Nat) (e : Int) : List Char → Except Fault (Number × List Char)
  | c :: rest =>
    if c = 'e' ∨ c = 'E' then exponent negative n e rest
    else do
      let x ← ofParts negative n e
      .ok (x, c :: rest)
  | [] => do
    let x ← ofParts negative n e
    .ok (x, [])

/-- The digits after the point. Once the significand is full the remaining ones are ignored. -/
def fraction (negative : Bool) (n : Nat) (e : Int) (cs : List Char) :
    Except Fault (Number × List Char) :=
  let ((m, taken), rest) := collect n 0 cs
  match rest with
  | c :: _ =>
    if c.isDigit then finish negative m (e - taken) (Decimal.takeDigits rest).2
    else if taken = 0 then .error .malformed
    else finish negative m (e - taken) rest
  | [] => if taken = 0 then .error .endOfInput else finish negative m (e - taken) []

/-- A whole number, kept exactly where its sign allows. There is no negative zero among whole
numbers. -/
def whole (negative : Bool) (n : Nat) : Number :=
  if negative then
    if 1 ≤ n ∧ n ≤ Nat.pow 2 63 then .integer (-(n : Int)) else .float (Binary64.ofNat n).negate
  else .integer n

/-- A number after its optional minus sign. -/
def read (negative : Bool) (cs : List Char) : Except Fault (Number × List Char) :=
  match cs with
  | [] => .error .endOfInput
  | c :: more =>
    if c = '0' ∧ (more.head?.any Char.isDigit) then .error .malformed
    else if c.isDigit then
      let ((n, _), rest) := collect 0 0 cs
      match rest with
      | d :: tail =>
        if d.isDigit then
          let (ds, rest) := Decimal.takeDigits rest
          match rest with
          | '.' :: tail => fraction negative n ds.length tail
          | _ => finish negative n ds.length rest
        else if d = '.' then fraction negative n 0 tail
        else if d = 'e' ∨ d = 'E' then exponent negative n 0 tail
        else .ok (whole negative n, rest)
      | [] => .ok (whole negative n, [])
    else .error .malformed

/-- A number that nobody wants, after its optional minus sign. Its size does not matter. -/
def skip (cs : List Char) : Except Fault (Unit × List Char) :=
  match cs with
  | [] => .error .malformed
  | c :: more =>
    if c = '0' ∧ (more.head?.any Char.isDigit) then .error .malformed
    else if c.isDigit then
      match (Decimal.takeDigits cs).2 with
      | '.' :: tail =>
        let (ds, rest) := Decimal.takeDigits tail
        if ds.isEmpty then .error .malformed else skipExponent rest
      | rest => skipExponent rest
    else .error .malformed
where
  skipExponent : List Char → Except Fault (Unit × List Char)
    | c :: rest =>
      if c = 'e' ∨ c = 'E' then
        let (ds, after) := Decimal.takeDigits (Decimal.takeSign rest).2
        if ds.isEmpty then .error .malformed else .ok ((), after)
      else .ok ((), c :: rest)
    | [] => .ok ((), [])

end Number

end SvgPress.Json
