/-!
Binary floating point numbers of 64 bits, kept as exact values. A finite number is a sign, a whole
significand and a power of two; every operation computes the exact rational result first and then
rounds once, to the nearest number and to the even significand on a tie.
-/

namespace SvgPress

/-- A number of the binary64 format. A finite one stands for `significand * 2 ^ exponent`, with the
exponent at least -1074 and the significand below `2 ^ 53`. Zero has a sign. -/
inductive Binary64 where
  | finite (negative : Bool) (significand : Nat) (exponent : Int)
  | infinite (negative : Bool)
  | nan
  deriving DecidableEq, Repr, Inhabited

namespace Binary64

/-- The quotient of two natural numbers, rounded to the nearest whole number, a half to the even
neighbour. -/
def roundHalfEven (num den : Nat) : Nat :=
  let q := num / den
  let r := num % den
  if 2 * r < den then q else if den < 2 * r then q + 1 else q + q % 2

/-- The quotient rounded to the nearest whole number, a half upwards. -/
def roundHalfUp (num den : Nat) : Nat :=
  (2 * num + den) / (2 * den)

/-- `num / den` divided by `2 ^ e`, as a fraction of natural numbers. -/
def scaleDown (num den : Nat) (e : Int) : Nat × Nat :=
  if 0 ≤ e then (num, den * Nat.pow 2 e.toNat) else (num * Nat.pow 2 (-e).toNat, den)

/-- The greatest `k` with `2 ^ k ≤ num / den`, for positive `num` and `den`. -/
def floorLog2 (num den : Nat) : Int :=
  let k : Int := (num.log2 : Int) - (den.log2 : Int)
  let (n, d) := scaleDown num den k
  if d ≤ n then k else k - 1

def zero (negative : Bool) : Binary64 := .finite negative 0 (-1074)

/-- The number nearest to `num / den` with the given sign. Beyond the greatest finite number lies
infinity. -/
def ofRatio (negative : Bool) (num den : Nat) : Binary64 :=
  if num = 0 then zero negative
  else
    let e := max (-1074) (floorLog2 num den - 52)
    let (n, d) := scaleDown num den e
    let s := roundHalfEven n d
    let (s, e) := if s = Nat.pow 2 53 then (Nat.pow 2 52, e + 1) else (s, e)
    if 971 < e then .infinite negative else .finite negative s e

def ofNat (n : Nat) : Binary64 := ofRatio false n 1

def ofInt (i : Int) : Binary64 := ofRatio (i < 0) i.natAbs 1

/-- The magnitude of a finite number as a fraction. -/
def magnitude (significand : Nat) (exponent : Int) : Nat × Nat :=
  if 0 ≤ exponent then (significand * Nat.pow 2 exponent.toNat, 1)
  else (significand, Nat.pow 2 (-exponent).toNat)

def isFinite : Binary64 → Bool
  | .finite .. => true
  | _ => false

def isInfinite : Binary64 → Bool
  | .infinite _ => true
  | _ => false

def negate : Binary64 → Binary64
  | .finite n s e => .finite (!n) s e
  | .infinite n => .infinite (!n)
  | .nan => .nan

/-- The product, rounded once. An infinite factor makes the product infinite unless the other
factor is zero. -/
def mul : Binary64 → Binary64 → Binary64
  | .finite n₁ s₁ e₁, .finite n₂ s₂ e₂ =>
    let (a, b) := magnitude s₁ e₁
    let (c, d) := magnitude s₂ e₂
    ofRatio (n₁ != n₂) (a * c) (b * d)
  | .finite n₁ s₁ _, .infinite n₂ => if s₁ = 0 then .nan else .infinite (n₁ != n₂)
  | .infinite n₁, .finite n₂ s₂ _ => if s₂ = 0 then .nan else .infinite (n₁ != n₂)
  | .infinite n₁, .infinite n₂ => .infinite (n₁ != n₂)
  | _, _ => .nan

/-- The quotient, rounded once. A positive magnitude over zero is infinite. -/
def div : Binary64 → Binary64 → Binary64
  | .finite n₁ s₁ e₁, .finite n₂ s₂ e₂ =>
    if s₂ = 0 then (if s₁ = 0 then .nan else .infinite (n₁ != n₂))
    else
      let (a, b) := magnitude s₁ e₁
      let (c, d) := magnitude s₂ e₂
      ofRatio (n₁ != n₂) (a * d) (b * c)
  | .finite n₁ _ _, .infinite n₂ => zero (n₁ != n₂)
  | .infinite n₁, .finite n₂ _ _ => .infinite (n₁ != n₂)
  | _, _ => .nan

/-- The difference, rounded once. Equal operands give the positive zero. -/
def sub : Binary64 → Binary64 → Binary64
  | .finite n₁ s₁ e₁, .finite n₂ s₂ e₂ =>
    let (a, b) := magnitude s₁ e₁
    let (c, d) := magnitude s₂ e₂
    let x : Int := if n₁ then -(a * d : Nat) else (a * d : Nat)
    let y : Int := if n₂ then -(c * b : Nat) else (c * b : Nat)
    if x - y = 0 then zero (n₁ && !n₂ && s₁ == 0)
    else ofRatio (x - y < 0) (x - y).natAbs (b * d)
  | .finite .., .infinite n => .infinite (!n)
  | .infinite n, .finite .. => .infinite n
  | .infinite n₁, .infinite n₂ => if n₁ = n₂ then .nan else .infinite n₁
  | _, _ => .nan

/-- The whole number that a finite number is, if it is one. -/
def toInt? : Binary64 → Option Int
  | .finite n s e =>
    let (a, b) := magnitude s e
    if a % b = 0 then some (if n then -(a / b : Nat) else (a / b : Nat)) else none
  | _ => none

/-- The number rounded to the nearest whole number, a half away from zero, and clamped to
`[0, 255]`. Not-a-number counts as zero. -/
def toByte : Binary64 → Nat
  | .finite true _ _ => 0
  | .finite false s e =>
    let (a, b) := magnitude s e
    min 255 (roundHalfUp a b)
  | .infinite n => if n then 0 else 255
  | .nan => 0

end Binary64

end SvgPress
