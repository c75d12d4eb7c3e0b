import SvgPress.Json.Lexer
import SvgPress.Json.Printer
import SvgPress.Proofs.Faults
import SvgPress.Proofs.Number.Numeral

/-!
Numbers in JSON text. A reader takes the digits of a number as far as they go and then looks at one
more character, so the numeral that it took says the same in front of any other text that does not
run into it. This is not so for the digits alone: how many of them go into the significand is
settled while they are read.
-/

namespace SvgPress.Json.Number

open Decimal (takeSign takeDigits digitsValue)

variable {negative : Bool} {n : Nat} {e : Int} {x : Number} {cs ds rest : List Char}

/-- What may stand behind a number without becoming part of it. -/
def IsEnd (rest : List Char) : Prop :=
  ∀ c ∈ rest.head?, c.isDigit = false ∧ c ≠ '.' ∧ c ≠ 'e' ∧ c ≠ 'E'

/-- Whether a text begins with something that is no digit, or is over. -/
def IsPast (rest : List Char) : Prop :=
  ∀ c ∈ rest.head?, c.isDigit = false

theorem IsEnd.past (h : IsEnd rest) : IsPast rest :=
  fun c hc => (h c hc).1

/-- What is put in the place of the rest of a text leaves its first character, or becomes it. -/
theorem IsPast.replace {front other : List Char} (h : IsPast (front ++ rest))
    (hother : IsEnd other) :
    IsPast (front ++ other) := by
  cases front with
  | nil => exact hother.past
  | cons c front => exact h

/-- A reader takes a piece of the text and goes by nothing but that, wherever the piece has an
end. -/
def IsLocal (read : List Char → Except Fault (Number × List Char)) : Prop :=
  ∀ cs x rest, read cs = .ok (x, rest) →
    ∃ front, cs = front ++ rest ∧ ∀ other, IsEnd other → read (front ++ other) = .ok (x, other)

/-! ### Digits and signs -/

theorem digits_split (cs : List Char) :
    ∃ ds rest, cs = ds ++ rest ∧ (∀ d ∈ ds, d.isDigit) ∧ IsPast rest := by
  refine ⟨cs.takeWhile Char.isDigit, cs.dropWhile Char.isDigit,
    List.takeWhile_append_dropWhile.symm, fun c hc => ?_, fun c hc => ?_⟩
  · exact List.all_eq_true.mp List.all_takeWhile c hc
  · have hhead := List.head?_dropWhile_not Char.isDigit cs
    rw [Option.mem_def.mp hc] at hhead
    exact hhead

/-- An optional sign is taken whatever the digits behind it are. -/
theorem sign_split (cs : List Char) :
    ∃ sign down rest, cs = sign ++ rest ∧ takeSign cs = (down, rest) ∧
      ∀ c more, c.isDigit → takeSign (sign ++ c :: more) = (down, c :: more) := by
  have hnone (c : Char) (more : List Char) (hc : c.isDigit) :
      takeSign (c :: more) = (false, c :: more) := by
    unfold takeSign
    split
    · rename_i heq
      obtain ⟨rfl, -⟩ := List.cons_eq_cons.mp heq
      cases hc
    · rename_i heq
      obtain ⟨rfl, -⟩ := List.cons_eq_cons.mp heq
      cases hc
    · rfl
  unfold takeSign
  split
  · rename_i rest
    exact ⟨['-'], true, rest, rfl, rfl, fun c more _ => rfl⟩
  · rename_i rest
    exact ⟨['+'], false, rest, rfl, rfl, fun c more _ => rfl⟩
  · exact ⟨[], false, cs, rfl, rfl, hnone⟩

theorem collect_append (hds : ∀ d ∈ ds, d.isDigit) (taken : Nat) (hrest : IsPast rest) :
    collect n taken (ds ++ rest) = ((collect n taken ds).1, (collect n taken ds).2 ++ rest) := by
  induction ds generalizing n taken with
  | nil =>
      cases rest with
      | nil => rfl
      | cons c rest => simp [collect, hrest c rfl]
  | cons d ds ih =>
      rw [List.forall_mem_cons] at hds
      rw [List.cons_append, collect, collect]
      split
      · exact ih hds.2 (taken + 1)
      · rfl

/-- Digits that do not go into the significand stay, and are counted by what is left. -/
theorem collect_split (n taken : Nat) (ds : List Char) :
    ∃ front, ds = front ++ (collect n taken ds).2 ∧
      (collect n taken ds).1.2 = taken + front.length := by
  induction ds generalizing n taken with
  | nil => exact ⟨[], rfl, rfl⟩
  | cons d ds ih =>
      rw [collect]
      split
      · obtain ⟨front, hsplit, hcount⟩ := ih (10 * n + (d.toNat - '0'.toNat)) (taken + 1)
        refine ⟨d :: front, congrArg (d :: ·) hsplit, ?_⟩
        rw [hcount, List.length_cons]
        omega
      · exact ⟨[], rfl, rfl⟩

/-! ### The parts of a number -/

theorem exponent_digits {sign : List Char} {down : Bool} (hne : ds ≠ []) (hds : ∀ d ∈ ds, d.isDigit)
    (hsign : ∀ c more, c.isDigit → takeSign (sign ++ c :: more) = (down, c :: more))
    (hrest : IsPast rest) : exponent negative n e (sign ++ (ds ++ rest)) =
      (if Nat.pow 2 31 - 1 < digitsValue ds then
        if n != 0 && !down then .error .malformed else .ok (.float (.zero negative))
      else ofParts negative n (if down then e - digitsValue ds else e + digitsValue ds)).map
        (·, rest) := by
  have htake := take_digits_append hds hrest
  obtain ⟨d, ds, rfl⟩ := List.exists_cons_of_ne_nil hne
  have hd : d.isDigit := hds d List.mem_cons_self
  rw [exponent, List.cons_append, hsign d (ds ++ rest) hd]
  rw [List.cons_append] at htake
  simp only [hd, if_true, htake]
  split
  · split <;> rfl
  · cases ofParts negative n
        (if down then e - digitsValue (d :: ds) else e + digitsValue (d :: ds)) <;>
      rfl

theorem exponent_local (negative : Bool) (n : Nat) (e : Int) : IsLocal (exponent negative n e) := by
  intro cs x rest h
  obtain ⟨sign, down, body, hcs, htake, hsign⟩ := sign_split cs
  obtain ⟨ds, behind, rfl, hds, hpast⟩ := digits_split body
  have hne : ds ≠ [] := by
    rintro rfl
    rw [exponent, htake] at h
    cases behind with
    | nil => cases h
    | cons c behind => simp [hpast c rfl] at h
  rw [hcs, exponent_digits hne hds hsign hpast] at h
  obtain ⟨y, hy, hpair⟩ := map_ok h
  cases hpair
  refine ⟨sign ++ ds, by rw [hcs, List.append_assoc], fun other hother => ?_⟩
  rw [List.append_assoc, exponent_digits hne hds hsign hother.past, hy]
  rfl

theorem finish_of_end (hx : ofParts negative n e = .ok x) (h : IsEnd rest) :
    finish negative n e rest = .ok (x, rest) := by
  cases rest with
  | nil => rw [finish, hx]; rfl
  | cons c rest =>
      obtain ⟨-, -, hsmall, hcapital⟩ := h c rfl
      rw [finish, if_neg (by simp [hsmall, hcapital]), hx]
      rfl

theorem finish_local (negative : Bool) (n : Nat) (e : Int) : IsLocal (finish negative n e) := by
  intro cs x rest h
  cases cs with
  | nil =>
      obtain ⟨y, hy, hpair⟩ := bind_ok h
      cases hpair
      exact ⟨[], rfl, fun other => finish_of_end hy⟩
  | cons c cs =>
      rw [finish] at h
      split at h
      · rename_i hmark
        obtain ⟨front, rfl, hlocal⟩ := exponent_local negative n e _ _ _ h
        refine ⟨c :: front, rfl, fun other hother => ?_⟩
        rw [List.cons_append, finish, if_pos hmark, hlocal other hother]
      · obtain ⟨y, hy, hpair⟩ := bind_ok h
        cases hpair
        exact ⟨[], rfl, fun other => finish_of_end hy⟩

/-- After the point there are digits, of which those count that go into the significand. -/
theorem fraction_digits (hne : ds ≠ []) (hds : ∀ d ∈ ds, d.isDigit) (hrest : IsPast rest) :
    fraction negative n e (ds ++ rest) =
      finish negative (collect n 0 ds).1.1 (e - (collect n 0 ds).1.2) rest := by
  obtain ⟨front, hsplit, hcount⟩ := collect_split n 0 ds
  rw [fraction, collect_append hds 0 hrest]
  generalize collect n 0 ds = collected at hsplit hcount ⊢
  obtain ⟨⟨m, taken⟩, left⟩ := collected
  simp only at hsplit hcount ⊢
  cases left with
  | nil =>
      have htaken : taken ≠ 0 := by
        rw [hsplit, List.append_nil] at hne
        have hpos := List.length_pos_iff.mpr hne
        omega
      cases rest with
      | nil => simp [htaken]
      | cons c rest => simp [htaken, hrest c rfl]
  | cons d left =>
      have hleft : ∀ c ∈ d :: left, c.isDigit := fun c hc =>
        hds c (hsplit ▸ List.mem_append_right front hc)
      have htake := take_digits_append hleft hrest
      rw [List.cons_append] at htake ⊢
      simp only [hleft d List.mem_cons_self, if_true, htake]

theorem fraction_local (negative : Bool) (n : Nat) (e : Int) : IsLocal (fraction negative n e) := by
  intro cs x rest h
  obtain ⟨ds, behind, rfl, hds, hpast⟩ := digits_split cs
  have hne : ds ≠ [] := by
    rintro rfl
    cases behind with
    | nil => cases h
    | cons c behind => simp [fraction, collect, hpast c rfl] at h
  rw [fraction_digits hne hds hpast] at h
  obtain ⟨front, rfl, hlocal⟩ := finish_local _ _ _ _ _ _ h
  refine ⟨ds ++ front, by rw [List.append_assoc], fun other hother => ?_⟩
  rw [List.append_assoc, fraction_digits hne hds (hpast.replace hother), hlocal other hother]

/-- What a number is by what stands behind its digits, of which `left` did not go into the
significand. -/
def behindDigits (negative : Bool) (n left : Nat) : List Char → Except Fault (Number × List Char)
  | [] => if left = 0 then .ok (whole negative n, []) else finish negative n left []
  | c :: rest =>
    if c = '.' then fraction negative n left rest
    else if left = 0 then
      if c = 'e' ∨ c = 'E' then exponent negative n 0 rest else .ok (whole negative n, c :: rest)
    else finish negative n left (c :: rest)

theorem read_digits {d : Char} (hds : ∀ c ∈ d :: ds, c.isDigit) (hrest : IsPast rest)
    (hzero : d ≠ '0' ∨ ds = []) : read negative (d :: ds ++ rest) =
      behindDigits negative (collect 0 0 (d :: ds)).1.1 (collect 0 0 (d :: ds)).2.length rest := by
  have hlead : ¬ (d = '0' ∧ (ds ++ rest).head?.any Char.isDigit) := by
    rintro ⟨hd, hmore⟩
    rcases hzero with hne | rfl
    · exact hne hd
    · cases rest with
      | nil => cases hmore
      | cons c rest => simp [hrest c rfl] at hmore
  have hcollect := collect_append (n := 0) hds 0 hrest
  obtain ⟨front, hsplit, -⟩ := collect_split 0 0 (d :: ds)
  rw [List.cons_append] at hcollect ⊢
  rw [read, if_neg hlead, if_pos (hds d List.mem_cons_self), hcollect]
  generalize collect 0 0 (d :: ds) = collected at hsplit ⊢
  obtain ⟨⟨m, taken⟩, left⟩ := collected
  simp only at hsplit ⊢
  cases left with
  | nil =>
      cases rest with
      | nil => rfl
      | cons c rest =>
          rw [List.nil_append]
          simp only [hrest c rfl, Bool.false_eq_true, if_false, List.length_nil]
          rfl
  | cons c left =>
      have hleft : ∀ b ∈ c :: left, b.isDigit :=
        fun b hb => hds b (hsplit ▸ List.mem_append_right front hb)
      have htake := take_digits_append hleft hrest
      rw [List.cons_append] at htake ⊢
      simp only [hleft c List.mem_cons_self, if_true, htake]
      cases rest with
      | nil => rfl
      | cons b rest =>
          rw [behindDigits]
          split
          · rename_i tail heq
            obtain ⟨rfl, rfl⟩ := List.cons_eq_cons.mp heq
            rfl
          · rename_i hpoint
            rw [if_neg fun hb => hpoint rest (by rw [hb])]
            rfl

theorem behind_digits_of_end (h : IsEnd rest) :
    behindDigits negative n 0 rest = .ok (whole negative n, rest) := by
  cases rest with
  | nil => rfl
  | cons c rest =>
      obtain ⟨-, hpoint, hsmall, hcapital⟩ := h c rfl
      rw [behindDigits, if_neg hpoint, if_pos rfl, if_neg (by simp [hsmall, hcapital])]

theorem behind_digits_of_left {left : Nat} (hleft : left ≠ 0) {c : Char} (hpoint : c ≠ '.')
    (rest : List Char) :
    behindDigits negative n left (c :: rest) = finish negative n left (c :: rest) := by
  rw [behindDigits, if_neg hpoint, if_neg hleft]

theorem behind_digits_local (negative : Bool) (n left : Nat) :
    IsLocal (behindDigits negative n left) := by
  intro cs x rest h
  have hfinish (hleft : left ≠ 0) (h : finish negative n left cs = .ok (x, rest))
      (hcs : ∀ c ∈ cs.head?, c ≠ '.') : ∃ front, cs = front ++ rest ∧
        ∀ other, IsEnd other → behindDigits negative n left (front ++ other) = .ok (x, other) := by
    obtain ⟨front, rfl, hlocal⟩ := finish_local _ _ _ _ _ _ h
    refine ⟨front, rfl, fun other hother => ?_⟩
    rw [← hlocal other hother]
    cases hwhole : front ++ other with
    | nil => rw [behindDigits, if_neg hleft]
    | cons c more =>
        refine behind_digits_of_left hleft ?_ more
        cases front with
        | nil =>
            obtain rfl : other = c :: more := hwhole
            exact (hother c rfl).2.1
        | cons b front =>
            obtain ⟨rfl, -⟩ := List.cons_eq_cons.mp hwhole
            exact hcs b rfl
  cases cs with
  | nil =>
      by_cases hleft : left = 0
      · subst hleft
        cases h
        exact ⟨[], rfl, fun other => behind_digits_of_end⟩
      · rw [behindDigits, if_neg hleft] at h
        exact hfinish hleft h (by simp)
  | cons c cs =>
      by_cases hpoint : c = '.'
      · rw [behindDigits, if_pos hpoint] at h
        obtain ⟨front, rfl, hlocal⟩ := fraction_local _ _ _ _ _ _ h
        refine ⟨c :: front, rfl, fun other hother => ?_⟩
        rw [List.cons_append, behindDigits, if_pos hpoint, hlocal other hother]
      · by_cases hleft : left = 0
        · subst hleft
          rw [behindDigits, if_neg hpoint, if_pos rfl] at h
          split at h
          · rename_i hmark
            obtain ⟨front, rfl, hlocal⟩ := exponent_local _ _ _ _ _ _ h
            refine ⟨c :: front, rfl, fun other hother => ?_⟩
            rw [List.cons_append, behindDigits, if_neg hpoint, if_pos rfl, if_pos hmark,
              hlocal other hother]
          · cases h
            exact ⟨[], rfl, fun other => behind_digits_of_end⟩
        · rw [behind_digits_of_left hleft hpoint] at h
          refine hfinish hleft h fun b hb => ?_
          obtain rfl : c = b := Option.some.inj hb
          exact hpoint

/-- The text of a number after its sign, which begins with a digit and means the number wherever it
has an end. -/
structure IsNumeralOf (negative : Bool) (x : Number) (numeral : List Char) : Prop where
  digit : ∃ d ds, numeral = d :: ds ∧ d.isDigit
  reads : ∀ other, IsEnd other → read negative (numeral ++ other) = .ok (x, other)

/-- What was read as a number are digits and what stands behind them. -/
theorem read_split (h : read negative cs = .ok (x, rest)) :
    ∃ d ds behind, cs = d :: ds ++ behind ∧ (∀ c ∈ d :: ds, c.isDigit) ∧ IsPast behind ∧
      (d ≠ '0' ∨ ds = []) ∧ behindDigits negative (collect 0 0 (d :: ds)).1.1
        (collect 0 0 (d :: ds)).2.length behind = .ok (x, rest) := by
  obtain ⟨ds, behind, rfl, hds, hpast⟩ := digits_split cs
  cases ds with
  | nil =>
      cases behind with
      | nil => cases h
      | cons c behind => simp [read, hpast c rfl] at h
  | cons d ds =>
      have hzero : d ≠ '0' ∨ ds = [] := by
        rw [or_iff_not_imp_right]
        rintro hne rfl
        obtain ⟨c, ds, rfl⟩ := List.exists_cons_of_ne_nil hne
        have hc : c.isDigit := hds c (by simp)
        simp [read, hc] at h
      rw [read_digits hds hpast hzero] at h
      exact ⟨d, ds, behind, rfl, hds, hpast, hzero, h⟩

/-- A number that was read has a numeral. -/
theorem numeral_of_read (h : read negative cs = .ok (x, rest)) :
    ∃ numeral, cs = numeral ++ rest ∧ IsNumeralOf negative x numeral := by
  obtain ⟨d, ds, behind, rfl, hds, hpast, hzero, h⟩ := read_split h
  obtain ⟨front, rfl, hlocal⟩ := behind_digits_local _ _ _ _ _ _ h
  refine ⟨d :: ds ++ front, by rw [List.append_assoc],
    ⟨d, ds ++ front, rfl, hds d List.mem_cons_self⟩, fun other hother => ?_⟩
  rw [List.append_assoc, read_digits hds (hpast.replace hother) hzero, hlocal other hother]

/-! ### Floating point numbers -/

theorem float_of_parts (h : ofParts negative n e = .ok x) : ∃ y, x = .float y := by
  obtain ⟨y, -, h⟩ := bind_ok h
  cases h
  exact ⟨_, rfl⟩

theorem float_of_exponent (h : exponent negative n e cs = .ok (x, rest)) : ∃ y, x = .float y := by
  rw [exponent] at h
  simp only at h
  split at h
  · cases h
  · split at h
    · split at h
      · split at h
        · cases h
        · cases h
          exact ⟨_, rfl⟩
      · obtain ⟨y, hy, h⟩ := bind_ok h
        cases h
        exact float_of_parts hy
    · cases h

theorem float_of_finish (h : finish negative n e cs = .ok (x, rest)) : ∃ y, x = .float y := by
  unfold finish at h
  split at h
  · split at h
    · exact float_of_exponent h
    · obtain ⟨y, hy, h⟩ := bind_ok h
      cases h
      exact float_of_parts hy
  · obtain ⟨y, hy, h⟩ := bind_ok h
    cases h
    exact float_of_parts hy

theorem float_of_fraction (h : fraction negative n e cs = .ok (x, rest)) : ∃ y, x = .float y := by
  rw [fraction] at h
  simp only at h
  split at h
  · split at h
    · exact float_of_finish h
    · split at h
      · cases h
      · exact float_of_finish h
  · split at h
    · cases h
    · exact float_of_finish h

/-- A number is whole where nothing but digits belongs to it, and floating point otherwise. -/
theorem behind_digits_cases {left : Nat} (h : behindDigits negative n left cs = .ok (x, rest)) :
    x = whole negative n ∨ ∃ y, x = .float y := by
  unfold behindDigits at h
  split at h
  · split at h
    · cases h
      exact .inl rfl
    · exact .inr (float_of_finish h)
  · split at h
    · exact .inr (float_of_fraction h)
    · split at h
      · split at h
        · exact .inr (float_of_exponent h)
        · cases h
          exact .inl rfl
      · exact .inr (float_of_finish h)

/-- What is read as a whole number after a minus sign is below zero. -/
theorem neg_of_read {i : Int} (h : read true cs = .ok (.integer i, rest)) : i < 0 := by
  obtain ⟨_, _, _, -, -, -, -, h⟩ := read_split h
  rcases behind_digits_cases h with hwhole | ⟨y, hfloat⟩
  · rw [whole, if_pos rfl] at hwhole
    split at hwhole
    · cases hwhole
      omega
    · cases hwhole
  · cases hfloat

/-! ### Whole numbers -/

theorem le_of_digit_chars (ds : List Char) (n : Nat) : n ≤ Nat.ofDigitChars 10 ds n := by
  induction ds generalizing n with
  | nil => exact Nat.le_refl n
  | cons d ds ih =>
      rw [Nat.ofDigitChars_cons]
      exact Nat.le_trans (by omega) (ih _)

/-- All digits go into a significand that stays small enough. -/
theorem collect_all (hds : ∀ d ∈ ds, d.isDigit) (taken : Nat)
    (h : Nat.ofDigitChars 10 ds n ≤ limit) :
    (collect n taken ds).1.1 = Nat.ofDigitChars 10 ds n ∧ (collect n taken ds).2 = [] := by
  induction ds generalizing n taken with
  | nil => exact ⟨rfl, rfl⟩
  | cons d ds ih =>
      rw [List.forall_mem_cons] at hds
      rw [Nat.ofDigitChars_cons] at h ⊢
      have hfits : (d.isDigit && decide (10 * n + (d.toNat - '0'.toNat) ≤ limit)) = true := by
        rw [hds.1, Bool.true_and, decide_eq_true_eq]
        exact Nat.le_trans (le_of_digit_chars ds _) h
      rw [collect, if_pos hfits]
      exact ih hds.2 (taken + 1) h

/-- Only zero begins with a zero. -/
theorem head_digits (hn : 0 < n) : ∀ d ∈ (Decimal.digits n).head?, d ≠ '0' := by
  have hlow : ∀ n < 10, 0 < n → Nat.digitChar n ≠ '0' := by decide
  induction n using Nat.strongRecOn with
  | ind n ih =>
      intro d hd
      rw [Decimal.digits, Nat.toDigits_eq_if (by decide)] at hd
      split at hd
      · rename_i hsmall
        obtain rfl := Option.some.inj hd
        exact hlow n hsmall hn
      · have hne := Nat.toDigits_ne_nil (n := n / 10) (b := 10)
        rw [List.head?_append_of_ne_nil _ hne] at hd
        exact ih (n / 10) (by omega) (by omega) d hd

/-- A whole number that is small enough is read from its digits. -/
theorem numeral_digits (h : n ≤ limit) : IsNumeralOf false (.integer n) (Decimal.digits n) := by
  have hds := digits_digit n
  have hvalue : Nat.ofDigitChars 10 (Decimal.digits n) 0 = n := Nat.ofDigitChars_ten_toDigits
  obtain ⟨hcollect, hleft⟩ := collect_all (n := 0) hds 0 (hvalue.symm ▸ h)
  have hzero : ∀ d ds, Decimal.digits n = d :: ds → d ≠ '0' ∨ ds = [] := by
    intro d ds hdigits
    rcases Nat.eq_zero_or_pos n with rfl | hpos
    · cases hdigits
      exact .inr rfl
    · exact .inl (head_digits hpos d (by rw [hdigits]; rfl))
  obtain ⟨d, ds, hdigits⟩ := List.exists_cons_of_ne_nil (digits_ne_nil n)
  rw [hdigits] at hds hcollect hleft hvalue ⊢
  refine ⟨⟨d, ds, rfl, hds d List.mem_cons_self⟩, fun other hother => ?_⟩
  rw [read_digits hds hother.past (hzero d ds hdigits), hcollect, hleft, hvalue]
  exact behind_digits_of_end hother

end SvgPress.Json.Number
