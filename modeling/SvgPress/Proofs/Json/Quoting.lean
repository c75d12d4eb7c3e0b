import SvgPress.Json.Decoder
import SvgPress.Json.Printer

/-!
Quoted strings. Every character is written so that it is read as itself, and the string ends where
the writer ended it, whatever stands behind.
-/

namespace SvgPress.Json

/-- The first thirty-two characters are written as escapes of six characters that name them. -/
theorem escaped_control {n : Nat} (h : n < 32) (rest : List Char) :
    escaped ('u' :: '0' :: '0' :: hexDigit (n / 16) :: hexDigit (n % 16) :: rest) =
      .ok (Char.ofNat n, 5) := by
  have hdigits : ∀ n < 32, hexValue? (hexDigit (n / 16)) = some (n / 16) ∧
      hexValue? (hexDigit (n % 16)) = some (n % 16) ∧
      4 ≤ Text.byteLength ['0', '0', hexDigit (n / 16), hexDigit (n % 16)] ∧
      isTrailSurrogate n = false ∧ isLeadSurrogate n = false := by decide
  have hzero : hexValue? '0' = some 0 := by decide
  obtain ⟨hhigh, hlow, hlength, htrail, hlead⟩ := hdigits n h
  have hvalue : ((0 * 16 + 0) * 16 + n / 16) * 16 + n % 16 = n := by omega
  have hhex : hex4 ('0' :: '0' :: hexDigit (n / 16) :: hexDigit (n % 16) :: rest) = .ok n := by
    simp only [hex4, List.take_succ_cons, List.take_zero, hzero, hhigh, hlow, hvalue]
    rw [if_neg (by omega)]
  simp only [escaped, hhex, bind, Except.bind, htrail, hlead, Bool.false_eq_true, if_false]

/-- A character of a quoted string stands for itself, or it is written as an escape that is read as
the character. No written character is a control character, and none after the letter of an escape
has a meaning of its own. -/
theorem escape_char_cases (c : Char) :
    (escapeChar c = [c] ∧ c ≠ '"' ∧ c ≠ '\\' ∧ ¬ c.toNat < 0x20) ∨
      ∃ letter more, escapeChar c = '\\' :: letter :: more ∧
        (∀ d ∈ more, d ≠ '"' ∧ d ≠ '\\') ∧ (∀ d ∈ letter :: more, ¬ d.toNat < 0x20) ∧
        ∀ rest, escaped (letter :: (more ++ rest)) = .ok (c, 1 + more.length) := by
  have hshort {letter : Char} (hwritten : escapeChar c = ['\\', letter])
      (hletter : ¬ letter.toNat < 0x20)
      (hread : ∀ rest, escaped (letter :: rest) = .ok (c, 1)) :
      ∃ letter more, escapeChar c = '\\' :: letter :: more ∧
        (∀ d ∈ more, d ≠ '"' ∧ d ≠ '\\') ∧ (∀ d ∈ letter :: more, ¬ d.toNat < 0x20) ∧
        ∀ rest, escaped (letter :: (more ++ rest)) = .ok (c, 1 + more.length) :=
    ⟨letter, [], hwritten, by simp, by simpa using hletter, hread⟩
  have hdigit : ∀ n < 16, hexDigit n ≠ '"' ∧ hexDigit n ≠ '\\' ∧ ¬ (hexDigit n).toNat < 0x20 := by
    decide
  by_cases hcontrol : c.toNat < 0x20
  · right
    have hc : c = Char.ofNat c.toNat := (Char.ofNat_toNat c).symm
    by_cases hnamed : c.toNat ∈ [0x08, 0x09, 0x0A, 0x0C, 0x0D]
    · simp only [List.mem_cons, List.not_mem_nil, or_false] at hnamed
      rcases hnamed with h | h | h | h | h <;> rw [h] at hc <;> subst hc <;>
        exact hshort rfl (by decide) fun _ => rfl
    · have hwritten : escapeChar c =
          ['\\', 'u', '0', '0', hexDigit (c.toNat / 16), hexDigit (c.toNat % 16)] := by
        have hne {d : Char} (hd : d.toNat ∈ [0x08, 0x09, 0x0A, 0x0C, 0x0D] ∨ ¬ d.toNat < 0x20) :
            c ≠ d := by
          rintro rfl
          exact hd.elim hnamed fun h => h hcontrol
        simp only [List.mem_cons, List.not_mem_nil, or_false, not_or] at hnamed
        rw [escapeChar, if_neg (hne (by decide)), if_neg (hne (by decide)),
          if_neg (hne (by decide)), if_neg (hne (by decide)), if_neg (hne (by decide)),
          if_neg (by omega), if_neg (by omega), if_pos hcontrol]
      obtain ⟨hquote, hslash, hplain⟩ := hdigit (c.toNat / 16) (by omega)
      obtain ⟨hquote', hslash', hplain'⟩ := hdigit (c.toNat % 16) (by omega)
      refine ⟨'u', _, hwritten, ?_, ?_, fun rest => ?_⟩
      · simp [hquote, hslash, hquote', hslash']
      · simp only [List.forall_mem_cons]
        exact ⟨by decide, by decide, by decide, hplain, hplain', by simp⟩
      · simpa [Char.ofNat_toNat] using escaped_control hcontrol rest
  · by_cases hquote : c = '"'
    · exact .inr (hquote ▸ hshort (by rw [hquote]; rfl) (by decide) fun _ => by rw [hquote]; rfl)
    · by_cases hslash : c = '\\'
      · exact .inr (hshort (by rw [hslash]; rfl) (by decide) fun _ => by rw [hslash]; rfl)
      · have hne {d : Char} (hd : d.toNat < 0x20) : c ≠ d := by
          rintro rfl
          exact hcontrol hd
        refine .inl ⟨?_, hquote, hslash, hcontrol⟩
        rw [escapeChar, if_neg hquote, if_neg hslash, if_neg (hne (by decide)),
          if_neg (hne (by decide)), if_neg (hne (by decide)), if_neg (by omega), if_neg (by omega),
          if_neg hcontrol]

/-- An escaped character is read as the character itself. -/
theorem string_body_escape_char (c : Char) (acc rest : List Char) :
    stringBody acc (escapeChar c ++ rest) = stringBody (c :: acc) rest := by
  rcases escape_char_cases c with ⟨hwritten, hquote, hslash, hplain⟩ |
    ⟨letter, more, hwritten, -, -, hread⟩
  · rw [hwritten, List.singleton_append, stringBody, if_neg hquote, if_neg hslash, if_neg hplain]
  · rw [hwritten, List.cons_append, List.cons_append, stringBody, if_neg (by decide), if_pos rfl,
      hread]
    simp only
    rw [Nat.add_comm, List.drop_succ_cons, List.drop_left]

theorem string_body_quote (cs acc rest : List Char) :
    stringBody acc (cs.flatMap escapeChar ++ '"' :: rest) =
      .ok (String.ofList (acc.reverse ++ cs), rest) := by
  induction cs generalizing acc with
  | nil => rw [List.flatMap_nil, List.nil_append, stringBody, if_pos rfl, List.append_nil]
  | cons c cs ih =>
      rw [List.flatMap_cons, List.append_assoc, string_body_escape_char, ih, List.reverse_cons,
        List.append_assoc, List.singleton_append]

/-- A quoted string is read as the string. -/
theorem decode_quote (s : String) : decode Decoder.string (quote s) = .ok s := by
  have hgap (rest : List Char) : skipGap ('"' :: rest) = '"' :: rest := rfl
  have hread : Decoder.string 128 (quote s).toList = .ok (s, []) := by
    rw [quote, String.toList_ofList, quoteChars, Decoder.string, hgap]
    simpa using string_body_quote s.toList [] []
  rw [decode, hread]
  rfl

end SvgPress.Json
