import SvgPress.Proofs.Markup.Tags

/-!
The names that the markup language allows. They are among the names that can be read back: none of
the characters that a tag is built with can stand in them.
-/

namespace SvgPress.Markup

/-- The characters that can begin a name, as ranges of their numbers. -/
def nameStartRanges : List (Nat × Nat) :=
  [(0x3A, 0x3A), (0x41, 0x5A), (0x5F, 0x5F), (0x61, 0x7A), (0xC0, 0xD6), (0xD8, 0xF6),
    (0xF8, 0x2FF), (0x370, 0x37D), (0x37F, 0x1FFF), (0x200C, 0x200D), (0x2070, 0x218F),
    (0x2C00, 0x2FEF), (0x3001, 0xD7FF), (0xF900, 0xFDCF), (0xFDF0, 0xFFFD), (0x10000, 0xEFFFF)]

/-- The characters that can stand in a name, but not begin one. -/
def nameMoreRanges : List (Nat × Nat) :=
  [(0x2D, 0x2E), (0x30, 0x39), (0xB7, 0xB7), (0x300, 0x36F), (0x203F, 0x2040)]

def isNameStart (c : Char) : Bool :=
  nameStartRanges.any fun (low, high) => decide (low ≤ c.toNat ∧ c.toNat ≤ high)

def isNameChar (c : Char) : Bool :=
  isNameStart c || nameMoreRanges.any fun (low, high) => decide (low ≤ c.toNat ∧ c.toNat ≤ high)

/-- A name of the markup language. -/
def isXmlName : List Char → Bool
  | [] => false
  | c :: cs => isNameStart c && cs.all isNameChar

/-- No character that a tag is built with can stand in a name. -/
theorem name_char_ne {c d : Char} (h : isNameChar c)
    (hd : d ∈ [' ', '\t', '\r', '\n', '"', '\'', '>', '=', '!', '?', '/']) : c ≠ d := by
  rintro rfl
  simp only [List.mem_cons, List.not_mem_nil, or_false] at hd
  rcases hd with rfl | rfl | rfl | rfl | rfl | rfl | rfl | rfl | rfl | rfl | rfl <;>
    exact absurd h (by decide)

theorem name_part_of_name_char {c : Char} (h : isNameChar c) : isNamePart c := by
  have hne (d : Char) (hd : d ∈ [' ', '\t', '\r', '\n', '"', '\'', '>', '=', '!', '?', '/']) :
      c ≠ d := name_char_ne h hd
  simp [isNamePart, isSpace, hne]

theorem name_char_of_xml_name {cs : List Char} (h : isXmlName cs) : ∀ c ∈ cs, isNameChar c := by
  cases cs with
  | nil => simp
  | cons c cs =>
      simp only [isXmlName, Bool.and_eq_true, List.all_eq_true] at h
      intro d hd
      rcases List.mem_cons.mp hd with rfl | hd
      · simp [isNameChar, h.1]
      · exact h.2 d hd

theorem plain_name_of_xml_name {cs : List Char} (h : isXmlName cs) : isPlainName cs := by
  have hchar := name_char_of_xml_name h
  rw [isPlainName, Bool.and_eq_true, List.all_eq_true]
  refine ⟨fun c hc => name_part_of_name_char (hchar c hc), ?_⟩
  cases cs with
  | nil => rfl
  | cons c cs =>
      have hne (d : Char) (hd : d ∈ [' ', '\t', '\r', '\n', '"', '\'', '>', '=', '!', '?', '/']) :
          c ≠ d := name_char_ne (hchar c List.mem_cons_self) hd
      simp [hne]

theorem plain_key_of_xml_name {cs : List Char} (h : isXmlName cs) : isPlainKey cs := by
  have hchar := name_char_of_xml_name h
  cases cs with
  | nil => simp [isXmlName] at h
  | cons c cs =>
      rw [isPlainKey, Bool.and_eq_true, List.all_eq_true]
      refine ⟨name_part_of_name_char (hchar c List.mem_cons_self), fun d hd => ?_⟩
      have hd := hchar d (List.mem_cons_of_mem c hd)
      rw [name_part_of_name_char hd, Bool.true_and, bne_iff_ne]
      exact name_char_ne hd (by simp)

end SvgPress.Markup
