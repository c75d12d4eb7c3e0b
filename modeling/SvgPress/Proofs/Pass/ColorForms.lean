import SvgPress.Json.Lexer
import SvgPress.Pass.Colors
import SvgPress.Proofs.Markup.Leaves
import SvgPress.Proofs.Number.Whole
import SvgPress.Proofs.Text.Spacing

/-!
What colors are written as. A color may be spelled by name, in three or six hexadecimal digits, or
by its channels; whichever spelling was used, what is written for it is the same hexadecimal form,
and no two colors share one. Spellings are told here apart from the rules that convert them: a name
stands for a number of 24 bits, and a digit for its value.
-/

namespace SvgPress.Colors

open Json (hexDigit hexValue?)
open Text (isBlank trimChars)

/-- The red, green and blue parts of a color, each below 256. -/
abbrev Channels := Nat × Nat × Nat

/-- The named colors as numbers of 24 bits, eight for each channel and red in the highest. -/
def keywords : List (String × Nat) :=
  [("aqua", 0x00ffff), ("azure", 0xf0ffff), ("beige", 0xf5f5dc), ("black", 0x000000),
    ("blue", 0x0000ff), ("brown", 0xa52a2a), ("coral", 0xff7f50), ("crimson", 0xdc143c),
    ("cyan", 0x00ffff), ("darkblue", 0x00008b), ("darkgray", 0xa9a9a9), ("darkgreen", 0x006400),
    ("darkgrey", 0xa9a9a9), ("darkred", 0x8b0000), ("fuchsia", 0xff00ff), ("gold", 0xffd700),
    ("gray", 0x808080), ("green", 0x008000), ("grey", 0x808080), ("indigo", 0x4b0082),
    ("ivory", 0xfffff0), ("khaki", 0xf0e68c), ("lavender", 0xe6e6fa), ("lightblue", 0xadd8e6),
    ("lightgray", 0xd3d3d3), ("lightgrey", 0xd3d3d3), ("lime", 0x00ff00), ("magenta", 0xff00ff),
    ("maroon", 0x800000), ("navy", 0x000080), ("olive", 0x808000), ("orange", 0xffa500),
    ("orchid", 0xda70d6), ("pink", 0xffc0cb), ("plum", 0xdda0dd), ("purple", 0x800080),
    ("red", 0xff0000), ("salmon", 0xfa8072), ("silver", 0xc0c0c0), ("tan", 0xd2b48c),
    ("teal", 0x008080), ("tomato", 0xff6347), ("turquoise", 0x40e0d0), ("violet", 0xee82ee),
    ("wheat", 0xf5deb3), ("white", 0xffffff), ("yellow", 0xffff00)]

/-- The channels of a color of 24 bits. -/
def channelsOf (n : Nat) : Channels :=
  (n / 65536, n / 256 % 256, n % 256)

/-- A whole number with white space around it, as the value of a channel. -/
def SpellsChannel (cs : List Char) (channel : Nat) : Prop :=
  ∃ front digits back, cs = front ++ (digits ++ back) ∧ (∀ c ∈ front, isBlank c) ∧
    (∀ c ∈ back, isBlank c) ∧ digits ≠ [] ∧ (∀ c ∈ digits, c.isDigit) ∧
    channel = min 255 (Decimal.digitsValue digits)

/-- The ways in which a color is spelled. Neither the letters of a name nor hexadecimal digits mind
their case. -/
inductive Spells : List Char → Channels → Prop
  | name {cs : List Char} {name : String} {n : Nat} :
      (name, n) ∈ keywords → cs.map Char.toLower = name.toList → Spells cs (channelsOf n)
  | short {r g b : Char} {x y z : Nat} :
      hexValue? r = some x → hexValue? g = some y → hexValue? b = some z →
        Spells ['#', r, g, b] (17 * x, 17 * y, 17 * z)
  | long {r r' g g' b b' : Char} {x x' y y' z z' : Nat} :
      hexValue? r = some x → hexValue? r' = some x' → hexValue? g = some y →
        hexValue? g' = some y' → hexValue? b = some z → hexValue? b' = some z' →
        Spells ['#', r, r', g, g', b, b'] (16 * x + x', 16 * y + y', 16 * z + z')
  | channels {red green blue : List Char} {x y z : Nat} :
      SpellsChannel red x → SpellsChannel green y → SpellsChannel blue z →
        Spells ("rgb(".toList ++ (red ++ ',' :: (green ++ ',' :: (blue ++ [')'])))) (x, y, z)

/-- A value that stands for a color, possibly with white space around it. -/
def Denotes (value : String) (color : Channels) : Prop :=
  ∃ front cs back, value.toList = front ++ (cs ++ back) ∧ (∀ c ∈ front, isBlank c) ∧
    (∀ c ∈ back, isBlank c) ∧ Spells cs color

/-! ### Digits -/

/-- What is checked of the first code points holds of their characters. -/
theorem of_ascii {p : Char → Prop} (h : ∀ k < 128, p (Char.ofNat k)) {c : Char}
    (hc : c.toNat < 128) : p c := by
  rw [← Char.ofNat_toNat c]
  exact h c.toNat hc

theorem hex_value_digit {n : Nat} (h : n < 16) : hexValue? (hexDigit n) = some n := by
  have hall : ∀ n < 16, hexValue? (hexDigit n) = some n := by decide
  exact hall n h

/-- A digit in either case is the small one of its value. -/
theorem lower_of_hex_value {c : Char} {n : Nat} (h : hexValue? c = some n) :
    n < 16 ∧ c.toLower = hexDigit n ∧ isBlank c = false := by
  have hascii : c.toNat < 128 := by
    have hrange : c ≤ 'f' := by
      unfold hexValue? at h
      split at h
      · rename_i hdigit
        exact Char.le_trans hdigit.2 (by decide)
      · split at h
        · rename_i hsmall
          exact hsmall.2
        · split at h
          · rename_i hcapital
            exact Char.le_trans hcapital.2 (by decide)
          · cases h
    have hcode : c.toNat ≤ 102 := hrange
    omega
  have hall : ∀ k < 128, ∀ n ∈ hexValue? (Char.ofNat k),
      n < 16 ∧ (Char.ofNat k).toLower = hexDigit n ∧ isBlank (Char.ofNat k) = false := by
    decide +kernel
  exact of_ascii (p := fun c => ∀ n ∈ hexValue? c, n < 16 ∧ c.toLower = hexDigit n ∧
      isBlank c = false)
    hall hascii n h

theorem hex_digit_inj {m n : Nat} (hm : m < 16) (hn : n < 16) (h : hexDigit m = hexDigit n) :
    m = n := by
  have hvalue := hex_value_digit hm
  rw [h, hex_value_digit hn] at hvalue
  exact (Option.some.inj hvalue).symm

theorem hex_digit_spec {n : Nat} (h : n < 16) :
    isHexDigit (hexDigit n) ∧ (hexDigit n).toLower = hexDigit n := by
  have hall : ∀ n < 16, isHexDigit (hexDigit n) ∧ (hexDigit n).toLower = hexDigit n := by decide
  exact hall n h

/-! ### The shortest hexadecimal form -/

/-- What is written for a color. -/
def shortest (color : Channels) : List Char :=
  shortHex (hexColor color)

theorem short_hex_digits {a b c d e f : Nat} (ha : a < 16) (hb : b < 16) (hc : c < 16)
    (hd : d < 16) (he : e < 16) (hf : f < 16) :
    shortHex ['#', hexDigit a, hexDigit b, hexDigit c, hexDigit d, hexDigit e, hexDigit f] =
      if a = b ∧ c = d ∧ e = f then ['#', hexDigit a, hexDigit c, hexDigit e]
      else ['#', hexDigit a, hexDigit b, hexDigit c, hexDigit d, hexDigit e, hexDigit f] := by
  have hall :
      [hexDigit a, hexDigit b, hexDigit c, hexDigit d, hexDigit e, hexDigit f].all isHexDigit := by
    simp [hex_digit_spec, *]
  have hsame {m n : Nat} (hm : m < 16) (hn : n < 16) : hexDigit m = hexDigit n ↔ m = n :=
    ⟨hex_digit_inj hm hn, congrArg hexDigit⟩
  rw [shortHex, hall]
  refine if_congr ?_ rfl rfl
  simp only [Bool.true_and, Bool.and_eq_true, beq_iff_eq, hsame ha hb, hsame hc hd, hsame he hf,
    and_assoc]

/-- The channels of a color are below 256. -/
def IsColor (color : Channels) : Prop :=
  color.1 < 256 ∧ color.2.1 < 256 ∧ color.2.2 < 256

instance : DecidablePred IsColor :=
  fun _ => inferInstanceAs (Decidable (_ ∧ _ ∧ _))

/-- A color by its digits. -/
theorem hex_color_digits {a b c d e f : Nat} (hb : b < 16) (hd : d < 16) (hf : f < 16) :
    hexColor (16 * a + b, 16 * c + d, 16 * e + f) =
      ['#', hexDigit a, hexDigit b, hexDigit c, hexDigit d, hexDigit e, hexDigit f] := by
  have hbyte {m n : Nat} (hn : n < 16) : hexByte (16 * m + n) = [hexDigit m, hexDigit n] := by
    rw [hexByte, Nat.mul_add_div (by omega), Nat.div_eq_of_lt hn, Nat.add_zero, Nat.mul_add_mod,
      Nat.mod_eq_of_lt hn]
  rw [hexColor, hbyte hb, hbyte hd, hbyte hf]
  rfl

/-- A color whose channels are each one digit twice has three digits, and any other six. -/
theorem shortest_cases {color : Channels} (h : IsColor color) :
    (∃ x y z, x < 16 ∧ y < 16 ∧ z < 16 ∧ color = (17 * x, 17 * y, 17 * z) ∧
        shortest color = ['#', hexDigit x, hexDigit y, hexDigit z]) ∨
      ((∀ x y z, color ≠ (17 * x, 17 * y, 17 * z)) ∧ shortest color = hexColor color) := by
  obtain ⟨r, g, b⟩ := color
  obtain ⟨hr, hg, hb⟩ : r < 256 ∧ g < 256 ∧ b < 256 := h
  have hform : shortest (r, g, b) = _ :=
    short_hex_digits (a := r / 16) (b := r % 16) (c := g / 16) (d := g % 16) (e := b / 16)
      (f := b % 16) (by omega) (by omega) (by omega) (by omega) (by omega) (by omega)
  by_cases hdoubled : r / 16 = r % 16 ∧ g / 16 = g % 16 ∧ b / 16 = b % 16
  · rw [if_pos hdoubled] at hform
    refine .inl ⟨r / 16, g / 16, b / 16, by omega, by omega, by omega, ?_, hform⟩
    rw [Prod.mk.injEq, Prod.mk.injEq]
    omega
  · rw [if_neg hdoubled] at hform
    refine .inr ⟨fun x y z heq => hdoubled ?_, hform⟩
    rw [Prod.mk.injEq, Prod.mk.injEq] at heq
    omega

theorem hex_color_spells {color : Channels} (h : IsColor color) :
    Spells (hexColor color) color := by
  obtain ⟨r, g, b⟩ := color
  obtain ⟨hr, hg, hb⟩ : r < 256 ∧ g < 256 ∧ b < 256 := h
  have hspells : Spells (hexColor (r, g, b))
      (16 * (r / 16) + r % 16, 16 * (g / 16) + g % 16, 16 * (b / 16) + b % 16) :=
    .long (hex_value_digit (by omega)) (hex_value_digit (by omega)) (hex_value_digit (by omega))
      (hex_value_digit (by omega)) (hex_value_digit (by omega)) (hex_value_digit (by omega))
  rwa [Nat.div_add_mod, Nat.div_add_mod, Nat.div_add_mod] at hspells

/-- What is written for a color spells it. -/
theorem shortest_spells {color : Channels} (h : IsColor color) : Spells (shortest color) color := by
  rcases shortest_cases h with ⟨x, y, z, hx, hy, hz, rfl, hform⟩ | ⟨-, hform⟩
  · rw [hform]
    exact .short (hex_value_digit hx) (hex_value_digit hy) (hex_value_digit hz)
  · rw [hform]
    exact hex_color_spells h

theorem hex_color_inj {color other : Channels} (h : IsColor color) (hother : IsColor other)
    (hsame : hexColor color = hexColor other) : color = other := by
  obtain ⟨r, g, b⟩ := color
  obtain ⟨r', g', b'⟩ := other
  obtain ⟨hr, hg, hb⟩ : r < 256 ∧ g < 256 ∧ b < 256 := h
  obtain ⟨hr', hg', hb'⟩ : r' < 256 ∧ g' < 256 ∧ b' < 256 := hother
  have hbyte {m n : Nat} (hm : m < 256) (hn : n < 256)
      (hhigh : hexDigit (m / 16) = hexDigit (n / 16))
      (hlow : hexDigit (m % 16) = hexDigit (n % 16)) : m = n := by
    have hdiv := hex_digit_inj (by omega) (by omega) hhigh
    have hmod := hex_digit_inj (by omega) (by omega) hlow
    omega
  simp only [hexColor, hexByte, List.cons_append, List.nil_append, List.cons.injEq, true_and,
    and_true] at hsame
  obtain ⟨hred, hred', hgreen, hgreen', hblue, hblue'⟩ := hsame
  rw [hbyte hr hr' hred hred', hbyte hg hg' hgreen hgreen', hbyte hb hb' hblue hblue']

/-- No two colors are written the same. -/
theorem shortest_inj {color other : Channels} (h : IsColor color) (hother : IsColor other)
    (hsame : shortest color = shortest other) : color = other := by
  rcases shortest_cases h with ⟨x, y, z, hx, hy, hz, rfl, hform⟩ | ⟨-, hform⟩
  · rcases shortest_cases hother with ⟨x', y', z', hx', hy', hz', rfl, hform'⟩ | ⟨-, hform'⟩
    · rw [hform, hform'] at hsame
      simp only [List.cons.injEq, true_and, and_true] at hsame
      rw [hex_digit_inj hx hx' hsame.1, hex_digit_inj hy hy' hsame.2.1,
        hex_digit_inj hz hz' hsame.2.2]
    · have hlength := congrArg List.length (hform.symm.trans (hsame.trans hform'))
      cases hlength
  · rcases shortest_cases hother with ⟨x', y', z', hx', hy', hz', rfl, hform'⟩ | ⟨-, hform'⟩
    · have hlength := congrArg List.length (hform.symm.trans (hsame.trans hform'))
      cases hlength
    · exact hex_color_inj h hother (hform.symm.trans (hsame.trans hform'))

/-! ### Conversion -/

namespace Conversion

/-- A text with its color in hexadecimal form, from a name or from channels as asked for. -/
def resolve (c : Conversion) (cs : List Char) : List Char :=
  let named := if c.fromNames then ofName cs else cs
  if c.fromRgb then ofRgb named else named

/-- A hexadecimal form in small letters, and short if asked for. -/
def finish (c : Conversion) (cs : List Char) : List Char :=
  if cs.head? = some '#' then
    if c.shorten then shortHex (cs.map Char.toLower) else cs.map Char.toLower
  else cs

/-- Whether a text is replaced by the color of its surroundings. -/
def yields (c : Conversion) (cs : List Char) : Bool :=
  c.currentColor && cs != "none".toList && (Text.stripFront? "url(".toList cs).isNone

theorem convert_eq (c : Conversion) (value : String) : c.convert value =
    if c.yields (trimChars value.toList) then "currentColor"
    else String.ofList (c.finish (c.resolve (trimChars value.toList))) := by
  show (if c.yields (trimChars value.toList) then "currentColor"
    else if (c.resolve (trimChars value.toList)).head? == some '#' then _ else _) = _
  split
  · rfl
  · rw [finish, beq_eq_decide]
    by_cases hmark : (c.resolve (trimChars value.toList)).head? = some '#'
    · rw [if_pos hmark, decide_eq_true hmark]
      rfl
    · rw [if_neg hmark, decide_eq_false hmark]
      rfl

end Conversion

/-- No name of a color holds a mark of another spelling. -/
theorem of_name_of_mark {cs : List Char} (h : '#' ∈ cs ∨ '(' ∈ cs) : ofName cs = cs := by
  have hall : ∀ entry ∈ names, '#' ∉ entry.1.toList ∧ '(' ∉ entry.1.toList := by decide +kernel
  have hnone : names.lookup (String.ofList (cs.map Char.toLower)) = none := by
    rw [List.lookup_eq_none_iff]
    intro entry hentry
    obtain ⟨hhash, hparen⟩ := hall entry hentry
    rw [bne_iff_ne]
    intro heq
    rw [← heq, String.toList_ofList] at hhash hparen
    rcases h with h | h
    · exact hhash (List.mem_map_of_mem (f := Char.toLower) h)
    · exact hparen (List.mem_map_of_mem (f := Char.toLower) h)
  rw [ofName, hnone]

theorem of_rgb_of_head {cs : List Char} (h : cs.head? ≠ some 'r') : ofRgb cs = cs := by
  have hnone : rgb? cs = none := by
    have hfront : Text.stripFront? "rgb(".toList cs = none := by
      rw [Markup.strip_front_eq_none_iff]
      rintro ⟨rest, rfl⟩
      exact h rfl
    rw [rgb?, hfront]
    rfl
  rw [ofRgb, hnone]
  rfl

/-! ### Channels -/

theorem digit_not_blank {c : Char} (h : c.isDigit) : isBlank c = false ∧ c ≠ '%' := by
  have hascii : c.toNat < 128 := by
    rw [Char.isDigit, Bool.and_eq_true, decide_eq_true_eq, decide_eq_true_eq] at h
    have hcode : c.toNat ≤ 57 := h.2
    omega
  have hall : ∀ k < 128, (Char.ofNat k).isDigit →
      isBlank (Char.ofNat k) = false ∧ Char.ofNat k ≠ '%' := by
    decide +kernel
  exact of_ascii (p := fun c => c.isDigit → isBlank c = false ∧ c ≠ '%') hall hascii h

theorem channel_of_digits {digits : List Char} (hne : digits ≠ []) (h : ∀ c ∈ digits, c.isDigit) :
    channel? digits = some (min 255 (Decimal.digitsValue digits)) := by
  unfold channel?
  split
  · rename_i front hreverse
    have hpercent : '%' ∈ digits := by
      rw [← List.mem_reverse, hreverse]
      exact List.mem_cons_self
    exact absurd rfl (digit_not_blank (h _ hpercent)).2
  · rw [Decimal.read_digits hne h, Option.map_some, Decimal.to_byte_of_scaled]

/-- A channel is taken up to the mark that ends it. -/
theorem take_channel_spelled {cs : List Char} {x : Nat} {mark : Char}
    (hmark : mark = ',' ∨ mark = ')') (h : SpellsChannel cs x) (rest : List Char) :
    ∃ digits, takeChannel? mark (cs ++ mark :: rest) = some (digits, rest) ∧
      channel? digits = some x := by
  obtain ⟨front, digits, back, rfl, hfront, hback, hne, hdigits, rfl⟩ := h
  refine ⟨digits, ?_, channel_of_digits hne hdigits⟩
  have hclear : isBlank mark = false ∧ (mark.isDigit || mark == '.') = false ∧
      (mark == '%') = false := by
    rcases hmark with rfl | rfl <;> decide
  have hstart : ((front ++ (digits ++ back)) ++ mark :: rest).dropWhile isBlank =
      digits ++ (back ++ mark :: rest) := by
    obtain ⟨d, ds, rfl⟩ := List.exists_cons_of_ne_nil hne
    rw [List.append_assoc, List.dropWhile_append_of_pos hfront, List.append_assoc, List.cons_append,
      List.dropWhile_cons_of_neg]
    simp [digit_not_blank (hdigits d List.mem_cons_self)]
  have hblank {c : Char} (hc : isBlank c) : (c.isDigit || c == '.') = false ∧
      (c == '%') = false := by
    have hdigit : c.isDigit = false := by
      rw [Bool.eq_false_iff]
      intro hdigit
      rw [(digit_not_blank hdigit).1] at hc
      cases hc
    have hpoint : c ≠ '.' ∧ c ≠ '%' := by
      constructor <;> rintro rfl <;> cases hc
    simp [hdigit, hpoint]
  have hbehind : ∀ c ∈ (back ++ mark :: rest).head?,
      (c.isDigit || c == '.') = false ∧ (c == '%') = false := by
    intro c hc
    cases back with
    | nil =>
        obtain rfl : mark = c := Option.some.inj hc
        exact hclear.2
    | cons b back =>
        obtain rfl : b = c := Option.some.inj hc
        exact hblank (hback b List.mem_cons_self)
  have hspan : (digits ++ (back ++ mark :: rest)).span (fun c => c.isDigit || c == '.') =
      (digits, back ++ mark :: rest) :=
    span_append digits _ (fun c hc => by rw [hdigits c hc]; rfl) fun c hc => (hbehind c hc).1
  have hpercent : (back ++ mark :: rest).span (· == '%') = ([], back ++ mark :: rest) :=
    span_append [] _ (by simp) fun c hc => (hbehind c hc).2
  have hend : (back ++ mark :: rest).dropWhile isBlank = mark :: rest := by
    rw [List.dropWhile_append_of_pos hback, List.dropWhile_cons_of_neg (by simp [hclear.1])]
  rw [takeChannel?, hstart, hspan]
  dsimp only
  rw [hpercent]
  dsimp only
  rw [hend]
  simp [hne]

theorem rgb_spelled {red green blue : List Char} {x y z : Nat} (hred : SpellsChannel red x)
    (hgreen : SpellsChannel green y) (hblue : SpellsChannel blue z) :
    rgb? ("rgb(".toList ++ (red ++ ',' :: (green ++ ',' :: (blue ++ [')'])))) = some (x, y, z) := by
  obtain ⟨reds, htakered, hx⟩ := take_channel_spelled (.inl rfl) hred
    (green ++ ',' :: (blue ++ [')']))
  obtain ⟨greens, htakegreen, hy⟩ := take_channel_spelled (.inl rfl) hgreen
    (blue ++ [')'])
  obtain ⟨blues, htakeblue, hz⟩ := take_channel_spelled (.inr rfl) hblue []
  rw [rgb?, Markup.strip_front_append]
  simp only [Option.bind_eq_bind, Option.bind_some, htakered, htakegreen, htakeblue,
    List.isEmpty_nil, if_true, hx, hy, hz]

/-! ### Every spelling -/

/-- What the pass does unless it is told otherwise. -/
def Conversion.standard : Conversion :=
  ⟨false, true, true, true⟩

/-- Each name is in the table with a hexadecimal form of its color. -/
theorem keyword_listed : ∀ entry ∈ keywords, ∃ hex, names.lookup entry.1 = some hex ∧
    hex.toList.head? = some '#' ∧
    shortHex (hex.toList.map Char.toLower) = shortest (channelsOf entry.2) ∧
    IsColor (channelsOf entry.2) := by
  have hall : ∀ entry ∈ keywords, (names.lookup entry.1).any fun hex =>
      hex.toList.head? = some '#' ∧
      shortHex (hex.toList.map Char.toLower) = shortest (channelsOf entry.2) ∧
      IsColor (channelsOf entry.2) := by
    decide +kernel
  intro entry hentry
  have hlisted := hall entry hentry
  cases hlookup : names.lookup entry.1 with
  | none =>
      rw [hlookup] at hlisted
      cases hlisted
  | some hex =>
      rw [hlookup] at hlisted
      exact ⟨hex, rfl, of_decide_eq_true hlisted⟩

theorem Spells.is_color {cs : List Char} {color : Channels} (h : Spells cs color) :
    IsColor color := by
  cases h with
  | name hname _ =>
      obtain ⟨-, -, -, -, hcolor⟩ := keyword_listed _ hname
      exact hcolor
  | short hx hy hz =>
      have hx := (lower_of_hex_value hx).1
      have hy := (lower_of_hex_value hy).1
      have hz := (lower_of_hex_value hz).1
      refine ⟨?_, ?_, ?_⟩ <;> dsimp only <;> omega
  | long hx hx' hy hy' hz hz' =>
      have hx := (lower_of_hex_value hx).1
      have hx' := (lower_of_hex_value hx').1
      have hy := (lower_of_hex_value hy).1
      have hy' := (lower_of_hex_value hy').1
      have hz := (lower_of_hex_value hz).1
      have hz' := (lower_of_hex_value hz').1
      refine ⟨?_, ?_, ?_⟩ <;> dsimp only <;> omega
  | channels hx hy hz =>
      obtain ⟨-, -, -, -, -, -, -, -, rfl⟩ := hx
      obtain ⟨-, -, -, -, -, -, -, -, rfl⟩ := hy
      obtain ⟨-, -, -, -, -, -, -, -, rfl⟩ := hz
      refine ⟨?_, ?_, ?_⟩ <;> dsimp only <;> omega

/-- Hexadecimal spellings are left to be made small and short. -/
theorem resolve_of_hash {cs : List Char} (h : cs.head? = some '#') (c : Conversion) :
    c.resolve cs = cs := by
  have hname : ofName cs = cs := of_name_of_mark (.inl (List.mem_of_mem_head? h))
  have hrgb : ofRgb cs = cs := of_rgb_of_head (by rw [h]; decide)
  rw [Conversion.resolve, hname, ite_self, hrgb, ite_self]

theorem finish_of_hash {cs : List Char} (h : cs.head? = some '#') :
    Conversion.standard.finish cs = shortHex (cs.map Char.toLower) := by
  rw [Conversion.finish, if_pos h]
  rfl

theorem lower_hex_color {color : Channels} (h : IsColor color) :
    (hexColor color).map Char.toLower = hexColor color := by
  obtain ⟨r, g, b⟩ := color
  obtain ⟨hr, hg, hb⟩ : r < 256 ∧ g < 256 ∧ b < 256 := h
  have hdigit {n : Nat} (hn : n < 16) : (hexDigit n).toLower = hexDigit n := (hex_digit_spec hn).2
  have hhash : '#'.toLower = '#' := by decide
  simp only [hexColor, hexByte, List.cons_append, List.nil_append, List.map_cons,
    List.map_nil, hhash]
  rw [hdigit (by omega), hdigit (by omega), hdigit (by omega), hdigit (by omega), hdigit (by omega),
    hdigit (by omega)]

/-- Every spelling of a color is written in the same form. -/
theorem written_of_spells {cs : List Char} {color : Channels} (h : Spells cs color) :
    Conversion.standard.finish (Conversion.standard.resolve cs) = shortest color := by
  have hcolor := h.is_color
  have hlower {c : Char} {n : Nat} (hc : hexValue? c = some n) : c.toLower = hexDigit n :=
    (lower_of_hex_value hc).2.1
  have hvalue {c : Char} {n : Nat} (hc : hexValue? c = some n) : n < 16 := (lower_of_hex_value hc).1
  have hhash : '#'.toLower = '#' := by decide
  cases h with
  | name hname hspelled =>
      obtain ⟨hex, hlookup, hhead, hform, -⟩ := keyword_listed _ hname
      have hnamed : ofName cs = hex.toList := by
        rw [ofName, hspelled, String.ofList_toList, hlookup]
      have hresolve : Conversion.standard.resolve cs = hex.toList := by
        show ofRgb (ofName cs) = _
        rw [hnamed, of_rgb_of_head (by rw [hhead]; decide)]
      rw [hresolve, finish_of_hash hhead, hform]
  | @short r g b x y z hx hy hz =>
      have hdouble (n : Nat) : 17 * n = 16 * n + n := by omega
      rw [resolve_of_hash rfl, finish_of_hash rfl, shortest, hdouble, hdouble, hdouble,
        hex_color_digits (hvalue hx) (hvalue hy) (hvalue hz),
        short_hex_digits (hvalue hx) (hvalue hx) (hvalue hy) (hvalue hy) (hvalue hz) (hvalue hz),
        if_pos ⟨rfl, rfl, rfl⟩]
      simp only [List.map_cons, List.map_nil, hhash, hlower hx, hlower hy, hlower hz]
      rfl
  | long hx hx' hy hy' hz hz' =>
      rw [resolve_of_hash rfl, finish_of_hash rfl, shortest,
        hex_color_digits (hvalue hx') (hvalue hy') (hvalue hz')]
      simp only [List.map_cons, List.map_nil, hhash, hlower hx, hlower hx', hlower hy, hlower hy',
        hlower hz, hlower hz']
  | @channels red green blue x y z hx hy hz =>
      have hresolve : Conversion.standard.resolve
          ("rgb(".toList ++ (red ++ ',' :: (green ++ ',' :: (blue ++ [')'])))) =
            hexColor (x, y, z) := by
        show ofRgb (ofName _) = _
        rw [of_name_of_mark (.inr (by simp)), ofRgb, rgb_spelled hx hy hz]
        rfl
      rw [hresolve, finish_of_hash rfl, lower_hex_color hcolor]
      rfl

/-- Only ASCII letters change their case. -/
theorem lower_cases (c : Char) : c.toNat < 128 ∨ c.toLower = c := by
  rw [or_iff_not_imp_left]
  intro h
  refine dif_neg ?_
  rintro ⟨-, hle⟩
  have hcode : c.toNat ≤ 90 := hle
  omega

theorem blank_lower (c : Char) : isBlank c.toLower = isBlank c := by
  rcases lower_cases c with hascii | hsame
  · have hall : ∀ k < 128, isBlank (Char.ofNat k).toLower = isBlank (Char.ofNat k) := by
      decide +kernel
    exact of_ascii (p := fun c => isBlank c.toLower = isBlank c) hall hascii
  · rw [hsame]

theorem lower_lower (c : Char) : c.toLower.toLower = c.toLower := by
  rcases lower_cases c with hascii | hsame
  · have hall : ∀ k < 128, (Char.ofNat k).toLower.toLower = (Char.ofNat k).toLower := by
      decide +kernel
    exact of_ascii (p := fun c => c.toLower.toLower = c.toLower) hall hascii
  · rw [hsame, hsame]

theorem name_trimmed {cs : List Char} {name : String} {n : Nat} (hname : (name, n) ∈ keywords)
    (hspelled : cs.map Char.toLower = name.toList) : Text.IsTrimmed cs := by
  have hletters : ∀ entry ∈ keywords, ∀ c ∈ entry.1.toList, isBlank c = false := by decide +kernel
  refine Text.trimmed_of_no_blank fun c hc => ?_
  rw [← blank_lower]
  exact hletters _ hname c.toLower (hspelled ▸ List.mem_map_of_mem hc)

/-- No spelling has white space at its ends. -/
theorem Spells.trimmed {cs : List Char} {color : Channels} (h : Spells cs color) :
    Text.IsTrimmed cs := by
  have hhash : isBlank '#' = false := by decide
  cases h with
  | name hname hspelled => exact name_trimmed hname hspelled
  | short _ _ hz =>
      refine ⟨fun c hc => ?_, fun c hc => ?_⟩
      · cases hc
        exact hhash
      · cases hc
        exact (lower_of_hex_value hz).2.2
  | long _ _ _ _ _ hz =>
      refine ⟨fun c hc => ?_, fun c hc => ?_⟩
      · cases hc
        exact hhash
      · cases hc
        exact (lower_of_hex_value hz).2.2
  | @channels red green blue =>
      refine ⟨fun c hc => ?_, fun c hc => ?_⟩
      · cases hc
        decide
      · have hend : "rgb(".toList ++ (red ++ ',' :: (green ++ ',' :: (blue ++ [')']))) =
            "rgb(".toList ++ red ++ (',' :: green) ++ (',' :: blue) ++ [')'] := by
          simp only [List.append_assoc, List.cons_append]
        rw [hend, List.getLast?_concat] at hc
        cases hc
        decide

/-- White space around a color goes, and the color takes its one form. -/
theorem convert_denoting {value : String} {color : Channels} (h : Denotes value color) :
    Conversion.standard.convert value = String.ofList (shortest color) := by
  obtain ⟨front, cs, back, hvalue, hfront, hback, hspells⟩ := h
  rw [Conversion.convert_eq, hvalue, Text.trim_chars_around hfront hback hspells.trimmed,
    written_of_spells hspells]
  exact if_neg Bool.false_ne_true

/-! ### The pass -/

/-- Which conversions some parameters ask for. -/
structure Conversion.IsAsked (c : Conversion) (params : Params) : Prop where
  currentColor : params.bool "currentColor" false = .ok c.currentColor
  fromNames : params.bool "names2hex" true = .ok c.fromNames
  fromRgb : params.bool "rgb2hex" true = .ok c.fromRgb
  shorten : params.bool "shorthex" true = .ok c.shorten

/-- What an attribute has for a value after the conversion. -/
def Conversion.change (c : Conversion) (a : Attribute) : String :=
  if attributes.contains a.name then c.convert a.value else a.value

theorem apply_convert {c : Conversion} {params : Params} (h : c.IsAsked params) (doc : Document) :
    convertColors.apply params doc = .ok (doc.mapTags (·.mapValues c.change)) := by
  show (params.bool "currentColor" false).bind _ = _
  rw [h.currentColor]
  show (params.bool "names2hex" true).bind _ = _
  rw [h.fromNames]
  show (params.bool "rgb2hex" true).bind _ = _
  rw [h.fromRgb]
  show (params.bool "shorthex" true).bind _ = _
  rw [h.shorten]
  rfl

/-- With all conversions on and the color of the surroundings left out, the pass gives the
attributes that hold a color one form for each color: what is written stands for the color that was
there, and it is the same for two values exactly if they stand for the same color. -/
theorem converted_canonical {params : Params} (h : Conversion.standard.IsAsked params) :
    (∀ doc, convertColors.apply params doc =
        .ok (doc.mapTags (·.mapValues Conversion.standard.change))) ∧
      ∀ a b : Attribute, a.name ∈ attributes → b.name ∈ attributes →
        ∀ color other, Denotes a.value color → Denotes b.value other →
          Denotes (Conversion.standard.change a) color ∧
          (Conversion.standard.change a = Conversion.standard.change b ↔ color = other) := by
  refine ⟨apply_convert h, fun a b ha hb color other hcolor hother => ?_⟩
  have hform {a : Attribute} (ha : a.name ∈ attributes) {color : Channels}
      (hcolor : Denotes a.value color) :
      Conversion.standard.change a = String.ofList (shortest color) := by
    rw [Conversion.change, List.contains_eq_mem, decide_eq_true ha, if_pos rfl,
      convert_denoting hcolor]
  have hspells {value : String} {color : Channels} (h : Denotes value color) : IsColor color := by
    obtain ⟨_, _, _, _, _, _, hspells⟩ := h
    exact hspells.is_color
  rw [hform ha hcolor, hform hb hother]
  refine ⟨⟨[], shortest color, [], by simp, by simp, by simp, shortest_spells (hspells hcolor)⟩, ?_⟩
  constructor
  · intro hsame
    exact shortest_inj (hspells hcolor) (hspells hother) (String.ofList_injective hsame)
  · rintro rfl
    rfl

/-- Red by its name, and red by its channels with more in the first than there can be. -/
theorem converted_canonical_red :
    let named : Attribute := ⟨"fill", " Red"⟩
    let mixed : Attribute := ⟨"stroke", "rgb( 300,0 , 00)\n"⟩
    Conversion.standard.IsAsked [] ∧ Denotes named.value (255, 0, 0) ∧
      Denotes mixed.value (255, 0, 0) ∧
      Conversion.standard.change named = Conversion.standard.change mixed := by
  have hasked : Conversion.standard.IsAsked [] := ⟨rfl, rfl, rfl, rfl⟩
  have hname : Spells "Red".toList (channelsOf 0xff0000) :=
    .name (show ("red", 0xff0000) ∈ keywords by decide +kernel) (by decide)
  have hnamed : Denotes " Red" (255, 0, 0) :=
    ⟨[' '], "Red".toList, [], by decide, by decide, by decide, hname⟩
  have hred : SpellsChannel " 300".toList 255 :=
    ⟨[' '], "300".toList, [], by decide, by decide, by decide, by decide, by decide, by decide⟩
  have hgreen : SpellsChannel "0 ".toList 0 :=
    ⟨[], "0".toList, [' '], by decide, by decide, by decide, by decide, by decide, by decide⟩
  have hblue : SpellsChannel " 00".toList 0 :=
    ⟨[' '], "00".toList, [], by decide, by decide, by decide, by decide, by decide, by decide⟩
  have hmixed : Denotes "rgb( 300,0 , 00)\n" (255, 0, 0) :=
    ⟨[], "rgb( 300,0 , 00)".toList, ['\n'], by decide, by decide, by decide,
      .channels hred hgreen hblue⟩
  exact ⟨hasked, hnamed, hmixed, ((converted_canonical hasked).2 ⟨"fill", " Red"⟩
    ⟨"stroke", "rgb( 300,0 , 00)\n"⟩ (by decide) (by decide) _ _ hnamed hmixed).2.mpr rfl⟩

end SvgPress.Colors
