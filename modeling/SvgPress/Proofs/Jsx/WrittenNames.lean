import SvgPress.Proofs.Faults
import SvgPress.Proofs.Jsx.Tree
import SvgPress.Proofs.Pass.Descriptions
import SvgPress.Proofs.Text.Capitals

/-!
The names in JSX. An attribute is written under its name in camel case, and a declaration of a style
under its property in camel case, as a key of an object literal; both without a look at the
characters that are in them. So a name or key is one that JSX can have exactly if what is between
the hyphens and colons of the source is an identifier, with the exceptions that the writer makes.
-/

namespace SvgPress.Jsx

open Text

section Identifiers

/-- Characters that can begin an identifier, apart from letters and letter numbers. -/
def startRanges : CodeRanges :=
  [(0x24, 0x24), (0x5F, 0x5F), (0x1885, 0x1886), (0x2118, 0x2118), (0x212E, 0x212E),
    (0x309B, 0x309C)]

/-- Characters that can go on an identifier, apart from whole categories. -/
def partRanges : CodeRanges :=
  [(0xB7, 0xB7), (0x387, 0x387), (0x1369, 0x1371), (0x19DA, 0x19DA), (0x200C, 0x200D),
    (0x30FB, 0x30FB), (0xFF65, 0xFF65)]

/-- Whether a character can begin an identifier of a script. One letter is kept for patterns. -/
def isStart (c : Char) : Bool :=
  (inCategories (.letterNumber :: Category.letters) c && c != 'ⸯ') ||
    startRanges.contains c.toNat

/-- Whether a character can go on an identifier of a script. -/
def isPart (c : Char) : Bool :=
  isStart c ||
      inCategories [.nonspacingMark, .spacingMark, .decimalNumber, .connectorPunctuation] c ||
    partRanges.contains c.toNat

/-- Whether characters are an identifier of a script. -/
def IsIdentifier (cs : List Char) : Prop :=
  ∃ first rest, cs = first :: rest ∧ isStart first ∧ ∀ c ∈ rest, isPart c

/-- Whether an attribute can have a name in JSX: an identifier in which hyphens count as well, but
not as the first character. -/
def IsAttributeName (cs : List Char) : Prop :=
  ∃ first rest, cs = first :: rest ∧ isStart first ∧ ∀ c ∈ rest, isPart c ∨ c = '-'

variable {c d : Char}

theorem part_of_start (h : isStart c) : isPart c := by
  rw [isPart, h, Bool.true_or, Bool.true_or]

theorem part_of_digit (h : Category.decimalNumber.contains c) : isPart c := by
  have hmark : inCategories
      [.nonspacingMark, .spacingMark, .decimalNumber, .connectorPunctuation] c :=
    in_categories_iff.mpr ⟨_, by decide, h⟩
  rw [isPart, hmark, Bool.or_true, Bool.true_or]

theorem part_of_categories (hne : c ≠ 'ⸯ')
    (h : inCategories (.letterNumber :: Category.letters ++ [.nonspacingMark]) c) : isPart c := by
  rw [inCategories, List.any_append, Bool.or_eq_true] at h
  rcases h with h | h
  · refine part_of_start ?_
    rw [isStart, inCategories, h, bne_iff_ne.mpr hne]
    rfl
  · have hmark : inCategories
        [.nonspacingMark, .spacingMark, .decimalNumber, .connectorPunctuation] c :=
      in_categories_mono (by decide) h
    rw [isPart, hmark, Bool.or_true, Bool.true_or]

/-- Only one symbol of its category can stand in an identifier. -/
theorem symbol_not_part (hsymbol : Category.otherSymbol.contains c) (hne : c ≠ '℮') :
    ¬ isPart c := by
  have hcategories : ¬ inCategories (.letterNumber :: Category.letters ++
      [.nonspacingMark, .spacingMark, .decimalNumber, .connectorPunctuation]) c :=
    not_in_categories (by decide +kernel) hsymbol
  have hranges (ranges : CodeRanges) (hapart : Category.otherSymbol.ranges.apart ranges)
      (hsorted : ranges.IsSorted) : ¬ ranges.Holds c.toNat :=
    CodeRanges.apart_spec hapart (sorted_ranges _) hsorted (category_contains_iff.mp hsymbol)
  intro hpart
  rw [inCategories, List.any_append, Bool.or_eq_true, not_or] at hcategories
  simp only [isPart, isStart, Bool.or_eq_true, Bool.and_eq_true] at hpart
  rcases hpart with ((hletter | hstart) | hmark) | hextra
  · exact hcategories.1 hletter.1
  · obtain ⟨r, hr, hlow, hhigh⟩ := CodeRanges.holds_of_contains hstart
    refine hranges (startRanges.filter (· != (0x212E, 0x212E))) (by decide +kernel) (by decide)
      ⟨r, List.mem_filter.mpr ⟨hr, bne_iff_ne.mpr ?_⟩, hlow, hhigh⟩
    rintro rfl
    exact hne (Char.toNat_inj.mp (Nat.le_antisymm hhigh hlow))
  · exact hcategories.2 hmark
  · exact hranges partRanges (by decide +kernel) (by decide) (CodeRanges.holds_of_contains hextra)

/-- A capital form can stand in an identifier just if the character can. -/
theorem upper_char_part (c : Char) : (∀ d ∈ upperChar c, isPart d) ↔ isPart c := by
  rcases upper_char_cases c with hsame | ⟨hsymbol, d, hupper, hsymbol'⟩ |
    ⟨hsmall, first, rest, hupper, hfirst, hrest⟩
  · rw [hsame, List.forall_mem_singleton]
  · by_cases hc : c = '℮'
    · subst hc
      decide +kernel
    · have hd : d ≠ '℮' := by
        rintro rfl
        exact not_mem_upper_char (by decide +kernel) hc (hupper ▸ List.mem_singleton_self _)
      rw [hupper, List.forall_mem_singleton]
      exact iff_of_false (symbol_not_part hsymbol' hd) (symbol_not_part hsymbol hc)
  · have hc : c ≠ 'ⸯ' := by
      rintro rfl
      revert hsmall
      decide +kernel
    refine iff_of_true (fun d hd => ?_)
      (part_of_categories hc (in_categories_mono (by decide) hsmall))
    have hne : d ≠ 'ⸯ' := by
      rintro rfl
      exact not_mem_upper_char (by decide +kernel) hc hd
    refine part_of_categories hne ?_
    rw [hupper, List.mem_cons] at hd
    rcases hd with rfl | hd
    · exact in_categories_mono (by decide) hfirst
    · rcases hrest d hd with hletter | hmark
      · exact in_categories_mono (by decide) hletter
      · exact in_categories_iff.mpr ⟨_, by decide, hmark⟩

theorem identifier_cons_iff {cs : List Char} :
    IsIdentifier (c :: cs) ↔ isStart c ∧ ∀ d ∈ cs, isPart d := by
  constructor
  · rintro ⟨first, rest, heq, h⟩
    obtain ⟨rfl, rfl⟩ := List.cons_eq_cons.mp heq
    exact h
  · exact fun h => ⟨c, cs, rfl, h⟩

instance (cs : List Char) : Decidable (IsIdentifier cs) :=
  match cs with
  | [] => isFalse fun h => by
      obtain ⟨_, _, heq, -⟩ := h
      cases heq
  | _ :: _ => decidable_of_iff _ identifier_cons_iff.symm

theorem attribute_name_cons_iff {cs : List Char} :
    IsAttributeName (c :: cs) ↔ isStart c ∧ ∀ d ∈ cs, isPart d ∨ d = '-' := by
  constructor
  · rintro ⟨first, rest, heq, h⟩
    obtain ⟨rfl, rfl⟩ := List.cons_eq_cons.mp heq
    exact h
  · exact fun h => ⟨c, cs, rfl, h⟩

instance (cs : List Char) : Decidable (IsAttributeName cs) :=
  match cs with
  | [] => isFalse fun h => by
      obtain ⟨_, _, heq, -⟩ := h
      cases heq
  | _ :: _ => decidable_of_iff _ attribute_name_cons_iff.symm

/-- Without hyphens the name of an attribute is an identifier. -/
theorem attribute_name_of_plain {cs : List Char} (h : '-' ∉ cs) :
    IsAttributeName cs ↔ IsIdentifier cs := by
  constructor
  · rintro ⟨first, rest, rfl, hfirst, hrest⟩
    refine ⟨first, rest, rfl, hfirst, fun d hd => (hrest d hd).resolve_right ?_⟩
    rintro rfl
    exact h (List.mem_cons_of_mem _ hd)
  · rintro ⟨first, rest, rfl, hfirst, hrest⟩
    exact ⟨first, rest, rfl, hfirst, fun d hd => .inl (hrest d hd)⟩

end Identifiers

section CamelCase

/-- A name without the characters that end its words. -/
def lettersOf (cs : List Char) : List Char :=
  cs.filter fun c => !(c == '-' || c == ':')

theorem letters_of_cons (c : Char) (cs : List Char) :
    lettersOf (c :: cs) = if c = '-' ∨ c = ':' then lettersOf cs else c :: lettersOf cs := by
  rw [lettersOf, List.filter_cons]
  by_cases hmark : c = '-' ∨ c = ':'
  · rw [if_pos hmark, if_neg (by simpa [or_iff_not_imp_left] using hmark)]
    rfl
  · rw [if_neg hmark, if_pos (by simpa using hmark)]
    rfl

theorem camel_from_part (afterMark : Bool) (cs : List Char) :
    (∀ d ∈ camelFrom true afterMark cs, isPart d) ↔ ∀ c ∈ lettersOf cs, isPart c := by
  induction cs generalizing afterMark with
  | nil => rfl
  | cons c cs ih =>
      rw [camelFrom, letters_of_cons]
      split
      · exact ih true
      · rw [List.forall_mem_append, List.forall_mem_cons, ih]
        cases afterMark with
        | true => rw [if_pos rfl, upper_char_part]
        | false => rw [if_neg Bool.false_ne_true, List.forall_mem_singleton]

/-- Camel case gives an identifier just if what it joins is one: its first character stays as it
is. -/
theorem identifier_camel_iff (cs : List Char) :
    IsIdentifier (camelFrom false false cs) ↔ IsIdentifier (lettersOf cs) := by
  induction cs with
  | nil => rfl
  | cons c cs ih =>
      rw [camelFrom, letters_of_cons]
      split
      · exact ih
      · rw [if_neg Bool.false_ne_true, List.singleton_append, identifier_cons_iff,
          identifier_cons_iff, camel_from_part]

theorem not_mark_of_camel (started afterMark : Bool) (cs : List Char) :
    ∀ d ∈ camelFrom started afterMark cs, d ≠ '-' ∧ d ≠ ':' := by
  induction cs generalizing started afterMark with
  | nil => exact fun d hd => absurd hd List.not_mem_nil
  | cons c cs ih =>
      rw [camelFrom]
      split
      · exact ih started started
      · rename_i hmark
        rw [not_or] at hmark
        refine List.forall_mem_append.mpr ⟨?_, ih true false⟩
        split
        · refine fun d hd => ⟨?_, ?_⟩
          · rintro rfl
            exact not_mem_upper_char (by decide +kernel) hmark.1 hd
          · rintro rfl
            exact not_mem_upper_char (by decide +kernel) hmark.2 hd
        · exact List.forall_mem_singleton.mpr hmark

/-- Whether the name of an attribute becomes one that JSX can have. -/
def NameFits (name : String) : Prop :=
  if startsWith name "data-" || startsWith name "aria-" then ∀ c ∈ name.toList, isPart c ∨ c = '-'
  else IsIdentifier (lettersOf name.toList)

theorem attribute_name_iff (name : String) :
    IsAttributeName (attributeName name).toList ↔ NameFits name := by
  rw [attributeName]
  split
  · rename_i hclass
    subst hclass
    exact iff_of_true ⟨'c', _, rfl, by decide +kernel⟩ ⟨'c', _, rfl, by decide +kernel⟩
  · split
    · rename_i hfor
      subst hfor
      exact iff_of_true ⟨'h', _, rfl, by decide +kernel⟩ ⟨'f', _, rfl, by decide +kernel⟩
    · rw [NameFits]
      split
      · rename_i hmarked
        have hstart : ∃ first rest, name.toList = first :: rest ∧ isStart first := by
          rw [Bool.or_eq_true, starts_with_iff, starts_with_iff] at hmarked
          rcases hmarked with ⟨rest, hrest⟩ | ⟨rest, hrest⟩
          · exact ⟨'d', _, hrest.symm, by decide +kernel⟩
          · exact ⟨'a', _, hrest.symm, by decide +kernel⟩
        obtain ⟨first, rest, hname, hfirst⟩ := hstart
        rw [hname, List.forall_mem_cons]
        constructor
        · rintro ⟨first', rest', heq, -, hrest⟩
          obtain ⟨rfl, rfl⟩ := List.cons_eq_cons.mp heq
          exact ⟨.inl (part_of_start hfirst), hrest⟩
        · exact fun h => ⟨first, rest, rfl, hfirst, h.2⟩
      · rw [camelCase, String.toList_ofList, attribute_name_of_plain, identifier_camel_iff]
        exact fun hmem => (not_mark_of_camel _ _ _ _ hmem).1 rfl

end CamelCase

section Keys

/-- Where in an object literal a reader is: in a key, of which some characters have been read, in
the value behind it, in a string of that, behind a backslash in the string, or right before a
key. -/
inductive Place where
  | key (read : List Char)
  | value
  | quoted
  | escaped
  | gap

/-- The keys of the members that are still to come. -/
def keysFrom : Place → List Char → List (List Char)
  | _, [] => []
  | .key read, c :: rest =>
    if c = ':' then read.reverse :: keysFrom .value rest else keysFrom (.key (c :: read)) rest
  | .value, c :: rest =>
    if c = '"' then keysFrom .quoted rest
    else if c = ',' then keysFrom .gap rest
    else keysFrom .value rest
  | .quoted, c :: rest =>
    if c = '\\' then keysFrom .escaped rest
    else if c = '"' then keysFrom .value rest
    else keysFrom .quoted rest
  | .escaped, _ :: rest => keysFrom .quoted rest
  | .gap, _ :: rest => keysFrom (.key []) rest

/-- The keys of an object literal: what stands before the colons outside of its strings. -/
def keysOf (object : String) : List (List Char) :=
  keysFrom .gap (object.toList.drop 1)

theorem keys_from_key {key : List Char} (hkey : ':' ∉ key) (read rest : List Char) :
    keysFrom (.key read) (key ++ ':' :: rest) = (read.reverse ++ key) :: keysFrom .value rest := by
  induction key generalizing read with
  | nil => rw [List.nil_append, keysFrom, if_pos rfl, List.append_nil]
  | cons c key ih =>
      rw [List.mem_cons, not_or] at hkey
      rw [List.cons_append, keysFrom, if_neg (Ne.symm hkey.1), ih hkey.2, List.reverse_cons,
        List.append_assoc, List.singleton_append]

/-- A quoted string is read over. -/
theorem keys_from_quote (cs rest : List Char) :
    keysFrom .value (Json.quoteChars cs ++ rest) = keysFrom .value rest := by
  have hplain (more after : List Char) (h : ∀ d ∈ more, d ≠ '"' ∧ d ≠ '\\') :
      keysFrom .quoted (more ++ after) = keysFrom .quoted after := by
    induction more with
    | nil => rfl
    | cons d more ih =>
        rw [List.forall_mem_cons] at h
        rw [List.cons_append, keysFrom, if_neg h.1.2, if_neg h.1.1, ih h.2]
  have hall : keysFrom .quoted (cs.flatMap Json.escapeChar ++ '"' :: rest) =
      keysFrom .value rest := by
    induction cs with
    | nil => rw [List.flatMap_nil, List.nil_append, keysFrom, if_neg (by decide), if_pos rfl]
    | cons c cs ih =>
        rw [List.flatMap_cons, List.append_assoc, ← ih]
        rcases Json.escape_char_cases c with ⟨hwritten, hquote, hslash, -⟩ |
          ⟨letter, more, hwritten, hmore, -⟩
        · rw [hwritten, hplain _ _ (by simp [hquote, hslash])]
        · rw [hwritten, List.cons_append, List.cons_append, keysFrom, if_pos rfl, keysFrom,
            hplain _ _ hmore]
  rw [Json.quoteChars, List.cons_append, keysFrom, if_pos rfl, List.append_assoc,
    List.singleton_append, hall]

/-- The key for a property. -/
def keyOf (property : String) : String :=
  if startsWith property "--" then Json.quote property else camelCase property

/-- The properties of a style text, as its declarations name them. -/
def propertiesOf (style : String) : List String :=
  (((declarations style).map trim).filter (!·.isEmpty)).filterMap fun declaration =>
    (splitOnce? declaration ":").map fun split => trim split.1

/-- A member of an object literal, by its key and its value. -/
def entryOf (member : String × String) : String :=
  member.1 ++ ": " ++ Json.quote member.2

/-- The key and the value that a declaration comes to, if it has a colon. -/
def keyed? (declaration : String) : Option (String × String) :=
  (splitOnce? declaration ":").map fun split => (keyOf (trim split.1), trim split.2)

theorem style_entry_eq (declaration : String) :
    styleEntry? declaration = (keyed? declaration).map entryOf := by
  unfold styleEntry? keyed? keyOf entryOf
  cases splitOnce? declaration ":" with
  | none => rfl
  | some split => simp only [Option.bind_eq_bind, Option.bind_some, Option.map_some]

theorem split_colon_iff {s property value : String} : splitOnce? s ":" = some (property, value) ↔
    s = property ++ ":" ++ value ∧ ':' ∉ property.toList := by
  have hmark : ":".toList = [':'] := rfl
  rw [splitOnce?, hmark]
  constructor
  · intro h
    obtain ⟨⟨before, after⟩, hcut, hpair⟩ := Option.map_eq_some_iff.mp h
    cases hpair
    constructor
    · apply String.toList_injective
      rw [Markup.cutAt?_eq hcut]
      simp
    · rw [String.toList_ofList]
      intro hmem
      obtain ⟨front, back, rfl⟩ := List.append_of_mem hmem
      exact Markup.not_infix_of_cut_at (by decide) hcut ⟨front, back, by simp⟩
  · rintro ⟨rfl, hnot⟩
    have hinfix : ¬ [] ++ [':'] <:+: property.toList := fun h => hnot (h.subset (by simp))
    have hcut := Markup.cut_at_append [] ':' List.not_mem_nil hinfix value.toList
    have hchars :
        (property ++ ":" ++ value).toList = property.toList ++ ([] ++ ':' :: value.toList) := by
      simp
    rw [hchars]
    exact Option.map_eq_some_iff.mpr ⟨_, hcut, by simp⟩

theorem keyed_eq_some {declaration : String} {pair : String × String}
    (h : keyed? declaration = some pair) :
    ∃ property value, splitOnce? declaration ":" = some (property, value) ∧
      pair.1 = keyOf (trim property) ∧ pair.2 = trim value := by
  rw [keyed?, Option.map_eq_some_iff] at h
  obtain ⟨⟨property, value⟩, hsplit, hpair⟩ := h
  rw [Prod.ext_iff] at hpair
  dsimp only at hpair
  exact ⟨property, value, hsplit, hpair.1.symm, hpair.2.symm⟩

theorem colon_not_mem_escape {c : Char} (h : c ≠ ':') : ':' ∉ Json.escapeChar c := by
  have hdigit : ∀ n < 16, ':' ≠ Json.hexDigit n := by decide
  have hhigh : c.toNat < 0x20 → ':' ≠ Json.hexDigit (c.toNat / 16) := fun hc => hdigit _ (by omega)
  have hlow := hdigit (c.toNat % 16) (by omega)
  unfold Json.escapeChar
  split_ifs with _ _ _ _ _ _ _ hcontrol
  all_goals simp [Ne.symm h, *]

/-- No key has a colon, since a declaration is cut at its first one. -/
theorem colon_not_mem_key {declaration : String} {pair : String × String}
    (h : keyed? declaration = some pair) : ':' ∉ pair.1.toList := by
  obtain ⟨property, value, hsplit, hkey, -⟩ := keyed_eq_some h
  rw [hkey, keyOf]
  split
  · have hproperty : ':' ∉ (trim property).toList :=
      fun hmem => (split_colon_iff.mp hsplit).2 ((trim_sublist property).mem hmem)
    rw [Json.quote, String.toList_ofList, Json.quoteChars]
    simp only [List.mem_cons, List.mem_append, List.mem_flatMap, List.not_mem_nil, or_false, not_or,
      not_exists, not_and]
    refine ⟨by decide, fun c hc => colon_not_mem_escape ?_, by decide⟩
    rintro rfl
    exact hproperty hc
  · rw [camelCase, String.toList_ofList]
    exact fun hmem => (not_mark_of_camel _ _ _ _ hmem).2 rfl

theorem keys_from_entries {members : List (String × String)} (h : ∀ m ∈ members, ':' ∉ m.1.toList) :
    keysFrom (.key []) ((", ".intercalate (members.map entryOf)).toList ++ [' ', '\x7d']) =
      members.map fun m => m.1.toList := by
  induction members with
  | nil => decide
  | cons m members ih =>
      rw [List.forall_mem_cons] at h
      have hentry (rest : List Char) : keysFrom (.key []) ((entryOf m).toList ++ rest) =
          m.1.toList :: keysFrom .value rest := by
        have hvalue : keysFrom .value (' ' :: (Json.quoteChars m.2.toList ++ rest)) =
            keysFrom .value rest := keys_from_quote _ _
        rw [entryOf, String.toList_append, String.toList_append, Json.quote, String.toList_ofList,
          String.toList_ofList, List.append_assoc, List.append_assoc, ← hvalue]
        exact keys_from_key h.1 [] _
      rw [List.map_cons, List.map_cons]
      by_cases hmore : members = []
      · subst hmore
        rw [List.map_nil, List.map_nil, String.intercalate_singleton, hentry]
        rfl
      · have hcomma : ", ".toList = [',', ' '] := rfl
        rw [String.intercalate_cons_of_ne_nil (by simpa using hmore), String.toList_append,
          String.toList_append, hcomma, List.append_assoc, List.append_assoc, hentry, ← ih h.2]
        rfl

/-- The members of an object literal have the keys of the properties. -/
theorem members_of_entries {declarations entries : List String}
    (h : declarations.mapM styleEntry? = some entries) : ∃ members : List (String × String),
      entries = members.map entryOf ∧ (∀ m ∈ members, ':' ∉ m.1.toList) ∧
      members.map (·.1) = (declarations.filterMap fun declaration =>
        (splitOnce? declaration ":").map fun split => trim split.1).map keyOf := by
  rw [funext style_entry_eq, map_option_map] at h
  obtain ⟨members, hmembers, rfl⟩ := Option.map_eq_some_iff.mp h
  refine ⟨members, rfl, fun m hm => ?_, ?_⟩
  · obtain ⟨declaration, -, hkeyed⟩ := mem_of_map_option hmembers m hm
    exact colon_not_mem_key hkeyed
  · rw [← filter_map_of_map_option hmembers, List.map_filterMap, List.map_filterMap]
    refine List.filterMap_congr fun declaration _ => ?_
    simp only [keyed?, Option.map_map, Function.comp_def]

/-- An object literal of members. -/
def objectOf (members : List (String × String)) : String :=
  "\x7b " ++ ", ".intercalate (members.map entryOf) ++ " \x7d"

/-- The members of an object literal have the keys for the properties of the style text, in their
order. -/
theorem members_of_style {style object : String} (h : styleObject? style = some object) :
    ∃ members, object = objectOf members ∧ (∀ m ∈ members, ':' ∉ m.1.toList) ∧
      members.map (·.1) = (propertiesOf style).map keyOf := by
  unfold styleObject? at h
  obtain ⟨entries, hentries, hobject⟩ := Option.bind_eq_some_iff.mp h
  obtain ⟨members, rfl, hcolons, hkeys⟩ := members_of_entries hentries
  cases hobject
  exact ⟨members, rfl, hcolons, hkeys⟩

/-- The keys of an object literal are those for the properties of the style text, in their order. -/
theorem keys_of_object {style object : String} (h : styleObject? style = some object) :
    keysOf object = (propertiesOf style).map fun property => (keyOf property).toList := by
  obtain ⟨members, rfl, hcolons, hkeys⟩ := members_of_style h
  have hread := keys_from_entries hcolons
  have hmap : (members.map fun m => m.1.toList) = (members.map (·.1)).map String.toList := by
    rw [List.map_map]
    rfl
  rw [hmap, hkeys, List.map_map] at hread
  rw [keysOf, objectOf, String.toList_append, String.toList_append]
  exact hread

/-- Whether a property becomes a key: it is quoted, or an identifier, or it can pass for quoted. -/
def KeyFits (IsQuoted : List Char → Prop) (property : String) : Prop :=
  startsWith property "--" ∨ IsIdentifier (lettersOf property.toList) ∨
    IsQuoted (camelCase property).toList

theorem key_iff {IsQuoted : List Char → Prop} (hquoted : ∀ s, IsQuoted (Json.quote s).toList)
    (property : String) :
    IsIdentifier (keyOf property).toList ∨ IsQuoted (keyOf property).toList ↔
      KeyFits IsQuoted property := by
  rw [keyOf, KeyFits]
  split
  · rename_i hcustom
    exact iff_of_true (.inr (hquoted property)) (.inl hcustom)
  · rename_i hplain
    rw [or_iff_right hplain, camelCase, String.toList_ofList, identifier_camel_iff]

end Keys

/-- Whether attributes, as they are read, have names that JSX can have, and keys that a script can
have in each object literal. -/
def AreNamed (IsQuoted : List Char → Prop) (attributes : Meanings) : Prop :=
  ∀ a ∈ attributes, IsAttributeName a.1.toList ∧
    ∀ object, a.2 = .code object → ∀ key ∈ keysOf object, IsIdentifier key ∨ IsQuoted key

/-- Whether an attribute of the source is written under a name, or with keys, that can be had. -/
def Fits (IsQuoted : List Char → Prop) (a : Attribute) : Prop :=
  match style? a with
  | some _ => ∀ property ∈ propertiesOf a.value, KeyFits IsQuoted property
  | none => NameFits a.name

theorem named_iff {IsQuoted : List Char → Prop} (hquoted : ∀ s, IsQuoted (Json.quote s).toList)
    (tag : Tag) : AreNamed IsQuoted (meanings tag) ↔ ∀ a ∈ tag.attributes, Fits IsQuoted a := by
  rw [AreNamed, meanings, List.forall_mem_map]
  refine forall₂_congr fun a _ => ?_
  unfold meant Fits
  cases hstyle : style? a with
  | none =>
      simp only [reduceCtorEq, false_imp_iff, implies_true, and_true]
      exact attribute_name_iff a.name
  | some object =>
      have hname : IsAttributeName "style".toList := ⟨'s', _, rfl, by decide +kernel⟩
      simp only [Meaning.code.injEq, forall_eq', keys_of_object (object_of_style hstyle),
        List.forall_mem_map, key_iff hquoted]
      exact and_iff_right hname

section Deciding

/-- What begins like a string of a script. -/
def IsStringLike (cs : List Char) : Prop :=
  cs.head? = some '"' ∨ cs.head? = some '\''

instance (cs : List Char) : Decidable (IsStringLike cs) :=
  inferInstanceAs (Decidable (_ ∨ _))

instance (property : String) : Decidable (KeyFits IsStringLike property) :=
  inferInstanceAs (Decidable (_ ∨ _ ∨ _))

instance (name : String) : Decidable (NameFits name) := by
  unfold NameFits
  infer_instance

instance (a : Attribute) :
    Decidable (∀ property ∈ propertiesOf a.value, KeyFits IsStringLike property) :=
  List.decidableBAll _ _

instance (a : Attribute) : Decidable (Fits IsStringLike a) :=
  decidable_of_iff (((style? a).isNone → NameFits a.name) ∧ ((style? a).isSome →
      ∀ property ∈ propertiesOf a.value, KeyFits IsStringLike property)) <| by
    unfold Fits
    cases style? a <;> simp

end Deciding

/-- The names in converted markup. JSX is spelled from the pieces of the root element; the
attributes in these have names that JSX can have, and object literals with keys that are identifiers
or quoted, just if every attribute of the source fits. What counts as quoted can be anything that
what is quoted here is. -/
theorem written_names_iff {IsQuoted : List Char → Prop}
    (hquoted : ∀ s, IsQuoted (Json.quote s).toList) {markup : String} {doc : Document}
    (h : Document.parse markup = .ok doc) (indent : Nat) :
    ∃ tag children, doc.root? = some (tag, children) ∧
      let pieces := laid indent 0 (.element tag children)
      convert indent markup = .ok (String.ofList (spellAll pieces)) ∧
      ((∀ t ∈ pieces.filterMap Piece.tag?, AreNamed IsQuoted t.2) ↔
        ∀ t ∈ (Node.element tag children).tags, ∀ a ∈ t.attributes, Fits IsQuoted a) := by
  obtain ⟨tag, children, hroot, hconvert⟩ := convert_pieces h indent
  refine ⟨tag, children, hroot, hconvert, ?_⟩
  rw [← tags_of_items (items_laid indent 0 _), tags_arranged, List.forall_mem_map]
  exact forall₂_congr fun t _ => named_iff hquoted t

/-- Names with hyphens and colons, a custom property and an ordinary one. -/
theorem written_names_drawing :
    let markup := "<svg data-view='x' xlink:href='#a'>" ++
      "<path class='b' style='--w: 1; fill-rule: evenodd'/></svg>"
    let doc : Document := ⟨[.element ⟨"svg", [⟨"data-view", "x"⟩, ⟨"xlink:href", "#a"⟩]⟩
      [.element ⟨"path", [⟨"class", "b"⟩, ⟨"style", "--w: 1; fill-rule: evenodd"⟩]⟩ []]]⟩
    Document.parse markup = .ok doc ∧ (∀ t ∈ doc.tags, ∀ a ∈ t.attributes, Fits IsStringLike a) ∧
      ∃ tag children, doc.root? = some (tag, children) ∧
        let pieces := laid 2 0 (.element tag children)
        convert 2 markup = .ok (String.ofList (spellAll pieces)) ∧
        ((∀ t ∈ pieces.filterMap Piece.tag?, AreNamed IsStringLike t.2) ↔
          ∀ t ∈ (Node.element tag children).tags, ∀ a ∈ t.attributes, Fits IsStringLike a) := by
  intro markup doc
  have hparse : Document.parse markup = .ok doc := by decide +kernel
  have hquoted (s : String) : IsStringLike (Json.quote s).toList := by
    rw [Json.quote, String.toList_ofList]
    exact .inl rfl
  exact ⟨hparse, by decide +kernel, written_names_iff hquoted hparse 2⟩

/-- A property with an asterisk in front, as some browsers read it, is written as a key as it is. -/
theorem property_not_key :
    let markup := "<svg><path style=\"*zoom: 1\"/></svg>"
    convert 2 markup = .ok "<svg>\n  <path style=\x7b\x7b *zoom: \"1\" \x7d\x7d />\n</svg>" ∧
      keysOf "\x7b *zoom: \"1\" \x7d" = ["*zoom".toList] ∧
      ¬ IsIdentifier "*zoom".toList ∧ ¬ IsStringLike "*zoom".toList := by
  decide +kernel

end SvgPress.Jsx
