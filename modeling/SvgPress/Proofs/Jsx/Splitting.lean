import SvgPress.Json.Decoder
import SvgPress.Proofs.Jsx.WrittenNames
import SvgPress.Proofs.Text.Spacing

/-!
A style text and its parts. It is cut at semicolons, and joining the parts with semicolons gives it
back. Whether a semicolon is a cut hangs on the text in front of it alone: that has to end outside
of quotes, and what of it is outside of quotes must leave no parenthesis open. What a scanner knows
behind a text is just that, so the state of the scan is carried along as the whole of what has been
read, and each cut of the text is one of the list of parts. The object literal that is made of the
parts has a member for each of them that is not blank.
-/

namespace SvgPress.Jsx

open Text

/-! ### Outside of quotes and parentheses -/

/-- What of a text stands outside of quotes, if no quotation mark is open at its end. A quoted part
goes from a mark to the next one of its kind. -/
inductive Unquoted : List Char → List Char → Prop
  | nil : Unquoted [] []
  | plain {c : Char} {cs bare : List Char} : c ≠ '"' → c ≠ '\'' → Unquoted cs bare →
      Unquoted (c :: cs) (c :: bare)
  | quoted {mark : Char} {inner cs bare : List Char} : mark = '"' ∨ mark = '\'' → mark ∉ inner →
      Unquoted cs bare → Unquoted (mark :: (inner ++ mark :: cs)) bare

/-- How many parentheses are open after one more character. One that closes none does not count. -/
def openAfter (depth : Nat) (c : Char) : Nat :=
  if c = '(' then depth + 1 else if c = ')' then depth - 1 else depth

/-- Whether a text ends outside of quotes, with no parenthesis open. -/
def EndsOutside (cs : List Char) : Prop :=
  ∃ bare, Unquoted cs bare ∧ bare.foldl openAfter 0 = 0

section Scanning

variable {cs bare : List Char} {depth depth' : Nat} {mark c : Char}

theorem next_plain (hdouble : c ≠ '"') (hsingle : c ≠ '\'') :
    Scan.next (.plain depth) c = .plain (openAfter depth c) := by
  rw [Scan.next, if_neg (not_or.mpr ⟨hdouble, hsingle⟩), openAfter]
  split_ifs <;> rfl

theorem next_mark (h : mark = '"' ∨ mark = '\'') :
    Scan.next (.plain depth) mark = .quoted mark depth := by
  rw [Scan.next, if_pos h]

/-- Inside of quotes nothing changes before the mark. -/
theorem scan_inner (h : mark ∉ cs) :
    cs.foldl Scan.next (.quoted mark depth) = .quoted mark depth := by
  induction cs with
  | nil => rfl
  | cons c cs ih =>
      rw [List.mem_cons, not_or] at h
      rw [List.foldl_cons, Scan.next, if_neg (Ne.symm h.1), ih h.2]

theorem scan_quoted (hmark : mark = '"' ∨ mark = '\'') {inner : List Char} (hinner : mark ∉ inner)
    (cs : List Char) : (mark :: (inner ++ mark :: cs)).foldl Scan.next (.plain depth) =
      cs.foldl Scan.next (.plain depth) := by
  rw [List.foldl_cons, next_mark hmark, List.foldl_append, scan_inner hinner, List.foldl_cons,
    Scan.next, if_pos rfl]

theorem scan_of_unquoted (h : Unquoted cs bare) (depth : Nat) :
    cs.foldl Scan.next (.plain depth) = .plain (bare.foldl openAfter depth) := by
  induction h generalizing depth with
  | nil => rfl
  | plain hdouble hsingle _ ih =>
      rw [List.foldl_cons, next_plain hdouble hsingle, ih, List.foldl_cons]
  | quoted hmark hinner _ ih => rw [scan_quoted hmark hinner, ih]

/-- A scan that ends outside of quotes has read whole quoted parts only. -/
theorem unquoted_of_scan (h : cs.foldl Scan.next (.plain depth) = .plain depth') :
    ∃ bare, Unquoted cs bare := by
  induction hlength : cs.length using Nat.strongRecOn generalizing cs depth with
  | ind n ih =>
      subst hlength
      cases cs with
      | nil => exact ⟨[], .nil⟩
      | cons c cs =>
          by_cases hmark : c = '"' ∨ c = '\''
          · by_cases hclosed : c ∈ cs
            · obtain ⟨inner, rest, rfl, hinner⟩ := List.eq_append_cons_of_mem hclosed
              rw [scan_quoted hmark hinner] at h
              obtain ⟨bare, hbare⟩ := ih rest.length (by simp; omega) h rfl
              exact ⟨bare, .quoted hmark hinner hbare⟩
            · rw [List.foldl_cons, next_mark hmark, scan_inner hclosed] at h
              cases h
          · rw [not_or] at hmark
            rw [List.foldl_cons, next_plain hmark.1 hmark.2] at h
            obtain ⟨bare, hbare⟩ := ih cs.length (Nat.lt_succ_self _) h rfl
            exact ⟨c :: bare, .plain hmark.1 hmark.2 hbare⟩

theorem scan_eq_plain_iff : cs.foldl Scan.next (.plain 0) = .plain 0 ↔ EndsOutside cs := by
  constructor
  · intro h
    obtain ⟨bare, hbare⟩ := unquoted_of_scan h
    rw [scan_of_unquoted hbare, Scan.plain.injEq] at h
    exact ⟨bare, hbare, h⟩
  · rintro ⟨bare, hbare, hdepth⟩
    rw [scan_of_unquoted hbare, hdepth]

end Scanning

/-! ### Cuts -/

section Cuts

variable {s : Scan} {cs front back : List Char}

theorem declarations_from_ne_nil (s : Scan) (cs : List Char) : declarationsFrom s cs ≠ [] := by
  cases cs with
  | nil => exact List.cons_ne_nil _ _
  | cons c cs =>
      rw [declarationsFrom]
      split
      · exact List.cons_ne_nil _ _
      · split
        · exact List.cons_ne_nil _ _
        · exact List.cons_ne_nil _ _

theorem declarations_from_cut (cs : List Char) :
    declarationsFrom (.plain 0) (';' :: cs) = [] :: declarationsFrom (.plain 0) cs := by
  rw [declarationsFrom, if_pos ⟨rfl, rfl⟩]

/-- A character is a cut, or it begins the first part. -/
theorem declarations_from_cons (s : Scan) (c : Char) (cs : List Char) :
    c = ';' ∧ s = .plain 0 ∧ declarationsFrom s (c :: cs) = [] :: declarationsFrom s cs ∨
      ¬ (c = ';' ∧ s = .plain 0) ∧ ∃ part parts, declarationsFrom (s.next c) cs = part :: parts ∧
        declarationsFrom s (c :: cs) = (c :: part) :: parts := by
  by_cases hcut : c = ';' ∧ s = .plain 0
  · obtain ⟨rfl, rfl⟩ := hcut
    exact .inl ⟨rfl, rfl, declarations_from_cut cs⟩
  · obtain ⟨part, parts, hparts⟩ :=
      List.exists_cons_of_ne_nil (declarations_from_ne_nil (s.next c) cs)
    refine .inr ⟨hcut, part, parts, hparts, ?_⟩
    rw [declarationsFrom, if_neg hcut, hparts]

theorem intercalate_cons_head (mark : List Char) (c : Char) (part : List Char)
    (parts : List (List Char)) :
    mark.intercalate ((c :: part) :: parts) = c :: mark.intercalate (part :: parts) := by
  cases parts with
  | nil => rw [List.intercalate_singleton, List.intercalate_singleton]
  | cons next parts => rw [List.intercalate_cons_cons, List.intercalate_cons_cons]; rfl

theorem intercalate_declarations_from (s : Scan) (cs : List Char) :
    [';'].intercalate (declarationsFrom s cs) = cs := by
  induction cs generalizing s with
  | nil => rfl
  | cons c cs ih =>
      rcases declarations_from_cons s c cs with ⟨rfl, -, hcut⟩ | ⟨-, part, parts, hparts, hjoined⟩
      · rw [hcut, List.intercalate_cons_of_ne_nil (declarations_from_ne_nil s cs), ih]
        rfl
      · rw [hjoined, intercalate_cons_head, ← hparts, ih]

/-- At a semicolon that is a cut the parts are those of both sides. -/
theorem declarations_from_append (h : front.foldl Scan.next s = .plain 0) (back : List Char) :
    declarationsFrom s (front ++ ';' :: back) =
      declarationsFrom s front ++ declarationsFrom (.plain 0) back := by
  induction front generalizing s with
  | nil =>
      obtain rfl : s = .plain 0 := h
      rw [List.nil_append, declarations_from_cut]
      rfl
  | cons c front ih =>
      rw [List.foldl_cons] at h
      rw [List.cons_append]
      rcases declarations_from_cons s c front with
        ⟨rfl, rfl, hcut⟩ | ⟨hnot, part, parts, hparts, hjoined⟩
      · have hnext : Scan.next (.plain 0) ';' = .plain 0 := rfl
        rw [hnext] at h
        rw [hcut, declarations_from_cut, ih h, List.cons_append]
      · rw [hjoined, declarationsFrom, if_neg hnot, ih h, hparts]
        rfl

/-- Where the list of parts is divided, there is a cut. -/
theorem outside_of_divided {before after : List (List Char)} (hbefore : before ≠ [])
    (hafter : after ≠ []) (h : declarationsFrom s cs = before ++ after) :
    ([';'].intercalate before).foldl Scan.next s = .plain 0 := by
  induction cs generalizing s before with
  | nil =>
      have hlength := congrArg List.length h
      rw [declarationsFrom, List.length_append, List.length_singleton] at hlength
      have := List.length_pos_iff.mpr hbefore
      have := List.length_pos_iff.mpr hafter
      omega
  | cons c cs ih =>
      obtain ⟨first, others, rfl⟩ := List.exists_cons_of_ne_nil hbefore
      rcases declarations_from_cons s c cs with
        ⟨rfl, rfl, hcut⟩ | ⟨hnot, part, parts, hparts, hjoined⟩
      · rw [hcut, List.cons_append] at h
        obtain ⟨rfl, hrest⟩ := List.cons_eq_cons.mp h
        by_cases hothers : others = []
        · subst hothers
          rfl
        · rw [List.intercalate_cons_of_ne_nil hothers]
          exact ih hothers hrest
      · rw [hjoined, List.cons_append] at h
        obtain ⟨rfl, rfl⟩ := List.cons_eq_cons.mp h
        rw [intercalate_cons_head]
        exact ih (List.cons_ne_nil _ _) hparts

theorem to_list_declarations (style : String) :
    (declarations style).map String.toList = declarationsFrom (.plain 0) style.toList := by
  rw [declarations, List.map_map]
  simp [Function.comp_def]

theorem join_declarations (style : String) : ";".intercalate (declarations style) = style := by
  apply String.toList_injective
  rw [String.toList_intercalate, to_list_declarations]
  exact intercalate_declarations_from _ _

/-- The text can be divided at a semicolon just where the list of its parts can be divided. -/
theorem divided_iff {style front back : String} :
    style = front ++ ";" ++ back ∧ EndsOutside front.toList ↔
      ∃ before after, before ≠ [] ∧ after ≠ [] ∧ declarations style = before ++ after ∧
        ";".intercalate before = front ∧ ";".intercalate after = back := by
  constructor
  · rintro ⟨rfl, houtside⟩
    refine ⟨declarations front, declarations back, ?_, ?_, ?_, join_declarations front,
      join_declarations back⟩
    · exact List.map_eq_nil_iff.not.mpr (declarations_from_ne_nil _ _)
    · exact List.map_eq_nil_iff.not.mpr (declarations_from_ne_nil _ _)
    · have hchars : (front ++ ";" ++ back).toList = front.toList ++ ';' :: back.toList := by simp
      rw [declarations, hchars, declarations_from_append (scan_eq_plain_iff.mpr houtside),
        List.map_append]
      rfl
  · rintro ⟨before, after, hbefore, hafter, hparts, rfl, rfl⟩
    constructor
    · rw [← String.intercalate_append_of_ne_nil hbefore hafter, ← hparts, join_declarations]
    · rw [← scan_eq_plain_iff, String.toList_intercalate]
      have hdivided : declarationsFrom (.plain 0) style.toList =
          before.map String.toList ++ after.map String.toList := by
        rw [← to_list_declarations, hparts, List.map_append]
      exact outside_of_divided (by simpa using hbefore) (by simpa using hafter) hdivided

end Cuts

/-! ### Members -/

section Members

variable {s : String}

theorem split_colon_eq_none_iff : splitOnce? s ":" = none ↔ ':' ∉ s.toList := by
  constructor
  · intro h hmem
    obtain ⟨front, back, hsplit, hfront⟩ := List.eq_append_cons_of_mem hmem
    have hsome : splitOnce? s ":" = some (String.ofList front, String.ofList back) := by
      rw [split_colon_iff]
      exact ⟨String.toList_injective (by simp [hsplit]), by simpa using hfront⟩
    rw [h] at hsome
    cases hsome
  · intro h
    rw [Option.eq_none_iff_forall_ne_some]
    rintro ⟨property, value⟩ hsome
    obtain ⟨rfl, -⟩ := split_colon_iff.mp hsome
    exact h (by simp)

/-- A part may be trimmed before it is divided at its first colon, or its two sides after that. -/
theorem split_trim (part : String) :
    (splitOnce? (trim part) ":").map (fun split => (trim split.1, trim split.2)) =
      (splitOnce? part ":").map fun split => (trim split.1, trim split.2) := by
  obtain ⟨front, back, hpart, hfront, hback⟩ := trim_chars_split part.toList
  rw [← to_list_trim] at hpart
  have hblank : ∀ c, isBlank c → c ≠ ':' := by
    rintro c hc rfl
    exact absurd hc (by decide)
  cases hsplit : splitOnce? (trim part) ":" with
  | none =>
      have hnone : splitOnce? part ":" = none := by
        rw [split_colon_eq_none_iff] at hsplit ⊢
        rw [hpart, List.mem_append, List.mem_append]
        rintro (hmem | hmem | hmem)
        · exact hblank _ (hfront _ hmem) rfl
        · exact hsplit hmem
        · exact hblank _ (hback _ hmem) rfl
      rw [hnone]
  | some split =>
      obtain ⟨property, value⟩ := split
      obtain ⟨htrim, hnot⟩ := split_colon_iff.mp hsplit
      have hsome : splitOnce? part ":" =
          some (String.ofList front ++ property, value ++ String.ofList back) := by
        rw [split_colon_iff]
        constructor
        · apply String.toList_injective
          rw [hpart, htrim]
          simp
        · rw [String.toList_append, String.toList_ofList, List.mem_append]
          rintro (hmem | hmem)
          · exact hblank _ (hfront _ hmem) rfl
          · exact hnot hmem
      have hnone : ∀ c ∈ ([] : List Char), isBlank c := by simp
      have hproperty := trim_chars_padded hfront hnone property.toList
      have hvalue := trim_chars_padded hnone hback value.toList
      rw [List.append_nil] at hproperty
      rw [List.nil_append] at hvalue
      rw [hsome, Option.map_some, Option.map_some]
      refine congrArg some (Prod.ext (String.toList_injective ?_) (String.toList_injective ?_))
      · simp only [to_list_trim, String.toList_append, String.toList_ofList, hproperty]
      · simp only [to_list_trim, String.toList_append, String.toList_ofList, hvalue]

/-- A member of an object literal, by its key and its value as they are written. -/
structure Member where
  key : String
  literal : String

/-- A member as a text. -/
def Member.text (member : Member) : String :=
  member.key ++ ": " ++ member.literal

/-- Whether a member is that of a part of a style text: its key is made of what stands before the
first colon, and its value reads as what stands behind, both without white space around them. -/
def IsMemberOf (part : String) (member : Member) : Prop :=
  ∃ property value, part = property ++ ":" ++ value ∧ ':' ∉ property.toList ∧
    member.key = keyOf (trim property) ∧
    Json.decode Json.Decoder.string member.literal = .ok (trim value)

/-- The parts of a style text that hold more than white space. -/
def inkedParts (style : String) : List String :=
  (declarations style).filter fun part => !isBlankText part

theorem trim_is_empty (part : String) : (trim part).isEmpty = isBlankText part := by
  rw [Bool.eq_iff_iff, String.isEmpty_iff, isBlankText, List.all_eq_true, ← trim_chars_eq_nil_iff,
    ← to_list_trim, String.toList_eq_nil_iff]

theorem style_entry_trim (part : String) : styleEntry? (trim part) = (keyed? part).map entryOf := by
  have hsplit := congrArg (Option.map fun split => (keyOf split.1, split.2)) (split_trim part)
  rw [Option.map_map, Option.map_map] at hsplit
  rw [style_entry_eq, keyed?, keyed?]
  exact congrArg (Option.map entryOf) hsplit

/-- The object literal of a style text, without the detour over trimmed parts. -/
theorem style_object_eq (style : String) : styleObject? style =
    ((inkedParts style).mapM keyed?).map fun pairs =>
      "\x7b " ++ ", ".intercalate (pairs.map entryOf) ++ " \x7d" := by
  have hparts : ((declarations style).map trim).filter (!·.isEmpty) =
      (inkedParts style).map trim := by
    rw [List.filter_map, inkedParts]
    refine congrArg (List.map trim) (List.filter_congr fun part _ => ?_)
    rw [Function.comp_apply, trim_is_empty]
  have hentries : ((inkedParts style).map trim).mapM styleEntry? =
      ((inkedParts style).mapM keyed?).map (List.map entryOf) := by
    rw [List.mapM_map, ← map_option_map]
    exact congrArg (List.mapM · (inkedParts style)) (funext style_entry_trim)
  rw [styleObject?, hparts, hentries]
  cases (inkedParts style).mapM keyed? <;> rfl

/-- The member that is written for a key and a value. -/
def memberOf (pair : String × String) : Member :=
  ⟨pair.1, Json.quote pair.2⟩

theorem is_member_of_keyed {part : String} {pair : String × String} (h : keyed? part = some pair) :
    IsMemberOf part (memberOf pair) := by
  obtain ⟨property, value, hsplit, hkey, hvalue⟩ := keyed_eq_some h
  obtain ⟨hpart, hnot⟩ := split_colon_iff.mp hsplit
  refine ⟨property, value, hpart, hnot, hkey, ?_⟩
  rw [memberOf, hvalue, Json.decode_quote]

theorem keyed_isSome_iff (part : String) : (keyed? part).isSome ↔ ':' ∈ part.toList := by
  rw [keyed?, Option.isSome_map, ← Option.ne_none_iff_isSome, Ne, split_colon_eq_none_iff,
    Classical.not_not]

end Members

/-- A style text is cut at the semicolons that stand outside of quotes and parentheses, and nothing
is lost. It becomes an object literal exactly if all parts but the blank ones have a colon, and then
the literal has one member for each of these in their order, with what stands behind the first colon
as the value. -/
theorem style_parts (style : String) :
    ";".intercalate (declarations style) = style ∧
    (∀ front back, style = front ++ ";" ++ back ∧ EndsOutside front.toList ↔
      ∃ before after, before ≠ [] ∧ after ≠ [] ∧ declarations style = before ++ after ∧
        ";".intercalate before = front ∧ ";".intercalate after = back) ∧
    ((styleObject? style).isSome ↔
      ∀ part ∈ declarations style, isBlankText part = false → ':' ∈ part.toList) ∧
    ∀ object, styleObject? style = some object → ∃ members : List Member,
      List.Forall₂ IsMemberOf (inkedParts style) members ∧
      object = "\x7b " ++ ", ".intercalate (members.map Member.text) ++ " \x7d" ∧
      keysOf object = members.map (·.key.toList) := by
  refine ⟨join_declarations style, fun _ _ => divided_iff, ?_, fun object hobject => ?_⟩
  · rw [style_object_eq, Option.isSome_map, map_option_isSome_iff]
    simp only [keyed_isSome_iff, inkedParts, List.mem_filter, Bool.not_eq_true', and_imp]
  · rw [style_object_eq] at hobject
    obtain ⟨pairs, hpairs, rfl⟩ := Option.map_eq_some_iff.mp hobject
    have hkeyed := map_option_eq_some_iff.mp hpairs
    refine ⟨pairs.map memberOf, ?_, ?_, ?_⟩
    · rw [List.forall₂_map_right_iff]
      exact hkeyed.imp fun _ _ => is_member_of_keyed
    · rw [List.map_map]
      rfl
    · have hcolons : ∀ pair ∈ pairs, ':' ∉ pair.1.toList := by
        intro pair hpair
        obtain ⟨part, -, hpart⟩ := mem_of_map_option hpairs pair hpair
        exact colon_not_mem_key hpart
      rw [List.map_map, keysOf, String.toList_append, String.toList_append]
      exact keys_from_entries hcolons

theorem style_parts_image :
    declarations "fill:red; background: url(data:image/png;base64,AA)" =
      ["fill:red", " background: url(data:image/png;base64,AA)"] ∧
    EndsOutside "fill:red".toList ∧
    ¬ EndsOutside "fill:red; background: url(data:image/png".toList ∧
    styleObject? "fill:red; background: url(data:image/png;base64,AA)" =
      some "\x7b fill: \"red\", background: \"url(data:image/png;base64,AA)\" \x7d" ∧
    ∃ members : List Member,
      List.Forall₂ IsMemberOf
        (inkedParts "fill:red; background: url(data:image/png;base64,AA)") members ∧
      members.map (·.key.toList) = ["fill".toList, "background".toList] := by
  have hparts : declarations "fill:red; background: url(data:image/png;base64,AA)" =
      ["fill:red", " background: url(data:image/png;base64,AA)"] := by
    decide +kernel
  have hobject : styleObject? "fill:red; background: url(data:image/png;base64,AA)" =
      some "\x7b fill: \"red\", background: \"url(data:image/png;base64,AA)\" \x7d" := by
    decide +kernel
  obtain ⟨-, hcuts, -, hmembers⟩ :=
    style_parts "fill:red; background: url(data:image/png;base64,AA)"
  obtain ⟨members, hmember, -, hkeys⟩ := hmembers _ hobject
  refine ⟨hparts, ?_, ?_, hobject, members, hmember, ?_⟩
  · exact ((hcuts "fill:red" " background: url(data:image/png;base64,AA)").mpr
      ⟨["fill:red"], [" background: url(data:image/png;base64,AA)"], by simp, by simp, hparts,
        by decide +kernel, by decide +kernel⟩).2
  · rw [← scan_eq_plain_iff]
    decide +kernel
  · rw [← hkeys]
    decide +kernel

end SvgPress.Jsx
