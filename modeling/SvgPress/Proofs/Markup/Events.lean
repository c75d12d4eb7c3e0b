import SvgPress.Proofs.Markup.Reread

namespace SvgPress

open Markup

/-- No name of the tag holds a quotation mark. -/
def Tag.IsUnquoted (tag : Tag) : Prop :=
  ∀ name ∈ tag.name :: tag.attributes.map (·.name), '"' ∉ name.toList ∧ '\'' ∉ name.toList

namespace Markup

theorem span_of_drop_while {p : Char → Bool} {cs : List Char} {c : Char} {rest : List Char}
    (h : cs.dropWhile p = c :: rest) :
    cs = cs.takeWhile p ++ c :: rest ∧ (∀ d ∈ cs.takeWhile p, p d) ∧ p c = false := by
  refine ⟨?_, ?_, ?_⟩
  · rw [← h, List.takeWhile_append_dropWhile]
  · exact List.all_eq_true.mp List.all_takeWhile
  · have hhead := List.head?_dropWhile_not p cs
    rw [h] at hhead
    simpa using hhead

/-- The text of an attribute and of what follows it, put together from the cuts at which it is
read. -/
theorem attribute_text {cs more value body rest : List Char} {first mark quote : Char}
    (hkey : cs.dropWhile isSpace = first :: more)
    (hequals : (more.dropWhile fun c => c != '=' && !isSpace c).dropWhile isSpace = '=' :: value)
    (hvalue : value.dropWhile isSpace = quote :: body)
    (hrest : body.dropWhile (· != quote) = mark :: rest) :
    cs = cs.takeWhile isSpace ++ ((first :: more.takeWhile fun c => c != '=' && !isSpace c) ++
      (((more.dropWhile fun c => c != '=' && !isSpace c).takeWhile isSpace ++
        '=' :: value.takeWhile isSpace) ++
      quote :: (body.takeWhile (· != quote) ++ quote :: rest))) := by
  obtain ⟨hbody, -, hmark⟩ := span_of_drop_while hrest
  obtain rfl : mark = quote := by simpa using hmark
  have hmore : more = (more.takeWhile fun c => c != '=' && !isSpace c) ++
      more.dropWhile fun c => c != '=' && !isSpace c := List.takeWhile_append_dropWhile.symm
  have hbehind := (span_of_drop_while hvalue).1.trans (congrArg (_ ++ mark :: ·) hbody)
  have hgaps := (span_of_drop_while hequals).1.trans (congrArg (_ ++ '=' :: ·) hbehind)
  have hkeys := hmore.trans (congrArg (_ ++ ·) hgaps)
  refine ((span_of_drop_while hkey).1.trans (congrArg (_ ++ first :: ·) hkeys)).trans ?_
  simp only [List.append_assoc, List.cons_append]

theorem key_char {cs : List Char} {c : Char}
    (h : c ∈ cs.takeWhile fun c => c != '=' && !isSpace c) : c ≠ '=' ∧ isSpace c = false := by
  simpa using List.all_eq_true.mp
    (List.all_takeWhile (p := fun c => c != '=' && !isSpace c) (l := cs)) c h

/-- Between the name of an attribute and its value stand white space and the sign. -/
theorem gap_char {before after : List Char} {c : Char}
    (h : c ∈ before.takeWhile isSpace ++ '=' :: after.takeWhile isSpace) :
    c = '=' ∨ isSpace c := by
  have hspace (cs : List Char) : ∀ d ∈ cs.takeWhile isSpace, isSpace d :=
    List.all_eq_true.mp List.all_takeWhile
  rcases List.mem_append.mp h with h | h
  · exact .inr (hspace before c h)
  · rcases List.mem_cons.mp h with rfl | h
    · exact .inl rfl
    · exact .inr (hspace after c h)

/-- The attributes that are read from a text: none of white space alone, and otherwise those of the
text behind the first one. -/
theorem attributes_from_ok {position : Nat} {seen : List (List Char × Nat)} {cs : List Char}
    {attributes : Attributes} (h : attributesFrom position seen cs = .ok attributes) :
    (attributes = [] ∧ ∀ c ∈ cs, isSpace c) ∨
      ∃ blanks first more gap value quote rest next start others,
        cs = blanks ++ ((first :: more) ++ (gap ++ quote :: (value ++ quote :: rest))) ∧
        (∀ c ∈ blanks, isSpace c) ∧ isSpace first = false ∧
        (∀ c ∈ more, c ≠ '=' ∧ isSpace c = false) ∧
        (∀ c ∈ gap, c = '=' ∨ isSpace c) ∧ (quote = '"' ∨ quote = '\'') ∧ quote ∉ value ∧
        seen.lookup (first :: more) = none ∧
        attributes = ⟨String.ofList (first :: more), Entity.decodeValue value⟩ :: others ∧
        attributesFrom next ((first :: more, start) :: seen) rest = .ok others := by
  rw [attributesFrom] at h
  -- every way out of the reader but one is a fault
  split at h
  · rename_i hblank
    cases h
    have hcs := List.takeWhile_append_dropWhile (p := isSpace) (l := cs)
    rw [hblank, List.append_nil] at hcs
    exact .inl ⟨rfl, hcs ▸ List.all_eq_true.mp List.all_takeWhile⟩
  rename_i first more hkey
  dsimp only at h
  split at h
  · cases h
  rename_i e value hequals
  split at h
  · cases h
  rename_i he
  split at h
  · cases h
  rename_i hseen
  split at h
  · cases h
  rename_i quote body hvalue
  split at h
  · cases h
  rename_i hquote
  split at h
  · cases h
  rename_i mark rest hrest
  obtain rfl : e = '=' := by simpa using he
  cases hothers : attributesFrom _ _ rest with
  | error fault =>
      rw [hothers] at h
      cases h
  | ok others =>
      rw [hothers] at h
      cases h
      obtain ⟨-, hblanks, hfirst⟩ := span_of_drop_while hkey
      obtain ⟨-, hinside, -⟩ := span_of_drop_while hrest
      have hmark : quote = '"' ∨ quote = '\'' := by
        by_cases hdouble : quote = '"'
        · exact .inl hdouble
        · exact .inr (by simpa [hdouble] using hquote)
      have hopen : quote ∉ body.takeWhile (· != quote) := fun hmem => by
        simpa using hinside quote hmem
      exact .inr ⟨_, first, _, _, _, quote, rest, _, _, others,
        attribute_text hkey hequals hvalue hrest, hblanks, hfirst, fun c => key_char,
        fun c => gap_char, hmark, hopen, hseen, rfl, hothers⟩

theorem passes_append_iff {cs ds : List Char} (hcs : Passes cs) :
    Passes (cs ++ ds) ↔ Passes ds := by
  rw [Passes, quote_after_append, hcs]
  rfl

/-- Where no quotation mark opened, a tag that has not ended holds no `>`. -/
theorem passes_of_append {cs ds : List Char} (h : Passes (cs ++ ds))
    (hquote : '"' ∉ cs ∧ '\'' ∉ cs) : (∀ c ∈ cs, c ≠ '>') ∧ Passes ds := by
  induction cs with
  | nil => exact ⟨by simp, h⟩
  | cons c cs ih =>
      obtain ⟨⟨hdouble, hdoubles⟩, hsingle, hsingles⟩ :
          (c ≠ '"' ∧ '"' ∉ cs) ∧ c ≠ '\'' ∧ '\'' ∉ cs := by
        simpa [not_or, eq_comm] using hquote
      have hend : c ≠ '>' := by
        rintro rfl
        simp [Passes, quote_after_outside] at h
      have hopen : ¬ (c = '"' ∨ c = '\'') := by
        rintro (rfl | rfl)
        · exact hdouble rfl
        · exact hsingle rfl
      rw [List.cons_append, Passes, quote_after_outside, if_neg hend, if_neg hopen] at h
      obtain ⟨hall, hrest⟩ := ih h ⟨hdoubles, hsingles⟩
      exact ⟨by simpa [hend] using hall, hrest⟩

theorem space_ne {c : Char} (h : isSpace c) : c ≠ '"' ∧ c ≠ '\'' ∧ c ≠ '>' := by
  simp only [isSpace, Bool.or_eq_true, beq_iff_eq] at h
  rcases h with ((rfl | rfl) | rfl) | rfl <;> decide

/-- A name that ends before a sign of equality or a space, and has no quotation mark. -/
theorem plain_key_of_ends {first : Char} {more : List Char} (hfirst : isSpace first = false)
    (hmore : ∀ c ∈ more, c ≠ '=' ∧ isSpace c = false)
    (hquote : '"' ∉ first :: more ∧ '\'' ∉ first :: more) (hend : ∀ c ∈ first :: more, c ≠ '>') :
    isPlainKey (first :: more) := by
  have hpart (c : Char) (hc : c ∈ first :: more) (hspace : isSpace c = false) : isNamePart c := by
    have hne := hend c hc
    have hdouble : c ≠ '"' := fun heq => hquote.1 (heq ▸ hc)
    have hsingle : c ≠ '\'' := fun heq => hquote.2 (heq ▸ hc)
    simp [isNamePart, hspace, hdouble, hsingle, hne]
  rw [isPlainKey, Bool.and_eq_true, List.all_eq_true]
  refine ⟨hpart first List.mem_cons_self hfirst, fun c hc => ?_⟩
  obtain ⟨hequals, hspace⟩ := hmore c hc
  simp [hpart c (List.mem_cons_of_mem first hc) hspace, hequals]

/-- What is known of the names of the attributes of one tag: none stands twice, and they can be read
back unless one of them holds a quotation mark. -/
theorem attributes_from_names {position : Nat} {seen : List (List Char × Nat)} {cs : List Char}
    {attributes : Attributes} (h : attributesFrom position seen cs = .ok attributes) :
    (∀ a ∈ attributes, seen.lookup a.name.toList = none) ∧ (attributes.map (·.name)).Nodup ∧
      (Passes cs → (∀ a ∈ attributes, '"' ∉ a.name.toList ∧ '\'' ∉ a.name.toList) →
        ∀ a ∈ attributes, isPlainKey a.name.toList) := by
  induction hlength : cs.length using Nat.strongRecOn generalizing position seen cs attributes with
  | ind n ih =>
      rcases attributes_from_ok h with ⟨rfl, -⟩ |
        ⟨blanks, first, more, gap, value, quote, rest, next, start, others, hcs, hblanks, hfirst,
          hmore, hgap, hquote, hvalue, hseen, rfl, hothers⟩
      · simp
      · have hshorter : rest.length < n := by
          rw [← hlength, hcs]
          simp only [List.length_append, List.length_cons]
          omega
        obtain ⟨hfresh, hdistinct, hplain⟩ := ih _ hshorter hothers rfl
        have hlookup (b : Attribute) (hb : b ∈ others) :
            b.name.toList ≠ first :: more ∧ seen.lookup b.name.toList = none := by
          have hfree := hfresh b hb
          rw [List.lookup_cons] at hfree
          split at hfree
          · cases hfree
          · rename_i hne
            exact ⟨by simpa using hne, hfree⟩
        refine ⟨?_, ?_, ?_⟩
        · intro b hb
          rcases List.mem_cons.mp hb with rfl | hb
          · simpa using hseen
          · exact (hlookup b hb).2
        · rw [List.map_cons, List.nodup_cons]
          refine ⟨?_, hdistinct⟩
          intro hmem
          obtain ⟨b, hb, hname⟩ := List.mem_map.mp hmem
          exact (hlookup b hb).1 (by simp [hname])
        · intro hpasses hunquoted
          have hkey := hunquoted _ List.mem_cons_self
          rw [String.toList_ofList] at hkey
          have hgaps (c : Char) (hc : c ∈ gap) : c ≠ '"' ∧ c ≠ '\'' ∧ c ≠ '>' := by
            rcases hgap c hc with rfl | hspace
            · decide
            · exact space_ne hspace
          rw [hcs,
            passes_append_iff (passes_of_plain fun c hc => space_ne (hblanks c hc))] at hpasses
          obtain ⟨hend, hpasses⟩ := passes_of_append hpasses hkey
          rw [passes_append_iff (passes_of_plain hgaps), passes_quoted hquote hvalue] at hpasses
          have hothers := hplain hpasses fun b hb => hunquoted b (List.mem_cons_of_mem _ hb)
          intro b hb
          rcases List.mem_cons.mp hb with rfl | hb
          · rw [String.toList_ofList]
            exact plain_key_of_ends hfirst hmore hkey hend
          · exact hothers b hb

/-- Only a quotation mark is ever open. -/
theorem quote_after_mark {quote : Option Char} (hquote : ∀ q ∈ quote, q = '"' ∨ q = '\'')
    {cs : List Char} {after : Option Char} (h : quoteAfter quote cs = some after) :
    ∀ q ∈ after, q = '"' ∨ q = '\'' := by
  induction cs generalizing quote with
  | nil =>
      obtain rfl : quote = after := by simpa [quote_after_nil] using h
      exact hquote
  | cons c cs ih =>
      cases quote with
      | some q =>
          refine ih ?_ h
          intro p hp
          split at hp
          · cases hp
          · obtain rfl : q = p := by simpa using hp
            exact hquote q rfl
      | none =>
          rw [quote_after_outside] at h
          split at h
          · cases h
          · refine ih ?_ h
            intro p hp
            split at hp
            · rename_i hc
              obtain rfl : c = p := by simpa using hp
              exact hc
            · cases hp

theorem passes_tag_body {content : List Char} (h : Passes content) : Passes (tagBody content) := by
  unfold tagBody
  split
  · rename_i hlast
    obtain ⟨front, rfl⟩ := List.getLast?_eq_some_iff.mp hlast
    rw [List.dropLast_concat]
    rw [Passes, quote_after_append] at h
    cases hafter : quoteAfter none front with
    | none => simp [hafter] at h
    | some after =>
        cases after with
        | none => exact hafter
        | some q =>
            have hmark := quote_after_mark (by simp) hafter q rfl
            have hslash : '/' ≠ q := by
              rcases hmark with rfl | rfl <;> decide
            simp [hafter, quote_after_inside, quote_after_nil, hslash] at h
  · exact h

/-- What is known of a tag that was read. -/
theorem tag_of_body {cs content rest : List Char} {attributes : Attributes}
    (hcut : tagContent? none cs = some (content, rest))
    (hhead : ∀ c ∈ cs.head?, c ∉ ['!', '?', '/'])
    (hattributes : tagAttributes (tagBody content) = .ok attributes) :
    (attributes.map (·.name)).Nodup ∧
      (Tag.IsUnquoted ⟨String.ofList (tagName (tagBody content)), attributes⟩ →
        Tag.IsPlain ⟨String.ofList (tagName (tagBody content)), attributes⟩) := by
  obtain ⟨rfl, hpasses⟩ := tag_content_iff.mp hcut
  obtain ⟨-, hdistinct, hkeys⟩ := attributes_from_names hattributes
  refine ⟨hdistinct, fun hunquoted => ?_⟩
  have hbody : tagBody content = tagName (tagBody content) ++
      (tagBody content).dropWhile (!isSpace ·) := List.takeWhile_append_dropWhile.symm
  have hbodyPasses := passes_tag_body hpasses
  rw [hbody] at hbodyPasses
  have hname := hunquoted _ List.mem_cons_self
  rw [String.toList_ofList] at hname
  obtain ⟨hend, hmore⟩ := passes_of_append hbodyPasses hname
  refine ⟨?_, ?_, hdistinct⟩
  · rw [String.toList_ofList, isPlainName, Bool.and_eq_true, List.all_eq_true]
    constructor
    · intro c hc
      have hspace := List.all_eq_true.mp
        (List.all_takeWhile (p := (!isSpace ·)) (l := tagBody content)) c hc
      have hdouble : c ≠ '"' := fun heq => hname.1 (heq ▸ hc)
      have hsingle : c ≠ '\'' := fun heq => hname.2 (heq ▸ hc)
      have hne := hend c hc
      simpa [isNamePart, hdouble, hsingle, hne] using hspace
    · cases hfirst : tagName (tagBody content) with
      | nil => rfl
      | cons c more =>
          have hcontent : content.head? = some c := by
            rw [hfirst] at hbody
            unfold tagBody at hbody
            split at hbody
            · have hfront := List.dropLast_prefix content
              rw [hbody] at hfront
              obtain ⟨after, hafter⟩ := hfront
              rw [← hafter]
              rfl
            · rw [hbody]
              rfl
          have hc : c ∈ (content ++ '>' :: rest).head? := by
            rw [List.head?_append, hcontent]
            rfl
          simpa using hhead c hc
  · exact hkeys hmore fun a ha => hunquoted _ (List.mem_cons_of_mem _ (List.mem_map_of_mem ha))

/-! ### Leaves that were read -/

theorem blank_ne_bracket {c : Char} (h : Text.isBlank c) : c ≠ '<' ∧ c ≠ '>' := by
  constructor <;> (rintro rfl; simp [Text.isBlank] at h)

theorem nesting_trim {cs : List Char} (h : nesting 0 cs = some 0) :
    nesting 0 (Text.trimChars cs) = some 0 := by
  obtain ⟨front, back, hsplit, hfront, hback⟩ := Text.trim_chars_split cs
  rw [hsplit, nesting_append, nesting_of_no_bracket fun c hc => blank_ne_bracket (hfront c hc),
    Option.bind_some, nesting_append] at h
  cases hinner : nesting 0 (Text.trimChars cs) with
  | none => simp [hinner] at h
  | some depth =>
      rw [hinner, Option.bind_some,
        nesting_of_no_bracket fun c hc => blank_ne_bracket (hback c hc)] at h
      exact h

/-- A doctype that was read: trimmed, and with its brackets matched. It can be empty, since more
characters are trimmed than are looked for before its name. -/
theorem doctype_of_content {content : List Char} (hnesting : nesting 0 content = some 0)
    (hkeyword : (content.take 8).map Char.toUpper = "!DOCTYPE".toList) :
    let s := Text.trim (String.ofList ((content.drop 8).dropWhile isSpace))
    Text.IsTrimmed s.toList ∧ nesting 0 s.toList = some 0 := by
  have hmark : ∀ c ∈ content.take 8, c ≠ '<' ∧ c ≠ '>' := by
    intro c hc
    have hupper : c.toUpper ∈ "!DOCTYPE".toList := hkeyword ▸ List.mem_map_of_mem hc
    constructor <;> (rintro rfl; revert hupper; decide)
  have hspace : ∀ c ∈ (content.drop 8).takeWhile isSpace, c ≠ '<' ∧ c ≠ '>' := by
    intro c hc
    exact blank_ne_bracket (is_blank_of_is_space (List.all_eq_true.mp List.all_takeWhile c hc))
  rw [← List.take_append_drop 8 content, nesting_append, nesting_of_no_bracket hmark,
    Option.bind_some, ← List.takeWhile_append_dropWhile (p := isSpace) (l := content.drop 8),
    nesting_append, nesting_of_no_bracket hspace, Option.bind_some] at hnesting
  intro s
  have hs : s.toList = Text.trimChars ((content.drop 8).dropWhile isSpace) := by
    simp [s]
  rw [hs]
  exact ⟨Text.is_trimmed_trim_chars _, nesting_trim hnesting⟩

/-- What is known of a leaf that was read: it can be read back, unless it is an empty doctype. -/
def IsReadLeaf (kind : LeafKind) (s : String) : Prop :=
  (IsReadable kind s.toList ∧ (kind = .text → s ≠ "")) ∨ (kind = .doctype ∧ s = "")

end Markup

/-- What is known of an event that was read. -/
def Event.IsSound : Event → Prop
  | .start name (.ok attributes) | .empty name (.ok attributes) =>
    (attributes.map (·.name)).Nodup ∧
      (Tag.IsUnquoted ⟨name, attributes⟩ → Tag.IsPlain ⟨name, attributes⟩)
  | .leaf .doctype s => IsReadLeaf .doctype (Text.trim s)
  | .leaf kind s => IsReadLeaf kind s
  | .start _ (.error _) | .empty _ (.error _) | .close _ | .reference _ => True

section Sound

variable {opened : List String} {cs rest : List Char} {step : Step cs}

theorem cdata_sound (h : cdata opened cs = .ok step) : step.event.IsSound := by
  obtain ⟨content, hcut, hevent, -⟩ := cdata_ok h
  rw [hevent]
  refine .inl ⟨?_, by simp⟩
  have hinfix := not_infix_of_cut_at (by decide) hcut
  rw [IsReadable, String.toList_ofList (l := content)]
  exact fun hcontent => hinfix (hcontent.trans (List.suffix_append _ content).isInfix)

theorem comment_sound (h : comment opened cs = .ok step) : step.event.IsSound := by
  obtain ⟨content, hcut, hevent, -⟩ := comment_ok h
  rw [hevent]
  refine .inl ⟨?_, by simp⟩
  rw [IsReadable, String.toList_ofList (l := content)]
  exact not_infix_of_cut_at (by decide) hcut

theorem doctype_sound (h : doctype opened cs = .ok step) : step.event.IsSound := by
  obtain ⟨content, hcut, hkeyword, hevent, -⟩ := doctype_ok h
  rw [hevent]
  obtain ⟨htrimmed, hnesting⟩ := doctype_of_content (doctype_content_iff.mp hcut).2 hkeyword
  rw [Event.IsSound]
  generalize Text.trim (String.ofList ((content.drop 8).dropWhile isSpace)) = s at *
  by_cases hs : s = ""
  · exact .inr ⟨rfl, hs⟩
  · exact .inl ⟨⟨by simpa using hs, htrimmed, hnesting⟩, by simp⟩

theorem instruction_sound {step : Step ('?' :: rest)}
    (h : instruction opened ('?' :: rest) = .ok step) : step.event.IsSound := by
  obtain ⟨mark, content, hcut, hevent, -⟩ := instruction_ok h
  rw [hevent]
  have hinfix := not_infix_of_cut_at (by decide) hcut
  obtain ⟨rfl, hrest⟩ := List.cons_eq_cons.mp (cutAt?_eq hcut)
  have hclosed : ¬ "?>".toList <:+: content := fun hcontent =>
    hinfix (hcontent.trans (List.suffix_cons '?' content).isInfix)
  have hhead : content.head? ≠ some '>' := by
    intro hhead
    obtain ⟨more, rfl⟩ := List.head?_eq_some_iff.mp hhead
    exact hinfix ⟨[], more, rfl⟩
  cases hdeclares : declares content with
  | true => exact .inl ⟨⟨by simpa using hdeclares, by simpa using hclosed⟩, by simp⟩
  | false =>
      exact .inl ⟨⟨by simpa using hdeclares, by simpa using hhead, by simpa using hclosed⟩,
        by simp⟩

theorem end_tag_sound (h : endTag opened cs = .ok step) : step.event.IsSound := by
  obtain ⟨content, hcut, hevent, -⟩ := end_tag_ok h
  rw [hevent]
  trivial

theorem start_tag_sound {c : Char} (hc : c ∉ ['!', '?', '/']) {step : Step (c :: rest)}
    (h : startTag opened (c :: rest) = .ok step) : step.event.IsSound := by
  obtain ⟨content, hcut, ⟨-, hevent, -⟩ | ⟨-, hevent, -⟩⟩ := start_tag_ok h
  · rw [hevent]
    cases hattributes : tagAttributes (tagBody content) with
    | error fault => trivial
    | ok attributes => exact tag_of_body hcut (by simpa using hc) hattributes
  · rw [hevent]
    cases hattributes : tagAttributes (tagBody content) with
    | error fault => trivial
    | ok attributes => exact tag_of_body hcut (by simpa using hc) hattributes

theorem markup_sound (h : markup opened cs = .ok step) : step.event.IsSound := by
  obtain ⟨rest, rfl, h⟩ | ⟨rest, rfl, h⟩ | ⟨c, rest, rfl, h⟩ | ⟨rest, rfl, h⟩ | ⟨rest, rfl, h⟩ |
    ⟨c, rest, rfl, hc, h⟩ := markup_ok h
  · exact cdata_sound h
  · exact comment_sound h
  · exact doctype_sound h
  · exact instruction_sound h
  · exact end_tag_sound h
  · exact start_tag_sound hc h

end Sound

theorem read_from_sound (p : Nat) (opened : List String) (cs : List Char) :
    ∀ event ∈ (readFrom p opened cs).events, event.IsSound := by
  have hcons {event : Event} {reading : Reading} (hevent : event.IsSound)
      (hreading : ∀ other ∈ reading.events, other.IsSound) :
      ∀ other ∈ (reading.cons event).events, other.IsSound := by
    intro other hother
    rcases List.mem_cons.mp hother with rfl | hother
    · exact hevent
    · exact hreading other hother
  induction p, opened, cs using readFrom.induct with
  | case1 p opened =>
      simp [readFrom, Reading.done]
  | case2 p opened rest distance fault hmarkup =>
      rw [readFrom]
      simp [hmarkup, Reading.stopped]
  | case3 p opened rest step hmarkup ih =>
      rw [readFrom]
      simp only [hmarkup, if_true]
      exact hcons (markup_sound hmarkup) ih
  | case4 p opened rest hname hne =>
      rw [readFrom, if_neg hne, if_pos rfl]
      split
      · simp [Reading.stopped]
      · simp_all
  | case5 p opened rest name after hname hne ih =>
      rw [readFrom, if_neg hne, if_pos rfl]
      split
      · simp_all
      · rename_i name' after' hname'
        obtain ⟨rfl, rfl⟩ : name = name' ∧ after = after' := by simpa [hname] using hname'
        exact hcons trivial ih
  | case6 p opened c rest hlt hamp text ih =>
      rw [readFrom, if_neg hlt, if_neg hamp]
      refine hcons (.inl ⟨trivial, fun _ => ?_⟩) ih
      rw [Ne, ← String.toList_inj]
      simp

/-- Every event of a text is sound. -/
theorem read_sound (source : String) : ∀ event ∈ (Markup.read source).events, event.IsSound := by
  unfold Markup.read
  split <;> exact read_from_sound _ _ _

end SvgPress
