import SvgPress.Markup.Printer
import SvgPress.Proofs.Markup.Escapes
import SvgPress.Proofs.Text.Trim

/-!
Tags written and read. A tag whose names hold nothing that ends a name or a tag, and no quotation
mark that would hide the end of the tag, is read back as it was written: the reader's search for
`>` outside quotes stops at the end of the tag, and its scan of the attributes gives every name
and every value. Names are asked for no more than that, so a name that XML allows is one of them.
-/

namespace SvgPress

namespace Markup

/-- Whether a character neither ends a name nor ends the tag nor hides its end. -/
def isNamePart (c : Char) : Bool :=
  !isSpace c && c != '"' && c != '\'' && c != '>'

/-- Whether a text can stand as the name of an element. The first character must not make other
markup of the tag. -/
def isPlainName (cs : List Char) : Bool :=
  cs.all isNamePart && cs.head?.all fun c => !(['!', '?', '/'].contains c)

/-- Whether a text can stand as the name of an attribute. -/
def isPlainKey : List Char → Bool
  | [] => false
  | c :: cs => isNamePart c && cs.all fun d => isNamePart d && d != '='

theorem plain_key_cons {c : Char} {cs : List Char} (h : isPlainKey (c :: cs)) :
    isNamePart c ∧ ∀ d ∈ cs, isNamePart d ∧ d ≠ '=' := by
  simpa [isPlainKey] using h

theorem plain_key_part {cs : List Char} (h : isPlainKey cs) : ∀ c ∈ cs, isNamePart c := by
  cases cs with
  | nil => simp
  | cons c cs =>
      obtain ⟨hfirst, hmore⟩ := plain_key_cons h
      intro d hd
      rcases List.mem_cons.mp hd with rfl | hd
      · exact hfirst
      · exact (hmore d hd).1

theorem name_part_ne {c : Char} (h : isNamePart c) : c ≠ '"' ∧ c ≠ '\'' ∧ c ≠ '>' := by
  simp only [isNamePart, Bool.and_eq_true, bne_iff_ne, ne_eq] at h
  exact ⟨h.1.1.2, h.1.2, h.2⟩

theorem name_part_not_space {c : Char} (h : isNamePart c) : isSpace c = false := by
  simp only [isNamePart, Bool.and_eq_true, Bool.not_eq_true'] at h
  exact h.1.1.1

/-- The quotation mark that is open after a text, if the text did not end the tag. -/
def quoteAfter : Option Char → List Char → Option (Option Char)
  | quote, [] => some quote
  | some q, c :: cs => quoteAfter (if c = q then none else some q) cs
  | none, c :: cs =>
    if c = '>' then none else quoteAfter (if c = '"' ∨ c = '\'' then some c else none) cs

theorem quote_after_nil (quote : Option Char) : quoteAfter quote [] = some quote := by
  cases quote <;> rfl

theorem quote_after_inside (q c : Char) (cs : List Char) :
    quoteAfter (some q) (c :: cs) = quoteAfter (if c = q then none else some q) cs := rfl

theorem quote_after_outside (c : Char) (cs : List Char) :
    quoteAfter none (c :: cs) =
      if c = '>' then none
      else quoteAfter (if c = '"' ∨ c = '\'' then some c else none) cs := rfl

theorem quote_after_append (quote : Option Char) (cs ds : List Char) :
    quoteAfter quote (cs ++ ds) = (quoteAfter quote cs).bind (quoteAfter · ds) := by
  induction cs generalizing quote with
  | nil => simp [quote_after_nil]
  | cons c cs ih =>
      cases quote with
      | some q => simp only [List.cons_append, quote_after_inside, ih]
      | none =>
          simp only [List.cons_append, quote_after_outside, ih]
          split <;> rfl

theorem add_front_eq_some_iff {c : Char} {found : Option (List Char × List Char)}
    {content rest : List Char} :
    found.map (tagContent?.addFront c) = some (content, rest) ↔
      ∃ more, content = c :: more ∧ found = some (more, rest) := by
  constructor
  · intro h
    obtain ⟨⟨more, after⟩, hfound, hpair⟩ := Option.map_eq_some_iff.mp h
    obtain ⟨rfl, rfl⟩ : c :: more = content ∧ after = rest := by
      simpa [tagContent?.addFront] using hpair
    exact ⟨more, rfl, hfound⟩
  · rintro ⟨more, rfl, rfl⟩
    rfl

/-- A tag ends at the first `>` outside quotes. -/
theorem tag_content_iff {quote : Option Char} {cs content rest : List Char} :
    tagContent? quote cs = some (content, rest) ↔
      cs = content ++ '>' :: rest ∧ quoteAfter quote content = some none := by
  induction cs generalizing quote content rest with
  | nil => simp [tagContent?]
  | cons c cs ih =>
      cases quote with
      | some q =>
          rw [tagContent?, add_front_eq_some_iff]
          constructor
          · rintro ⟨more, rfl, hmore⟩
            obtain ⟨rfl, hquote⟩ := ih.mp hmore
            exact ⟨rfl, hquote⟩
          · rintro ⟨hcs, hquote⟩
            cases content with
            | nil => simp [quote_after_nil] at hquote
            | cons d more =>
                obtain ⟨rfl, rfl⟩ := List.cons_eq_cons.mp hcs
                exact ⟨more, rfl, ih.mpr ⟨rfl, hquote⟩⟩
      | none =>
          by_cases hend : c = '>'
          · subst hend
            rw [tagContent?]
            simp only [if_true, Option.some.injEq, Prod.mk.injEq]
            constructor
            · rintro ⟨rfl, rfl⟩
              exact ⟨rfl, rfl⟩
            · rintro ⟨hcs, hquote⟩
              cases content with
              | nil => exact ⟨rfl, (List.cons_eq_cons.mp hcs).2⟩
              | cons d more =>
                  obtain ⟨rfl, -⟩ := List.cons_eq_cons.mp hcs
                  simp [quote_after_outside] at hquote
          · rw [tagContent?]
            simp only [if_neg hend]
            rw [add_front_eq_some_iff]
            constructor
            · rintro ⟨more, rfl, hmore⟩
              obtain ⟨rfl, hquote⟩ := ih.mp hmore
              exact ⟨rfl, by rw [quote_after_outside, if_neg hend]; exact hquote⟩
            · rintro ⟨hcs, hquote⟩
              cases content with
              | nil => exact absurd (List.cons_eq_cons.mp hcs).1 hend
              | cons d more =>
                  obtain ⟨rfl, rfl⟩ := List.cons_eq_cons.mp hcs
                  rw [quote_after_outside, if_neg hend] at hquote
                  exact ⟨more, rfl, ih.mpr ⟨rfl, hquote⟩⟩

/-- A text with which the search for the end of a tag is through, having found no end in it and
having left no quotation mark open. -/
def Passes (cs : List Char) : Prop :=
  quoteAfter none cs = some none

theorem passes_nil : Passes [] := rfl

theorem Passes.append {cs ds : List Char} (hcs : Passes cs) (hds : Passes ds) :
    Passes (cs ++ ds) := by
  rw [Passes, quote_after_append, hcs]
  exact hds

theorem passes_of_plain {cs : List Char} (h : ∀ c ∈ cs, c ≠ '"' ∧ c ≠ '\'' ∧ c ≠ '>') :
    Passes cs := by
  induction cs with
  | nil => exact passes_nil
  | cons c cs ih =>
      obtain ⟨hdouble, hsingle, hend⟩ := h c List.mem_cons_self
      have hquote : ¬ (c = '"' ∨ c = '\'') := by
        rintro (rfl | rfl)
        · exact hdouble rfl
        · exact hsingle rfl
      rw [Passes, quote_after_outside, if_neg hend, if_neg hquote]
      exact ih fun d hd => h d (List.mem_cons_of_mem c hd)

/-- Inside quotes the search goes on to the quotation mark that closes them. -/
theorem quote_after_quoted {q : Char} {cs : List Char} (h : q ∉ cs) (rest : List Char) :
    quoteAfter (some q) (cs ++ q :: rest) = quoteAfter none rest := by
  induction cs with
  | nil => rw [List.nil_append, quote_after_inside, if_pos rfl]
  | cons c cs ih =>
      have hc : c ≠ q := fun heq => h (heq ▸ List.mem_cons_self)
      rw [List.cons_append, quote_after_inside, if_neg hc]
      exact ih fun hq => h (List.mem_cons_of_mem c hq)

theorem passes_quoted {q : Char} (hq : q = '"' ∨ q = '\'') {cs : List Char} (h : q ∉ cs)
    (rest : List Char) : Passes (q :: (cs ++ q :: rest)) ↔ Passes rest := by
  have hend : q ≠ '>' := by
    rcases hq with rfl | rfl <;> decide
  rw [Passes, quote_after_outside, if_neg hend, if_pos hq, quote_after_quoted h, Passes]

theorem Passes.tag_content {cs : List Char} (h : Passes cs) (rest : List Char) :
    tagContent? none (cs ++ '>' :: rest) = some (cs, rest) :=
  tag_content_iff.mpr ⟨rfl, h⟩

/-! ### The attributes of a tag -/

/-- The first attribute of a list: its key up to an equals sign, its value in quotes. -/
theorem attributes_from_cons {position : Nat} {seen : List (List Char × Nat)}
    {cs more value body rest : List Char} (first quote : Char)
    (hkey : cs.dropWhile isSpace = first :: more)
    (hequals : (more.dropWhile fun c => c != '=' && !isSpace c).dropWhile isSpace = '=' :: value)
    (hseen : seen.lookup (first :: more.takeWhile fun c => c != '=' && !isSpace c) = none)
    (hvalue : value.dropWhile isSpace = quote :: body) (hquote : quote = '"' ∨ quote = '\'')
    (hrest : body.dropWhile (· != quote) = quote :: rest) :
    let size := position + Text.byteLength cs
    let key := first :: more.takeWhile fun c => c != '=' && !isSpace c
    attributesFrom position seen cs =
      (attributesFrom (size - Text.byteLength rest)
        ((key, size - Text.byteLength (first :: more)) :: seen) rest).map
        (⟨String.ofList key, Entity.decodeValue (body.takeWhile (· != quote))⟩ :: ·) := by
  have hmark : (quote != '"' && quote != '\'') = false := by
    rcases hquote with rfl | rfl <;> decide
  intro size key
  rw [attributesFrom]
  split
  · simp_all
  · rename_i first' more' hkey'
    obtain ⟨rfl, rfl⟩ : first = first' ∧ more = more' := by simpa [hkey] using hkey'
    split
    · simp_all
    · rename_i e value' hequals'
      obtain ⟨rfl, rfl⟩ : '=' = e ∧ value = value' := by simpa [hequals] using hequals'
      simp only [bne_self_eq_false, Bool.false_eq_true, if_false, hseen]
      split
      · simp_all
      · rename_i quote' body' hvalue'
        obtain ⟨rfl, rfl⟩ : quote = quote' ∧ body = body' := by simpa [hvalue] using hvalue'
        simp only [hmark, Bool.false_eq_true, if_false]
        split
        · simp_all
        · rename_i mark rest' hrest'
          obtain ⟨-, rfl⟩ : quote = mark ∧ rest = rest' := by simpa [hrest] using hrest'
          rfl

/-- Text read up to where a class of characters ends. -/
theorem span_exact (p : Char → Bool) (cs rest : List Char) (hin : ∀ c ∈ cs, p c)
    (hout : ∀ c ∈ rest.head?, p c = false) :
    (cs ++ rest).takeWhile p = cs ∧ (cs ++ rest).dropWhile p = rest := by
  rw [List.takeWhile_append_of_pos hin, List.dropWhile_append_of_pos hin]
  cases rest with
  | nil => simp
  | cons c rest => simp [hout c rfl]

end Markup

theorem Attribute.to_list_write (a : Attribute) :
    a.write.toList =
      ' ' :: (a.name.toList ++
        ('=' :: '"' :: (a.value.toList.flatMap Entity.escapeValueChar ++ ['"']))) := by
  simp [Attribute.write, Entity.escapeValue, String.toList_append]

namespace Markup

/-- A written attribute is read back, and the scan goes on behind it. -/
theorem attributes_from_write_append {a : Attribute} (hkey : isPlainKey a.name.toList)
    (position : Nat) {seen : List (List Char × Nat)} (hseen : seen.lookup a.name.toList = none)
    (others : List Char) :
    ∃ next start, attributesFrom position seen (a.write.toList ++ others) =
      (attributesFrom next ((a.name.toList, start) :: seen) others).map (a :: ·) := by
  cases hname : a.name.toList with
  | nil => simp [hname, isPlainKey] at hkey
  | cons first more =>
      rw [hname] at hkey hseen
      obtain ⟨hfirst, hmore⟩ := plain_key_cons hkey
      have hwritten : a.write.toList ++ others = ' ' :: first :: (more ++ '=' :: '"' ::
          (a.value.toList.flatMap Entity.escapeValueChar ++ '"' :: others)) := by
        simp [Attribute.to_list_write, hname]
      have hkeySpan := span_exact (fun c => c != '=' && !isSpace c) more
        ('=' :: '"' :: (a.value.toList.flatMap Entity.escapeValueChar ++ '"' :: others))
        (fun c hc => by simp [hmore c hc, name_part_not_space (hmore c hc).1]) (by simp)
      have hvalueSpan := span_exact (· != '"')
        (a.value.toList.flatMap Entity.escapeValueChar) ('"' :: others)
        (fun c hc => by
          rw [bne_iff_ne]
          rintro rfl
          exact Entity.not_mem_escape (by simp) _ hc) (by simp)
      have hblank : isSpace ' ' = true := rfl
      have hfirst' : isSpace first = false := name_part_not_space hfirst
      rw [hwritten, attributes_from_cons first '"'
        (by rw [List.dropWhile_cons_of_pos hblank, List.dropWhile_cons_of_neg (by simp [hfirst'])])
        (by rw [hkeySpan.2, List.dropWhile_cons_of_neg (by decide)])
        (by rw [hkeySpan.1]; exact hseen)
        (by rw [List.dropWhile_cons_of_neg (by decide)]) (.inl rfl) hvalueSpan.2]
      rw [hkeySpan.1, hvalueSpan.1, Entity.decode_value_escape, ← hname, String.ofList_toList]
      exact ⟨_, _, rfl⟩

/-- Attributes with different plain names are read as they are written, from any position and after
any attributes of other names. -/
theorem attributes_from_write {attributes : Attributes}
    (hkeys : ∀ a ∈ attributes, isPlainKey a.name.toList)
    (hdistinct : (attributes.map (·.name)).Nodup) (position : Nat)
    {seen : List (List Char × Nat)}
    (hseen : ∀ a ∈ attributes, seen.lookup a.name.toList = none) :
    attributesFrom position seen (attributes.flatMap (·.write.toList)) = .ok attributes := by
  induction attributes generalizing position seen with
  | nil => simp [attributesFrom]
  | cons a attributes ih =>
      obtain ⟨hfresh, hrest⟩ := List.nodup_cons.mp hdistinct
      obtain ⟨next, start, hstep⟩ := attributes_from_write_append (hkeys a List.mem_cons_self)
        position (hseen a List.mem_cons_self) (attributes.flatMap (·.write.toList))
      have hlookup : ∀ b ∈ attributes,
          ((a.name.toList, start) :: seen).lookup b.name.toList = none := by
        intro b hb
        have hne : b.name.toList ≠ a.name.toList := by
          intro heq
          exact hfresh (List.mem_map.mpr ⟨b, hb, String.toList_inj.mp heq⟩)
        rw [List.lookup_cons, beq_false_of_ne hne]
        exact hseen b (List.mem_cons_of_mem a hb)
      rw [List.flatMap_cons, hstep,
        ih (fun b hb => hkeys b (List.mem_cons_of_mem a hb)) hrest next hlookup]
      rfl

end Markup

/-- The names of a tag can be read back, and no attribute stands twice. -/
structure Tag.IsPlain (tag : Tag) : Prop where
  name : Markup.isPlainName tag.name.toList
  keys : ∀ a ∈ tag.attributes, Markup.isPlainKey a.name.toList
  distinct : (tag.attributes.map (·.name)).Nodup

namespace Tag

/-- A start tag as written, without its brackets. -/
def written (tag : Tag) : List Char :=
  tag.name.toList ++ tag.attributes.flatMap (·.write.toList)

theorem to_list_write_opening (tag : Tag) : tag.writeOpening.toList = '<' :: tag.written := by
  simp [writeOpening, written, List.flatMap_map]

theorem to_list_write_closing (tag : Tag) :
    tag.writeClosing.toList = '<' :: '/' :: (tag.name.toList ++ ['>']) := by
  simp [writeClosing]

variable {tag : Tag}

theorem IsPlain.name_part (h : tag.IsPlain) : ∀ c ∈ tag.name.toList, Markup.isNamePart c := by
  have hname := h.name
  simp only [Markup.isPlainName, Bool.and_eq_true, List.all_eq_true] at hname
  exact hname.1

theorem IsPlain.passes_name (h : tag.IsPlain) : Markup.Passes tag.name.toList :=
  Markup.passes_of_plain fun c hc => Markup.name_part_ne (h.name_part c hc)

theorem IsPlain.passes_written (h : tag.IsPlain) : Markup.Passes tag.written := by
  refine h.passes_name.append ?_
  have hkeys := h.keys
  revert hkeys
  induction tag.attributes with
  | nil => exact fun _ => Markup.passes_nil
  | cons a attributes ih =>
      intro hkeys
      rw [List.flatMap_cons]
      refine Markup.Passes.append ?_ (ih fun b hb => hkeys b (List.mem_cons_of_mem a hb))
      have hkey : Markup.Passes (' ' :: (a.name.toList ++ ['='])) := by
        refine Markup.passes_of_plain fun c hc => ?_
        simp only [List.mem_cons, List.mem_append, List.not_mem_nil, or_false] at hc
        rcases hc with rfl | hc | rfl
        · decide
        · exact Markup.name_part_ne (Markup.plain_key_part (hkeys a List.mem_cons_self) c hc)
        · decide
      have hvalue : Markup.Passes
          ('"' :: (a.value.toList.flatMap Entity.escapeValueChar ++ ['"'])) :=
        (Markup.passes_quoted (.inl rfl) (Entity.not_mem_escape (by simp) _) []).mpr
          Markup.passes_nil
      have hsplit : a.write.toList = ' ' :: (a.name.toList ++ ['=']) ++
          '"' :: (a.value.toList.flatMap Entity.escapeValueChar ++ ['"']) := by
        simp [Attribute.to_list_write]
      rw [hsplit]
      exact hkey.append hvalue

end Tag

/-! ### The tags of an element -/

namespace Tag

open Markup

/-- Whether the tag of an element, written with or without content, can be told from other markup. A
name that ends in a slash would make an empty element of a start tag, and nothing at all between
the brackets of an empty element would make an end tag of it. -/
def isLegible (tag : Tag) (children : List Node) : Bool :=
  !tag.attributes.isEmpty ||
    if children.isEmpty then tag.name != "" else tag.name.toList.getLast? != some '/'

variable {tag : Tag}

/-- The first character of a tag as written makes a tag of it. -/
theorem IsPlain.head_written (h : tag.IsPlain) :
    ∀ c ∈ tag.written.head?, c ∉ ['!', '?', '/'] := by
  have hname := h.name
  simp only [isPlainName, Bool.and_eq_true] at hname
  obtain ⟨-, hhead⟩ := hname
  unfold written
  cases hcs : tag.name.toList with
  | nil =>
      cases tag.attributes with
      | nil => simp
      | cons a attributes => simp [Attribute.to_list_write]
  | cons c cs => simpa [hcs] using hhead

/-- A plain tag as written falls apart into its name and its attributes again. -/
theorem IsPlain.span_written (h : tag.IsPlain) :
    tagName tag.written = tag.name.toList ∧ tagAttributes tag.written = .ok tag.attributes := by
  have hspan := span_exact (!isSpace ·) tag.name.toList
    (tag.attributes.flatMap (·.write.toList))
    (fun c hc => by simp [name_part_not_space (h.name_part c hc)])
    (fun c hc => by
      cases hattributes : tag.attributes with
      | nil => simp [hattributes] at hc
      | cons a attributes =>
          simp only [hattributes, Attribute.to_list_write, List.flatMap_cons, List.cons_append,
            List.head?_cons, Option.mem_def, Option.some.injEq] at hc
          subst hc
          rfl)
  refine ⟨hspan.1, ?_⟩
  rw [tagAttributes, written, hspan.2]
  exact attributes_from_write h.keys h.distinct _ fun a _ => rfl

/-- The last character of a tag as written belongs to its name only if there are no attributes. -/
theorem last_written (tag : Tag) (h : tag.written.getLast? = some '/') :
    tag.attributes = [] ∧ tag.name.toList.getLast? = some '/' := by
  rcases List.eq_nil_or_concat tag.attributes with hnil | ⟨attributes, a, hconcat⟩
  · exact ⟨hnil, by simpa [written, hnil] using h⟩
  · simp [written, hconcat, Attribute.to_list_write, List.getLast?_cons] at h

end Tag

namespace Markup

variable (opened : List String) {tag : Tag}

/-- Text that begins like a tag is read as one. -/
theorem markup_start_tag {cs : List Char} (h : ∀ c ∈ cs.head?, c ∉ ['!', '?', '/'])
    (hne : cs ≠ []) :
    markup opened cs = startTag opened cs := by
  obtain ⟨c, more, hcs⟩ := List.exists_cons_of_ne_nil hne
  have hc := h c (by rw [hcs]; rfl)
  simp only [List.mem_cons, List.not_mem_nil, or_false, not_or] at hc
  obtain ⟨hbang, hquestion, hslash⟩ := hc
  unfold markup
  split <;> cases hcs <;> first | rfl | contradiction

/-- The same with the bracket that ends a start tag. -/
theorem head_start (h : tag.IsPlain) (rest : List Char) :
    ∀ c ∈ (tag.written ++ '>' :: rest).head?, c ∉ ['!', '?', '/'] := by
  intro c hc
  cases hwritten : tag.written with
  | nil =>
      rw [hwritten] at hc
      obtain rfl : '>' = c := by simpa using hc
      decide
  | cons d more =>
      refine h.head_written c ?_
      rw [hwritten] at hc ⊢
      exact hc

theorem markup_start (h : tag.IsPlain) (hopen : tag.written.getLast? ≠ some '/')
    (rest : List Char) :
    Takes (markup opened (tag.written ++ '>' :: rest)) (tag.name :: opened)
      (.start tag.name (.ok tag.attributes)) rest := by
  obtain ⟨hname, hattributes⟩ := h.span_written
  have hself : String.ofList tag.name.toList = tag.name := String.ofList_toList
  have htakes := start_tag_takes opened (h.passes_written.tag_content rest) hopen
  rw [markup_start_tag opened (head_start h rest) (by simp)]
  simpa only [hname, hattributes, hself] using htakes

/-- A start tag that ends in a slash is read as an empty element. -/
theorem markup_start_slash (h : tag.IsPlain) (hlast : tag.written.getLast? = some '/') :
    ∃ name attributes, ∀ rest,
      Takes (markup opened (tag.written ++ '>' :: rest)) opened (.empty name attributes) rest := by
  obtain ⟨front, hfront⟩ := List.getLast?_eq_some_iff.mp hlast
  refine ⟨String.ofList (tagName front), tagAttributes front, fun rest => ?_⟩
  have hcut := h.passes_written.tag_content rest
  rw [hfront] at hcut
  rw [markup_start_tag opened (head_start h rest) (by simp), hfront]
  exact empty_tag_takes opened hcut

theorem markup_empty (h : tag.IsPlain) (hne : tag.written ≠ [])
    (rest : List Char) :
    Takes (markup opened (tag.written ++ '/' :: '>' :: rest)) opened
      (.empty tag.name (.ok tag.attributes)) rest := by
  obtain ⟨hname, hattributes⟩ := h.span_written
  have hself : String.ofList tag.name.toList = tag.name := String.ofList_toList
  have hpasses : Passes (tag.written ++ ['/']) :=
    h.passes_written.append (passes_of_plain (by simp))
  rw [markup_start_tag opened _ (by simp)]
  · have hcut : tagContent? none (tag.written ++ '/' :: '>' :: rest) =
        some (tag.written ++ ['/'], rest) := by
      simpa using hpasses.tag_content rest
    have htakes := empty_tag_takes opened hcut
    simpa only [hname, hattributes, hself] using htakes
  · intro c hc
    obtain ⟨d, more, hwritten⟩ := List.exists_cons_of_ne_nil hne
    refine h.head_written c ?_
    rw [hwritten] at hc ⊢
    exact hc

theorem closing_name_plain {cs : List Char} (h : ∀ c ∈ cs, isNamePart c) : closingName cs = cs := by
  unfold closingName
  split
  · rfl
  · rcases List.eq_nil_or_concat cs with rfl | ⟨front, last, rfl⟩
    · rfl
    · rw [List.concat_eq_append] at h ⊢
      exact Text.drop_back_concat_of_not (name_part_not_space (h last (by simp)))

/-- The content of an end tag, behind its slash, is the name of the element. -/
theorem tag_content_end (h : tag.IsPlain) (rest : List Char) :
    tagContent? none ('/' :: (tag.name.toList ++ '>' :: rest)) =
      some ('/' :: tag.name.toList, rest) := by
  have hpasses : Passes ('/' :: tag.name.toList) :=
    Passes.append (passes_of_plain (by simp) : Passes ['/']) h.passes_name
  exact hpasses.tag_content rest

theorem closing_name_written (h : tag.IsPlain) :
    String.ofList (closingName (('/' :: tag.name.toList).drop 1)) = tag.name := by
  rw [List.drop_one, List.tail_cons, closing_name_plain h.name_part, String.ofList_toList]

theorem markup_end (h : tag.IsPlain) (rest : List Char) :
    Takes (markup (tag.name :: opened) ('/' :: (tag.name.toList ++ '>' :: rest))) opened
      (.close tag.name) rest :=
  end_tag_takes opened (tag_content_end h rest) (closing_name_written h)

/-- An end tag closes the innermost open element, and no other. -/
theorem markup_end_opened (h : tag.IsPlain) {rest : List Char}
    {step : Step ('/' :: (tag.name.toList ++ '>' :: rest))}
    (hstep : markup opened ('/' :: (tag.name.toList ++ '>' :: rest)) = .ok step) :
    opened.head? = some tag.name := by
  obtain ⟨content, hcontent, -, hopened⟩ := end_tag_ok hstep
  obtain rfl : '/' :: tag.name.toList = content := by
    have heq := (tag_content_end h rest).symm.trans hcontent
    simp only [Option.some.injEq, Prod.mk.injEq] at heq
    exact heq.1
  rw [hopened, closing_name_written h]
  rfl

end Markup

end SvgPress
