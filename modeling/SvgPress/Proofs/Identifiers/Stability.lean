import SvgPress.Proofs.Identifiers.NewNames
import SvgPress.Proofs.Identifiers.Rewriting

/-!
The cleanup of identifiers applied twice. The second time the search for short names passes over the
same ones in the same order, and a name that has the prefix already keeps it, so every name that is
referred to is given to itself. Names are not always referred to as before, though: a reference that
an unfinished one has swallowed names nothing any more, nor does one to a name that cannot be read.
The next pass then removes the identifier, and the result changes exactly if some name is lost so.
-/

namespace SvgPress.Identifiers

/-- Whether references in a document are to its own identifiers, which are names of the markup
language and may occur more than once. -/
structure IsSelfContained (doc : Document) : Prop where
  name_chars : ∀ id ∈ identifiers doc, ∀ c ∈ id.toList, Markup.isNameChar c
  distinct_names : ∀ tag ∈ doc.tags, (tag.attributes.map (·.name)).Nodup
  own : ∀ name ∈ referenced doc, name ∈ identifiers doc

/-- Whether a reference to an identifier can still be found in an attribute after it was given a
name behind a prefix: a link always, another reference if the name can be read in it and no
unfinished reference stands before it. -/
def StaysFound (lead : String) (a : Attribute) (id : String) : Prop :=
  target? a = some id ∨ (∀ c ∈ lead.toList, Text.isBlank c = false) ∧
    ∃ mention ∈ mentionsIn a.value, mention.2 = id ∧ overruns mention.1 = false

/-- Whether every new name is preserved from then on or is found again. -/
def Policy.FindsAgain (policy : Policy) (doc : Document) : Prop :=
  ∀ id new, (policy.renaming doc).lookup id = some new → new ∈ policy.preserve ∨
    ∃ old, (policy.renaming doc).lookup old = some new ∧
      ∃ tag ∈ doc.tags, ∃ a ∈ tag.attributes, StaysFound policy.namePrefix a old

/-! ### Mentions that are found again -/

/-- A name without parentheses is found in a text that was written anew if it was given to one that
is mentioned there, and not behind an unfinished reference, or if it stood there and was not
renamed. -/
theorem mem_names_render_iff {renames : Renaming} {cs : List Char} {new : String}
    (hnames : ∀ name ∈ namesOf cs, ∀ new, renames.lookup name = some new → IsName new.toList)
    (hopen : '(' ∉ new.toList) :
    new ∈ namesOf (render renames cs) ↔ ∃ mention ∈ mentions (segmentsOf cs),
      renames.lookup mention.2 = some new ∧ overruns mention.1 = false ∨
        renames.lookup mention.2 = none ∧ mention.2 = new := by
  have hfollows := mentions_render hnames
  rw [names_of_eq_mentions, List.mem_map]
  constructor
  · rintro ⟨found, hfound, rfl⟩
    obtain ⟨k, hk⟩ := List.mem_iff_getElem?.mp hfound
    obtain ⟨mention, hmention, hread⟩ := getElem?_of_forall₂ hfollows.flip hk
    refine ⟨mention, List.mem_of_getElem? hmention, ?_⟩
    cases hlookup : renames.lookup mention.2 with
    | none =>
        rw [(mention_follows_none hlookup).mp hread]
        exact .inr ⟨rfl, rfl⟩
    | some name =>
        cases hover : overruns mention.1 with
        | true =>
            obtain ⟨begun, hlost⟩ := (mention_follows_overrun hlookup hover).mp hread
            rw [hlost] at hopen
            exact absurd (by simp) hopen
        | false =>
            rw [(mention_follows_apart hlookup hover).mp hread]
            exact .inl ⟨rfl, rfl⟩
  · rintro ⟨mention, hmention, hread⟩
    obtain ⟨k, hk⟩ := List.mem_iff_getElem?.mp hmention
    obtain ⟨found, hfound, hfollow⟩ := getElem?_of_forall₂ hfollows hk
    refine ⟨found, List.mem_of_getElem? hfound, ?_⟩
    rcases hread with ⟨hlookup, hapart⟩ | ⟨hlookup, rfl⟩
    · rw [(mention_follows_apart hlookup hapart).mp hfollow]
    · rw [(mention_follows_none hlookup).mp hfollow]

/-- A link that holds no reference after references were renamed was there before. -/
theorem target_of_renamed {renames : Renaming} {a : Attribute} {new : String}
    (hopen : '(' ∉ new.toList)
    (h : target? ⟨a.name, renameInValue renames a.value⟩ = some new) : target? a = some new := by
  obtain ⟨hlink, hvalue⟩ : isLink a.name ∧ renameInValue renames a.value = "#" ++ new :=
    target_iff.mp h
  have hnone : ∀ name ∈ namesIn a.value, renames.lookup name = none := by
    intro name hname
    rw [Option.eq_none_iff_forall_ne_some]
    intro found hfound
    obtain ⟨front, back, hrender⟩ := render_of_some hname hfound
    rw [← rename_in_value_eq, hvalue, String.toList_append] at hrender
    have hparen : '(' ∈ "#".toList ++ new.toList := by
      rw [hrender]
      simp
    rcases List.mem_append.mp hparen with hmark | hmem
    · exact absurd hmark (by decide)
    · exact hopen hmem
  rw [rename_in_value_of_none hnone] at hvalue
  exact target_iff.mpr ⟨hlink, hvalue⟩

theorem references_of_stays_found {lead id : String} {a : Attribute}
    (h : StaysFound lead a id) :
    id ∈ references a := by
  rcases h with htarget | ⟨-, mention, hmention, rfl, -⟩
  · exact List.mem_append_right _ (by simp [htarget])
  · refine List.mem_append_left _ ?_
    rw [names_in_eq_mentions]
    exact List.mem_map_of_mem hmention

theorem short_name_xml_char {n : Nat} {c : Char} (h : c ∈ (shortName n).toList) :
    Markup.isNameChar c := by
  have hletters : ∀ c ∈ letters, Markup.isNameChar c := by decide
  exact hletters c (short_name_letters n c h)

/-- A name of the markup language is one that the renaming of references can deal with if it ends as
one that can be read. -/
theorem made_of_end {front name : List Char} (hchars : ∀ c ∈ front ++ name, Markup.isNameChar c)
    (hname : IsName name) : IsMade (front ++ name) := by
  have hsplit : front ++ name = front ++ name.dropLast ++ [name.getLast hname.1] := by
    rw [List.append_assoc, List.dropLast_append_getLast]
  have hplain : ∀ c ∈ front ++ name, c ≠ '\'' ∧ c ≠ '"' ∧ c ≠ ')' ∧ c ≠ '(' :=
    fun c hc => plain_of_name_char (hchars c hc)
  refine ⟨_, _, hsplit, hname.2 _ (List.getLast_mem hname.1), ?_, fun c hc => hplain c ?_⟩
  · exact (hplain _ (List.mem_append_right _ (List.getLast_mem hname.1))).2.2.2
  · rw [hsplit]
    exact List.mem_append_left _ hc

theorem no_paren_of_name_chars {name : String} (h : ∀ c ∈ name.toList, Markup.isNameChar c) :
    '(' ∉ name.toList :=
  fun hmem => (plain_of_name_char (h _ hmem)).2.2.2 rfl

/-- A tag stays under a renaming to the same names if its identifier is in use or preserved. -/
theorem settle_id_eq_self {policy : Policy} {used : List String} {renames : Renaming} {tag : Tag}
    (hsame : ∀ id new, renames.lookup id = some new → new = id)
    (hstays : ∀ id, tag.attribute? "id" = some id → policy.preserves id ∨ id ∈ used) :
    policy.settleId used renames tag = tag := by
  rw [Policy.settleId]
  split
  · rfl
  · rename_i id hid
    split
    · rename_i new hlookup
      rw [hsame id new hlookup, Tag.setAttribute, Attributes.set_eq_self hid]
    · rcases hstays id hid with hkept | hused
      · simp [hkept]
      · simp [hused]

theorem map_values_eq_self {tag : Tag} {f : Attribute → String}
    (h : ∀ a ∈ tag.attributes, f a = a.value) : tag.mapValues f = tag := by
  have hsame : List.map (fun a => { a with value := f a }) tag.attributes = tag.attributes :=
    (List.map_congr_left fun a ha => by rw [h a ha]).trans (List.map_id' _)
  rw [Tag.mapValues, hsame]

/-! ### The document -/

section Document

variable {policy : Policy} {doc : Document} {id new : String}
  (hremove : policy.remove = true) (hexempt : policy.preservePrefixes = [])
  (hlead : ∀ c ∈ policy.namePrefix.toList, Markup.isNameChar c) (hself : IsSelfContained doc)

include hself

theorem IsSelfContained.no_paren (hid : id ∈ identifiers doc) : '(' ∉ id.toList :=
  no_paren_of_name_chars (hself.name_chars id hid)

theorem IsSelfContained.plain (policy : Policy) : (policy.renaming doc).IsPlain :=
  plain_of_no_paren fun _ hhas => hself.no_paren (has_renaming_iff.mp hhas).1

include hexempt in
/-- Whatever is referred to gets a new name, unless it is preserved. -/
theorem IsSelfContained.renamed_of_referenced (hused : id ∈ referenced doc)
    (hfree : id ∉ policy.preserve) : ∃ new, (policy.renaming doc).lookup id = some new := by
  refine has_iff_lookup.mp (has_renaming_iff.mpr ⟨hself.own id hused, replaces_iff.mpr ⟨hused, ?_⟩⟩)
  rw [← Bool.not_eq_true, preserves_iff_mem hexempt]
  exact hfree

include hlead in
theorem IsSelfContained.given_chars (h : (policy.renaming doc).lookup id = some new) :
    ∀ c ∈ new.toList, Markup.isNameChar c := by
  have hid := hself.name_chars id (has_renaming_iff.mp (has_iff_lookup.mpr ⟨new, h⟩)).1
  obtain ⟨rest, rfl, hrest⟩ := given_form h
  rcases hrest with ⟨k, rfl⟩ | rfl | rfl
  · rw [String.toList_append]
    intro c hc
    exact (List.mem_append.mp hc).elim (hlead c) short_name_xml_char
  · rw [String.toList_append]
    intro c hc
    exact (List.mem_append.mp hc).elim (hlead c) (hid c)
  · exact hid

include hlead in
/-- The new name of what is mentioned can be read if the prefix can. -/
theorem IsSelfContained.is_name_given_iff (h : (policy.renaming doc).lookup id = some new)
    (hname : IsName id.toList) :
    IsName new.toList ↔ ∀ c ∈ policy.namePrefix.toList, Text.isBlank c = false := by
  have hchars := hself.given_chars hlead h
  obtain ⟨rest, rfl, hrest⟩ := given_form h
  rw [String.toList_append]
  constructor
  · exact fun hread c hc => name_char_not_blank (hread.2 c (List.mem_append_left _ hc))
  · intro hblank
    have hbegin : ∀ c ∈ policy.namePrefix.toList, isNameChar c :=
      fun c hc => (is_name_char_iff (hlead c hc)).mpr (hblank c hc)
    rw [← String.toList_append]
    rcases hrest with ⟨k, rfl⟩ | rfl | rfl
    · exact (is_name_short_iff _ k).mpr hbegin
    · rw [String.toList_append]
      refine ⟨List.append_ne_nil_of_right_ne_nil _ hname.1, fun c hc => ?_⟩
      exact (List.mem_append.mp hc).elim (hbegin c) (hname.2 c)
    · exact hname

include hlead in
theorem IsSelfContained.made_given (h : (policy.renaming doc).lookup id = some new)
    (hname : IsName id.toList) : IsMade new.toList := by
  have hchars := hself.given_chars hlead h
  obtain ⟨rest, rfl, hrest⟩ := given_form h
  rcases hrest with ⟨k, rfl⟩ | rfl | rfl
  · exact made_of_name_chars hlead k
  · rw [String.toList_append] at hchars ⊢
    exact made_of_end hchars hname
  · have hmade : IsMade ([] ++ (policy.namePrefix ++ rest).toList) := made_of_end hchars hname
    exact hmade

include hlead in
/-- What is left of the identifiers holds no parenthesis. -/
theorem IsSelfContained.new_ids_no_paren
    (hnew : new ∈ policy.newIds (referenced doc) (identifiers doc)) : '(' ∉ new.toList := by
  rcases mem_new_ids_iff.mp hnew with ⟨id, hgiven⟩ | ⟨hid, -, -⟩
  · exact no_paren_of_name_chars (hself.given_chars hlead hgiven)
  · exact hself.no_paren hid

include hlead in
theorem IsSelfContained.attribute_cleaned {tag : Tag} (htag : tag ∈ doc.tags) :
    (settled policy (referenced doc) (policy.renaming doc) tag).attribute? "id" =
      (tag.attribute? "id").bind (newId policy (referenced doc) (policy.renaming doc)) := by
  rw [attribute_settled policy _ _ (hself.distinct_names tag htag)]
  refine (Option.map_congr fun new hnew => rename_in_value_of_no_paren _ ?_).trans Option.map_id'
  obtain ⟨id, hid, hnew⟩ := Option.bind_eq_some_iff.mp hnew
  exact hself.new_ids_no_paren hlead
    (List.mem_filterMap.mpr ⟨id, mem_identifiers htag hid, hnew⟩)

include hlead in
theorem IsSelfContained.identifiers_cleaned : identifiers (policy.cleaned doc) =
    policy.newIds (referenced doc) (identifiers doc) := by
  rw [identifiers, Policy.cleaned, Document.tags_map_tags, List.filterMap_map, Policy.newIds,
    identifiers, List.filterMap_filterMap]
  exact List.filterMap_congr fun tag htag => hself.attribute_cleaned hlead htag

include hlead in
/-- A link to an identifier that is renamed refers to its new name, and to nothing else. -/
theorem IsSelfContained.references_of_link {a : Attribute} (htarget : target? a = some id)
    (hgiven : (policy.renaming doc).lookup id = some new) :
    references ⟨a.name, follow (policy.renaming doc) a⟩ = [new] := by
  have hopen : '(' ∉ new.toList := no_paren_of_name_chars (hself.given_chars hlead hgiven)
  have hlink : target? ⟨a.name, "#" ++ new⟩ = some new :=
    target_iff.mpr ⟨(target_iff.mp htarget).1, rfl⟩
  rw [follow_link (hself.plain policy) htarget hgiven, references, hlink,
    names_in_mark, names_in_eq, names_of_no_paren hopen]
  rfl

include hexempt in
/-- What is referred to in the document and has no new name is none that is given and not
preserved. -/
theorem IsSelfContained.ne_of_not_renamed (hused : id ∈ referenced doc)
    (hnone : (policy.renaming doc).lookup id = none) (hfree : new ∉ policy.preserve) :
    id ≠ new := by
  rintro rfl
  obtain ⟨found, hfound⟩ := hself.renamed_of_referenced hexempt hused hfree
  rw [hnone] at hfound
  cases hfound

include hexempt hlead in
/-- In a value that is no link to a renamed identifier a new name is found exactly if it can be read
and was given to one that is mentioned apart from an unfinished reference. -/
theorem IsSelfContained.mem_references_of_other {tag : Tag} (htag : tag ∈ doc.tags) {a : Attribute}
    (ha : a ∈ tag.attributes)
    (hother : ∀ name, target? a = some name → (policy.renaming doc).lookup name = none)
    (hgiven : (policy.renaming doc).lookup id = some new) (hfree : new ∉ policy.preserve) :
    new ∈ references ⟨a.name, follow (policy.renaming doc) a⟩ ↔
      (∀ c ∈ policy.namePrefix.toList, Text.isBlank c = false) ∧
        ∃ mention ∈ mentionsIn a.value,
          (policy.renaming doc).lookup mention.2 = some new ∧ overruns mention.1 = false := by
  have hopen : '(' ∉ new.toList := no_paren_of_name_chars (hself.given_chars hlead hgiven)
  have hnames (hblank : ∀ c ∈ policy.namePrefix.toList, Text.isBlank c = false) :
      ∀ name ∈ namesOf a.value.toList, ∀ new, (policy.renaming doc).lookup name = some new →
        IsName new.toList :=
    fun name hname new hnew =>
      (hself.is_name_given_iff hlead hnew (is_name_of_mem hname)).mpr hblank
  have hold {mention : List Char × String} (hmention : mention ∈ mentionsIn a.value)
      (hnone : (policy.renaming doc).lookup mention.2 = none) : mention.2 ≠ new := by
    refine hself.ne_of_not_renamed hexempt (mem_referenced htag ha ?_) hnone hfree
    rw [references, names_in_eq_mentions]
    exact List.mem_append_left _ (List.mem_map_of_mem hmention)
  rw [follow_other (hself.plain policy) hother, references, List.mem_append, Option.mem_toList,
    names_in_eq, rename_in_value_eq]
  constructor
  · rintro (hread | htarget)
    · have hblank : ∀ c ∈ policy.namePrefix.toList, Text.isBlank c = false := by
        obtain ⟨rest, rfl, -⟩ := given_form hgiven
        have hname := is_name_of_mem hread
        rw [String.toList_append] at hname
        exact fun c hc => name_char_not_blank (hname.2 c (List.mem_append_left _ hc))
      obtain ⟨mention, hmention, hnew | ⟨hnone, hsame⟩⟩ :=
        (mem_names_render_iff (hnames hblank) hopen).mp hread
      · exact ⟨hblank, mention, hmention, hnew⟩
      · exact absurd hsame (hold hmention hnone)
    · have hbefore := target_of_renamed hopen htarget
      have hused : new ∈ referenced doc :=
        mem_referenced htag ha (List.mem_append_right _ (by simp [hbefore]))
      exact absurd rfl (hself.ne_of_not_renamed hexempt hused (hother new hbefore) hfree)
  · rintro ⟨hblank, mention, hmention, hnew⟩
    exact .inl ((mem_names_render_iff (hnames hblank) hopen).mpr ⟨mention, hmention, .inl hnew⟩)

include hexempt hlead in
/-- A new name is found in an attribute exactly if a reference is that stays to be found. -/
theorem IsSelfContained.mem_references_iff {tag : Tag} (htag : tag ∈ doc.tags) {a : Attribute}
    (ha : a ∈ tag.attributes) (hgiven : (policy.renaming doc).lookup id = some new)
    (hfree : new ∉ policy.preserve) :
    new ∈ references ⟨a.name, follow (policy.renaming doc) a⟩ ↔
      ∃ old, (policy.renaming doc).lookup old = some new ∧ StaysFound policy.namePrefix a old := by
  rcases follow_cases (hself.plain policy) a with
    ⟨old, found, htarget, hfound, -⟩ | ⟨hother, -⟩
  · have hnone : mentionsIn a.value = [] := by
      have hopen := hself.no_paren (has_renaming_iff.mp (has_iff_lookup.mpr ⟨found, hfound⟩)).1
      have hnames := names_in_eq_mentions a.value
      rw [(target_iff.mp htarget).2, names_in_mark, names_in_eq, names_of_no_paren hopen] at hnames
      rw [(target_iff.mp htarget).2]
      exact List.map_eq_nil_iff.mp hnames.symm
    rw [hself.references_of_link hlead htarget hfound, List.mem_singleton]
    constructor
    · rintro rfl
      exact ⟨old, hfound, .inl htarget⟩
    · rintro ⟨other, hother, hsame | ⟨-, mention, hmention, -, -⟩⟩
      · rw [htarget] at hsame
        rw [← Option.some.inj hsame, hfound] at hother
        exact (Option.some.inj hother).symm
      · rw [hnone] at hmention
        cases hmention
  · rw [hself.mem_references_of_other hexempt hlead htag ha hother hgiven hfree]
    constructor
    · rintro ⟨hblank, mention, hmention, hnew, hapart⟩
      exact ⟨mention.2, hnew, .inr ⟨hblank, mention, hmention, rfl, hapart⟩⟩
    · rintro ⟨old, hold, htarget | ⟨hblank, mention, hmention, rfl, hapart⟩⟩
      · rw [hother old htarget] at hold
        cases hold
      · exact ⟨hblank, mention, hmention, hold, hapart⟩

include hexempt hlead in
theorem IsSelfContained.mem_referenced_cleaned_iff
    (hgiven : (policy.renaming doc).lookup id = some new) (hfree : new ∉ policy.preserve) :
    new ∈ referenced (policy.cleaned doc) ↔ ∃ old, (policy.renaming doc).lookup old = some new ∧
      ∃ tag ∈ doc.tags, ∃ a ∈ tag.attributes, StaysFound policy.namePrefix a old := by
  have hnames := names_cleaned_nodup policy hself.distinct_names
  have hopen : ∀ id ∈ identifiers (policy.cleaned doc), '(' ∉ id.toList := by
    rw [hself.identifiers_cleaned hlead]
    exact fun id hid => hself.new_ids_no_paren hlead hid
  constructor
  · intro h
    obtain ⟨tag', htag', a', ha', hname⟩ := (mem_referenced_iff hnames hopen).mp h
    obtain ⟨tag, htag, rfl⟩ := mem_tags_cleaned_iff.mp htag'
    rw [others_settled] at ha'
    obtain ⟨a, ha, rfl⟩ := List.mem_map.mp ha'
    obtain ⟨old, hold, hfound⟩ :=
      (hself.mem_references_iff hexempt hlead htag (mem_of_others ha) hgiven hfree).mp hname
    exact ⟨old, hold, tag, htag, a, mem_of_others ha, hfound⟩
  · rintro ⟨old, hold, tag, htag, a, ha, hfound⟩
    have hothers : a ∈ others tag := mem_others_of_referring hself.distinct_names
      (fun id hid => hself.no_paren hid) htag ha (references_of_stays_found hfound)
    refine (mem_referenced_iff hnames hopen).mpr ⟨settled policy (referenced doc)
      (policy.renaming doc) tag, mem_tags_cleaned_iff.mpr ⟨tag, htag, rfl⟩,
      ⟨a.name, follow (policy.renaming doc) a⟩, ?_, ?_⟩
    · rw [others_settled]
      exact List.mem_map_of_mem hothers
    · exact (hself.mem_references_iff hexempt hlead htag ha hgiven hfree).mpr ⟨old, hold, hfound⟩

/-! ### The second pass -/

include hremove hexempt hlead in
theorem IsSelfContained.renaming_cleaned (hfound : ∀ id new,
      (policy.renaming doc).lookup id = some new →
        new ∈ policy.preserve ∨ new ∈ referenced (policy.cleaned doc))
    (h : (policy.renaming (policy.cleaned doc)).lookup id = some new) : new = id := by
  rw [Policy.renaming, hself.identifiers_cleaned hlead] at h
  exact given_again hremove hexempt hfound h

include hremove hexempt hlead in
/-- The identifiers that are left stay if all new names are found again. -/
theorem IsSelfContained.settle_id_again (hfound : ∀ id new,
      (policy.renaming doc).lookup id = some new →
        new ∈ policy.preserve ∨ new ∈ referenced (policy.cleaned doc))
    {tag : Tag} (htag : tag ∈ (policy.cleaned doc).tags) :
    policy.settleId (referenced (policy.cleaned doc)) (policy.renaming (policy.cleaned doc)) tag =
      tag := by
  refine settle_id_eq_self (fun id new => hself.renaming_cleaned hremove hexempt hlead hfound)
    fun id hid => ?_
  have hmem := mem_identifiers htag hid
  rw [hself.identifiers_cleaned hlead] at hmem
  rcases mem_new_ids_iff.mp hmem with ⟨old, hgiven⟩ | ⟨-, hstays, hdrops⟩
  · exact (hfound old id hgiven).imp_left (preserves_iff_mem hexempt).mpr
  · exact .inl (preserves_of_stays hremove hstays hdrops)

include hremove hexempt hlead in
/-- The values that the first pass has written stay. -/
theorem IsSelfContained.follow_again (hfound : ∀ id new,
      (policy.renaming doc).lookup id = some new →
        new ∈ policy.preserve ∨ new ∈ referenced (policy.cleaned doc))
    {tag : Tag} (htag : tag ∈ doc.tags) {a : Attribute} (ha : a ∈ tag.attributes) :
    follow (policy.renaming (policy.cleaned doc)) ⟨a.name, follow (policy.renaming doc) a⟩ =
      follow (policy.renaming doc) a := by
  have hsame (name new : String)
      (h : (policy.renaming (policy.cleaned doc)).lookup name = some new) : new = name :=
    hself.renaming_cleaned hremove hexempt hlead hfound h
  refine follow_of_same hsame ?_
  show renameInValue _ (follow (policy.renaming doc) a) = _
  rcases follow_cases (hself.plain policy) a with
    ⟨old, found, -, hgiven, hfollow⟩ | ⟨-, hfollow⟩
  · rw [hfollow]
    refine rename_in_value_of_no_paren _ ?_
    rw [String.toList_append, List.mem_append, not_or]
    exact ⟨by decide, no_paren_of_name_chars (hself.given_chars hlead hgiven)⟩
  · have hagain {name : String} (h : (policy.renaming (policy.cleaned doc)).has name) :
        name ∈ policy.newIds (referenced doc) (identifiers doc) ∧
          policy.preserves name = false := by
      obtain ⟨hid, hreplaces⟩ := has_renaming_iff.mp h
      rw [hself.identifiers_cleaned hlead] at hid
      exact ⟨hid, (replaces_iff.mp hreplaces).2⟩
    rw [hfollow]
    apply String.toList_injective
    rw [rename_in_value_eq, rename_in_value_eq]
    refine render_render hsame (fun name hhas => ?_) (fun name hname new hgiven => ?_)
      fun name hname hnone => ?_
    · exact hself.new_ids_no_paren hlead (hagain hhas).1
    · exact hself.made_given hlead hgiven (is_name_of_mem hname)
    · -- a name without a new one is preserved, and stays without one
      rw [lookup_eq_none_iff]
      intro hhas
      have hfree := (hagain hhas).2
      rw [← Bool.not_eq_true, preserves_iff_mem hexempt] at hfree
      obtain ⟨found, hgiven⟩ := hself.renamed_of_referenced hexempt
        (mem_referenced htag ha (List.mem_append_left _ hname)) hfree
      rw [hnone] at hgiven
      cases hgiven

include hremove hexempt hlead in
theorem IsSelfContained.cleaned_again (hfound : ∀ id new,
      (policy.renaming doc).lookup id = some new →
        new ∈ policy.preserve ∨ new ∈ referenced (policy.cleaned doc)) :
    policy.cleaned (policy.cleaned doc) = policy.cleaned doc := by
  refine Document.map_tags_eq_self_iff.mpr fun tag' htag' => ?_
  have hsettle := hself.settle_id_again hremove hexempt hlead hfound htag'
  rw [settled, hsettle]
  refine map_values_eq_self fun b hb => ?_
  by_cases hid : b.name = "id"
  · have hnames := names_cleaned_nodup policy hself.distinct_names tag' htag'
    have hvalue : tag'.attribute? "id" = some b.value := by
      rw [← hid]
      exact Attributes.get_of_mem hnames hb
    have hmem := mem_identifiers htag' hvalue
    rw [hself.identifiers_cleaned hlead] at hmem
    rw [follow_of_not_link _ (by rw [hid]; exact id_not_link)]
    exact rename_in_value_of_no_paren _ (hself.new_ids_no_paren hlead hmem)
  · obtain ⟨tag, htag, rfl⟩ := mem_tags_cleaned_iff.mp htag'
    have hother : b ∈ others (settled policy (referenced doc) (policy.renaming doc) tag) :=
      List.mem_filter.mpr ⟨hb, bne_iff_ne.mpr hid⟩
    rw [others_settled] at hother
    obtain ⟨a, ha, rfl⟩ := List.mem_map.mp hother
    exact hself.follow_again hremove hexempt hlead hfound htag (mem_of_others ha)

include hremove hlead in
/-- A new name that nothing refers to is lost. -/
theorem IsSelfContained.found_of_cleaned_again
    (hagain : policy.cleaned (policy.cleaned doc) = policy.cleaned doc)
    (hgiven : (policy.renaming doc).lookup id = some new) (hfree : policy.preserves new = false) :
    new ∈ referenced (policy.cleaned doc) := by
  by_contra hunused
  obtain ⟨tag, htag, hid⟩ :=
    List.mem_filterMap.mp (has_renaming_iff.mp (has_iff_lookup.mpr ⟨new, hgiven⟩)).1
  have hmem : settled policy (referenced doc) (policy.renaming doc) tag ∈
      (policy.cleaned doc).tags :=
    mem_tags_cleaned_iff.mpr ⟨tag, htag, rfl⟩
  have hvalue : (settled policy (referenced doc) (policy.renaming doc) tag).attribute? "id" =
      some new := by
    rw [hself.attribute_cleaned hlead htag, hid]
    exact new_id_of_lookup hgiven
  have hgone : newId policy (referenced (policy.cleaned doc))
      (policy.renaming (policy.cleaned doc)) new = none := by
    rw [Option.eq_none_iff_forall_ne_some]
    intro found hfound
    rcases new_id_eq_some_iff.mp hfound with hlookup | ⟨-, hdrops, -⟩
    · have hreplaces := (has_renaming_iff.mp (has_iff_lookup.mpr ⟨found, hlookup⟩)).2
      exact hunused (replaces_iff.mp hreplaces).1
    · simp [Policy.drops, hremove, hunused, hfree] at hdrops
  have hsame := Document.map_tags_eq_self_iff.mp hagain _ hmem
  have hnames := names_settled_nodup policy (referenced doc) (policy.renaming doc)
    (hself.distinct_names tag htag)
  have hafter := attribute_settled policy (referenced (policy.cleaned doc))
    (policy.renaming (policy.cleaned doc)) hnames
  rw [hsame, hvalue, Option.bind_some, hgone] at hafter
  cases hafter

end Document

/-- Two passes under one policy leave what one does exactly if the pass has to leave the document
alone, or every new name is preserved or found again. -/
theorem cleanup_again_iff {params : Params} {policy : Policy} {doc : Document}
    (hread : Policy.read params = .ok policy) (hremove : policy.remove = true)
    (hexempt : policy.preservePrefixes = [])
    (hlead : ∀ c ∈ policy.namePrefix.toList, Markup.isNameChar c) (hself : IsSelfContained doc) :
    ∃ out, cleanup.apply params doc = .ok out ∧
      (cleanup.apply params out = .ok out ↔
        (isScripted doc = true ∧ policy.force = false) ∨ policy.FindsAgain doc) := by
  refine ⟨_, cleanup_apply hread doc, ?_⟩
  by_cases hscripted : isScripted doc = true ∧ policy.force = false
  · have hkept : (isScripted doc && !policy.force) = true := by simp [hscripted]
    rw [hkept, if_pos rfl, cleanup_apply hread, hkept, if_pos rfl]
    exact iff_of_true rfl (.inl hscripted)
  · have hopen : (isScripted doc && !policy.force) = false := by simpa using hscripted
    rw [hopen, if_neg Bool.false_ne_true, cleanup_apply hread, is_scripted_cleaned, hopen,
      if_neg Bool.false_ne_true, Except.ok.injEq, or_iff_right hscripted]
    constructor
    · intro hagain id new hgiven
      refine or_iff_not_imp_left.mpr fun hfree => ?_
      have hpreserves : policy.preserves new = false := by
        rw [← Bool.not_eq_true, preserves_iff_mem hexempt]
        exact hfree
      exact (hself.mem_referenced_cleaned_iff hexempt hlead hgiven hfree).mp
        (hself.found_of_cleaned_again hremove hlead hagain hgiven hpreserves)
    · intro hfinds
      refine hself.cleaned_again hremove hexempt hlead fun id new hgiven => ?_
      refine or_iff_not_imp_left.mpr fun hfree => ?_
      exact (hself.mem_referenced_cleaned_iff hexempt hlead hgiven hfree).mpr
        ((hfinds id new hgiven).resolve_left hfree)

theorem cleanup_again_drawing :
    ∃ out, cleanup.apply [("prefix", .string "p-"), ("preserve", .string "logo")] drawing =
      .ok out ∧
      cleanup.apply [("prefix", .string "p-"), ("preserve", .string "logo")] out = .ok out := by
  have hread : Policy.read [("prefix", .string "p-"), ("preserve", .string "logo")] =
      .ok ⟨true, true, "p-", ["logo"], [], false⟩ := rfl
  have hself : IsSelfContained drawing := ⟨by decide +kernel, by decide +kernel, by decide +kernel⟩
  obtain ⟨out, happly, hiff⟩ := cleanup_again_iff hread rfl rfl (by decide) hself
  refine ⟨out, happly, hiff.mpr (.inr fun id new hgiven => .inr ⟨id, hgiven, ?_⟩)⟩
  have hrenaming : Policy.renaming ⟨true, true, "p-", ["logo"], [], false⟩ drawing =
      [("sky", "p-a")] := by decide +kernel
  obtain rfl : id = "sky" := by
    have hhas := List.lookup_isSome_iff.mp (Option.isSome_of_mem hgiven)
    rw [hrenaming] at hhas
    simpa using hhas
  unfold StaysFound
  decide +kernel

/-- The name of the element that was referred to is lost in the first pass, and the second one
removes it. -/
theorem cleanup_again_differs :
    IsSelfContained tangled ∧ ∃ out, cleanup.apply [("prefix", .string "p-")] tangled = .ok out ∧
      cleanup.apply [("prefix", .string "p-")] out ≠ .ok out := by
  have hread : Policy.read [("prefix", .string "p-")] = .ok ⟨true, true, "p-", [], [], false⟩ := rfl
  refine ⟨⟨by decide +kernel, by decide +kernel, by decide +kernel⟩, _, cleanup_apply hread tangled,
    fun hagain => ?_⟩
  rw [cleanup_apply hread] at hagain
  have hids := congrArg identifiers (Except.ok.inj hagain)
  revert hids
  decide +kernel

end SvgPress.Identifiers
