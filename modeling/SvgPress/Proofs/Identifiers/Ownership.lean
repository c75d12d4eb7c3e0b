import SvgPress.Pass.AttributeText
import SvgPress.Proofs.Identifiers.Succession
import SvgPress.Proofs.Pass.Dissolving
import SvgPress.Proofs.Text.Spacing

/-!
Which prefix a name belongs to. A name that a pass gives is its prefix with letters behind it, so a
prefix that ends in no letter can be told from the name. The names of one pass may still come out
differently, since references in the prefix are renamed with all others. They are at least longer
than the prefix then, and cannot stand in it, so the next pass gives its names as they are. The
length that counts is the one without white space, which other passes take away.
-/

namespace SvgPress

namespace Text

/-- How much of a text is no white space. -/
def ink (cs : List Char) : Nat :=
  cs.countP fun c => !isBlank c

theorem ink_cons (c : Char) (cs : List Char) :
    ink (c :: cs) = ink cs + if isBlank c then 0 else 1 := by
  rw [ink, List.countP_cons, ← ink]
  cases isBlank c <;> rfl

theorem ink_append (cs ds : List Char) : ink (cs ++ ds) = ink cs + ink ds :=
  List.countP_append

theorem ink_of_blank {cs : List Char} (h : ∀ c ∈ cs, isBlank c) : ink cs = 0 :=
  List.countP_eq_zero.mpr fun c hc => by simp [h c hc]

theorem ink_of_no_blank {cs : List Char} (h : ∀ c ∈ cs, isBlank c = false) :
    ink cs = cs.length :=
  List.countP_eq_length.mpr fun c hc => by simp [h c hc]

theorem ink_join_lines (cs : List Char) : ink (joinLines cs) = ink cs := by
  have hspace : isBlank ' ' = true := by decide
  have hfeed : isBlank '\n' = true := by decide
  have hreturn : isBlank '\r' = true := by decide
  fun_induction joinLines cs with
  | case1 rest ih =>
      rw [ink_cons, ink_cons, ink_cons, ih, hspace, hreturn, hfeed]
      rfl
  | case2 rest ih => rw [ink_cons, ink_cons, ih, hspace, hfeed]
  | case3 c rest _ _ ih => rw [ink_cons, ink_cons, ih]
  | case4 => rfl

theorem ink_squeeze (cs : List Char) : ink (squeeze cs) = ink cs := by
  have hspace : isBlank ' ' = true := by decide
  fun_induction squeeze cs with
  | case1 c d rest h ih =>
      rw [Bool.and_eq_true] at h
      rw [ih, ink_cons, ink_cons, ink_cons, hspace, h.1, h.2]
      rfl
  | case2 c d rest _ ih => rw [ink_cons, ih, ← ink_cons]
  | case3 => rfl

theorem ink_trim_chars (cs : List Char) : ink (trimChars cs) = ink cs := by
  obtain ⟨front, back, hsplit, hfront, hback⟩ := trim_chars_split cs
  conv => rhs; rw [hsplit]
  rw [ink_append, ink_append, ink_of_blank hfront, ink_of_blank hback, Nat.zero_add, Nat.add_zero]

end Text

open Text (ink ink_cons ink_append)

theorem AttributeText.ink_clean (cleaning : Cleaning) (value : String) :
    ink (cleaning.clean value).toList = ink value.toList := by
  have hstep (asked : Bool) {change : List Char → List Char}
      (hchange : ∀ cs, ink (change cs) = ink cs)
      (cs : List Char) : ink (if asked then change cs else cs) = ink cs := by
    cases asked with
    | false => rfl
    | true => exact hchange cs
  rw [Cleaning.clean, String.toList_ofList, hstep _ Text.ink_squeeze, hstep _ Text.ink_trim_chars,
    hstep _ Text.ink_join_lines]

namespace Identifiers

/-- A name in a reference is no longer than the text. -/
theorem ink_of_mem_names {cs : List Char} {name : String} (h : name ∈ namesOf cs) :
    ink name.toList ≤ ink cs := by
  obtain ⟨front, lead, trail, rest, rfl, -⟩ := exists_reference_of_mem h
  simp only [ink_append]
  omega

/-- Renaming makes no text shorter that is no longer than the new names. -/
theorem ink_render {renames : Renaming} {bound : Nat}
    (hnew : ∀ name new, renames.lookup name = some new → bound ≤ ink new.toList) {cs : List Char}
    (h : ink cs ≤ bound) : ink cs ≤ ink (render renames cs) := by
  induction cs using segments_induction with
  | nil => exact Nat.le_refl _
  | plain c cs htake ih =>
      rw [ink_cons] at h
      have hrest := ih (by omega)
      rw [render_of_plain htake, ink_cons, ink_cons]
      omega
  | reference lead name trail rest hlead hname htrail ih =>
      cases hlookup : renames.lookup (String.ofList name) with
      | none =>
          rw [render_of_kept hlead hname htrail rest hlookup]
          simp only [ink_append] at h ⊢
          have hrest := ih (by omega)
          omega
      | some new =>
          have hlong := hnew _ new hlookup
          rw [render_of_renamed hlead hname htrail rest hlookup, ink_append "url(#".toList,
            ink_append new.toList]
          omega

/-- What cannot end a reference is written as it is. -/
theorem render_append_of_no_close (renames : Renaming) (cs : List Char) {ds : List Char}
    (hds : ')' ∉ ds) : render renames (cs ++ ds) = render renames cs ++ ds := by
  induction cs using segments_induction with
  | nil =>
      refine render_of_none fun name hname => ?_
      rw [List.nil_append, names_of_no_close hds] at hname
      cases hname
  | plain c cs htake ih =>
      rw [List.cons_append, render_of_plain (take_reference_append_of_no_close hds htake),
        render_of_plain htake, ih, List.cons_append]
  | reference lead name trail rest hlead hname htrail ih =>
      rw [List.append_assoc, List.append_assoc, List.append_assoc]
      cases hlookup : renames.lookup (String.ofList name) with
      | none =>
          rw [render_of_kept hlead hname htrail _ hlookup,
            render_of_kept hlead hname htrail _ hlookup, ih]
          simp only [List.append_assoc]
      | some new =>
          rw [render_of_renamed hlead hname htrail _ hlookup,
            render_of_renamed hlead hname htrail _ hlookup, ih]
          simp only [List.append_assoc]

/-! ### Names behind a prefix -/

/-- Whether a name is longer than the prefix. -/
def Outgrows (lead id : String) : Prop :=
  ink lead.toList < ink id.toList

/-- Whether a name is a short one behind the prefix. -/
def IsOwn (lead id : String) : Prop :=
  ∃ k, id = lead ++ shortName k

theorem outgrows_short (lead : String) (k : Nat) : Outgrows lead (lead ++ shortName k) := by
  have hplain : ink (shortName k).toList = (shortName k).toList.length :=
    Text.ink_of_no_blank fun c hc => name_char_not_blank (short_name_char hc).1
  have hpos := List.length_pos_iff.mpr (short_name_ne_nil k)
  rw [Outgrows, String.toList_append, ink_append, hplain]
  omega

theorem IsOwn.outgrows {lead id : String} (h : IsOwn lead id) : Outgrows lead id := by
  obtain ⟨k, rfl⟩ := h
  exact outgrows_short lead k

/-- A prefix that does not end in a letter is told from the names behind it. -/
theorem IsOwn.lead_eq {lead lead' id : String} {front front' : List Char}
    (hlead : lead.toList = front ++ ['-']) (hlead' : lead'.toList = front' ++ ['-'])
    (h : IsOwn lead id) (h' : IsOwn lead' id) : lead = lead' := by
  obtain ⟨k, rfl⟩ := h
  obtain ⟨m, hsame⟩ := h'
  have hdash (n : Nat) (c : Char) (hc : c ∈ (shortName n).toList.reverse) : (c != '-') = true := by
    rw [bne_iff_ne]
    rintro rfl
    exact absurd (short_name_letters n _ (List.mem_reverse.mp hc)) (by decide)
  -- read from the end, the prefix begins at the first hyphen
  have hspan {name : String} {begin : List Char} (n : Nat) (hname : name.toList = begin ++ ['-']) :
      (name ++ shortName n).toList.reverse.dropWhile (· != '-') = name.toList.reverse := by
    rw [String.toList_append, List.reverse_append]
    refine (Markup.span_exact _ _ _ (hdash n) ?_).2
    rw [hname, List.reverse_append]
    simp
  have hfirst := hspan k hlead
  rw [hsame, hspan m hlead'] at hfirst
  exact (String.toList_injective (List.reverse_injective hfirst)).symm

/-! ### Tags and documents -/

/-- What is known of a tag whose identifier, if it has one, is of a kind. The tag holds no code that
could use identifiers unseen, and no attribute stands in it twice. -/
structure Bears (p : String → Prop) (tag : Tag) : Prop where
  plain : tag.name ≠ "style" ∧ tag.name ≠ "script"
  distinct : (tag.attributes.map (·.name)).Nodup
  id : ∀ id, tag.attribute? "id" = some id → p id

section Tags

variable {p q : String → Prop} {tag child : Tag} {doc : Document}

theorem Bears.imp (h : Bears p tag) (hpq : ∀ id, p id → q id) : Bears q tag :=
  ⟨h.plain, h.distinct, fun id hid => hpq id (h.id id hid)⟩

theorem Bears.map_values (h : Bears p tag) {f : Attribute → String}
    (hf : ∀ id, p id → q (f ⟨"id", id⟩)) : Bears q (tag.mapValues f) where
  plain := h.plain
  distinct := by
    rw [Tag.mapValues, List.map_map]
    exact h.distinct
  id id hid := by
    have hvalue : (tag.mapValues f).attribute? "id" =
        (tag.attribute? "id").map fun id => f ⟨"id", id⟩ := Attributes.get_map_value f
    rw [hvalue, Option.map_eq_some_iff] at hid
    obtain ⟨old, hold, rfl⟩ := hid
    exact hf old (h.id old hold)

theorem Bears.keep (h : Bears p tag) (keep : Attribute → Bool) :
    Bears p (tag.keepAttributes keep) where
  plain := h.plain
  distinct := h.distinct.sublist (List.Sublist.map _ List.filter_sublist)
  id id hid := by
    have hmem := (List.mem_filter.mp (Attributes.mem_of_get hid)).1
    exact h.id id (Attributes.get_of_mem h.distinct hmem)

/-- The identifier of a group can only replace one of the same kind. -/
theorem Bears.hand_down_all (h : Bears p tag) (hchild : Bears p child) :
    Bears p (tag.attributes.foldl Groups.handDown child) where
  plain := by
    rw [Groups.hand_down_all_name]
    exact hchild.plain
  distinct := Groups.names_hand_down_all_nodup _ hchild.distinct
  id id hid := by
    rw [Groups.attribute_hand_down_all h.distinct child (by decide), Option.or_eq_some_iff] at hid
    rcases hid with hgroup | ⟨-, hown⟩
    · exact h.id id hgroup
    · exact hchild.id id hown

theorem unscripted_of_bears (h : ∀ tag ∈ doc.tags, Bears p tag) : isScripted doc = false := by
  rw [isScripted, List.any_eq_false]
  intro tag htag
  simpa using (h tag htag).plain

theorem bears_identifiers (h : ∀ tag ∈ doc.tags, Bears p tag) {id : String}
    (hid : id ∈ identifiers doc) : p id := by
  obtain ⟨tag, htag, hget⟩ := List.mem_filterMap.mp hid
  exact (h tag htag).id id hget

end Tags

section Pass

variable {policy : Policy} {doc : Document} {renames : Renaming} {m : Nat} {p q : String → Prop}
  (hremove : policy.remove = true) (hfree : ∀ name, policy.preserves name = false)
  (hassigned : IsAssigned policy (referenced doc) (identifiers doc) renames m)

/-- Identifiers that outgrow the prefix are not referred to in it. -/
theorem apart_of_outgrows {lead : String} (h : ∀ tag ∈ doc.tags, Bears (Outgrows lead) tag) :
    ∀ name ∈ namesIn lead, name ∉ identifiers doc := by
  intro name hname hid
  have hlong : Outgrows lead name := bears_identifiers h hid
  have hshort := ink_of_mem_names hname
  rw [Outgrows] at hlong
  omega

include hremove hfree hassigned in
theorem bears_settled (h : ∀ tag ∈ doc.tags, Bears p tag)
    (hq : ∀ id new, renames.lookup id = some new → q (renameInValue renames new)) :
    ∀ tag ∈ (doc.mapTags (settled policy (referenced doc) renames)).tags, Bears q tag := by
  rw [Document.tags_map_tags, List.forall_mem_map]
  intro tag htag
  have hbears := h tag htag
  refine ⟨?_, names_settled_nodup policy _ renames hbears.distinct, fun id hid => ?_⟩
  · rw [settled_name]
    exact hbears.plain
  · rw [attribute_settled_of_free hremove hfree hassigned htag hbears.distinct,
      Option.map_eq_some_iff] at hid
    obtain ⟨new, hnew, rfl⟩ := hid
    obtain ⟨old, -, hlookup⟩ := Option.bind_eq_some_iff.mp hnew
    exact hq old new hlookup

include hremove hfree hassigned in
/-- Whatever the identifiers were, the names in their place outgrow the prefix, also where
references in them were renamed. -/
theorem outgrows_settled (h : ∀ tag ∈ doc.tags, Bears p tag) :
    ∀ tag ∈ (doc.mapTags (settled policy (referenced doc) renames)).tags,
      Bears (Outgrows policy.namePrefix) tag := by
  have hgiven (id new : String) (hlookup : renames.lookup id = some new) :
      Outgrows policy.namePrefix new := by
    obtain ⟨k, -, rfl, -⟩ := hassigned.short id new hlookup
    exact outgrows_short policy.namePrefix k
  refine bears_settled hremove hfree hassigned h fun id new hlookup => ?_
  -- a reference in the name stands in the prefix, and what is written for it is longer than that
  obtain ⟨k, -, rfl, -⟩ := hassigned.short id new hlookup
  have hclose : ')' ∉ (shortName k).toList :=
    fun hmem => (name_char_ne (short_name_char hmem).1).2.2 rfl
  have hlead : ink policy.namePrefix.toList ≤ ink (render renames policy.namePrefix.toList) :=
    ink_render (fun id new hlookup => Nat.le_of_lt (hgiven id new hlookup)) (Nat.le_refl _)
  have hshort : Outgrows policy.namePrefix (policy.namePrefix ++ shortName k) :=
    outgrows_short policy.namePrefix k
  rw [Outgrows, String.toList_append, ink_append] at hshort
  rw [Outgrows, rename_in_value_eq, String.toList_append,
    render_append_of_no_close renames _ hclose, ink_append]
  omega

include hremove hfree hassigned in
/-- In the place of identifiers that outgrow the prefix come short names behind it. -/
theorem own_settled (h : ∀ tag ∈ doc.tags, Bears (Outgrows policy.namePrefix) tag) :
    ∀ tag ∈ (doc.mapTags (settled policy (referenced doc) renames)).tags,
      Bears (IsOwn policy.namePrefix) tag := by
  refine bears_settled hremove hfree hassigned h fun id new hlookup => ?_
  rw [rename_given hassigned (apart_of_outgrows h) hlookup]
  obtain ⟨k, -, hshort, -⟩ := hassigned.short id new hlookup
  exact ⟨k, hshort⟩

include hremove hfree hassigned in
/-- The first short name is given as soon as any is. -/
theorem first_given (h : ∀ tag ∈ doc.tags, Bears (Outgrows policy.namePrefix) tag)
    (hsome : identifiers (doc.mapTags (settled policy (referenced doc) renames)) ≠ []) :
    policy.namePrefix ++ shortName 0 ∈
      identifiers (doc.mapTags (settled policy (referenced doc) renames)) := by
  have happart := apart_of_outgrows h
  have hread {tag : Tag} (htag : tag ∈ doc.tags) :
      (settled policy (referenced doc) renames tag).attribute? "id" =
        (tag.attribute? "id").bind fun id => renames.lookup id :=
    attribute_settled_of_apart hremove hfree hassigned happart htag (h tag htag).distinct
  have hpreserve : policy.namePrefix ++ shortName 0 ∉ policy.preserve := by
    have hnot := hfree (policy.namePrefix ++ shortName 0)
    rw [Policy.preserves, Bool.or_eq_false_iff] at hnot
    simpa using hnot.1
  rw [identifiers, Document.tags_map_tags, List.filterMap_map] at hsome ⊢
  obtain ⟨some, hmem⟩ := List.exists_mem_of_ne_nil _ hsome
  obtain ⟨tag, htag, hid⟩ := List.mem_filterMap.mp hmem
  rw [Function.comp_apply, hread htag] at hid
  obtain ⟨old, -, hold⟩ := Option.bind_eq_some_iff.mp hid
  obtain ⟨k, hk, -⟩ := hassigned.short old some hold
  obtain ⟨id, hfirst⟩ := hassigned.dense 0 (by omega) hpreserve
  have hmem := ((hassigned.has_iff id).mp (has_iff_lookup.mpr ⟨_, hfirst⟩)).1
  obtain ⟨other, hother, hget⟩ := List.mem_filterMap.mp hmem
  refine List.mem_filterMap.mpr ⟨other, hother, ?_⟩
  rw [Function.comp_apply, hread hother, hget]
  exact hfirst

end Pass

end Identifiers

end SvgPress
