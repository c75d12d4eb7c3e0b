import Mathlib.Data.List.Pairwise
import Mathlib.Tactic.ByContra
import SvgPress.Proofs.Identifiers.Following
import SvgPress.Proofs.Markup.Names

/-!
What the cleanup of identifiers keeps. It removes the identifiers that nothing refers to and gives
the others new names that are all different, and links follow. References follow unless one of them
is written behind another that was never finished: without its quotation marks it is then taken for
a part of that one's name.
-/

namespace SvgPress.Identifiers

/-- Whether the element with one identifier now has the other one. -/
def IsNowNamed (doc : Document) (settle : Tag → Tag) (old new : String) : Prop :=
  ∀ tag ∈ doc.tags, tag.attribute? "id" = some old → (settle tag).attribute? "id" = some new

/-- All attributes but the identifier. -/
def others (tag : Tag) : Attributes :=
  List.filter (·.name != "id") tag.attributes

/-- Whether the attributes of every tag stay in their places, each related to what it was. -/
def AttributesFollow (doc : Document) (settle : Tag → Tag)
    (follows : Attribute → Attribute → Prop) :
    Prop :=
  ∀ tag ∈ doc.tags,
    List.Forall₂ (fun a b => a.name = b.name ∧ follows a b) (others tag) (others (settle tag))

/-- Every link to an element of the document still leads there. -/
def LinksFollow (doc : Document) (settle : Tag → Tag) : Prop :=
  AttributesFollow doc settle fun a b => ∀ old, target? a = some old → old ∈ identifiers doc →
    ∃ new, target? b = some new ∧ IsNowNamed doc settle old new

/-- Every reference inside a value still names the element that it named. -/
def ReferencesFollow (doc : Document) (settle : Tag → Tag) : Prop :=
  AttributesFollow doc settle fun a b =>
    List.Forall₂ (IsNowNamed doc settle) (namesIn a.value) (namesIn b.value)

/-- Whether the references in a value can be read one by one when those to some names are written
anew, with names behind a prefix. -/
def CanFollow (lead : String) (renamed : String → Bool) (value : String) : Prop :=
  (∀ name ∈ namesIn value, renamed name = false) ∨
    (∀ c ∈ lead.toList, Text.isBlank c = false) ∧ swallows renamed (segments value) = false

/-! ### The condition on a value -/

theorem swallows_congr {p q : String → Bool} {ss : List Segment}
    (h : ∀ name ∈ ss.filterMap Segment.name?, p name = q name) : swallows p ss = swallows q ss := by
  rw [← names_of_mentions] at h
  rw [← Bool.not_inj_iff, Bool.eq_iff_iff, Bool.not_eq_true', Bool.not_eq_true',
    swallows_eq_false_iff, swallows_eq_false_iff]
  refine forall₂_congr fun mention hmention => ?_
  rw [h mention.2 (List.mem_map_of_mem hmention)]

theorem swallows_none (ss : List Segment) : swallows (fun _ => false) ss = false :=
  swallows_eq_false_iff.mpr fun _ _ hrenamed => absurd hrenamed Bool.false_ne_true

/-- No character that ends or nests a reference can stand in a name of the markup language. -/
theorem plain_of_name_char {c : Char} (h : Markup.isNameChar c) :
    c ≠ '\'' ∧ c ≠ '"' ∧ c ≠ ')' ∧ c ≠ '(' := by
  have hne (d : Char) (hd : Markup.isNameChar d = false) : c ≠ d := by
    rintro rfl
    rw [h] at hd
    cases hd
  exact ⟨hne _ (by decide), hne _ (by decide), hne _ (by decide), hne _ (by decide)⟩

/-- Of the characters that a name of the markup language may hold, only white space cannot be read
in a reference. -/
theorem is_name_char_iff {c : Char} (h : Markup.isNameChar c) :
    isNameChar c ↔ Text.isBlank c = false := by
  obtain ⟨hsingle, hdouble, hclose, -⟩ := plain_of_name_char h
  refine ⟨name_char_not_blank, fun hblank => ?_⟩
  simp [isNameChar, hblank, hsingle, hdouble, hclose]

theorem is_name_made_iff {lead : String}
    (hlead : ∀ c ∈ lead.toList, Markup.isNameChar c) (n : Nat) :
    IsName (lead ++ shortName n).toList ↔ ∀ c ∈ lead.toList, Text.isBlank c = false := by
  rw [is_name_short_iff]
  exact forall₂_congr fun c hc => is_name_char_iff (hlead c hc)

theorem made_of_name_chars {lead : String} (hlead : ∀ c ∈ lead.toList, Markup.isNameChar c)
    (n : Nat) : IsMade (lead ++ shortName n).toList :=
  made_short_name (fun c hc => plain_of_name_char (hlead c hc)) n

theorem clean_iff_can_follow {policy : Policy} {used ids : List String} {renames : Renaming}
    {m : Nat} (hassigned : IsAssigned policy used ids renames m)
    (hlead : ∀ c ∈ policy.namePrefix.toList, Markup.isNameChar c) {value : String}
    (hused : ∀ name ∈ namesIn value, name ∈ used) :
    IsClean renames (segments value) ↔
      CanFollow policy.namePrefix
        (fun name => decide (name ∈ ids ∧ policy.preserves name = false)) value := by
  have hhas (name : String) (hname : name ∈ namesIn value) : renames.has name =
      decide (name ∈ ids ∧ policy.preserves name = false) := by
    rw [Bool.eq_iff_iff, hassigned.has_iff, decide_eq_true_iff]
    simp [hused name hname]
  rw [IsClean, CanFollow, swallows_congr hhas]
  constructor
  · rintro ⟨hnames, hswallows⟩
    by_cases hnone : ∀ name ∈ namesIn value, renames.has name = false
    · exact .inl fun name hname => by rw [← hhas name hname, hnone name hname]
    · obtain ⟨name, hname, hrenamed⟩ : ∃ name ∈ namesIn value, renames.has name = true := by
        simpa using hnone
      obtain ⟨new, hnew⟩ := has_iff_lookup.mp hrenamed
      obtain ⟨k, -, rfl, -⟩ := hassigned.short name new hnew
      exact .inr ⟨(is_name_made_iff hlead k).mp (hnames name hname _ hnew), hswallows⟩
  · rintro (hnone | ⟨hblank, hswallows⟩)
    · refine ⟨fun name hname new hnew => ?_, ?_⟩
      · have hrenamed := has_iff_lookup.mpr ⟨new, hnew⟩
        rw [hhas name hname, hnone name hname] at hrenamed
        cases hrenamed
      · rw [swallows_congr hnone, swallows_none]
    · refine ⟨fun name hname new hnew => ?_, hswallows⟩
      obtain ⟨k, -, rfl, -⟩ := hassigned.short name new hnew
      exact (is_name_made_iff hlead k).mpr hblank

/-! ### Tags -/

theorem mem_of_others {tag : Tag} {a : Attribute} (h : a ∈ others tag) : a ∈ tag.attributes :=
  (List.mem_filter.mp h).1

/-- A tag as the pass leaves it. -/
def settled (policy : Policy) (used : List String) (renames : Renaming) (tag : Tag) : Tag :=
  (policy.settleId used renames tag).mapValues (follow renames)

/-- The identifier that the pass leaves in the place of another. -/
def newId (policy : Policy) (used : List String) (renames : Renaming) (id : String) :
    Option String :=
  match renames.lookup id with
  | some new => some new
  | none => if policy.remove && !used.contains id && !policy.preserves id then none else some id

theorem settle_id_cases (policy : Policy) (used : List String) (renames : Renaming) (tag : Tag) :
    policy.settleId used renames tag = tag ∨
      (∃ new, policy.settleId used renames tag = tag.setAttribute "id" new) ∨
      policy.settleId used renames tag = tag.removeAttribute "id" := by
  rw [Policy.settleId]
  split
  · exact .inl rfl
  · split
    · exact .inr (.inl ⟨_, rfl⟩)
    · split
      · exact .inr (.inr rfl)
      · exact .inl rfl

theorem settled_name (policy : Policy) (used : List String) (renames : Renaming) (tag : Tag) :
    (settled policy used renames tag).name = tag.name := by
  rcases settle_id_cases policy used renames tag with h | ⟨new, h⟩ | h
  · rw [settled, h]
    rfl
  · rw [settled, h]
    rfl
  · rw [settled, h]
    rfl

theorem others_settled (policy : Policy) (used : List String) (renames : Renaming) (tag : Tag) :
    others (settled policy used renames tag) =
      List.map (fun a => { a with value := follow renames a }) (others tag) := by
  have hsettle : others (policy.settleId used renames tag) = others tag := by
    rcases settle_id_cases policy used renames tag with h | ⟨new, h⟩ | h
    · rw [h]
    · rw [h]
      exact Attributes.filter_set new
    · rw [h]
      exact Attributes.filter_remove
  rw [← hsettle, settled, others, others, Tag.mapValues, List.filter_map]
  rfl

/-- No pass gives a tag two attributes of one name. -/
theorem names_settled_nodup (policy : Policy) (used : List String) (renames : Renaming) {tag : Tag}
    (h : (tag.attributes.map (·.name)).Nodup) :
    ((settled policy used renames tag).attributes.map (·.name)).Nodup := by
  have hmap : (settled policy used renames tag).attributes.map (·.name) =
      (policy.settleId used renames tag).attributes.map (·.name) := by
    rw [settled, Tag.mapValues, List.map_map]
    rfl
  rw [hmap]
  rcases settle_id_cases policy used renames tag with hsame | ⟨new, hset⟩ | hgone
  · rwa [hsame]
  · rw [hset]
    exact Attributes.nodup_set h new
  · rw [hgone]
    exact Attributes.nodup_remove h

theorem attribute_settle_id (policy : Policy) (used : List String) (renames : Renaming) {tag : Tag}
    (h : (tag.attributes.map (·.name)).Nodup) :
    (policy.settleId used renames tag).attribute? "id" =
      (tag.attribute? "id").bind (newId policy used renames) := by
  rw [Policy.settleId]
  split
  · rename_i hnone
    rw [hnone]
    rfl
  · rename_i id hid
    rw [hid, Option.bind_some, newId]
    cases hlookup : renames.lookup id with
    | some new => exact Attributes.get_set_self new
    | none =>
        simp only
        split
        · exact Attributes.get_remove_self h
        · exact hid

/-- The identifier itself is no link, but references that are written in it are renamed. -/
theorem attribute_settled (policy : Policy) (used : List String) (renames : Renaming) {tag : Tag}
    (h : (tag.attributes.map (·.name)).Nodup) :
    (settled policy used renames tag).attribute? "id" =
      ((tag.attribute? "id").bind (newId policy used renames)).map (renameInValue renames) := by
  have hvalue : (settled policy used renames tag).attribute? "id" =
      ((policy.settleId used renames tag).attribute? "id").map
        fun id => follow renames ⟨"id", id⟩ :=
    Attributes.get_map_value (follow renames)
  rw [hvalue, attribute_settle_id policy used renames h]
  exact Option.map_congr fun id _ => follow_of_not_link renames id_not_link

/-! ### The document -/

/-- What the pass needs to know about its document: identifiers are names of the markup language and
all different, and no tag has two attributes of one name. -/
structure HasPlainIds (doc : Document) : Prop where
  name_chars : ∀ id ∈ identifiers doc, id ≠ "" ∧ ∀ c ∈ id.toList, Markup.isNameChar c
  distinct : (identifiers doc).Nodup
  distinct_names : ∀ tag ∈ doc.tags, (tag.attributes.map (·.name)).Nodup

theorem mem_identifiers {doc : Document} {tag : Tag} {id : String} (htag : tag ∈ doc.tags)
    (hid : tag.attribute? "id" = some id) : id ∈ identifiers doc :=
  List.mem_filterMap.mpr ⟨tag, htag, hid⟩

theorem mem_referenced {doc : Document} {tag : Tag} {a : Attribute} {name : String}
    (htag : tag ∈ doc.tags) (ha : a ∈ tag.attributes) (hname : name ∈ references a) :
    name ∈ referenced doc :=
  List.mem_flatMap.mpr ⟨tag, htag, List.mem_flatMap.mpr ⟨a, ha, hname⟩⟩

theorem HasPlainIds.no_paren {doc : Document} (h : HasPlainIds doc) {id : String}
    (hid : id ∈ identifiers doc) : '(' ∉ id.toList :=
  fun hmem => absurd ((h.name_chars id hid).2 _ hmem) (by decide)

theorem new_id_of_lookup {policy : Policy} {used : List String} {renames : Renaming}
    {id new : String} (h : renames.lookup id = some new) :
    newId policy used renames id = some new := by
  simp only [newId, h]

theorem nodup_filter_map_iff {α β : Type} {f : α → Option β} {l : List α} (h : l.Nodup) :
    (l.filterMap f).Nodup ↔ ∀ a ∈ l, ∀ b ∈ l, ∀ c, f a = some c → f b = some c → a = b := by
  rw [List.Nodup, List.pairwise_filterMap]
  constructor
  · intro hpairs a ha b hb c hfa hfb
    by_contra hne
    have hsymm : Std.Symm fun a b : α => ∀ x, f a = some x → ∀ y, f b = some y → x ≠ y :=
      ⟨fun a b hab y hy x hx => (hab x hx y hy).symm⟩
    exact hpairs.forall ha hb hne c hfa c hfb rfl
  · intro hinj
    apply h.imp_of_mem
    rintro a b ha hb hne x hx y hy rfl
    exact hne (hinj a ha b hb x hx hy)

section Document

variable {policy : Policy} {doc : Document} {renames : Renaming} {m : Nat}
  (hremove : policy.remove = true) (hplain : HasPlainIds doc)
  (hassigned : IsAssigned policy (referenced doc) (identifiers doc) renames m)

include hassigned in
/-- The only reason for an identifier in use to have no new name. -/
theorem preserves_of_lookup_none {id : String} (hid : id ∈ identifiers doc)
    (h : renames.lookup id = none) (hused : id ∈ referenced doc) : policy.preserves id = true := by
  by_contra hfree
  have hhas := (hassigned.has_iff id).mpr ⟨hid, hused, Bool.eq_false_iff.mpr hfree⟩
  rw [Renaming.has, h] at hhas
  cases hhas

include hremove hassigned in
/-- An identifier without a new name stays exactly if it is preserved. -/
theorem new_id_of_none {id : String} (hid : id ∈ identifiers doc) (h : renames.lookup id = none) :
    newId policy (referenced doc) renames id = if policy.preserves id then some id else none := by
  simp only [newId, h, hremove, Bool.true_and]
  by_cases hused : id ∈ referenced doc
  · simp [hused, preserves_of_lookup_none hassigned hid h hused]
  · cases hkept : policy.preserves id with
    | true => simp
    | false => simp [hused]

include hremove hassigned in
theorem new_id_is_some_iff {id : String} (hid : id ∈ identifiers doc) :
    (newId policy (referenced doc) renames id).isSome ↔
      id ∈ referenced doc ∨ policy.preserves id := by
  cases hlookup : renames.lookup id with
  | some new =>
      have hused := ((hassigned.has_iff id).mp (has_iff_lookup.mpr ⟨new, hlookup⟩)).2.1
      simp [new_id_of_lookup hlookup, hused]
  | none =>
      rw [new_id_of_none hremove hassigned hid hlookup]
      constructor
      · intro hsome
        exact .inr (by simpa using hsome)
      · rintro (hused | hkept)
        · simp [preserves_of_lookup_none hassigned hid hlookup hused]
        · simp [hkept]

include hremove hassigned in
/-- Two identifiers never end up as one: new names differ, and none of them is preserved. -/
theorem new_id_inj (hexempt : policy.preservePrefixes = []) {id id' new : String}
    (hid : id ∈ identifiers doc) (hid' : id' ∈ identifiers doc)
    (hnew : newId policy (referenced doc) renames id = some new)
    (hnew' : newId policy (referenced doc) renames id' = some new) : id = id' := by
  have hkept {x found : String} (hx : x ∈ identifiers doc) (hnone : renames.lookup x = none)
      (hfound : newId policy (referenced doc) renames x = some found) :
      x = found ∧ found ∈ policy.preserve := by
    rw [new_id_of_none hremove hassigned hx hnone, Option.ite_none_right_eq_some] at hfound
    obtain ⟨hpreserves, heq⟩ := hfound
    obtain rfl := Option.some.inj heq
    exact ⟨rfl, by simpa [Policy.preserves, hexempt] using hpreserves⟩
  have hfresh {x found : String} (hfound : renames.lookup x = some found) :
      found ∉ policy.preserve := by
    obtain ⟨k, -, -, hfree⟩ := hassigned.short x found hfound
    exact hfree
  cases hlookup : renames.lookup id with
  | some found =>
      obtain rfl : found = new := by simpa [new_id_of_lookup hlookup] using hnew
      cases hlookup' : renames.lookup id' with
      | some found' =>
          obtain rfl : found' = found := by simpa [new_id_of_lookup hlookup'] using hnew'
          exact hassigned.distinct id id' _ hlookup hlookup'
      | none => exact absurd (hkept hid' hlookup' hnew').2 (hfresh hlookup)
  | none =>
      obtain ⟨rfl, hpreserved⟩ := hkept hid hlookup hnew
      cases hlookup' : renames.lookup id' with
      | some found' =>
          obtain rfl : found' = id := by simpa [new_id_of_lookup hlookup'] using hnew'
          exact absurd hpreserved (hfresh hlookup')
      | none => exact (hkept hid' hlookup' hnew').1.symm

include hplain hassigned in
theorem assigned_no_paren {name : String} (h : renames.has name) : '(' ∉ name.toList :=
  hplain.no_paren ((hassigned.has_iff name).mp h).1

include hremove hplain hassigned in
theorem attribute_settled_of_mem
    (hlead : ∀ c ∈ policy.namePrefix.toList, Markup.isNameChar c) {tag : Tag}
    (htag : tag ∈ doc.tags) :
    (settled policy (referenced doc) renames tag).attribute? "id" =
      (tag.attribute? "id").bind (newId policy (referenced doc) renames) := by
  rw [attribute_settled policy _ renames (hplain.distinct_names tag htag)]
  refine (Option.map_congr fun new hnew => rename_in_value_of_no_paren renames ?_).trans
    Option.map_id'
  obtain ⟨id, hid, hnew⟩ := Option.bind_eq_some_iff.mp hnew
  have hmem := mem_identifiers htag hid
  cases hlookup : renames.lookup id with
  | some found =>
      obtain rfl : found = new := by simpa [new_id_of_lookup hlookup] using hnew
      obtain ⟨k, -, rfl, -⟩ := hassigned.short id found hlookup
      obtain ⟨front, last, hsplit, -, hlast, hfront⟩ := made_of_name_chars hlead k
      rw [hsplit, List.mem_append, List.mem_singleton]
      rintro (hparen | heq)
      · exact (hfront _ hparen).2.2.2 rfl
      · exact hlast heq.symm
  | none =>
      rw [new_id_of_none hremove hassigned hmem hlookup, Option.ite_none_right_eq_some] at hnew
      obtain rfl := Option.some.inj hnew.2
      exact hplain.no_paren hmem

include hremove hplain hassigned in
theorem is_now_named_iff (hlead : ∀ c ∈ policy.namePrefix.toList, Markup.isNameChar c)
    {old new : String} : IsNowNamed doc (settled policy (referenced doc) renames) old new ↔
      (old ∈ identifiers doc → newId policy (referenced doc) renames old = some new) := by
  constructor
  · intro h hold
    obtain ⟨tag, htag, hid⟩ := List.mem_filterMap.mp hold
    rw [← h tag htag hid, attribute_settled_of_mem hremove hplain hassigned hlead htag, hid]
    rfl
  · intro h tag htag hid
    rw [attribute_settled_of_mem hremove hplain hassigned hlead htag, hid]
    exact h (mem_identifiers htag hid)

include hremove hplain hassigned in
theorem identifiers_settled_nodup (hexempt : policy.preservePrefixes = [])
    (hlead : ∀ c ∈ policy.namePrefix.toList, Markup.isNameChar c) :
    (identifiers (doc.mapTags (settled policy (referenced doc) renames))).Nodup := by
  have hids : identifiers (doc.mapTags (settled policy (referenced doc) renames)) =
      (identifiers doc).filterMap (newId policy (referenced doc) renames) := by
    rw [identifiers, Document.tags_map_tags, List.filterMap_map, identifiers,
      List.filterMap_filterMap]
    apply List.filterMap_congr
    exact fun tag htag => attribute_settled_of_mem hremove hplain hassigned hlead htag
  rw [hids, nodup_filter_map_iff hplain.distinct]
  exact fun id hid id' hid' new hnew hnew' =>
    new_id_inj hremove hassigned hexempt hid hid' hnew hnew'

theorem attributes_follow_iff {settle : Tag → Tag} {value : Attribute → String}
    {follows : Attribute → Attribute → Prop}
    (hvalues : ∀ tag, others (settle tag) = List.map (fun a => ⟨a.name, value a⟩) (others tag)) :
    AttributesFollow doc settle follows ↔
      ∀ tag ∈ doc.tags, ∀ a ∈ others tag, follows a ⟨a.name, value a⟩ := by
  simp only [AttributesFollow, hvalues, List.forall₂_map_right_iff, List.forall₂_same, true_and]

include hremove hplain hassigned in
theorem links_follow (hlead : ∀ c ∈ policy.namePrefix.toList, Markup.isNameChar c) :
    LinksFollow doc (settled policy (referenced doc) renames) := by
  refine (attributes_follow_iff (others_settled policy _ renames)).mpr
    fun tag htag a ha old htarget hold => ?_
  have hlink := (target_iff.mp htarget).1
  have hlinks : renames.IsPlain := plain_of_no_paren fun _ => assigned_no_paren hplain hassigned
  have hused : old ∈ referenced doc :=
    mem_referenced htag (List.mem_filter.mp ha).1 (List.mem_append_right _ (by simp [htarget]))
  cases hlookup : renames.lookup old with
  | some new =>
      refine ⟨new, ?_, (is_now_named_iff hremove hplain hassigned hlead).mpr fun _ =>
        new_id_of_lookup hlookup⟩
      rw [follow_link hlinks htarget hlookup]
      exact target_iff.mpr ⟨hlink, rfl⟩
  | none =>
      have hvalue := (target_iff.mp htarget).2
      have hsame : follow renames a = a.value := by
        rw [follow_other hlinks]
        · apply rename_in_value_of_no_paren
          simpa [hvalue] using hplain.no_paren hold
        · intro name hname
          rw [htarget] at hname
          rwa [← Option.some.inj hname]
      refine ⟨old, ?_, (is_now_named_iff hremove hplain hassigned hlead).mpr fun _ => ?_⟩
      · rw [hsame]
        exact htarget
      · rw [new_id_of_none hremove hassigned hold hlookup,
          preserves_of_lookup_none hassigned hold hlookup hused]
        rfl

include hremove hplain hassigned in
theorem references_follow_iff (hlead : ∀ c ∈ policy.namePrefix.toList, Markup.isNameChar c) :
    ReferencesFollow doc (settled policy (referenced doc) renames) ↔
      ∀ tag ∈ doc.tags, ∀ a ∈ tag.attributes, CanFollow policy.namePrefix
        (fun name => decide (name ∈ identifiers doc ∧ policy.preserves name = false)) a.value := by
  have hkeys : ∀ name, renames.has name → '(' ∉ name.toList :=
    fun _ => assigned_no_paren hplain hassigned
  have hnamed {old new : String} :
      IsNowNamed doc (settled policy (referenced doc) renames) old new ↔
        (old ∈ identifiers doc → newId policy (referenced doc) renames old = some new) :=
    is_now_named_iff hremove hplain hassigned hlead
  have hone {tag : Tag} (htag : tag ∈ doc.tags) {a : Attribute} (ha : a ∈ tag.attributes) :
      List.Forall₂ (IsNowNamed doc (settled policy (referenced doc) renames)) (namesIn a.value)
        (namesIn (follow renames a)) ↔ CanFollow policy.namePrefix
          (fun name => decide (name ∈ identifiers doc ∧ policy.preserves name = false))
            a.value := by
    have hused (name : String) (hname : name ∈ namesIn a.value) : name ∈ referenced doc :=
      mem_referenced htag ha (List.mem_append_left _ hname)
    rw [← clean_iff_can_follow hassigned hlead hused]
    apply follow_names_iff hkeys
    · intro name new hlookup
      obtain ⟨k, -, rfl, -⟩ := hassigned.short name new hlookup
      exact made_of_name_chars hlead k
    · intro name new hlookup found
      have hid := ((hassigned.has_iff name).mp (has_iff_lookup.mpr ⟨new, hlookup⟩)).1
      rw [hnamed, new_id_of_lookup hlookup]
      simp [hid, eq_comm]
    · intro name hname hlookup
      refine hnamed.mpr fun hid => ?_
      rw [new_id_of_none hremove hassigned hid hlookup,
        preserves_of_lookup_none hassigned hid hlookup (hused name hname)]
      rfl
  rw [ReferencesFollow, attributes_follow_iff (others_settled policy _ renames)]
  constructor
  · intro h tag htag a ha
    by_cases hid : a.name = "id"
    · -- an identifier holds no reference
      have hvalue : tag.attribute? "id" = some a.value := by
        rw [← hid]
        exact Attributes.get_of_mem (hplain.distinct_names tag htag) ha
      refine .inl fun name hname => ?_
      rw [names_in_eq, names_of_no_paren (hplain.no_paren (mem_identifiers htag hvalue))] at hname
      cases hname
    · exact (hone htag ha).mp (h tag htag a (List.mem_filter.mpr ⟨ha, by simpa using hid⟩))
  · intro h tag htag a ha
    have ha := (List.mem_filter.mp ha).1
    exact (hone htag ha).mpr (h tag htag a ha)

end Document

/-- What the pass does where it removes and renames. The tree stays; an identifier stays under one
name or another exactly where it is in use or preserved; identifiers differ, and links follow. The
other references follow as well if each of them can still be told from the text before it. -/
theorem cleanup_follows_iff {params : Params} {policy : Policy} {doc : Document}
    (hread : Policy.read params = .ok policy) (hremove : policy.remove = true)
    (hminify : policy.minify = true) (hexempt : policy.preservePrefixes = [])
    (hlead : ∀ c ∈ policy.namePrefix.toList, Markup.isNameChar c)
    (hopen : policy.force = true ∨ isScripted doc = false) (hplain : HasPlainIds doc) :
    ∃ settle, cleanup.apply params doc = .ok (doc.mapTags settle) ∧
      (∀ tag ∈ doc.tags, (settle tag).name = tag.name) ∧
      (∀ tag ∈ doc.tags, ((settle tag).attribute? "id").isSome ↔
        ∃ id, tag.attribute? "id" = some id ∧ (id ∈ referenced doc ∨ id ∈ policy.preserve)) ∧
      (identifiers (doc.mapTags settle)).Nodup ∧ LinksFollow doc settle ∧
      (ReferencesFollow doc settle ↔ ∀ tag ∈ doc.tags, ∀ a ∈ tag.attributes,
        CanFollow policy.namePrefix
          (fun name => decide (name ∈ identifiers doc ∧ name ∉ policy.preserve)) a.value) := by
  obtain ⟨m, hassigned⟩ := assigned hminify (referenced doc) (identifiers doc)
  have hpreserves (name : String) : policy.preserves name = policy.preserve.contains name := by
    rw [Policy.preserves, hexempt, List.any_nil, Bool.or_false]
  refine ⟨settled policy (referenced doc) (policy.assign (referenced doc) [] 0 (identifiers doc)),
    ?_, fun tag _ => settled_name policy _ _ tag, fun tag htag => ?_,
    identifiers_settled_nodup hremove hplain hassigned hexempt hlead,
    links_follow hremove hplain hassigned hlead, ?_⟩
  · have happly : cleanup.apply params doc = .ok (policy.apply doc) := by
      show (do return (← Policy.read params).apply doc) = _
      rw [hread]
      rfl
    have hunscripted : (isScripted doc && !policy.force) = false := by
      rcases hopen with hforce | hscript
      · simp [hforce]
      · simp [hscript]
    rw [happly, Policy.apply, hunscripted]
    rfl
  · rw [attribute_settled_of_mem hremove hplain hassigned hlead htag]
    cases hid : tag.attribute? "id" with
    | none => simp
    | some id =>
        rw [Option.bind_some, new_id_is_some_iff hremove hassigned (mem_identifiers htag hid),
          hpreserves, List.contains_iff_mem]
        simp
  · rw [references_follow_iff hremove hplain hassigned hlead]
    have hrenamed (name : String) : policy.preserves name = false ↔ name ∉ policy.preserve := by
      rw [hpreserves, ← Bool.not_eq_true, List.contains_iff_mem]
    simp only [hrenamed]

/-- A drawing with identifiers of every kind: in use, not in use, and one that a caller may want to
preserve. -/
def drawing : Document :=
  ⟨[.element ⟨"svg", []⟩
    [.element ⟨"linearGradient", [⟨"id", "sky"⟩]⟩ [],
      .element ⟨"linearGradient", [⟨"id", "sea"⟩]⟩ [],
      .element ⟨"g", [⟨"id", "logo"⟩]⟩ [],
      .element ⟨"rect", [⟨"fill", "url('#sky')"⟩, ⟨"stroke", "url( #sky ) red"⟩]⟩ [],
      .element ⟨"use", [⟨"href", "#logo"⟩]⟩ []]]⟩

theorem cleanup_follows_drawing :
    ∃ settle, cleanup.apply [("prefix", .string "p-"), ("preserve", .string "logo")] drawing =
        .ok (drawing.mapTags settle) ∧
      (identifiers (drawing.mapTags settle)).Nodup ∧ LinksFollow drawing settle ∧
      ReferencesFollow drawing settle := by
  have hread : Policy.read [("prefix", .string "p-"), ("preserve", .string "logo")] =
      .ok ⟨true, true, "p-", ["logo"], [], false⟩ := rfl
  have hplain : HasPlainIds drawing := ⟨by decide +kernel, by decide +kernel, by decide +kernel⟩
  have hopen : isScripted drawing = false := by decide +kernel
  obtain ⟨settle, happly, -, -, hdistinct, hlinks, hreferences⟩ :=
    cleanup_follows_iff hread rfl rfl rfl (by decide) (.inr hopen) hplain
  refine ⟨settle, happly, hdistinct, hlinks, hreferences.mpr ?_⟩
  unfold CanFollow
  decide +kernel

/-- A value in which a reference stands behind an unfinished one. -/
def tangled : Document :=
  ⟨[.element ⟨"svg", []⟩
    [.element ⟨"g", [⟨"id", "a"⟩]⟩ [], .element ⟨"rect", [⟨"fill", "url(#url('#a')"⟩]⟩ []]]⟩

/-- The reference is renamed, but what is then written names something else. -/
theorem reference_swallowed :
    ∃ settle, HasPlainIds tangled ∧ isScripted tangled = false ∧
      cleanup.apply [("prefix", .string "p-")] tangled = .ok (tangled.mapTags settle) ∧
      ¬ ReferencesFollow tangled settle := by
  let policy : Policy := ⟨true, true, "p-", [], [], false⟩
  have hused : referenced tangled = ["a"] := by decide +kernel
  have hassign : policy.assign ["a"] [] 0 (identifiers tangled) = [("a", "p-a")] := by
    decide +kernel
  refine ⟨settled policy ["a"] [("a", "p-a")],
    ⟨by decide +kernel, by decide +kernel, by decide +kernel⟩, by decide +kernel, ?_, ?_⟩
  · rw [← hassign, ← hused]
    rfl
  · unfold ReferencesFollow AttributesFollow IsNowNamed
    decide +kernel

end SvgPress.Identifiers
