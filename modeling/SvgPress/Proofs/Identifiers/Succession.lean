import SvgPress.Proofs.Identifiers.Cleanup

/-!
Passes with one prefix, one after another. The first leaves no identifiers but short names behind
the prefix, and the next ones find these. Links follow from pass to pass. A mention follows as well,
if names behind the prefix can be read and the text before it has not begun a reference; otherwise
it is lost in the first pass, since what is read there instead is no name that a pass gives.
-/

namespace SvgPress.Identifiers

/-- Every mention of an element of the document names that element where it stands. -/
def MentionsFollow (doc : Document) (settle : Tag → Tag) : Prop :=
  AttributesFollow doc settle fun a b => ∀ (k : Nat) (old : String),
    (namesIn a.value)[k]? = some old → old ∈ identifiers doc →
      ∃ new, (namesIn b.value)[k]? = some new ∧ IsNowNamed doc settle old new

/-- Whether the mentions of identifiers in a value are found again when names behind a prefix are
written into it. -/
def Survives (lead : String) (ids : List String) (value : String) : Prop :=
  (∀ name ∈ namesIn value, name ∉ ids) ∨
    (∀ c ∈ lead.toList, isNameChar c) ∧ swallows ids.contains (segments value) = false

/-- What passes with one prefix find. Identifiers hold no parenthesis that could begin a reference,
except those that an earlier pass has left there with the prefix. -/
structure IsReady (lead : String) (doc : Document) : Prop where
  unscripted : isScripted doc = false
  distinct_names : ∀ tag ∈ doc.tags, (tag.attributes.map (·.name)).Nodup
  fits : ∀ id ∈ identifiers doc, '(' ∉ id.toList ∨ ∃ k, id = lead ++ shortName k
  apart : ∀ name ∈ namesIn lead, name ∉ identifiers doc

theorem IsReady.count_open {lead : String} {doc : Document} (h : IsReady lead doc) {id : String}
    (hid : id ∈ identifiers doc) : id.toList.count '(' ≤ lead.toList.count '(' := by
  rcases h.fits id hid with hopen | ⟨k, rfl⟩
  · rw [List.count_eq_zero_of_not_mem hopen]
    exact Nat.zero_le _
  · exact Nat.le_of_eq (count_open_short lead k)

theorem IsReady.names_apart {lead : String} {doc : Document} (h : IsReady lead doc) {id : String}
    (hid : id ∈ identifiers doc) : ∀ name ∈ namesIn id, name ∉ identifiers doc := by
  rcases h.fits id hid with hopen | ⟨k, rfl⟩
  · rw [names_in_eq, names_of_no_paren hopen]
    exact fun name hname => absurd hname List.not_mem_nil
  · rw [names_in_short]
    exact h.apart

section Pass

variable {policy : Policy} {doc : Document} {renames : Renaming} {m : Nat}
  (hremove : policy.remove = true) (hfree : ∀ name, policy.preserves name = false)
  (hready : IsReady policy.namePrefix doc)
  (hassigned : IsAssigned policy (referenced doc) (identifiers doc) renames m)

include hassigned in
theorem lookup_none_of_not_mem {name : String} (h : name ∉ identifiers doc) :
    renames.lookup name = none := by
  rw [lookup_eq_none_iff]
  exact fun hhas => h ((hassigned.has_iff name).mp hhas).1

include hfree hassigned in
/-- Every identifier in use gets a new name. -/
theorem lookup_of_used {id : String} (hid : id ∈ identifiers doc) (hused : id ∈ referenced doc) :
    ∃ k, renames.lookup id = some (policy.namePrefix ++ shortName k) := by
  obtain ⟨new, hnew⟩ := has_iff_lookup.mp ((hassigned.has_iff id).mpr ⟨hid, hused, hfree id⟩)
  obtain ⟨k, -, rfl, -⟩ := hassigned.short id new hnew
  exact ⟨k, hnew⟩

include hready hassigned in
theorem IsReady.plain : renames.IsPlain where
  names name hname inner hinner :=
    lookup_none_of_not_mem hassigned
      (hready.names_apart ((hassigned.has_iff name).mp hname).1 inner hinner)
  opens name hname old new hnew := by
    obtain ⟨k, -, rfl, -⟩ := hassigned.short old new hnew
    rw [count_open_short]
    exact hready.count_open ((hassigned.has_iff name).mp hname).1

include hremove hfree hassigned in
/-- An identifier is given the name that was found for it, in which references are renamed, or is
removed. -/
theorem attribute_settled_of_free {tag : Tag} (htag : tag ∈ doc.tags)
    (hnames : (tag.attributes.map (·.name)).Nodup) :
    (settled policy (referenced doc) renames tag).attribute? "id" =
      ((tag.attribute? "id").bind fun id => renames.lookup id).map (renameInValue renames) := by
  rw [attribute_settled policy _ renames hnames]
  cases hid : tag.attribute? "id" with
  | none => rfl
  | some id =>
      rw [Option.bind_some, Option.bind_some]
      cases hlookup : renames.lookup id with
      | some new => rw [new_id_of_lookup hlookup]
      | none =>
          have hunused : (referenced doc).contains id = false := by
            rw [Bool.eq_false_iff, ne_eq, List.contains_iff_mem]
            intro hused
            obtain ⟨k, hnew⟩ := lookup_of_used hfree hassigned (mem_identifiers htag hid) hused
            rw [hlookup] at hnew
            cases hnew
          simp only [newId, hlookup, hremove, hunused, hfree, Bool.not_false,
            Bool.and_self, if_true]

include hassigned in
/-- A name that is given stays as it is if no reference in the prefix is to an identifier. -/
theorem rename_given (hapart : ∀ name ∈ namesIn policy.namePrefix, name ∉ identifiers doc)
    {id new : String} (h : renames.lookup id = some new) : renameInValue renames new = new := by
  obtain ⟨k, -, rfl, -⟩ := hassigned.short id new h
  refine rename_in_value_of_none fun name hname => lookup_none_of_not_mem hassigned ?_
  rw [names_in_short] at hname
  exact hapart name hname

include hremove hfree hassigned in
theorem attribute_settled_of_apart
    (hapart : ∀ name ∈ namesIn policy.namePrefix, name ∉ identifiers doc) {tag : Tag}
    (htag : tag ∈ doc.tags) (hnames : (tag.attributes.map (·.name)).Nodup) :
    (settled policy (referenced doc) renames tag).attribute? "id" =
      (tag.attribute? "id").bind fun id => renames.lookup id := by
  rw [attribute_settled_of_free hremove hfree hassigned htag hnames]
  refine (Option.map_congr fun new hnew => ?_).trans Option.map_id'
  obtain ⟨id, -, hlookup⟩ := Option.bind_eq_some_iff.mp hnew
  exact rename_given hassigned hapart hlookup

include hremove hfree hready hassigned in
theorem IsReady.attribute_settled {tag : Tag} (htag : tag ∈ doc.tags) :
    (settled policy (referenced doc) renames tag).attribute? "id" =
      (tag.attribute? "id").bind fun id => renames.lookup id :=
  attribute_settled_of_apart hremove hfree hassigned hready.apart htag
    (hready.distinct_names tag htag)

include hremove hfree hready hassigned in
/-- What is left of the identifiers. -/
theorem IsReady.short_of_mem {id : String}
    (h : id ∈ identifiers (doc.mapTags (settled policy (referenced doc) renames))) :
    ∃ k, id = policy.namePrefix ++ shortName k := by
  rw [identifiers, Document.tags_map_tags, List.filterMap_map] at h
  obtain ⟨tag, htag, hid⟩ := List.mem_filterMap.mp h
  rw [Function.comp_apply, hready.attribute_settled hremove hfree hassigned htag] at hid
  obtain ⟨old, -, hnew⟩ := Option.bind_eq_some_iff.mp hid
  obtain ⟨k, -, hshort, -⟩ := hassigned.short old id hnew
  exact ⟨k, hshort⟩

include hremove hfree hready hassigned in
theorem IsReady.now_named {old new : String} (h : renames.lookup old = some new) :
    IsNowNamed doc (settled policy (referenced doc) renames) old new := by
  intro tag htag hid
  rw [hready.attribute_settled hremove hfree hassigned htag, hid]
  exact h

include hremove hfree hready hassigned in
/-- The next pass finds what this one found. -/
theorem IsReady.settled :
    IsReady policy.namePrefix (doc.mapTags (settled policy (referenced doc) renames)) where
  unscripted := by
    have hscripted := hready.unscripted
    rw [isScripted, Document.tags_map_tags, List.any_map] at *
    rw [← hscripted]
    congr 1
    funext tag
    rw [Function.comp_apply, settled_name]
  distinct_names := by
    rw [Document.tags_map_tags]
    intro tag' htag'
    obtain ⟨tag, htag, rfl⟩ := List.mem_map.mp htag'
    exact names_settled_nodup policy _ renames (hready.distinct_names tag htag)
  fits id hid := .inr (hready.short_of_mem hremove hfree hassigned hid)
  apart name hname hid := by
    obtain ⟨k, rfl⟩ := hready.short_of_mem hremove hfree hassigned hid
    have hlength := length_of_mem_names hname
    rw [String.toList_append, List.length_append] at hlength
    omega

include hfree hready hassigned in
/-- A link to an element of the document, before a pass and after it. -/
theorem IsReady.follow_target {tag : Tag} (htag : tag ∈ doc.tags) {a : Attribute}
    (ha : a ∈ tag.attributes) {old : String} (htarget : target? a = some old)
    (hold : old ∈ identifiers doc) :
    ∃ k, renames.lookup old = some (policy.namePrefix ++ shortName k) ∧
      follow renames a = "#" ++ (policy.namePrefix ++ shortName k) := by
  have hused : old ∈ referenced doc :=
    mem_referenced htag ha (List.mem_append_right _ (by simp [htarget]))
  obtain ⟨k, hnew⟩ := lookup_of_used hfree hassigned hold hused
  exact ⟨k, hnew, follow_link (hready.plain hassigned) htarget hnew⟩

theorem mentions_in_of_names_nil {value : String} (h : namesIn value = []) :
    mentionsIn value = [] := by
  rw [names_in_eq_mentions, List.map_eq_nil_iff] at h
  exact h

include hfree hready hassigned in
theorem IsReady.mentions_follow (hlead : ∀ c ∈ policy.namePrefix.toList, isNameChar c) {tag : Tag}
    (htag : tag ∈ doc.tags) {a : Attribute} (ha : a ∈ tag.attributes) :
    List.Forall₂ (MentionFollows renames) (mentionsIn a.value) (mentionsIn (follow renames a)) := by
  by_cases hlink : ∃ old, target? a = some old ∧ old ∈ identifiers doc
  · -- there is no reference in an identifier, new or old
    obtain ⟨old, htarget, hold⟩ := hlink
    obtain ⟨k, -, hfollow⟩ := hready.follow_target hfree hassigned htag ha htarget hold
    have hnone : namesIn policy.namePrefix = [] :=
      names_of_no_close fun hmem => (name_char_ne (hlead _ hmem)).2.2 rfl
    have hshort (k : Nat) : namesIn ("#" ++ (policy.namePrefix ++ shortName k)) = [] := by
      rw [names_in_mark, names_in_short, hnone]
    have hbefore : namesIn a.value = [] := by
      rw [(target_iff.mp htarget).2]
      rcases hready.fits old hold with hopen | ⟨k, rfl⟩
      · rw [names_in_mark, names_in_eq, names_of_no_paren hopen]
      · exact hshort k
    rw [hfollow, mentions_in_of_names_nil hbefore, mentions_in_of_names_nil (hshort k)]
    exact .nil
  · have hother : ∀ old, target? a = some old → renames.lookup old = none :=
      fun old htarget => lookup_none_of_not_mem hassigned fun hold => hlink ⟨old, htarget, hold⟩
    have hnames (name new : String) (hnew : renames.lookup name = some new) :
        IsName new.toList := by
      obtain ⟨k, -, rfl, -⟩ := hassigned.short name new hnew
      exact (is_name_short_iff _ k).mpr hlead
    rw [follow_other (hready.plain hassigned) hother, mentionsIn, mentionsIn,
      segments_eq, segments_eq, rename_in_value_eq]
    exact mentions_render fun name _ => hnames name

end Pass

/-! ### Mentions through passes -/

/-- How the mention of an element stands after some passes: as it stood before, for the new name, or
lost, since it holds too many parentheses for the name of an element. -/
def Tracks (lead : String) (doc : Document) (settle : Tag → Tag) (old new : List Char × String) :
    Prop :=
  old.2 ∈ identifiers doc →
    if overruns old.1 then lead.toList.count '(' < new.2.toList.count '('
    else new.1 = old.1 ∧ IsNowNamed doc settle old.2 new.2

section Elements

variable {doc : Document} {settle next : Tag → Tag} {old mid new : String}

theorem IsNowNamed.mem (h : IsNowNamed doc settle old new) (hold : old ∈ identifiers doc) :
    new ∈ identifiers (doc.mapTags settle) := by
  obtain ⟨tag, htag, hid⟩ := List.mem_filterMap.mp hold
  refine mem_identifiers ?_ (h tag htag hid)
  rw [Document.tags_map_tags]
  exact List.mem_map_of_mem htag

theorem IsNowNamed.trans (h : IsNowNamed doc settle old mid)
    (hnext : IsNowNamed (doc.mapTags settle) next mid new) :
    IsNowNamed doc (fun tag => next (settle tag)) old new := by
  intro tag htag hid
  refine hnext (settle tag) ?_ (h tag htag hid)
  rw [Document.tags_map_tags]
  exact List.mem_map_of_mem htag

theorem mem_referenced_of_mention {tag : Tag} (htag : tag ∈ doc.tags) {a : Attribute}
    (ha : a ∈ tag.attributes) {mention : List Char × String} (h : mention ∈ mentionsIn a.value) :
    mention.2 ∈ referenced doc := by
  refine mem_referenced htag ha (List.mem_append_left _ ?_)
  rw [names_in_eq_mentions]
  exact List.mem_map_of_mem h

end Elements

section Tracks

variable {policy : Policy} (hremove : policy.remove = true)
  (hfree : ∀ name, policy.preserves name = false) {doc : Document} {renames : Renaming} {m : Nat}
  {old mid new : List Char × String}

include hremove hfree

/-- A mention of an element is lost in a pass, or names the element after it. -/
theorem IsReady.tracks (hready : IsReady policy.namePrefix doc)
    (hassigned : IsAssigned policy (referenced doc) (identifiers doc) renames m)
    (hused : old.2 ∈ referenced doc) (h : MentionFollows renames old new) :
    Tracks policy.namePrefix doc (Identifiers.settled policy (referenced doc) renames) old new := by
  intro hold
  obtain ⟨k, hnew⟩ := lookup_of_used hfree hassigned hold hused
  cases hover : overruns old.1 with
  | true =>
      obtain ⟨begun, hlost⟩ := (mention_follows_overrun hnew hover).mp h
      rw [if_pos rfl, hlost, List.count_append, List.count_append, count_open_short]
      have hbegin : "url(#".toList.count '(' = 1 := by decide
      omega
  | false =>
      rw [if_neg Bool.false_ne_true, (mention_follows_apart hnew hover).mp h]
      exact ⟨rfl, hready.now_named hremove hfree hassigned hnew⟩

/-- What is lost stays lost, and what stands as it stood still does after another pass. -/
theorem Tracks.next {settle : Tag → Tag} (h : Tracks policy.namePrefix doc settle old mid)
    (hready : IsReady policy.namePrefix (doc.mapTags settle))
    (hassigned : IsAssigned policy (referenced (doc.mapTags settle))
      (identifiers (doc.mapTags settle)) renames m)
    (hused : mid.2 ∈ referenced (doc.mapTags settle)) (hfollows : MentionFollows renames mid new) :
    Tracks policy.namePrefix doc
      (fun tag => Identifiers.settled policy (referenced (doc.mapTags settle)) renames (settle tag))
      old new := by
  intro hold
  have hmid := h hold
  cases hover : overruns old.1 with
  | true =>
      rw [hover, if_pos rfl] at hmid
      have hnone : renames.lookup mid.2 = none :=
        lookup_none_of_not_mem hassigned fun hmem => Nat.not_lt.mpr (hready.count_open hmem) hmid
      rwa [if_pos rfl, (mention_follows_none hnone).mp hfollows]
  | false =>
      rw [hover, if_neg Bool.false_ne_true] at hmid
      obtain ⟨hplace, hnamed⟩ := hmid
      obtain ⟨k, hnew⟩ := lookup_of_used hfree hassigned (hnamed.mem hold) hused
      rw [← hplace] at hover
      rw [if_neg Bool.false_ne_true, (mention_follows_apart hnew hover).mp hfollows]
      exact ⟨hplace, hnamed.trans (hready.now_named hremove hfree hassigned hnew)⟩

end Tracks

/-! ### One pass after another -/

/-- What passes with one prefix have done to the tags of a document, and to the values of its
attributes. -/
structure HavePassed (lead : String) (doc : Document) (settle : Tag → Tag)
    (value : Attribute → String) : Prop where
  ready : IsReady lead (doc.mapTags settle)
  short : ∀ id ∈ identifiers (doc.mapTags settle), ∃ k, id = lead ++ shortName k
  name : ∀ tag, (settle tag).name = tag.name
  values : ∀ tag, others (settle tag) = List.map (fun a => ⟨a.name, value a⟩) (others tag)
  links : ∀ tag ∈ doc.tags, ∀ a ∈ others tag, ∀ old, target? a = some old → old ∈ identifiers doc →
    ∃ new, target? ⟨a.name, value a⟩ = some new ∧ IsNowNamed doc settle old new
  mentions : (∀ c ∈ lead.toList, isNameChar c) → ∀ tag ∈ doc.tags, ∀ a ∈ others tag,
    List.Forall₂ (Tracks lead doc settle) (mentionsIn a.value) (mentionsIn (value a))

theorem forall₂_trans {α β γ : Type} {r : α → β → Prop} {s : β → γ → Prop} {t : α → γ → Prop}
    (h : ∀ a b c, r a b → s b c → t a c) {as : List α} {bs : List β} {cs : List γ}
    (hr : List.Forall₂ r as bs) (hs : List.Forall₂ s bs cs) : List.Forall₂ t as cs := by
  induction hr generalizing cs with
  | nil =>
      cases hs
      exact .nil
  | cons hab _ ih =>
      cases hs with
      | cons hbc hrest => exact .cons (h _ _ _ hab hbc) (ih hrest)

section Passes

variable {policy : Policy} (hremove : policy.remove = true)
  (hfree : ∀ name, policy.preserves name = false) {doc : Document} {renames : Renaming} {m : Nat}

include hremove hfree

theorem IsReady.passed (hready : IsReady policy.namePrefix doc)
    (hassigned : IsAssigned policy (referenced doc) (identifiers doc) renames m) :
    HavePassed policy.namePrefix doc (Identifiers.settled policy (referenced doc) renames)
      (follow renames) where
  ready := hready.settled hremove hfree hassigned
  short _ hid := hready.short_of_mem hremove hfree hassigned hid
  name := settled_name policy _ renames
  values := others_settled policy _ renames
  links tag htag a ha old htarget hold := by
    obtain ⟨k, hnew, hfollow⟩ :=
      hready.follow_target hfree hassigned htag (mem_of_others ha) htarget hold
    refine ⟨_, target_iff.mpr ⟨(target_iff.mp htarget).1, hfollow⟩, ?_⟩
    exact hready.now_named hremove hfree hassigned hnew
  mentions hlead tag htag a ha := by
    have hfollows := hready.mentions_follow hfree hassigned hlead htag (mem_of_others ha)
    have hused : ∀ mention ∈ mentionsIn a.value, mention.2 ∈ referenced doc :=
      fun _ => mem_referenced_of_mention htag (mem_of_others ha)
    exact ((List.forall₂_and_left _ _).mpr ⟨hused, hfollows⟩).imp fun old new hboth =>
      hready.tracks hremove hfree hassigned hboth.1 hboth.2

theorem HavePassed.next {settle : Tag → Tag} {value : Attribute → String}
    (h : HavePassed policy.namePrefix doc settle value)
    (hassigned : IsAssigned policy (referenced (doc.mapTags settle))
      (identifiers (doc.mapTags settle)) renames m) :
    HavePassed policy.namePrefix doc
      (fun tag => Identifiers.settled policy (referenced (doc.mapTags settle)) renames (settle tag))
      (fun a => follow renames ⟨a.name, value a⟩) := by
  have hmapped (next : Tag → Tag) :
      doc.mapTags (fun tag => next (settle tag)) = (doc.mapTags settle).mapTags next :=
    (Document.map_tags_map_tags settle next doc).symm
  have hmem {tag : Tag} (htag : tag ∈ doc.tags) : settle tag ∈ (doc.mapTags settle).tags := by
    rw [Document.tags_map_tags]
    exact List.mem_map_of_mem htag
  have hattribute {tag : Tag} {a : Attribute} (ha : a ∈ others tag) :
      ⟨a.name, value a⟩ ∈ (settle tag).attributes := by
    apply mem_of_others
    rw [h.values]
    exact List.mem_map_of_mem ha
  constructor
  · rw [hmapped]
    exact h.ready.settled hremove hfree hassigned
  · rw [hmapped]
    exact fun id hid => h.ready.short_of_mem hremove hfree hassigned hid
  · exact fun tag => (settled_name policy _ renames _).trans (h.name tag)
  · intro tag
    rw [others_settled, h.values, List.map_map]
    rfl
  · intro tag htag a ha old htarget hold
    obtain ⟨mid, hmid, hnamed⟩ := h.links tag htag a ha old htarget hold
    obtain ⟨k, hnew, hfollow⟩ :=
        h.ready.follow_target hfree hassigned (hmem htag) (hattribute ha) hmid
      (hnamed.mem hold)
    refine ⟨_, target_iff.mpr ⟨(target_iff.mp htarget).1, hfollow⟩, ?_⟩
    exact hnamed.trans (h.ready.now_named hremove hfree hassigned hnew)
  · intro hlead tag htag a ha
    have hfollows := h.ready.mentions_follow hfree hassigned hlead (hmem htag) (hattribute ha)
    have hused : ∀ mention ∈ mentionsIn (value a), mention.2 ∈ referenced (doc.mapTags settle) :=
      fun _ => mem_referenced_of_mention (hmem htag) (hattribute ha)
    exact forall₂_trans (fun old mid new htracks hboth =>
      htracks.next hremove hfree h.ready hassigned hboth.1 hboth.2) (h.mentions hlead tag htag a ha)
      ((List.forall₂_and_left _ _).mpr ⟨hused, hfollows⟩)

end Passes

theorem names_in_getElem? {value name : String} {k : Nat} :
    (namesIn value)[k]? = some name ↔ ∃ before, (mentionsIn value)[k]? = some (before, name) := by
  rw [names_in_eq_mentions, List.getElem?_map, Option.map_eq_some_iff]
  constructor
  · rintro ⟨⟨before, found⟩, hmention, rfl⟩
    exact ⟨before, hmention⟩
  · rintro ⟨before, hmention⟩
    exact ⟨_, hmention, rfl⟩

section Settled

variable {lead : String} {doc : Document} {settle : Tag → Tag} {value : Attribute → String}

theorem HavePassed.links_follow (h : HavePassed lead doc settle value) : LinksFollow doc settle :=
  (attributes_follow_iff h.values).mpr h.links

/-- The name of an element of the document is behind the prefix once passes have given it. -/
theorem HavePassed.short_of_named (h : HavePassed lead doc settle value) {old new : String}
    (hold : old ∈ identifiers doc) (hnamed : IsNowNamed doc settle old new) :
    ∃ k, new = lead ++ shortName k :=
  h.short new (hnamed.mem hold)

/-- The mentions of elements follow exactly if each of them is in a value that survives. -/
theorem HavePassed.mentions_follow_iff (h : HavePassed lead doc settle value) :
    MentionsFollow doc settle ↔
      ∀ tag ∈ doc.tags, ∀ a ∈ others tag, Survives lead (identifiers doc) a.value := by
  rw [MentionsFollow, attributes_follow_iff h.values]
  refine forall₂_congr fun tag htag => forall₂_congr fun a ha => ?_
  constructor
  · intro hfollows
    rw [Survives, or_iff_not_imp_left]
    intro hnames
    simp only [not_forall, Classical.not_not] at hnames
    obtain ⟨name, hname, hid⟩ := hnames
    obtain ⟨k, hk⟩ := List.mem_iff_getElem?.mp hname
    obtain ⟨new, hnew, hnamed⟩ := hfollows k name hk hid
    obtain ⟨j, rfl⟩ := h.short_of_named hid hnamed
    have hlead : ∀ c ∈ lead.toList, isNameChar c :=
      (is_name_short_iff lead j).mp (is_name_of_mem (List.mem_of_getElem? hnew))
    refine ⟨hlead, swallows_eq_false_iff.mpr fun mention hmention hid => ?_⟩
    rw [List.contains_iff_mem] at hid
    rw [Bool.eq_false_iff]
    intro hover
    -- what is read at its place is no name that a pass gives
    obtain ⟨k, hk⟩ := List.mem_iff_getElem?.mp hmention
    obtain ⟨found, hfound, htracks⟩ := getElem?_of_forall₂ (h.mentions hlead tag htag a ha) hk
    obtain ⟨new, hnew, hnamed⟩ := hfollows k mention.2 (names_in_getElem?.mpr ⟨mention.1, hk⟩) hid
    obtain ⟨before, hbefore⟩ := names_in_getElem?.mp hnew
    obtain rfl : found = (before, new) := Option.some.inj (hfound.symm.trans hbefore)
    obtain ⟨j, rfl⟩ := h.short_of_named hid hnamed
    have hlost := htracks hid
    rw [hover, if_pos rfl, count_open_short] at hlost
    exact Nat.lt_irrefl _ hlost
  · rintro (hnone | ⟨hlead, hswallows⟩) k old hk hid
    · exact absurd hid (hnone old (List.mem_of_getElem? hk))
    · obtain ⟨before, hbefore⟩ := names_in_getElem?.mp hk
      obtain ⟨⟨place, new⟩, hfound, htracks⟩ :=
        getElem?_of_forall₂ (h.mentions hlead tag htag a ha) hbefore
      have hapart := swallows_eq_false_iff.mp hswallows _ (List.mem_of_getElem? hbefore)
        (List.contains_iff_mem.mpr hid)
      have hstands := htracks hid
      rw [hapart, if_neg Bool.false_ne_true] at hstands
      exact ⟨new, names_in_getElem?.mpr ⟨place, hfound⟩, hstands.2⟩

end Settled

end SvgPress.Identifiers
