import Mathlib.Data.List.Dedup
import SvgPress.Proofs.Identifiers.Distinctness

/-!
The new names of a document, whichever way they are made and however often an identifier occurs. An
identifier gets one exactly if it is in use and need not be preserved, and keeps the first one that
it gets. Given once more in the order of the first time, the names are given to themselves as long
as all of them are in use.
-/

namespace SvgPress.Identifiers

section Assign

variable {policy : Policy} {used : List String} {renames : Renaming} {n : Nat} {name new : String}

/-- An identifier that has a name, or needs none. -/
theorem assign_skip {id : String} (h : renames.has id ∨ policy.replaces used id = false)
    (ids : List String) :
    policy.assign used renames n (id :: ids) = policy.assign used renames n ids := by
  cases hlookup : renames.lookup id with
  | some new =>
      rw [Policy.assign, hlookup]
      rfl
  | none =>
      rcases h with hhas | hnot
      · exact absurd hhas (lookup_eq_none_iff.mp hlookup)
      · rw [assign_cons hlookup, hnot, if_neg Bool.false_ne_true]

theorem assign_add {id : String} (hnone : renames.lookup id = none)
    (hreplaces : policy.replaces used id) (ids : List String) :
    policy.assign used renames n (id :: ids) = policy.assign used
      (renames ++ [(id, (policy.rename id n).1)]) (policy.rename id n).2 ids := by
  rw [assign_cons hnone, if_pos hreplaces]

/-- One identifier after another is passed over or given a name. -/
theorem skipped_or_added (policy : Policy) (used : List String) (renames : Renaming) (id : String) :
    (renames.has id ∨ policy.replaces used id = false) ∨
      renames.lookup id = none ∧ policy.replaces used id := by
  cases hlookup : renames.lookup id with
  | some new => exact .inl (.inl (has_iff_lookup.mpr ⟨new, hlookup⟩))
  | none =>
      cases hreplaces : policy.replaces used id with
      | true => exact .inr ⟨rfl, rfl⟩
      | false => exact .inl (.inr rfl)

theorem has_add {id : String} (hnone : renames.lookup id = none) :
    Renaming.has (renames ++ [(id, new)]) name ↔ name = id ∨ renames.has name := by
  simp only [has_iff_lookup, lookup_add hnone, exists_or, exists_and_left, exists_eq, and_true]

theorem has_assign_iff (ids : List String) : (policy.assign used renames n ids).has name ↔
    renames.has name ∨ name ∈ ids ∧ policy.replaces used name := by
  induction ids generalizing renames n with
  | nil => simp [Policy.assign]
  | cons id ids ih =>
      rw [List.mem_cons]
      rcases skipped_or_added policy used renames id with hskip | ⟨hnone, hreplaces⟩
      · rw [assign_skip hskip, ih]
        constructor
        · exact Or.imp_right fun h => ⟨.inr h.1, h.2⟩
        · rintro (hhas | ⟨rfl | hid, hname⟩)
          · exact .inl hhas
          · rcases hskip with hhas | hnot
            · exact .inl hhas
            · rw [hname] at hnot
              cases hnot
          · exact .inr ⟨hid, hname⟩
      · rw [assign_add hnone hreplaces, ih, has_add hnone]
        constructor
        · rintro ((rfl | hhas) | ⟨hid, hname⟩)
          · exact .inr ⟨.inl rfl, hreplaces⟩
          · exact .inl hhas
          · exact .inr ⟨.inr hid, hname⟩
        · rintro (hhas | ⟨rfl | hid, hname⟩)
          · exact .inl (.inr hhas)
          · exact .inl (.inl rfl)
          · exact .inr ⟨hid, hname⟩

/-- What was given once stays. -/
theorem lookup_assign_of_some (h : renames.lookup name = some new) (ids : List String) :
    (policy.assign used renames n ids).lookup name = some new := by
  induction ids generalizing renames n with
  | nil => exact h
  | cons id ids ih =>
      rcases skipped_or_added policy used renames id with hskip | ⟨hnone, hreplaces⟩
      · rw [assign_skip hskip, ih h]
      · rw [assign_add hnone hreplaces, ih ((lookup_add hnone).mpr (.inr h))]

theorem lookup_assign {ids : List String}
    (h : (policy.assign used renames n ids).lookup name = some new) :
    renames.lookup name = some new ∨ ∃ m, new = (policy.rename name m).1 := by
  induction ids generalizing renames n with
  | nil => exact .inl h
  | cons id ids ih =>
      rcases skipped_or_added policy used renames id with hskip | ⟨hnone, hreplaces⟩
      · rw [assign_skip hskip] at h
        exact ih h
      · rw [assign_add hnone hreplaces] at h
        rcases ih h with hadded | hlater
        · rcases (lookup_add hnone).mp hadded with ⟨rfl, rfl⟩ | hearlier
          · exact .inr ⟨n, rfl⟩
          · exact .inl hearlier
        · exact .inr hlater

/-- No identifier is given two names. -/
theorem assigned_nodup (h : (renames.map Prod.fst).Nodup) (ids : List String) :
    ((policy.assign used renames n ids).map Prod.fst).Nodup := by
  induction ids generalizing renames n with
  | nil => exact h
  | cons id ids ih =>
      rcases skipped_or_added policy used renames id with hskip | ⟨hnone, hreplaces⟩
      · rw [assign_skip hskip]
        exact ih h
      · rw [assign_add hnone hreplaces]
        refine ih ?_
        rw [List.map_append, List.nodup_append]
        refine ⟨h, List.nodup_singleton _, fun other hother id' hid' heq => ?_⟩
        obtain rfl : id' = id := List.mem_singleton.mp hid'
        obtain ⟨pair, hpair, rfl⟩ := List.mem_map.mp hother
        rw [List.lookup_eq_none_iff] at hnone
        exact absurd (hnone pair hpair) (by simp [heq])

end Assign

section Given

variable {policy : Policy} {used ids : List String} {id new : String}

theorem has_given_iff : (policy.assign used [] 0 ids).has id ↔
    id ∈ ids ∧ policy.replaces used id := by
  rw [has_assign_iff]
  simp [Renaming.has]

/-- An identifier that is left is one that was given, or one that stays as it is. -/
theorem mem_new_ids_iff : new ∈ policy.newIds used ids ↔
    (∃ id, (policy.assign used [] 0 ids).lookup id = some new) ∨
      new ∈ ids ∧ policy.replaces used new = false ∧ policy.drops used new = false := by
  rw [Policy.newIds, List.mem_filterMap]
  simp only [new_id_eq_some_iff, lookup_eq_none_iff, has_given_iff]
  constructor
  · rintro ⟨id, hid, hgiven | ⟨hnone, hdrops, rfl⟩⟩
    · exact .inl ⟨id, hgiven⟩
    · exact .inr ⟨hid, Bool.eq_false_iff.mpr fun hreplaces => hnone ⟨hid, hreplaces⟩, hdrops⟩
  · rintro (⟨id, hgiven⟩ | ⟨hid, hreplaces, hdrops⟩)
    · exact ⟨id, (has_given_iff.mp (has_iff_lookup.mpr ⟨new, hgiven⟩)).1, .inl hgiven⟩
    · exact ⟨new, hid, .inr ⟨fun h => Bool.eq_false_iff.mp hreplaces h.2, hdrops, rfl⟩⟩

/-- Every identifier that gets a name counts once, however often it occurs. -/
theorem length_given (policy : Policy) (used ids : List String) :
    (policy.assign used [] 0 ids).length = (ids.dedup.filter (policy.replaces used)).length := by
  have hnone : (([] : Renaming).map Prod.fst).Nodup := List.nodup_nil
  have hkeys : ((policy.assign used [] 0 ids).map Prod.fst).Nodup := assigned_nodup hnone ids
  have hmem (name : String) : name ∈ (policy.assign used [] 0 ids).map Prod.fst ↔
      name ∈ ids.dedup.filter (policy.replaces used) := by
    rw [List.mem_filter, List.mem_dedup, ← has_given_iff, Renaming.has, List.lookup_isSome_iff,
      List.mem_map]
    exact exists_congr fun pair => and_congr_right fun _ => by rw [beq_iff_eq, eq_comm]
  rw [← List.length_map Prod.fst]
  exact ((List.perm_ext_iff_of_nodup hkeys ((List.nodup_dedup ids).filter _)).mpr hmem).length_eq

/-- A new name is the prefix and a short name or the old one behind it, or it is the old name, which
then begins with the prefix. -/
theorem given_form (h : (policy.assign used [] 0 ids).lookup id = some new) :
    ∃ rest, new = policy.namePrefix ++ rest ∧
      ((∃ k, rest = shortName k) ∨ rest = id ∨ new = id) := by
  rcases lookup_assign h with hnil | ⟨m, rfl⟩
  · cases hnil
  cases hminify : policy.minify with
  | true =>
      obtain ⟨k, -, hfresh, -⟩ := fresh_name_free policy m
      refine ⟨shortName k, ?_, .inl ⟨k, rfl⟩⟩
      rw [Policy.rename, if_pos hminify, hfresh]
  | false =>
      rw [rename_of_keep hminify]
      split
      · rename_i hstart
        obtain ⟨rest, hrest⟩ := Option.isSome_iff_exists.mp hstart
        refine ⟨String.ofList rest, ?_, .inr (.inr rfl)⟩
        apply String.toList_injective
        simp [Markup.stripFront?_eq hrest]
      · exact ⟨id, rfl, .inr (.inl rfl)⟩

end Given

/-! ### Names that are given again -/

/-- The names that a renaming gives, each given to itself. -/
def Renaming.onImage (renames : Renaming) : Renaming :=
  (renames.map Prod.snd).map fun name => (name, name)

section OnImage

variable {renames : Renaming} {name new : String}

theorem lookup_on_image (h : renames.onImage.lookup name = some new) : new = name := by
  obtain ⟨before, after, hsplit, -⟩ := List.lookup_eq_some_iff.mp h
  have hmem : (name, new) ∈ renames.onImage := by
    rw [hsplit]
    exact List.mem_append_right _ List.mem_cons_self
  obtain ⟨found, -, hpair⟩ := List.mem_map.mp hmem
  rw [← (Prod.mk.inj hpair).2, (Prod.mk.inj hpair).1]

theorem has_on_image_iff : renames.onImage.has name ↔ ∃ pair ∈ renames, pair.2 = name := by
  rw [Renaming.has, List.lookup_isSome_iff, Renaming.onImage]
  constructor
  · rintro ⟨same, hsame, hname⟩
    obtain ⟨found, hfound, rfl⟩ := List.mem_map.mp hsame
    obtain ⟨pair, hpair, rfl⟩ := List.mem_map.mp hfound
    exact ⟨pair, hpair, (beq_iff_eq.mp hname).symm⟩
  · rintro ⟨pair, hpair, rfl⟩
    exact ⟨_, List.mem_map_of_mem (List.mem_map_of_mem hpair), beq_self_eq_true _⟩

theorem has_on_image (h : renames.lookup name = some new) : renames.onImage.has new := by
  obtain ⟨before, after, hsplit, -⟩ := List.lookup_eq_some_iff.mp h
  refine has_on_image_iff.mpr ⟨(name, new), ?_, rfl⟩
  rw [hsplit]
  exact List.mem_append_right _ List.mem_cons_self

end OnImage

section Again

variable {policy : Policy} {used used' ids : List String} {id new : String}
  (hremove : policy.remove = true) (hexempt : policy.preservePrefixes = [])

include hexempt in
theorem preserves_iff_mem : policy.preserves id ↔ id ∈ policy.preserve := by
  rw [Policy.preserves, hexempt, List.any_nil, Bool.or_false, List.contains_iff_mem]

include hremove in
/-- An identifier that stays as it is has to. -/
theorem preserves_of_stays (hreplaces : policy.replaces used id = false)
    (hdrops : policy.drops used id = false) : policy.preserves id := by
  rw [Policy.drops, hremove] at hdrops
  rw [Policy.replaces] at hreplaces
  cases hused : used.contains id with
  | true =>
      rw [hused] at hreplaces
      simpa using hreplaces
  | false =>
      rw [hused] at hdrops
      simpa using hdrops

include hremove in
/-- What has a name already, or needs none, is passed over again under its new name. -/
theorem skipped_again {renames : Renaming} {n : Nat}
    (hskip : renames.has id ∨ policy.replaces used id = false)
    (hnew : newId policy used (policy.assign used renames n ids) id = some new) :
    renames.onImage.has new ∨ policy.replaces used' new = false := by
  cases hlookup : renames.lookup id with
  | some found =>
      rw [new_id_of_lookup (lookup_assign_of_some hlookup ids)] at hnew
      rw [← Option.some.inj hnew]
      exact .inl (has_on_image hlookup)
  | none =>
      have hnot := lookup_eq_none_iff.mp hlookup
      have hstays : policy.replaces used id = false := hskip.resolve_left hnot
      rcases new_id_eq_some_iff.mp hnew with hgiven | ⟨-, hdrops, rfl⟩
      · have hhas := (has_assign_iff ids).mp (has_iff_lookup.mpr ⟨new, hgiven⟩)
        have hreplaces := (hhas.resolve_left hnot).2
        rw [hstays] at hreplaces
        cases hreplaces
      · right
        rw [Policy.replaces, preserves_of_stays hremove hstays hdrops, Bool.not_true,
          Bool.and_false]

/-- Names that were given before have lower numbers. -/
theorem lookup_on_image_fresh {renames : Renaming} {n m : Nat}
    (hlow : ∀ pair ∈ renames, ∃ k, k < n ∧ pair.2 = policy.namePrefix ++ shortName k) (hm : n ≤ m) :
    renames.onImage.lookup (policy.namePrefix ++ shortName m) = none := by
  rw [lookup_eq_none_iff]
  intro hhas
  obtain ⟨pair, hpair, hsame⟩ := has_on_image_iff.mp hhas
  obtain ⟨k, hk, hlower⟩ := hlow pair hpair
  have := short_name_inj ((String.append_right_inj _).mp (hlower.symm.trans hsame))
  omega

include hremove hexempt in
/-- One identifier after another is given its name again, where all names are still in use. -/
theorem assign_again (hminify : policy.minify = true) {renames : Renaming} {n : Nat}
    (hlow : ∀ pair ∈ renames, ∃ k, k < n ∧ pair.2 = policy.namePrefix ++ shortName k)
    (hfound : ∀ id new, (policy.assign used renames n ids).lookup id = some new → new ∈ used') :
    policy.assign used' renames.onImage n
        (ids.filterMap (newId policy used (policy.assign used renames n ids))) =
      (policy.assign used renames n ids).onImage := by
  induction ids generalizing renames n with
  | nil => rfl
  | cons id ids ih =>
      rcases skipped_or_added policy used renames id with hskip | ⟨hnone, hreplaces⟩
      · rw [assign_skip hskip] at hfound ⊢
        have hrest := ih hlow hfound
        cases hnew : newId policy used (policy.assign used renames n ids) id with
        | none => rwa [List.filterMap_cons_none hnew]
        | some new =>
            rw [List.filterMap_cons_some hnew,
              assign_skip (skipped_again hremove hskip hnew), hrest]
      · obtain ⟨m, hm, hfresh, hname, -⟩ := fresh_name_free policy n
        have hrename (name : String) :
            policy.rename name n = (policy.namePrefix ++ shortName m, m + 1) := by
          rw [Policy.rename, if_pos hminify, hfresh]
        rw [assign_add hnone hreplaces, hrename] at hfound ⊢
        have hgiven : (policy.assign used (renames ++ [(id, policy.namePrefix ++ shortName m)])
            (m + 1) ids).lookup id = some (policy.namePrefix ++ shortName m) :=
          lookup_assign_of_some ((lookup_add hnone).mpr (.inl ⟨rfl, rfl⟩)) ids
        have hagain : policy.replaces used' (policy.namePrefix ++ shortName m) := by
          refine replaces_iff.mpr ⟨hfound id _ hgiven, ?_⟩
          rw [← Bool.not_eq_true, preserves_iff_mem hexempt]
          exact hname
        rw [List.filterMap_cons_some (new_id_of_lookup hgiven),
          assign_add (lookup_on_image_fresh hlow hm) hagain, hrename]
        have hadd : renames.onImage ++
            [(policy.namePrefix ++ shortName m, policy.namePrefix ++ shortName m)] =
              Renaming.onImage (renames ++ [(id, policy.namePrefix ++ shortName m)]) := by
          simp [Renaming.onImage]
        rw [hadd]
        refine ih (fun pair hpair => ?_) hfound
        rcases List.mem_append.mp hpair with hold | hnew
        · obtain ⟨k, hk, hlower⟩ := hlow pair hold
          exact ⟨k, by omega, hlower⟩
        · rw [List.mem_singleton.mp hnew]
          exact ⟨m, Nat.lt_succ_self m, rfl⟩

include hremove hexempt in
/-- Every name that is given the second time is given to itself. -/
theorem given_again (hfound : ∀ id new, (policy.assign used [] 0 ids).lookup id = some new →
      new ∈ policy.preserve ∨ new ∈ used')
    (h : (policy.assign used' [] 0 (policy.newIds used ids)).lookup id = some new) : new = id := by
  cases hminify : policy.minify with
  | true =>
      obtain ⟨m, hassigned⟩ := assigned hminify used ids
      have hused : ∀ id new, (policy.assign used [] 0 ids).lookup id = some new → new ∈ used' := by
        intro id new hnew
        obtain ⟨k, -, -, hfree⟩ := hassigned.short id new hnew
        exact (hfound id new hnew).resolve_left hfree
      have hagain : policy.assign used' [] 0 (policy.newIds used ids) =
          (policy.assign used [] 0 ids).onImage :=
        assign_again hremove hexempt hminify (fun _ hpair => absurd hpair List.not_mem_nil) hused
      rw [hagain] at h
      exact lookup_on_image h
  | false =>
      -- no identifier but one with the prefix is renamed
      obtain ⟨hid, hreplaces⟩ := has_given_iff.mp (has_iff_lookup.mpr ⟨new, h⟩)
      have hstart : Text.startsWith id policy.namePrefix = true := by
        rcases mem_new_ids_iff.mp hid with ⟨old, hgiven⟩ | ⟨-, hstays, hdrops⟩
        · obtain ⟨rest, rfl, -⟩ := given_form hgiven
          rw [Text.startsWith, String.toList_append, Markup.strip_front_append]
          rfl
        · have hkept := preserves_of_stays hremove hstays hdrops
          rw [(replaces_iff.mp hreplaces).2] at hkept
          cases hkept
      rcases lookup_assign h with hnil | ⟨k, rfl⟩
      · cases hnil
      · rw [rename_of_keep hminify, hstart, if_pos rfl]

end Again

/-! ### The document -/

/-- An identifier without parentheses refers to nothing. -/
theorem references_id {a : Attribute} (hid : a.name = "id") (hopen : '(' ∉ a.value.toList) :
    references a = [] := by
  have htarget : target? a = none := by
    rw [target?, hid, id_not_link, if_neg Bool.false_ne_true]
  rw [references, htarget, names_in_eq, names_of_no_paren hopen]
  rfl

section Referenced

variable {doc : Document} {tag : Tag} {a : Attribute} {name : String}
  (hnames : ∀ tag ∈ doc.tags, (tag.attributes.map (·.name)).Nodup)
  (hopen : ∀ id ∈ identifiers doc, '(' ∉ id.toList)

include hnames hopen

/-- References are only found outside of identifiers. -/
theorem mem_others_of_referring (htag : tag ∈ doc.tags) (ha : a ∈ tag.attributes)
    (hname : name ∈ references a) : a ∈ others tag := by
  refine List.mem_filter.mpr ⟨ha, bne_iff_ne.mpr fun hid => ?_⟩
  have hvalue : tag.attribute? "id" = some a.value := by
    rw [← hid]
    exact Attributes.get_of_mem (hnames tag htag) ha
  rw [references_id hid (hopen _ (mem_identifiers htag hvalue))] at hname
  cases hname

theorem mem_referenced_iff :
    name ∈ referenced doc ↔ ∃ tag ∈ doc.tags, ∃ a ∈ others tag, name ∈ references a := by
  constructor
  · intro h
    obtain ⟨tag, htag, hname⟩ := List.mem_flatMap.mp h
    obtain ⟨a, ha, hname⟩ := List.mem_flatMap.mp hname
    exact ⟨tag, htag, a, mem_others_of_referring hnames hopen htag ha hname, hname⟩
  · rintro ⟨tag, htag, a, ha, hname⟩
    exact mem_referenced htag (mem_of_others ha) hname

end Referenced

/-- The new names for the identifiers of a document. -/
def Policy.renaming (policy : Policy) (doc : Document) : Renaming :=
  policy.assign (referenced doc) [] 0 (identifiers doc)

/-- A document with its new names, whether or not the pass may touch it. -/
def Policy.cleaned (policy : Policy) (doc : Document) : Document :=
  doc.mapTags (settled policy (referenced doc) (policy.renaming doc))

theorem mem_tags_cleaned_iff {policy : Policy} {doc : Document} {tag : Tag} :
    tag ∈ (policy.cleaned doc).tags ↔
      ∃ before ∈ doc.tags, settled policy (referenced doc) (policy.renaming doc) before = tag := by
  rw [Policy.cleaned, Document.tags_map_tags, List.mem_map]

theorem names_cleaned_nodup (policy : Policy) {doc : Document}
    (hnames : ∀ tag ∈ doc.tags, (tag.attributes.map (·.name)).Nodup) :
    ∀ tag ∈ (policy.cleaned doc).tags, (tag.attributes.map (·.name)).Nodup := by
  intro tag htag
  obtain ⟨before, hbefore, rfl⟩ := mem_tags_cleaned_iff.mp htag
  exact names_settled_nodup policy _ _ (hnames before hbefore)

theorem cleanup_apply {params : Params} {policy : Policy} (hread : Policy.read params = .ok policy)
    (doc : Document) : cleanup.apply params doc =
      .ok (if isScripted doc && !policy.force then doc else policy.cleaned doc) := by
  have happly : cleanup.apply params doc = .ok (policy.apply doc) := by
    show (do return (← Policy.read params).apply doc) = _
    rw [hread]
    rfl
  exact happly

theorem is_scripted_cleaned (policy : Policy) (doc : Document) :
    isScripted (policy.cleaned doc) = isScripted doc := by
  rw [isScripted, Policy.cleaned, Document.tags_map_tags, List.any_map]
  refine List.any_congr rfl fun tag => ?_
  rw [Function.comp_apply, settled_name]

theorem has_renaming_iff {policy : Policy} {doc : Document} {id : String} :
    (policy.renaming doc).has id ↔ id ∈ identifiers doc ∧ policy.replaces (referenced doc) id :=
  has_given_iff

end SvgPress.Identifiers
