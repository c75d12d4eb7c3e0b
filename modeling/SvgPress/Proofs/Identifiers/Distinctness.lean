import SvgPress.Proofs.Identifiers.Cleanup

/-!
Identifiers that stay apart. The names that are given differ from one another, but the search for
them passes over those names only that a caller preserves one by one, and a prefix is put in front
of an identifier without a look at the others. So an identifier that stays may meet one that was
given, and it does exactly if it is among the first free names, or if it is another one with the
prefix.
-/

namespace SvgPress.Identifiers

/-- Whether an identifier gets a new name. -/
def Policy.replaces (policy : Policy) (used : List String) (id : String) : Bool :=
  used.contains id && !policy.preserves id

/-- Whether an identifier that gets a new name does not begin with the prefix. -/
def Policy.moves (policy : Policy) (used : List String) (id : String) : Bool :=
  policy.replaces used id && !Text.startsWith id policy.namePrefix

/-- Whether an identifier is removed. -/
def Policy.drops (policy : Policy) (used : List String) (id : String) : Bool :=
  policy.remove && !used.contains id && !policy.preserves id

/-- Whether no identifier that stays is one that another one gets. -/
def Policy.KeepsApart (policy : Policy) (used ids : List String) : Prop :=
  if policy.minify then
    ∀ id ∈ ids, policy.replaces used id = false → policy.drops used id = false →
      ¬ policy.IsGiven (ids.filter (policy.replaces used)).length id
  else
    ∀ id ∈ ids, policy.moves used id → policy.namePrefix ++ id ∈ ids →
      policy.drops used (policy.namePrefix ++ id)

/-- The identifiers of a document once they have their new names. -/
def Policy.newIds (policy : Policy) (used ids : List String) : List String :=
  ids.filterMap (newId policy used (policy.assign used [] 0 ids))

/-- Whether identifiers in which references are written stay apart when these are renamed. -/
def Policy.TellsApart (policy : Policy) (used ids : List String) : Prop :=
  ∀ new ∈ policy.newIds used ids, ∀ new' ∈ policy.newIds used ids,
    renameInValue (policy.assign used [] 0 ids) new =
      renameInValue (policy.assign used [] 0 ids) new' → new = new'

/-! ### Which names are given -/

section NewNames

variable {policy : Policy} {used ids : List String}

theorem replaces_iff {id : String} :
    policy.replaces used id ↔ id ∈ used ∧ policy.preserves id = false := by
  simp [Policy.replaces]

theorem not_drops_of_replaces {id : String} (h : policy.replaces used id) :
    policy.drops used id = false := by
  simp [Policy.drops, (replaces_iff.mp h).1]

theorem assign_cons {renames : Renaming} {n : Nat} {id : String}
    (hnone : renames.lookup id = none) (ids : List String) :
    policy.assign used renames n (id :: ids) =
      if policy.replaces used id then
        policy.assign used (renames ++ [(id, (policy.rename id n).1)]) (policy.rename id n).2 ids
      else policy.assign used renames n ids := by
  rw [Policy.assign, hnone, Policy.replaces]
  cases policy.preserves id <;> cases used.contains id <;> rfl

/-- An identifier that has no new name yet has none after another one was given one. -/
theorem lookup_add_none {renames : Renaming} {id : String} {ids : List String} (hid : id ∉ ids)
    (hnone : ∀ other ∈ id :: ids, renames.lookup other = none) (new : String) :
    ∀ other ∈ ids, List.lookup other (renames ++ [(id, new)]) = none := by
  intro other hother
  rw [Option.eq_none_iff_forall_ne_some]
  intro found hfound
  rcases (lookup_add (hnone id List.mem_cons_self)).mp hfound with ⟨rfl, -⟩ | hold
  · exact hid hother
  · rw [hnone other (List.mem_cons_of_mem id hother)] at hold
    cases hold

theorem length_assign (policy : Policy) (used : List String) (hdistinct : ids.Nodup)
    {renames : Renaming} (hnone : ∀ id ∈ ids, renames.lookup id = none) (n : Nat) :
    (policy.assign used renames n ids).length =
      renames.length + (ids.filter (policy.replaces used)).length := by
  induction ids generalizing renames n with
  | nil => rfl
  | cons id ids ih =>
      obtain ⟨hid, hrest⟩ := List.nodup_cons.mp hdistinct
      rw [assign_cons (hnone id List.mem_cons_self), List.filter_cons]
      split
      · rw [ih hrest (lookup_add_none hid hnone _), List.length_append, List.length_singleton,
          List.length_cons]
        omega
      · exact ih hrest (fun other hother => hnone other (List.mem_cons_of_mem id hother)) n

theorem new_id_eq_some_iff {renames : Renaming} {id new : String} :
    newId policy used renames id = some new ↔ renames.lookup id = some new ∨
      renames.lookup id = none ∧ policy.drops used id = false ∧ id = new := by
  rw [newId, ← Policy.drops]
  cases renames.lookup id with
  | some found => simp
  | none => cases policy.drops used id <;> simp

/-- Short names differ from one another, so only a name that stays can be met. -/
theorem new_ids_nodup_iff_of_minify (hminify : policy.minify = true) (hdistinct : ids.Nodup) :
    (policy.newIds used ids).Nodup ↔ policy.KeepsApart used ids := by
  obtain ⟨m, hassigned⟩ := assigned hminify used ids
  have hnew : ∀ id ∈ ids, List.lookup id ([] : Renaming) = none := fun _ _ => rfl
  have hlength := length_assign policy used hdistinct hnew 0
  rw [List.length_nil, Nat.zero_add] at hlength
  have hgiven := hassigned.given_iff
  rw [hlength] at hgiven
  have hnone {id : String} (hid : id ∈ ids) :
      (policy.assign used [] 0 ids).lookup id = none ↔ policy.replaces used id = false := by
    rw [← Option.not_isSome_iff_eq_none, ← Bool.not_eq_true, replaces_iff]
    exact not_congr ((hassigned.has_iff id).trans (and_iff_right hid))
  rw [Policy.newIds, nodup_filter_map_iff hdistinct, Policy.KeepsApart, if_pos hminify]
  constructor
  · intro hinj id hid hstays hkept hearly
    obtain ⟨other, hother⟩ := (hgiven id).mpr hearly
    have hmem := ((hassigned.has_iff other).mp (has_iff_lookup.mpr ⟨id, hother⟩)).1
    have hsame : other = id := hinj other hmem id hid id (new_id_eq_some_iff.mpr (.inl hother))
      (new_id_eq_some_iff.mpr (.inr ⟨(hnone hid).mpr hstays, hkept, rfl⟩))
    rw [hsame, (hnone hid).mpr hstays] at hother
    cases hother
  · intro hapart id hid id' hid' new hnew hnew'
    rcases new_id_eq_some_iff.mp hnew with hlookup | ⟨hfree, hkept, rfl⟩ <;>
      rcases new_id_eq_some_iff.mp hnew' with hlookup' | ⟨hfree', hkept', heq⟩
    · exact hassigned.distinct id id' new hlookup hlookup'
    · subst heq
      exact absurd ((hgiven id').mp ⟨id, hlookup⟩)
        (hapart id' hid' ((hnone hid').mp hfree') hkept')
    · exact absurd ((hgiven id).mp ⟨id', hlookup'⟩) (hapart id hid ((hnone hid).mp hfree) hkept)
    · exact heq.symm

theorem not_moves_of_prefixed (policy : Policy) (used : List String) (id : String) :
    policy.moves used (policy.namePrefix ++ id) = false := by
  have hstart : Text.startsWith (policy.namePrefix ++ id) policy.namePrefix = true := by
    rw [Text.startsWith, String.toList_append, Markup.strip_front_append]
    rfl
  rw [Policy.moves, hstart, Bool.not_true, Bool.and_false]

theorem not_drops_of_moves {id : String} (h : policy.moves used id) :
    policy.drops used id = false :=
  not_drops_of_replaces (Bool.and_eq_true_iff.mp h).1

theorem rename_of_keep (hkeep : policy.minify = false) (id : String) (n : Nat) :
    policy.rename id n =
      (if Text.startsWith id policy.namePrefix then id else policy.namePrefix ++ id, n) := by
  rw [Policy.rename, hkeep, if_neg Bool.false_ne_true]
  split <;> rfl

/-- Without short names the names do not depend on each other. -/
theorem assign_of_keep (hkeep : policy.minify = false) (hdistinct : ids.Nodup) {renames : Renaming}
    (hnone : ∀ id ∈ ids, renames.lookup id = none) (n : Nat) :
    policy.assign used renames n ids = renames ++
      (ids.filter (policy.replaces used)).map fun id => (id, (policy.rename id n).1) := by
  induction ids generalizing renames with
  | nil => simp [Policy.assign]
  | cons id ids ih =>
      obtain ⟨hid, hrest⟩ := List.nodup_cons.mp hdistinct
      have hsame : (policy.rename id n).2 = n := by rw [rename_of_keep hkeep]
      rw [assign_cons (hnone id List.mem_cons_self), List.filter_cons, hsame]
      split
      · rw [ih hrest (lookup_add_none hid hnone _), List.append_assoc]
        rfl
      · exact ih hrest fun other hother => hnone other (List.mem_cons_of_mem id hother)

theorem new_id_of_keep (hkeep : policy.minify = false) (hdistinct : ids.Nodup) {id : String}
    (hid : id ∈ ids) : newId policy used (policy.assign used [] 0 ids) id =
      if policy.drops used id then none
      else some (if policy.moves used id then policy.namePrefix ++ id else id) := by
  rw [assign_of_keep hkeep hdistinct (fun _ _ => rfl), List.nil_append]
  by_cases hreplaces : policy.replaces used id
  · have hlookup := List.lookup_graph (fun id => (policy.rename id 0).1)
      (List.mem_filter.mpr ⟨hid, hreplaces⟩)
    rw [new_id_of_lookup hlookup, not_drops_of_replaces hreplaces, rename_of_keep hkeep,
      Policy.moves, hreplaces]
    cases Text.startsWith id policy.namePrefix <;> rfl
  · have hlookup : List.lookup id ((ids.filter (policy.replaces used)).map
        fun id => (id, (policy.rename id 0).1)) = none := by
      rw [List.lookup_eq_none_iff]
      intro pair hpair
      obtain ⟨other, hother, rfl⟩ := List.mem_map.mp hpair
      rw [bne_iff_ne]
      rintro rfl
      exact hreplaces (List.mem_filter.mp hother).2
    rw [newId, hlookup, ← Policy.drops, Policy.moves, Bool.eq_false_iff.mpr hreplaces]
    rfl

/-- A name behind the prefix meets one that is there already. -/
theorem new_ids_nodup_iff_of_keep (hkeep : policy.minify = false) (hdistinct : ids.Nodup) :
    (policy.newIds used ids).Nodup ↔ policy.KeepsApart used ids := by
  have hnew {id new : String} (hid : id ∈ ids) :
      newId policy used (policy.assign used [] 0 ids) id = some new ↔
        policy.drops used id = false ∧
          (if policy.moves used id then policy.namePrefix ++ id else id) = new := by
    rw [new_id_of_keep hkeep hdistinct hid]
    cases policy.drops used id <;> simp
  rw [Policy.newIds, nodup_filter_map_iff hdistinct, Policy.KeepsApart, hkeep,
    if_neg Bool.false_ne_true]
  constructor
  · intro hinj id hid hmoves hmem
    by_contra hkept
    have hstays := not_moves_of_prefixed policy used id
    have hfirst := (hnew hid).mpr ⟨not_drops_of_moves hmoves, if_pos hmoves⟩
    have hsecond := (hnew hmem).mpr
      ⟨Bool.eq_false_iff.mpr hkept, if_neg (Bool.eq_false_iff.mp hstays)⟩
    have hsame := hinj id hid _ hmem _ hfirst hsecond
    rw [← hsame, hmoves] at hstays
    cases hstays
  · intro hapart id hid id' hid' new hfirst hsecond
    obtain ⟨hkept, rfl⟩ := (hnew hid).mp hfirst
    obtain ⟨hkept', heq⟩ := (hnew hid').mp hsecond
    by_cases hmoves : policy.moves used id <;> by_cases hmoves' : policy.moves used id'
    · rw [if_pos hmoves, if_pos hmoves'] at heq
      exact ((String.append_right_inj _).mp heq).symm
    · rw [if_pos hmoves, if_neg hmoves'] at heq
      subst heq
      rw [hapart id hid hmoves hid'] at hkept'
      cases hkept'
    · rw [if_neg hmoves, if_pos hmoves'] at heq
      subst heq
      rw [hapart id' hid' hmoves' hid] at hkept
      cases hkept
    · rw [if_neg hmoves, if_neg hmoves'] at heq
      exact heq.symm

/-- No two identifiers get one name exactly if none that stays is one that another one gets. -/
theorem new_ids_nodup_iff (hdistinct : ids.Nodup) :
    (policy.newIds used ids).Nodup ↔ policy.KeepsApart used ids := by
  cases hminify : policy.minify with
  | true => exact new_ids_nodup_iff_of_minify hminify hdistinct
  | false => exact new_ids_nodup_iff_of_keep hminify hdistinct

/-- A value in which no reference can be written stays as it is. -/
theorem tells_apart_of_no_paren (h : ∀ new ∈ policy.newIds used ids, '(' ∉ new.toList) :
    policy.TellsApart used ids := by
  intro new hnew new' hnew' heq
  rwa [rename_in_value_of_no_paren _ (h new hnew), rename_in_value_of_no_paren _ (h new' hnew')]
    at heq

end NewNames

/-! ### The document -/

theorem identifiers_settled (policy : Policy) (used : List String) (renames : Renaming)
    {doc : Document} (hnames : ∀ tag ∈ doc.tags, (tag.attributes.map (·.name)).Nodup) :
    identifiers (doc.mapTags (settled policy used renames)) =
      ((identifiers doc).filterMap (newId policy used renames)).map (renameInValue renames) := by
  rw [identifiers, Document.tags_map_tags, List.filterMap_map, identifiers,
    List.filterMap_filterMap, List.map_filterMap]
  exact List.filterMap_congr fun tag htag => attribute_settled policy used renames (hnames tag htag)

/-- Identifiers that are all different are so after the pass exactly if it has to leave the document
alone, or no identifier that stays is one that another one gets and no two are made the same by the
references that are written in them. -/
theorem cleanup_distinct_iff {params : Params} {policy : Policy} {doc : Document}
    (hread : Policy.read params = .ok policy)
    (hnames : ∀ tag ∈ doc.tags, (tag.attributes.map (·.name)).Nodup)
    (hdistinct : (identifiers doc).Nodup) :
    ∃ out, cleanup.apply params doc = .ok out ∧
      ((identifiers out).Nodup ↔ (isScripted doc = true ∧ policy.force = false) ∨
        policy.KeepsApart (referenced doc) (identifiers doc) ∧
          policy.TellsApart (referenced doc) (identifiers doc)) := by
  have happly : cleanup.apply params doc = .ok (policy.apply doc) := by
    show (do return (← Policy.read params).apply doc) = _
    rw [hread]
    rfl
  refine ⟨policy.apply doc, happly, ?_⟩
  rw [Policy.apply]
  by_cases hscripted : isScripted doc = true ∧ policy.force = false
  · rw [if_pos (by simp [hscripted])]
    exact iff_of_true hdistinct (.inl hscripted)
  · have hopen : ¬ (isScripted doc && !policy.force) = true := by simpa using hscripted
    rw [if_neg hopen, or_iff_right hscripted, ← new_ids_nodup_iff hdistinct]
    have hids := identifiers_settled policy (referenced doc)
      (policy.assign (referenced doc) [] 0 (identifiers doc)) hnames
    show (identifiers (doc.mapTags (settled policy (referenced doc)
      (policy.assign (referenced doc) [] 0 (identifiers doc))))).Nodup ↔ _
    rw [hids]
    constructor
    · intro h
      exact ⟨h.of_map, fun new hnew new' hnew' heq => List.inj_on_of_nodup_map h hnew hnew' heq⟩
    · rintro ⟨hnew, htells⟩
      exact hnew.map_on htells

/-- Two groups, of which one is linked to. -/
def groups : Document :=
  ⟨[.element ⟨"svg", []⟩
    [.element ⟨"g", [⟨"id", "a"⟩]⟩ [], .element ⟨"g", [⟨"id", "x"⟩]⟩ [],
      .element ⟨"use", [⟨"href", "#x"⟩]⟩ []]]⟩

/-- A name that is preserved itself is passed over. -/
theorem cleanup_distinct_groups :
    ∃ out, cleanup.apply [("preserve", .array [.string "a"])] groups = .ok out ∧
      (identifiers out).Nodup := by
  have hread : Policy.read [("preserve", .array [.string "a"])] =
      .ok ⟨true, true, "", ["a"], [], false⟩ := rfl
  have hnames : ∀ tag ∈ groups.tags, (tag.attributes.map (·.name)).Nodup := by decide +kernel
  have hdistinct : (identifiers groups).Nodup := by decide +kernel
  obtain ⟨out, happly, hiff⟩ := cleanup_distinct_iff hread hnames hdistinct
  refine ⟨out, happly, hiff.mpr (.inr ⟨?_, tells_apart_of_no_paren (by decide +kernel)⟩)⟩
  intro id hid hstays hkept hgiven
  have hids : identifiers groups = ["a", "x"] := by decide +kernel
  rw [hids, List.mem_cons, List.mem_singleton] at hid
  rcases hid with rfl | rfl
  · obtain ⟨-, -, hfree, -⟩ := hgiven
    exact hfree List.mem_cons_self
  · have hused : referenced groups = ["x"] := by decide +kernel
    rw [hused] at hstays
    cases hstays

/-- A name that is preserved for what it begins with is not. -/
theorem preserved_prefix_taken :
    (identifiers groups).Nodup ∧
      ∃ out, cleanup.apply [("preservePrefixes", .array [.string "a"])] groups = .ok out ∧
        ¬ (identifiers out).Nodup :=
  ⟨by decide +kernel, _, rfl, by decide +kernel⟩

end SvgPress.Identifiers
