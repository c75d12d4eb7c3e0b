import SvgPress.Proofs.Identifiers.NewNames
import SvgPress.Proofs.Identifiers.Rewriting

/-!
References to names that no element has, as to something elsewhere on a page. They stay as they are,
but the names that are given to elements are not checked against them: the search for a short name
passes over preserved names only, and a prefix is put in front of an identifier without a look at
what is referred to. So such a reference comes to name an element exactly if its name is one of the
first free ones, or an identifier behind the prefix.
-/

namespace SvgPress.Identifiers

/-- Whether no identifier comes out as a name: none that is given, and none that stays but is
written anew for the references in it. -/
def Policy.LeavesFree (policy : Policy) (used ids : List String) (name : String) : Prop :=
  (∀ id ∈ ids, policy.replaces used id = false → policy.drops used id = false →
    renameInValue (policy.assign used [] 0 ids) id ≠ name) ∧
  if policy.minify then
    ∀ new, policy.IsGiven (ids.dedup.filter (policy.replaces used)).length new →
      renameInValue (policy.assign used [] 0 ids) new ≠ name
  else
    ∀ id ∈ ids, policy.replaces used id → renameInValue (policy.assign used [] 0 ids)
      (if Text.startsWith id policy.namePrefix then id else policy.namePrefix ++ id) ≠ name

section Names

variable {policy : Policy} {used ids : List String} {name new : String}

theorem given_iff_of_minify (hminify : policy.minify = true) :
    (∃ id, (policy.assign used [] 0 ids).lookup id = some new) ↔
      policy.IsGiven (ids.dedup.filter (policy.replaces used)).length new := by
  obtain ⟨m, hassigned⟩ := assigned hminify used ids
  rw [hassigned.given_iff, length_given]

theorem given_iff_of_keep (hkeep : policy.minify = false) :
    (∃ id, (policy.assign used [] 0 ids).lookup id = some new) ↔
      ∃ id ∈ ids, policy.replaces used id ∧
        (if Text.startsWith id policy.namePrefix then id else policy.namePrefix ++ id) = new := by
  have hform {id found : String} (h : (policy.assign used [] 0 ids).lookup id = some found) :
      (if Text.startsWith id policy.namePrefix then id else policy.namePrefix ++ id) = found := by
    rcases lookup_assign h with hnil | ⟨m, rfl⟩
    · cases hnil
    · rw [rename_of_keep hkeep]
  constructor
  · rintro ⟨id, hid⟩
    obtain ⟨hmem, hreplaces⟩ := has_given_iff.mp (has_iff_lookup.mpr ⟨new, hid⟩)
    exact ⟨id, hmem, hreplaces, hform hid⟩
  · rintro ⟨id, hmem, hreplaces, rfl⟩
    obtain ⟨found, hfound⟩ := has_iff_lookup.mp (has_given_iff.mpr ⟨hmem, hreplaces⟩)
    exact ⟨id, by rw [hfound, hform hfound]⟩

theorem leaves_free_iff : policy.LeavesFree used ids name ↔
    ∀ new ∈ policy.newIds used ids, renameInValue (policy.assign used [] 0 ids) new ≠ name := by
  simp only [mem_new_ids_iff, or_imp, forall_and]
  rw [Policy.LeavesFree, and_comm]
  refine and_congr ?_ ⟨fun h new hnew => h new hnew.1 hnew.2.1 hnew.2.2,
    fun h id hid hreplaces hdrops => h id ⟨hid, hreplaces, hdrops⟩⟩
  cases hminify : policy.minify with
  | true =>
      rw [if_pos rfl]
      exact forall_congr' fun new => imp_congr_left (given_iff_of_minify hminify).symm
  | false =>
      rw [if_neg Bool.false_ne_true]
      simp only [given_iff_of_keep hminify]
      constructor
      · rintro h new ⟨id, hid, hreplaces, rfl⟩
        exact h id hid hreplaces
      · intro h id hid hreplaces
        exact h _ ⟨id, hid, hreplaces, rfl⟩

/-- Where no reference can be written in an identifier, a name that no element had is only taken by
one that is given. -/
theorem leaves_free_of_no_paren (hopen : ∀ new ∈ policy.newIds used ids, '(' ∉ new.toList)
    (hname : name ∉ ids) : policy.LeavesFree used ids name ↔
      if policy.minify then ¬ policy.IsGiven (ids.dedup.filter (policy.replaces used)).length name
      else ∀ id ∈ ids, policy.moves used id → policy.namePrefix ++ id ≠ name := by
  have hplain : policy.LeavesFree used ids name ↔ name ∉ policy.newIds used ids := by
    rw [leaves_free_iff]
    constructor
    · intro h hmem
      exact h name hmem (rename_in_value_of_no_paren _ (hopen name hmem))
    · rintro h new hnew rfl
      rw [rename_in_value_of_no_paren _ (hopen new hnew)] at h
      exact h hnew
  rw [hplain, mem_new_ids_iff, not_or, and_iff_left fun h => hname h.1]
  cases hminify : policy.minify with
  | true => rw [if_pos rfl, given_iff_of_minify hminify]
  | false =>
      rw [if_neg Bool.false_ne_true, given_iff_of_keep hminify]
      constructor
      · intro h id hid hmoves hsame
        rw [Policy.moves, Bool.and_eq_true, Bool.not_eq_true'] at hmoves
        exact h ⟨id, hid, hmoves.1, by rw [hmoves.2, if_neg Bool.false_ne_true, hsame]⟩
      · rintro h ⟨id, hid, hreplaces, hsame⟩
        split at hsame
        · exact hname (hsame ▸ hid)
        · rename_i hstart
          refine h id hid ?_ hsame
          rw [Policy.moves, hreplaces, Bool.eq_false_iff.mpr hstart]
          rfl

end Names

/-! ### The document -/

section Document

variable {policy : Policy} {doc : Document} {name : String}
  (hnames : ∀ tag ∈ doc.tags, (tag.attributes.map (·.name)).Nodup)

include hnames

theorem not_mem_identifiers_cleaned_iff : name ∉ identifiers (policy.cleaned doc) ↔
    policy.LeavesFree (referenced doc) (identifiers doc) name := by
  rw [leaves_free_iff, Policy.cleaned, identifiers_settled policy _ _ hnames, List.mem_map]
  simp only [not_exists, not_and]
  rfl

omit hnames in
/-- A reference to a name that no element has stays as it is. -/
theorem mem_references_of_dangling (hopen : ∀ id ∈ identifiers doc, '(' ∉ id.toList)
    (hdangling : name ∉ identifiers doc) (hclose : ')' ∉ name.toList) {a : Attribute}
    (hname : name ∈ references a) :
    name ∈ references ⟨a.name, follow (policy.renaming doc) a⟩ := by
  have hnone : (policy.renaming doc).lookup name = none := by
    rw [lookup_eq_none_iff]
    exact fun hhas => hdangling (has_renaming_iff.mp hhas).1
  have hkeys : ∀ key, (policy.renaming doc).has key → '(' ∉ key.toList :=
    fun key hhas => hopen key (has_renaming_iff.mp hhas).1
  rw [references, List.mem_append, Option.mem_toList] at hname ⊢
  rcases follow_cases (plain_of_no_paren hkeys) a with
    ⟨key, new, htarget, hlookup, -⟩ | ⟨-, hfollow⟩
  · -- a link to an identifier is to nothing else
    rcases hname with hmention | hlink
    · rw [(target_iff.mp htarget).2, names_in_mark, names_in_eq,
        names_of_no_paren (hkeys key (has_iff_lookup.mpr ⟨new, hlookup⟩))] at hmention
      cases hmention
    · rw [htarget] at hlink
      obtain rfl := Option.some.inj hlink
      rw [hnone] at hlookup
      cases hlookup
  · rw [hfollow]
    rcases hname with hmention | hlink
    · left
      rw [names_in_eq, rename_in_value_eq]
      exact mem_names_render_of_none hmention hnone
    · right
      have hsame : renameInValue (policy.renaming doc) a.value = a.value := by
        apply rename_in_value_of_none
        rw [(target_iff.mp hlink).2, names_in_mark, names_in_eq, names_of_no_close hclose]
        exact fun _ hmem => absurd hmem List.not_mem_nil
      rw [hsame]
      exact hlink

theorem mem_referenced_cleaned (hopen : ∀ id ∈ identifiers doc, '(' ∉ id.toList)
    (hname : name ∈ referenced doc) (hdangling : name ∉ identifiers doc)
    (hclose : ')' ∉ name.toList) : name ∈ referenced (policy.cleaned doc) := by
  obtain ⟨tag, htag, a, ha, hreference⟩ := (mem_referenced_iff hnames hopen).mp hname
  have hmem : (⟨a.name, follow (policy.renaming doc) a⟩ : Attribute) ∈
      others (settled policy (referenced doc) (policy.renaming doc) tag) := by
    rw [others_settled]
    exact List.mem_map_of_mem ha
  exact mem_referenced (mem_tags_cleaned_iff.mpr ⟨tag, htag, rfl⟩) (mem_of_others hmem)
    (mem_references_of_dangling hopen hdangling hclose hreference)

end Document

/-- A reference to a name that no element has names none afterwards exactly if the pass has to leave
the document alone, or no identifier comes out as that name. The reference itself stays. -/
theorem cleanup_captures_iff {params : Params} {policy : Policy} {doc : Document}
    (hread : Policy.read params = .ok policy)
    (hnames : ∀ tag ∈ doc.tags, (tag.attributes.map (·.name)).Nodup) :
    ∃ out, cleanup.apply params doc = .ok out ∧
      ∀ name ∈ referenced doc, name ∉ identifiers doc →
        (name ∉ identifiers out ↔ (isScripted doc = true ∧ policy.force = false) ∨
          policy.LeavesFree (referenced doc) (identifiers doc) name) ∧
        ((∀ id ∈ identifiers doc, '(' ∉ id.toList) → ')' ∉ name.toList →
          name ∈ referenced out) := by
  refine ⟨_, cleanup_apply hread doc, fun name hname hdangling => ?_⟩
  by_cases hscripted : isScripted doc = true ∧ policy.force = false
  · have hkept : (isScripted doc && !policy.force) = true := by simp [hscripted]
    rw [hkept, if_pos rfl]
    exact ⟨iff_of_true hdangling (.inl hscripted), fun _ _ => hname⟩
  · have hopen : (isScripted doc && !policy.force) = false := by simpa using hscripted
    rw [hopen, if_neg Bool.false_ne_true, or_iff_right hscripted]
    exact ⟨not_mem_identifiers_cleaned_iff hnames, fun hplain hclose =>
      mem_referenced_cleaned hnames hplain hname hdangling hclose⟩

/-- A group that is linked to, and a link to something that is not in the drawing. -/
def borrowing : Document :=
  ⟨[.element ⟨"svg", []⟩
    [.element ⟨"g", [⟨"id", "x"⟩]⟩ [], .element ⟨"use", [⟨"href", "#x"⟩]⟩ [],
      .element ⟨"use", [⟨"href", "#a"⟩]⟩ []]]⟩

/-- A name that is preserved is not given, so nothing takes it. -/
theorem cleanup_captures_borrowing :
    ∃ out, cleanup.apply [("preserve", .array [.string "a"])] borrowing = .ok out ∧
      "a" ∉ identifiers out ∧ "a" ∈ referenced out := by
  have hread : Policy.read [("preserve", .array [.string "a"])] =
      .ok ⟨true, true, "", ["a"], [], false⟩ := rfl
  have hnames : ∀ tag ∈ borrowing.tags, (tag.attributes.map (·.name)).Nodup := by decide +kernel
  obtain ⟨out, happly, hall⟩ := cleanup_captures_iff hread hnames
  obtain ⟨hiff, hstays⟩ := hall "a" (by decide +kernel) (by decide +kernel)
  refine ⟨out, happly, hiff.mpr (.inr ?_), hstays (by decide +kernel) (by decide +kernel)⟩
  refine (leaves_free_of_no_paren (by decide +kernel) (by decide +kernel)).mpr ?_
  rw [if_pos rfl]
  rintro ⟨-, -, hfree, -⟩
  exact hfree List.mem_cons_self

/-- The first short name is given to the group, and the other link leads to it then. -/
theorem dangling_captured :
    "a" ∈ referenced borrowing ∧ "a" ∉ identifiers borrowing ∧
      ∃ out, cleanup.apply [] borrowing = .ok out ∧ "a" ∈ referenced out ∧ "a" ∈ identifiers out :=
  ⟨by decide +kernel, by decide +kernel, _, rfl, by decide +kernel, by decide +kernel⟩

end SvgPress.Identifiers
