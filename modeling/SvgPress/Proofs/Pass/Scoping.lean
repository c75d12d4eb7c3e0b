import SvgPress.Pass.EditorData
import SvgPress.Proofs.Markup.Lines
import SvgPress.Proofs.Markup.Tree

/-!
Editor namespaces and the places where prefixes are bound to them. A prefix means what the nearest
declaration around an element says, but the pass collects the prefixes that are bound to an unwanted
namespace anywhere, and goes by their text from then on. So it removes no less than what is in these
namespaces, and it removes more exactly where such a prefix stands outside of its binding or is
bound to something else.
-/

namespace SvgPress.EditorData

/-- What a prefix is bound to by the nearest declaration on a line of elements. -/
def boundTo? (p : String) (line : List Tag) : Option String :=
  line.findSome? (·.attribute? ("xmlns:" ++ p))

/-- Whether a name has a prefix that is bound to one of the namespaces where it stands. The prefix
of declarations is never meant. -/
def isBoundThere (unwanted : List String) (line : List Tag) (name : String) : Bool :=
  (prefixOf? name).any fun p => p != "xmlns" && (boundTo? p line).any unwanted.contains

/-- Whether an element, or one around it, has such a name. -/
def liesWithin (unwanted : List String) : List Tag → Bool
  | [] => false
  | tag :: outer => isBoundThere unwanted (tag :: outer) tag.name || liesWithin unwanted outer

/-- A line with the attributes that are kept of each of its tags, judged where the tag stands. -/
def keepAlong (keeps : List Tag → Attribute → Bool) : List Tag → List Tag
  | [] => []
  | tag :: outer => tag.keepAttributes (keeps (tag :: outer)) :: keepAlong keeps outer

/-- Whether removal follows the scopes of prefixes. An element goes exactly if it or one around it
is in one of the namespaces; of the attributes of the others, those with a prefix go exactly if they
are in one, and declarations only if they are of one. -/
def FollowsScopes (unwanted : List String) (doc out : Document) : Prop :=
  ∃ keeps : List Tag → Attribute → Bool,
    (∀ e ∈ doc.placed, liesWithin unwanted e.line = false → ∀ a ∈ e.tag.attributes,
      (∀ p, prefixOf? a.name = some p → p ≠ "xmlns" →
        (keeps e.line a = false ↔ isBoundThere unwanted e.line a.name)) ∧
      (∀ p, declared? a.name = some p → keeps e.line a = false → a.value ∈ unwanted)) ∧
    out.lines = (doc.lines.filter fun line => !liesWithin unwanted line).map (keepAlong keeps)

/-- Whether the prefixes that are bound to one of the namespaces somewhere mean one of them wherever
they stand, in what is not removed with an element around it. -/
structure AgreesWithScopes (unwanted : List String) (doc : Document) : Prop where
  elements : ∀ e ∈ doc.placed, isForeign (prefixes unwanted doc) e.tag.name →
    liesWithin unwanted e.line
  attributes : ∀ e ∈ doc.placed, liesWithin unwanted e.line = false → ∀ a ∈ e.tag.attributes,
    isForeign (prefixes unwanted doc) a.name → isBoundThere unwanted e.line a.name
  declarations : ∀ e ∈ doc.placed, liesWithin unwanted e.line = false → ∀ a ∈ e.tag.attributes,
    ∀ p ∈ prefixes unwanted doc, declared? a.name = some p → a.value ∈ unwanted

section

variable {unwanted : List String} {doc : Document}

theorem declared_iff {name p : String} : declared? name = some p ↔ name = "xmlns:" ++ p :=
  Markup.drop_prefix_eq_some_iff

theorem prefix_of_declaration {name p : String} (h : declared? name = some p) :
    prefixOf? name = some "xmlns" := by
  have hcolon : ":".toList = [':'] := rfl
  have hmark : "xmlns:".toList = ['x', 'm', 'l', 'n', 's', ':'] := rfl
  rw [declared_iff.mp h, prefixOf?, Text.splitOnce?, String.toList_append, hcolon, hmark]
  rfl

theorem mem_prefixes_iff {p : String} : p ∈ prefixes unwanted doc ↔
    ∃ tag ∈ doc.tags, ∃ a ∈ tag.attributes, declared? a.name = some p ∧ a.value ∈ unwanted := by
  simp only [prefixes, List.mem_flatMap, List.mem_filterMap, Option.ite_none_right_eq_some,
    List.contains_iff_mem]
  exact exists_congr fun tag => and_congr_right fun _ => exists_congr fun a =>
    and_congr_right fun _ => and_comm

theorem is_foreign_iff {unwanted : List String} {name : String} : isForeign unwanted name ↔
    ∃ p, prefixOf? name = some p ∧ p ≠ "xmlns" ∧ p ∈ unwanted := by
  simp [isForeign, Option.any_eq_true]

theorem is_own_eq_false_iff {unwanted : List String} {a : Attribute} :
    isOwn unwanted a = false ↔
      (∃ p ∈ unwanted, declared? a.name = some p) ∨ isForeign unwanted a.name := by
  simp [isOwn, Option.any_eq_true, and_comm, imp_iff_not_or]

/-! ### What is removed where -/

/-- What is in one of the namespaces where it stands has a prefix that is bound to it somewhere. -/
theorem foreign_of_bound {line : List Tag} (hline : ∀ tag ∈ line, tag ∈ doc.tags) {name : String}
    (h : isBoundThere unwanted line name) : isForeign (prefixes unwanted doc) name := by
  obtain ⟨p, hprefix, hbound⟩ := (Option.any_eq_true _ _).mp h
  rw [Bool.and_eq_true, bne_iff_ne] at hbound
  obtain ⟨value, hvalue, hunwanted⟩ := (Option.any_eq_true _ _).mp hbound.2
  obtain ⟨tag, htag, hdeclared⟩ := List.exists_of_findSome?_eq_some hvalue
  refine is_foreign_iff.mpr ⟨p, hprefix, hbound.1, mem_prefixes_iff.mpr ?_⟩
  exact ⟨tag, hline tag htag, _, Attributes.mem_of_get hdeclared, declared_iff.mpr rfl,
    List.contains_iff_mem.mp hunwanted⟩

theorem foreign_of_within {line : List Tag} (hline : ∀ tag ∈ line, tag ∈ doc.tags)
    (h : liesWithin unwanted line) : ∃ tag ∈ line, isForeign (prefixes unwanted doc) tag.name := by
  induction line with
  | nil => cases h
  | cons tag outer ih =>
      rw [liesWithin, Bool.or_eq_true] at h
      rcases h with hhere | haround
      · exact ⟨tag, List.mem_cons_self, foreign_of_bound hline hhere⟩
      · obtain ⟨other, hother, hforeign⟩ :=
          ih (fun tag htag => hline tag (List.mem_cons_of_mem _ htag)) haround
        exact ⟨other, List.mem_cons_of_mem tag hother, hforeign⟩

theorem AgreesWithScopes.within (h : AgreesWithScopes unwanted doc) {line : List Tag}
    (hline : line ∈ doc.lines) {tag : Tag} (htag : tag ∈ line)
    (hforeign : isForeign (prefixes unwanted doc) tag.name) : liesWithin unwanted line := by
  induction line with
  | nil => cases htag
  | cons first outer ih =>
      rcases List.mem_cons.mp htag with rfl | haround
      · obtain ⟨e, he, hsame⟩ := List.mem_map.mp hline
        obtain ⟨rfl, rfl⟩ := List.cons_eq_cons.mp hsame
        exact h.elements e he hforeign
      · rcases Document.tail_line hline with rfl | houter
        · cases haround
        · rw [liesWithin, ih houter haround, Bool.or_true]

theorem keep_along_eq_map {keep : Attribute → Bool} (line : List Tag) :
    keepAlong (fun _ => keep) line = line.map (·.keepAttributes keep) := by
  induction line with
  | nil => rfl
  | cons tag outer ih => rw [keepAlong, ih, List.map_cons]

/-- The pass goes by the text of prefixes, whatever they are bound to where they stand. -/
theorem lines_strip (found : List String) (doc : Document) : (strip found doc).lines =
    (doc.lines.filter fun line => line.all fun tag => !isForeign found tag.name).map
      (List.map (·.keepAttributes (isOwn found))) := by
  rw [strip]
  split
  · rename_i hempty
    rw [List.isEmpty_iff.mp hempty]
    have hforeign (name : String) : isForeign [] name = false := by
      simp [isForeign]
    have hown (a : Attribute) : isOwn [] a = true := by
      rw [isOwn, hforeign]
      cases declared? a.name <;> rfl
    have hkeep (tag : Tag) : tag.keepAttributes (isOwn []) = tag := by
      rw [Tag.keepAttributes, List.filter_eq_self.mpr fun a _ => hown a]
    have hlines : (doc.lines.filter fun line => line.all fun tag => !isForeign [] tag.name) =
        doc.lines := by
      refine List.filter_eq_self.mpr fun line _ => List.all_eq_true.mpr fun tag _ => ?_
      rw [hforeign]
      rfl
    rw [hlines]
    simp [hkeep]
  · have hprune (keep : Node → Bool)
        (hkeep : ∀ tag children, keep (.element tag children) = !isForeign found tag.name) :
        (doc.prune keep).lines =
          doc.lines.filter fun line => line.all fun tag => !isForeign found tag.name :=
      Document.lines_prune hkeep doc
    rw [Document.lines_map_tags, hprune _ fun _ _ => rfl]

/-- Of two lists that are picked out of one, the shorter is the same if it is as long. -/
theorem filter_eq_of_length {α : Type} {p q : α → Bool} {l : List α} (h : ∀ a ∈ l, p a → q a)
    (hlength : (l.filter p).length = (l.filter q).length) : l.filter p = l.filter q := by
  have hboth : (l.filter q).filter p = l.filter p := by
    rw [List.filter_filter]
    refine List.filter_congr fun a ha => ?_
    cases hp : p a with
    | true => rw [h a ha hp]; rfl
    | false => rfl
  rw [← hboth]
  exact List.filter_sublist.eq_of_length (by rw [hboth, hlength])

theorem stays_of_own {line : List Tag} (hline : line ∈ doc.lines)
    (h : line.all fun tag => !isForeign (prefixes unwanted doc) tag.name) :
    !liesWithin unwanted line := by
  rw [Bool.not_eq_true', Bool.eq_false_iff]
  intro hwithin
  obtain ⟨tag, htag, hforeign⟩ :=
    foreign_of_within (fun tag htag => Document.mem_tags_of_line hline htag) hwithin
  have hnot := List.all_eq_true.mp h tag htag
  rw [hforeign] at hnot
  cases hnot

theorem AgreesWithScopes.follows (h : AgreesWithScopes unwanted doc) :
    FollowsScopes unwanted doc (strip (prefixes unwanted doc) doc) := by
  refine ⟨fun _ => isOwn (prefixes unwanted doc), fun e he hstays a ha => ⟨?_, ?_⟩, ?_⟩
  · intro p hprefix hp
    rw [is_own_eq_false_iff]
    constructor
    · rintro (⟨q, -, hdeclared⟩ | hforeign)
      · rw [prefix_of_declaration hdeclared] at hprefix
        exact absurd (Option.some.inj hprefix).symm hp
      · exact h.attributes e he hstays a ha hforeign
    · intro hbound
      have hline : e.line ∈ doc.lines := List.mem_map_of_mem he
      exact .inr (foreign_of_bound (fun tag htag => Document.mem_tags_of_line hline htag) hbound)
  · intro p hdeclared hgone
    rcases is_own_eq_false_iff.mp hgone with ⟨q, hq, hdeclared'⟩ | hforeign
    · exact h.declarations e he hstays a ha q hq hdeclared'
    · obtain ⟨q, hprefix, hq, -⟩ := is_foreign_iff.mp hforeign
      rw [prefix_of_declaration hdeclared] at hprefix
      exact absurd (Option.some.inj hprefix).symm hq
  · have hkeep : keepAlong (fun _ => isOwn (prefixes unwanted doc)) =
        List.map (·.keepAttributes (isOwn (prefixes unwanted doc))) := funext keep_along_eq_map
    rw [lines_strip, hkeep]
    congr 1
    refine List.filter_congr fun line hline => Bool.eq_iff_iff.mpr ⟨stays_of_own hline, ?_⟩
    intro hstays
    refine List.all_eq_true.mpr fun tag htag => ?_
    rw [Bool.not_eq_true', Bool.eq_false_iff]
    intro hforeign
    rw [h.within hline htag hforeign] at hstays
    cases hstays

theorem AgreesWithScopes.of_follows
    (h : FollowsScopes unwanted doc (strip (prefixes unwanted doc) doc)) :
    AgreesWithScopes unwanted doc := by
  obtain ⟨keeps, hkeeps, hlines⟩ := h
  rw [lines_strip] at hlines
  -- no less goes than what is in the namespaces, so it is the same if it is as much
  have hsame := filter_eq_of_length (fun line hline => stays_of_own hline) (by
    have hlength := congrArg List.length hlines
    rwa [List.length_map, List.length_map] at hlength)
  rw [hsame, List.map_inj_left] at hlines
  have hown {e : PlacedElement} (he : e ∈ doc.placed) (hstays : liesWithin unwanted e.line = false)
      {a : Attribute} (ha : a ∈ e.tag.attributes)
      (hgone : isOwn (prefixes unwanted doc) a = false) : keeps e.line a = false := by
    have htags := hlines e.line
      (List.mem_filter.mpr ⟨List.mem_map_of_mem he, by rw [hstays]; rfl⟩)
    have hattributes : List.filter (isOwn (prefixes unwanted doc)) e.tag.attributes =
        List.filter (keeps e.line) e.tag.attributes :=
      congrArg Tag.attributes (List.cons_eq_cons.mp htags).1
    rw [Bool.eq_false_iff]
    intro hkept
    have hmem := List.mem_filter.mpr ⟨ha, hkept⟩
    rw [← hattributes] at hmem
    rw [(List.mem_filter.mp hmem).2] at hgone
    cases hgone
  refine ⟨fun e he hforeign => ?_, fun e he hstays a ha hforeign => ?_,
    fun e he hstays a ha p hp hdeclared => ?_⟩
  · by_contra hstays
    have hmem : e.line ∈ doc.lines.filter fun line => !liesWithin unwanted line :=
      List.mem_filter.mpr ⟨List.mem_map_of_mem he, by simpa using hstays⟩
    rw [← hsame] at hmem
    have hall := List.all_eq_true.mp (List.mem_filter.mp hmem).2 e.tag List.mem_cons_self
    rw [hforeign] at hall
    cases hall
  · obtain ⟨p, hprefix, hp, -⟩ := is_foreign_iff.mp hforeign
    exact ((hkeeps e he hstays a ha).1 p hprefix hp).mp
      (hown he hstays ha (is_own_eq_false_iff.mpr (.inr hforeign)))
  · exact (hkeeps e he hstays a ha).2 p hdeclared
      (hown he hstays ha (is_own_eq_false_iff.mpr (.inl ⟨p, hp, hdeclared⟩)))

end

/-- With the prefixes that are bound to an editor namespace, or to one that a caller adds, anywhere
in the document, an element goes exactly if it or one around it has one of them, an attribute goes
with its element or if it has one, and a declaration if it is of one. This follows scopes exactly if
these prefixes mean such namespaces wherever they stand. -/
theorem remove_editor_data_lines {params : Params} {additional : List String}
    (hread : params.texts "additionalNamespaces" = .ok additional) (doc : Document) :
    ∃ out, removeEditorData.apply params doc = .ok out ∧
      out.lines = (doc.lines.filter fun line => line.all fun tag =>
          !isForeign (prefixes (namespaces ++ additional) doc) tag.name).map
        (List.map (·.keepAttributes (isOwn (prefixes (namespaces ++ additional) doc)))) ∧
      (FollowsScopes (namespaces ++ additional) doc out ↔
        AgreesWithScopes (namespaces ++ additional) doc) := by
  have happly : removeEditorData.apply params doc =
      .ok (strip (prefixes (namespaces ++ additional) doc) doc) := by
    show (do
      let additional ← params.texts "additionalNamespaces"
      return strip (prefixes (namespaces ++ additional) doc) doc) = _
    rw [hread]
    rfl
  exact ⟨_, happly, lines_strip _ doc, .of_follows, AgreesWithScopes.follows⟩

/-- A drawing as an editor writes it, with its prefix bound at the top. -/
def sketched : Document :=
  ⟨[.element ⟨"svg", [⟨"xmlns:sketch", "http://www.bohemiancoding.com/sketch/ns"⟩]⟩
    [.element ⟨"g", [⟨"sketch:type", "MSPage"⟩, ⟨"fill", "none"⟩]⟩
      [.element ⟨"sketch:meta", []⟩ []]]]⟩

theorem remove_editor_data_sketched :
    ∃ out, removeEditorData.apply [] sketched = .ok out ∧
      out.lines = [[⟨"svg", []⟩], [⟨"g", [⟨"fill", "none"⟩]⟩, ⟨"svg", []⟩]] ∧
      FollowsScopes (namespaces ++ []) sketched out := by
  have hread : Params.texts [] "additionalNamespaces" = .ok [] := rfl
  obtain ⟨out, happly, hlines, hfollows⟩ := remove_editor_data_lines hread sketched
  refine ⟨out, happly, ?_, hfollows.mpr ⟨by decide +kernel, by decide +kernel, by decide +kernel⟩⟩
  rw [hlines]
  decide +kernel

/-- A prefix that is bound to something else inside. -/
def rebound : Document :=
  ⟨[.element ⟨"svg", [⟨"xmlns:s", "http://www.bohemiancoding.com/sketch/ns"⟩]⟩
    [.element ⟨"g", [⟨"xmlns:s", "http://www.w3.org/2000/svg"⟩]⟩
      [.element ⟨"s:rect", []⟩ []]]]⟩

/-- The rectangle goes, though the prefix does not mean the editor's namespace where it stands. -/
theorem rebound_prefix_removed :
    ∃ out, removeEditorData.apply [] rebound = .ok out ∧
      ¬ FollowsScopes namespaces rebound out := by
  refine ⟨_, rfl, ?_⟩
  rintro ⟨keeps, -, hlines⟩
  have hlength := congrArg List.length hlines
  rw [List.length_map] at hlength
  revert hlength
  decide +kernel

end SvgPress.EditorData
