import SvgPress.Declared.Load
import SvgPress.Proofs.Json.Members
import SvgPress.Proofs.Json.Reading
import SvgPress.Proofs.Markup.Leaves

/-!
What a declared pass needs to be given. A rule that sets attributes stops at the first of its values
whose parameter is missing or null, before it has changed anything, and no other rule can stop.
Whether and where a pass stops is therefore told by its rules and the parameters alone, whatever the
document is.
-/

namespace SvgPress

namespace Rule

variable {params : Params} {rule : Rule} {written key : String}

/-- The attributes that a rule sets, with their values as written. -/
def entries : Rule → List (String × String)
  | .setAttributes _ attributes => attributes
  | .removeElements _ => []
  | .removeAttributes _ => []

/-- Whether a written value stands for a parameter that is missing or null, and for which. -/
def Lacks (params : Params) (written key : String) : Prop :=
  written = "$" ++ key ∧ (params.get? key = none ∨ params.get? key = some .null)

/-- Whether the parameters of all values are there. -/
def IsServed (params : Params) (attributes : List (String × String)) : Prop :=
  ∀ entry ∈ attributes, ∀ key, ¬ Lacks params entry.2 key

theorem substitute_of_lacks (h : Lacks params written key) :
    substitute params written = .error (.missingParam key) := by
  rw [substitute, Markup.drop_prefix_eq_some_iff.mpr h.1]
  rcases h.2 with hget | hget <;> simp only [hget]

theorem substitute_of_not_lacks (h : ∀ key, ¬ Lacks params written key) :
    ∃ value, substitute params written = .ok value := by
  rw [substitute]
  cases hkey : Text.dropPrefix? written "$" with
  | none => exact ⟨written, rfl⟩
  | some key =>
      have hlacks := h key
      rw [Lacks, not_and, not_or] at hlacks
      obtain ⟨hpresent, hnull⟩ := hlacks (Markup.drop_prefix_eq_some_iff.mp hkey)
      cases hget : params.get? key with
      | none => exact absurd hget hpresent
      | some value =>
          cases value with
          | null => exact absurd hget hnull
          | string s => exact ⟨s, by simp only [hget]⟩
          | bool _ | number _ | array _ | object _ =>
              simp only [hget]
              exact ⟨_, rfl⟩

/-- Values one by one, with the names of the attributes that they are for. -/
def resolve (params : Params) (entry : String × String) : Except PassFault (String × String) := do
  return (entry.1, ← substitute params entry.2)

theorem resolve_of_lacks {entry : String × String} (h : Lacks params entry.2 key) :
    resolve params entry = .error (.missingParam key) := by
  rw [resolve, substitute_of_lacks h]
  rfl

theorem resolve_of_served {attributes : List (String × String)} (h : IsServed params attributes) :
    ∀ entry ∈ attributes, ∃ value, resolve params entry = .ok value := by
  intro entry hentry
  obtain ⟨value, hvalue⟩ := substitute_of_not_lacks (h entry hentry)
  exact ⟨(entry.1, value), by rw [resolve, hvalue]; rfl⟩

/-- What a rule does with an element once the values are known. -/
def settle (element : Option String) (values : List (String × String))
    (doc : Document) : Document :=
  match element with
  | some name => doc.mapTags fun tag => if tag.name = name then setAll values tag else tag
  | none => doc.mapRoot fun tag children => .element (setAll values tag) children

theorem apply_set (element : Option String) (attributes : List (String × String)) (doc : Document) :
    (setAttributes element attributes).apply params doc =
      (attributes.mapM (resolve params)).map fun values => settle element values doc := by
  have happly : (setAttributes element attributes).apply params doc =
      attributes.mapM (resolve params) >>= fun values =>
        match element with
        | some name =>
            return doc.mapTags fun tag => if tag.name = name then setAll values tag else tag
        | none =>
            return doc.mapRoot fun tag children => .element (setAll values tag) children := rfl
  rw [happly]
  cases attributes.mapM (resolve params) with
  | error fault => rfl
  | ok values => cases element <;> rfl

/-- A rule is applied to every document if the parameters of its values are there. -/
theorem apply_of_served (h : IsServed params rule.entries) (doc : Document) :
    ∃ next, rule.apply params doc = .ok next := by
  cases rule with
  | removeElements names => exact ⟨_, rfl⟩
  | removeAttributes patterns => exact ⟨_, rfl⟩
  | setAttributes element attributes =>
      have hall : ∃ values, attributes.mapM (resolve params) = .ok values :=
        map_all_ok (resolve_of_served h)
      obtain ⟨values, hvalues⟩ := hall
      exact ⟨settle element values doc, by rw [apply_set, hvalues]; rfl⟩

/-- A rule stops at the first value whose parameter is not there, whatever the document is. -/
theorem apply_of_lacks {earlier later : List (String × String)} {entry : String × String}
    (hsplit : rule.entries = earlier ++ entry :: later) (hearlier : IsServed params earlier)
    (hlacks : Lacks params entry.2 key) (doc : Document) :
    rule.apply params doc = .error (.missingParam key) := by
  cases rule with
  | removeElements names => exact absurd hsplit (by simp [entries])
  | removeAttributes patterns => exact absurd hsplit (by simp [entries])
  | setAttributes element attributes =>
      have hattributes : attributes = earlier ++ entry :: later := hsplit
      rw [apply_set, hattributes,
        map_all_error (resolve_of_served hearlier) (resolve_of_lacks hlacks)]
      rfl

end Rule

namespace RuleSpec

open Json

/-- The attributes that a rule sets, as written in its file. -/
def entries : RuleSpec → List (String × String)
  | .setAttributes _ attributes => attributes
  | .removeElements _ => []
  | .removeAttributes _ => []

/-- Attributes are set in the order of their names. -/
def IsOrdered (spec : RuleSpec) : Prop :=
  (spec.entries.map Prod.fst).Pairwise (· < ·)

variable {spec : RuleSpec}

theorem ordered_text_map {v : Value} {attributes : List (String × String)}
    (h : textMap v = .ok attributes) : (attributes.map Prod.fst).Pairwise (· < ·) := by
  cases v with
  | object members =>
      rw [textMap] at h
      obtain ⟨_, -, h⟩ := bind_ok h
      have hkeys : attributes.map Prod.fst = (Object.merge [] members).map Prod.fst := by
        refine map_eq_of_map_all ?_ h
        rintro ⟨k, v⟩ entry hentry
        obtain ⟨s, -, hs⟩ := bind_ok hentry
        cases hs
        rfl
      rw [hkeys]
      have hnil : Object.IsOrdered [] := List.Pairwise.nil
      exact Object.ordered_merge hnil members
  | null | bool _ | number _ | string _ | array _ => cases h

theorem ordered_of_parts {kind : Kind} {parts : List Value} (h : ofParts kind parts = .ok spec) :
    spec.IsOrdered := by
  unfold ofParts at h
  split at h
  · obtain ⟨names, -, h⟩ := bind_ok h
    cases h
    exact List.Pairwise.nil
  · obtain ⟨patterns, -, h⟩ := bind_ok h
    cases h
    exact List.Pairwise.nil
  · obtain ⟨element, -, h⟩ := bind_ok h
    obtain ⟨attributes, hattributes, h⟩ := bind_ok h
    cases h
    exact ordered_text_map hattributes
  · cases h

theorem ordered_of_members {kind : Kind} {members : List (String × Value)}
    (h : ofMembers kind members = .ok spec) : spec.IsOrdered := by
  unfold ofMembers at h
  cases kind with
  | removeElements =>
      obtain ⟨names, -, h⟩ := bind_ok h
      exact ordered_of_parts h
  | removeAttributes =>
      obtain ⟨patterns, -, h⟩ := bind_ok h
      exact ordered_of_parts h
  | setAttributes =>
      obtain ⟨element, -, h⟩ := bind_ok h
      obtain ⟨attributes, -, h⟩ := bind_ok h
      exact ordered_of_parts h

/-- However a rule is written, its attributes come out in order. -/
theorem ordered_read : decoder.Gives IsOrdered := by
  intro depth cs spec rest h
  rw [decoder] at h
  split at h
  · cases h
  · split at h
    · cases h
    · rw [positional] at h
      obtain ⟨entry, -, h⟩ := bind_ok h
      cases entry with
      | closed behind => cases h
      | more behind =>
          obtain ⟨⟨kind, behind⟩, -, h⟩ := bind_ok h
          obtain ⟨⟨parts, behind⟩, -, h⟩ := bind_ok h
          obtain ⟨read, hread, h⟩ := bind_ok h
          cases h
          exact ordered_of_parts hread
  · split at h
    · cases h
    · obtain ⟨⟨⟨kind, members⟩, behind⟩, -, h⟩ := bind_ok h
      cases kind with
      | none => cases h
      | some kind =>
          obtain ⟨read, hread, h⟩ := bind_ok h
          cases h
          exact ordered_of_members hread
  · cases h

end RuleSpec

namespace DeclaredPass

variable {files : Files} {path : Path} {pass : DeclaredPass} {params : Params} {doc : Document}

theorem ordered_declaration :
    Declaration.decoder.Gives fun d => ∀ spec ∈ d.rules, spec.IsOrdered := by
  refine Json.Decoder.Gives.record (by simp) ?_
  simp only [Declaration.fields, List.forall_mem_cons, List.not_mem_nil,
    false_imp_iff, implies_true, and_true]
  refine ⟨.map ?_, .map ?_, .map ?_, .map ?_, .map ?_⟩
  · exact .of_forall fun _ _ h => h
  · exact .of_forall fun _ _ h => h
  · exact .of_forall fun _ _ h => h
  · exact .of_forall fun _ _ h => h
  · intro depth cs rules rest hread d _
    exact RuleSpec.ordered_read.array depth cs rules rest hread

theorem entries_of_rule {engine : Text.Pattern.Engine} {spec : RuleSpec} {rule : Rule}
    (h : ruleOf engine path spec = .ok rule) : rule.entries = spec.entries := by
  cases spec with
  | removeElements names =>
      cases h
      rfl
  | removeAttributes patterns =>
      obtain ⟨patterns, -, h⟩ := bind_ok h
      cases h
      rfl
  | setAttributes element attributes =>
      cases h
      rfl

/-- The rules of a pass that was loaded set attributes in the order of their names. -/
theorem ordered_of_load (h : load files path = .ok pass) :
    ∀ rule ∈ pass.rules, (rule.entries.map Prod.fst).Pairwise (· < ·) := by
  rw [load] at h
  split at h
  · cases h
  · split at h
    · cases h
    · rename_i d hdecode
      obtain ⟨name, -, h⟩ := bind_ok h
      obtain ⟨⟨⟩, -, h⟩ := bind_ok h
      obtain ⟨defaults, -, h⟩ := bind_ok h
      obtain ⟨rules, hrules, h⟩ := bind_ok h
      cases h
      have hordered := Json.of_decode ordered_declaration hdecode
      have hsame := map_eq_of_map_all (fun _ _ => entries_of_rule) hrules
      intro rule hrule
      have hmem : rule.entries ∈ d.rules.map RuleSpec.entries := hsame ▸ List.mem_map_of_mem hrule
      obtain ⟨spec, hspec, hentries⟩ := List.mem_map.mp hmem
      exact hentries ▸ hordered spec hspec

/-- Rules that can all be applied are applied one after the other, whatever comes behind them. -/
theorem run_rules_served {rules : List Rule}
    (h : ∀ rule ∈ rules, Rule.IsServed params rule.entries) (doc : Document) (after : List Rule) :
    ∃ between, rules.foldlM (fun doc rule => rule.apply params doc) doc = .ok between ∧
      runRules params (rules ++ after) doc = runRules params after between := by
  induction rules generalizing doc with
  | nil => exact ⟨doc, rfl, rfl⟩
  | cons rule rules ih =>
      rw [List.forall_mem_cons] at h
      obtain ⟨next, hnext⟩ := Rule.apply_of_served h.1 doc
      obtain ⟨between, hfold, hrun⟩ := ih h.2 next
      refine ⟨between, ?_, ?_⟩
      · rw [List.foldlM_cons, hnext]
        exact hfold
      · rw [List.cons_append, runRules, hnext]
        exact hrun

/-- Whether some rules, in their order and with the attributes of each in theirs, come to a value
whose parameter is missing or null: the first one, in the rule behind the given rules. -/
def FirstLacks (params : Params) (rules before : List Rule) (key : String) : Prop :=
  ∃ rule after earlier entry later, rules = before ++ rule :: after ∧
    rule.entries = earlier ++ entry :: later ∧ Rule.Lacks params entry.2 key ∧
    (∀ other ∈ before, Rule.IsServed params other.entries) ∧ Rule.IsServed params earlier

theorem split_at_first {α : Type} {p : α → Prop} {xs : List α} (h : ∃ x ∈ xs, p x) :
    ∃ before x after, xs = before ++ x :: after ∧ p x ∧ ∀ y ∈ before, ¬ p y := by
  classical
  obtain ⟨x, hx, hp⟩ := h
  have hfound : (xs.find? fun y => decide (p y)).isSome := by
    rw [List.find?_isSome]
    exact ⟨x, hx, by simpa using hp⟩
  obtain ⟨first, hfirst⟩ := Option.isSome_iff_exists.mp hfound
  obtain ⟨hp, before, after, hsplit, hbefore⟩ := List.find?_eq_some_iff_append.mp hfirst
  refine ⟨before, first, after, hsplit, by simpa using hp, ?_⟩
  intro y hy
  simpa using hbefore y hy

theorem first_lacks_of_lacks {rules : List Rule}
    (h : ∃ rule ∈ rules, ¬ Rule.IsServed params rule.entries) :
    ∃ before key, FirstLacks params rules before key := by
  obtain ⟨before, rule, after, hrules, hrule, hbefore⟩ := split_at_first h
  have hlacks : ∃ entry ∈ rule.entries, ∃ key, Rule.Lacks params entry.2 key := by
    simpa only [Rule.IsServed, not_forall, not_not, exists_prop] using hrule
  obtain ⟨earlier, entry, later, hentries, ⟨key, hkey⟩, hearlier⟩ := split_at_first hlacks
  refine ⟨before, key, rule, after, earlier, entry, later, hrules, hentries, hkey, ?_, ?_⟩
  · exact fun other hother => not_not.mp (hbefore other hother)
  · exact fun other hother key hlacks => hearlier other hother ⟨key, hlacks⟩

/-- A pass stops at the first value whose parameter is not there, behind the rules before it. -/
theorem run_first_lacks {before : List Rule} {key : String}
    (h : FirstLacks params pass.rules before key) (doc : Document) :
    ∃ between, before.foldlM (fun doc rule => rule.apply params doc) doc = .ok between ∧
      pass.run params doc = (between, some (.missingParam key)) := by
  obtain ⟨rule, after, earlier, entry, later, hrules, hentries, hlacks, hbefore, hearlier⟩ := h
  obtain ⟨between, hfold, hrun⟩ := run_rules_served hbefore doc (rule :: after)
  refine ⟨between, hfold, ?_⟩
  rw [run, hrules, hrun, runRules, Rule.apply_of_lacks hentries hearlier hlacks between]

theorem run_served (h : ∀ rule ∈ pass.rules, Rule.IsServed params rule.entries) (doc : Document) :
    ∃ final, pass.rules.foldlM (fun doc rule => rule.apply params doc) doc = .ok final ∧
      pass.run params doc = (final, none) := by
  obtain ⟨final, hfold, hrun⟩ := run_rules_served h doc []
  rw [List.append_nil] at hrun
  exact ⟨final, hfold, hrun⟩

/-- A pass that was loaded fails exactly if one of the attributes that it sets has a parameter for
value which is missing or null, whatever the document is. It names the first of these, rule by rule
and with the attributes of a rule by their names, and leaves the document as the rules before that
one made it. -/
theorem run_loaded (h : load files path = .ok pass) (params : Params) (doc : Document) :
    ((pass.run params doc).2.isSome ↔
      ∃ element attributes, .setAttributes element attributes ∈ pass.rules ∧
        ∃ name key, (name, "$" ++ key) ∈ attributes ∧
          (params.get? key = none ∨ params.get? key = some .null)) ∧
    (∀ fault, (pass.run params doc).2 = some fault →
      ∃ before key, FirstLacks params pass.rules before key ∧ fault = .missingParam key ∧
        before.foldlM (fun doc rule => rule.apply params doc) doc = .ok (pass.run params doc).1) ∧
    ∀ rule ∈ pass.rules, (rule.entries.map Prod.fst).Pairwise (· < ·) := by
  have hstops : (∃ rule ∈ pass.rules, ¬ Rule.IsServed params rule.entries) →
      ∃ before key, FirstLacks params pass.rules before key ∧
        (pass.run params doc).2 = some (.missingParam key) ∧
        before.foldlM (fun doc rule => rule.apply params doc) doc =
          .ok (pass.run params doc).1 := by
    intro hlacks
    obtain ⟨before, key, hfirst⟩ := first_lacks_of_lacks hlacks
    obtain ⟨between, hfold, hrun⟩ := run_first_lacks hfirst doc
    exact ⟨before, key, hfirst, by rw [hrun], by rw [hrun, hfold]⟩
  have hfails : (pass.run params doc).2.isSome →
      ∃ rule ∈ pass.rules, ¬ Rule.IsServed params rule.entries := by
    intro hfails
    by_contra hserved
    simp only [not_exists, not_and, not_not] at hserved
    obtain ⟨final, -, hrun⟩ := run_served hserved doc
    rw [hrun] at hfails
    cases hfails
  refine ⟨⟨?_, ?_⟩, ?_, ordered_of_load h⟩
  · intro hsome
    obtain ⟨rule, hrule, hserved⟩ := hfails hsome
    simp only [Rule.IsServed, not_forall, not_not] at hserved
    obtain ⟨⟨name, _⟩, hentry, key, rfl, hget⟩ := hserved
    cases rule with
    | removeElements names => cases hentry
    | removeAttributes patterns => cases hentry
    | setAttributes element attributes =>
        exact ⟨element, attributes, hrule, name, key, hentry, hget⟩
  · rintro ⟨element, attributes, hrule, name, key, hentry, hget⟩
    obtain ⟨_, _, _, hfault, -⟩ :=
      hstops ⟨_, hrule, fun hserved => hserved (name, "$" ++ key) hentry key ⟨rfl, hget⟩⟩
    rw [hfault]
    rfl
  · intro fault hfault
    obtain ⟨before, key, hfirst, hkey, hfold⟩ := hstops (hfails (by rw [hfault]; rfl))
    exact ⟨before, key, hfirst, Option.some.inj (hfault.symm.trans hkey), hfold⟩

/-- Titles are removed before a rule comes to its second attribute, whose parameter is null. -/
theorem run_loaded_brand :
    let text := "\x7b\"rules\": [\x7b\"op\": \"removeElements\", \"names\": [\"title\"]\x7d, " ++
      "\x7b\"op\": \"setAttributes\", " ++
      "\"attributes\": \x7b\"fill\": \"$ink\", \"d\": \"$d\"\x7d\x7d]\x7d"
    let files : Files := ⟨fun _ => true, fun _ => .ok text⟩
    let params : Params := [("d", .string "M0 0"), ("ink", .null)]
    let doc : Document := ⟨[.element ⟨"svg", []⟩ [.element ⟨"title", []⟩ []]]⟩
    ∃ pass, load files ⟨"brand.json"⟩ = .ok pass ∧
      pass.run params doc = (⟨[.element ⟨"svg", []⟩ []]⟩, some (.missingParam "ink")) ∧
      ∃ before key, FirstLacks params pass.rules before key ∧ key = "ink" := by
  intro text files params doc
  have hmap : (load files ⟨"brand.json"⟩).map (·.run params doc) =
      .ok (⟨[.element ⟨"svg", []⟩ []]⟩, some (.missingParam "ink")) := by decide +kernel
  obtain ⟨pass, hload, hrun⟩ := map_ok hmap
  obtain ⟨-, hfirst, -⟩ := run_loaded hload params doc
  obtain ⟨before, key, hlacks, hkey, -⟩ := hfirst (.missingParam "ink") (by rw [hrun])
  exact ⟨pass, hload, hrun, before, key, hlacks, (PassFault.missingParam.inj hkey).symm⟩

end DeclaredPass

end SvgPress
