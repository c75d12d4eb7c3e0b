import SvgPress.Declared.Load
import SvgPress.Proofs.Pattern.Anchors
import SvgPress.Proofs.Pipeline.Structural

/-!
Patterns for the names of attributes, in the rules of declared passes and in the parameters of the
removal of attributes. A pattern should be taken if it is one, and then mean whole names. It is put
between anchors as it stands; where it is a pattern and fits in there, this is what it means, but a
text that closes the group around it can come through without being a pattern. All of this holds
whatever properties the engine knows and however large a pattern it takes.
-/

namespace SvgPress

open Text.Pattern
  (Engine anyLine KeepsMeaning parse? parseWhole? anchored keeps_meaning_iff matches_whole)

variable {engine : Engine}

namespace DeclaredPass

/-- What is said of a rule with a pattern for attributes: it is taken just if the text is a pattern,
and then drops the attributes whose whole names the pattern spans. -/
def TakesWholeNames (engine : Engine) (written : String) : Prop :=
  ∀ path, ((∃ rule, ruleOf engine path (.removeAttributes [written]) = .ok rule) ↔
      ∃ p, parse? engine written = some p) ∧
    ∀ rule p, ruleOf engine path (.removeAttributes [written]) = .ok rule →
        parse? engine written = some p →
      ∃ dropped : String → Bool, (∀ name, dropped name ↔ p.SpansAll name) ∧
        ∀ params doc, rule.apply params doc =
          .ok (doc.mapTags (·.keepAttributes fun a => !dropped a.name))

theorem rule_of_pattern (engine : Engine) (path : Path) (written : String) :
    ruleOf engine path (.removeAttributes [written]) =
      match parseWhole? engine written with
      | some p => .ok (.removeAttributes [p])
      | none => .error (.badPattern path written) := by
  rw [ruleOf, List.mapM_cons]
  cases parseWhole? engine written with
  | none => rfl
  | some p => rfl

theorem takes_whole_names_iff (engine : Engine) (written : String) :
    TakesWholeNames engine written ↔ KeepsMeaning engine written := by
  rw [keeps_meaning_iff]
  have htaken (path : Path) :
      (∃ rule, ruleOf engine path (.removeAttributes [written]) = .ok rule) ↔
      ∃ q, parseWhole? engine written = some q := by
    rw [rule_of_pattern]
    cases parseWhole? engine written <;> simp
  constructor
  · intro h
    exact (htaken ⟨""⟩).symm.trans (h ⟨""⟩).1
  · intro h path
    refine ⟨(htaken path).trans h, fun rule p hrule hp => ?_⟩
    rw [rule_of_pattern] at hrule
    cases hq : parseWhole? engine written with
    | none =>
        rw [hq] at hrule
        cases hrule
    | some q =>
        rw [hq] at hrule
        cases hrule
        refine ⟨q.matchesIn, matches_whole hp hq, fun params doc => ?_⟩
        simp [Rule.apply]

end DeclaredPass

namespace AttributeRemoval

/-- What is said of a pattern without the separator: it is taken just if the text is a pattern, and
then the attributes whose whole names the pattern spans are dropped. Names in markup end at white
space; an element of another origin with a line feed in its name is left as it is. -/
def TakesWholeNames (engine : Engine) (written : String) : Prop :=
  ∀ params separator, params.text "elemSeparator" ":" = .ok separator → separator ≠ "" →
    params.texts "attrs" = .ok [written] → Text.splitOnce? written separator = none →
      ∀ doc, ((∃ doc', (removeMatching engine).apply params doc = .ok doc') ↔
          ∃ p, parse? engine written = some p) ∧
        ∀ doc' p, (removeMatching engine).apply params doc = .ok doc' →
            parse? engine written = some p →
          ∃ dropped : String → Bool, (∀ name, dropped name ↔ p.SpansAll name) ∧
            doc' = doc.mapTags fun tag =>
              if '\n' ∈ tag.name.toList then tag else tag.keepAttributes fun a => !dropped a.name

theorem pattern_any (engine : Engine) : pattern engine ".*" = .ok anyLine.anchored := by
  have hreading : Text.Pattern.reading engine (".*" ++ ")$") =
      some ((anyLine, 1), ⟨Text.Pattern.closing, {}, []⟩) := rfl
  have hdepth : 1 + 2 ≤ Text.Pattern.depthLimit := by decide
  rw [pattern, Text.Pattern.whole_of_kept hreading rfl, if_pos ⟨hdepth, engine.fits_any⟩]

theorem meets_any_iff (name : String) : anyLine.anchored.matchesIn name ↔ '\n' ∉ name.toList := by
  have hother (c : Char) : (Text.CharSet.negate (.single '\n')).has c.toNat ↔ c ≠ '\n' := by
    rw [Ne, ← Char.toNat_inj]
    simp only [Text.CharSet.has, Text.CharSet.single, List.any_cons, List.any_nil, Bool.or_false,
      Bool.not_eq_true', Bool.and_eq_false_iff, decide_eq_false_iff_not]
    omega
  rw [Text.Pattern.anchored_iff, anyLine, Text.Pattern.spans_all_repeated_one]
  simp only [hother]
  exact ⟨fun h hfeed => h _ hfeed rfl, fun h c hc heq => h (heq ▸ hc)⟩

/-- What the pass does with a pattern without the separator. -/
theorem apply_pattern {params : Params} {separator written : String}
    (hseparator : params.text "elemSeparator" ":" = .ok separator) (hne : separator ≠ "")
    (hattrs : params.texts "attrs" = .ok [written])
    (hsplit : Text.splitOnce? written separator = none) (doc : Document) :
    (removeMatching engine).apply params doc =
      match parseWhole? engine written with
      | some q => .ok (doc.mapTags fun tag => if '\n' ∈ tag.name.toList then tag
          else tag.keepAttributes fun a => !q.matchesIn a.name)
      | none => .error (.invalidParam "attrs" (Text.Pattern.complaint written)) := by
  have hempty : separator.isEmpty = false := by simpa using hne
  have hrule : rule engine separator written = (pattern engine written).map fun q =>
      ⟨anyLine.anchored, q⟩ := by
    rw [rule, hsplit, pattern_any]
    cases pattern engine written <;> rfl
  have hrules : rulesOf engine params = (pattern engine written).map fun q =>
      [⟨anyLine.anchored, q⟩] := by
    rw [rulesOf, hseparator, hattrs]
    show (if separator.isEmpty then _ else [written].mapM (rule engine separator)) = _
    rw [hempty, List.mapM_cons, hrule]
    cases pattern engine written <;> rfl
  rw [apply_remove_matching, hrules, pattern]
  cases parseWhole? engine written with
  | none => rfl
  | some q =>
      refine congrArg (fun f => Except.ok (doc.mapTags f)) (funext fun tag => ?_)
      have hmeets := meets_any_iff tag.name
      split
      · next hfeed =>
        have hother : anyLine.anchored.matchesIn tag.name = false :=
          Bool.eq_false_iff.mpr fun h => hmeets.mp h hfeed
        simp [applyRules, Rule.meets, hother, Tag.keepAttributes]
      · next hfeed => simp [applyRules, Rule.meets, hmeets.mpr hfeed]

theorem applies_iff {params : Params} {separator written : String}
    (hseparator : params.text "elemSeparator" ":" = .ok separator) (hne : separator ≠ "")
    (hattrs : params.texts "attrs" = .ok [written])
    (hsplit : Text.splitOnce? written separator = none) (doc : Document) :
    (∃ doc', (removeMatching engine).apply params doc = .ok doc') ↔
      ∃ q, parseWhole? engine written = some q := by
  rw [apply_pattern hseparator hne hattrs hsplit]
  cases parseWhole? engine written <;> simp

/-- A separator that is longer than the text does not stand in it. -/
theorem split_longer (written : String) : Text.splitOnce? written (written ++ ":") = none := by
  rw [Text.splitOnce?, Option.map_eq_none_iff, Option.eq_none_iff_forall_ne_some]
  rintro ⟨before, behind⟩ hcut
  have hlength := congrArg List.length (Markup.cutAt?_eq hcut)
  simp at hlength
  omega

theorem takes_whole_names_iff (engine : Engine) (written : String) :
    TakesWholeNames engine written ↔ KeepsMeaning engine written := by
  rw [keeps_meaning_iff]
  constructor
  · intro h
    obtain ⟨params, hseparator, hattrs⟩ : ∃ params : Params,
        params.text "elemSeparator" ":" = .ok (written ++ ":") ∧
          params.texts "attrs" = .ok [written] :=
      ⟨[("attrs", .string written), ("elemSeparator", .string (written ++ ":"))], rfl, rfl⟩
    have hne : written ++ ":" ≠ "" := by
      intro hempty
      have hcs := congrArg String.toList hempty
      rw [String.toList_append] at hcs
      exact List.cons_ne_nil _ _ (List.append_eq_nil_iff.mp hcs).2
    have hsplit := split_longer written
    exact (applies_iff hseparator hne hattrs hsplit ⟨[]⟩).symm.trans
      (h _ _ hseparator hne hattrs hsplit ⟨[]⟩).1
  · intro h params separator hseparator hne hattrs hsplit doc
    refine ⟨(applies_iff hseparator hne hattrs hsplit doc).trans h, fun doc' p hdoc' hp => ?_⟩
    rw [apply_pattern hseparator hne hattrs hsplit] at hdoc'
    cases hq : parseWhole? engine written with
    | none =>
        rw [hq] at hdoc'
        cases hdoc'
    | some q =>
        rw [hq] at hdoc'
        cases hdoc'
        exact ⟨q.matchesIn, matches_whole hp hq, rfl⟩

end AttributeRemoval

/-- What is said of the patterns for names. Both passes take a text just if it is a pattern, and
then drop the attributes whose whole names this spans, exactly if the text as a pattern fits between
the anchors, and as a text that closes the group there is refused. -/
theorem whole_names_iff (engine : Engine) (written : String) :
    (DeclaredPass.TakesWholeNames engine written ↔ KeepsMeaning engine written) ∧
      (AttributeRemoval.TakesWholeNames engine written ↔ KeepsMeaning engine written) :=
  ⟨DeclaredPass.takes_whole_names_iff engine written,
    AttributeRemoval.takes_whole_names_iff engine written⟩

/-- A comment that is open at the end of a pattern takes the parenthesis and the anchor. -/
example : (parse? .standard "(?x)a#").isSome ∧ (parseWhole? .standard "(?x)a#").isNone := by
  decide +kernel

/-- A text that is no pattern is taken if it closes the group around it and opens another one at its
end. Each anchor then is in an alternative of its own, and names are dropped for their first or last
letter. -/
theorem group_taken_apart : parse? .standard "a)|(?:b" = none ∧
    (∃ q, parseWhole? .standard "a)|(?:b" = some q ∧ q.matchesIn "ax" ∧ q.matchesIn "xb") ∧
    ¬ DeclaredPass.TakesWholeNames .standard "a)|(?:b" ∧
      ¬ AttributeRemoval.TakesWholeNames .standard "a)|(?:b" := by
  have hnone : parse? .standard "a)|(?:b" = none := rfl
  have hsome : (parseWhole? .standard "a)|(?:b").any fun q => q.matchesIn "ax" &&
      q.matchesIn "xb" := by
    decide +kernel
  obtain ⟨q, hq, hmatches⟩ := (Option.any_eq_true _ _).mp hsome
  have hother : ¬ ((∃ q, parseWhole? .standard "a)|(?:b" = some q) ↔
      ∃ p, parse? .standard "a)|(?:b" = some p) := by
    intro h
    obtain ⟨p, hp⟩ := h.mp ⟨q, hq⟩
    rw [hnone] at hp
    cases hp
  rw [← keeps_meaning_iff] at hother
  exact ⟨hnone, ⟨q, hq, Bool.and_eq_true_iff.mp hmatches⟩,
    mt (DeclaredPass.takes_whole_names_iff _ _).mp hother,
    mt (AttributeRemoval.takes_whole_names_iff _ _).mp hother⟩

end SvgPress
