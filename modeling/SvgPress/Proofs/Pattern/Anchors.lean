import SvgPress.Proofs.Pattern.FramedParts
import SvgPress.Proofs.Pattern.Matching

/-!
Patterns for whole texts. The text of such a pattern is put into a group between anchors as it
stands. If the text writes a pattern, this gives the pattern between anchors, which matches just
what the pattern spans, or it is refused, because a comment at its end takes the parenthesis or
because the pattern is too deep or too large with the group and the anchors around it. A text that
writes no pattern is refused too, unless it closes the group.
-/

namespace SvgPress.Text.Pattern

variable {α : Type} {engine : Engine} {P : State → Prop}

section Frame

theorem steady_repeat_last {other : List Piece → State → Prop} (pieces : List Piece) (least : Nat)
    (most : Option Nat) : SteadyOn P other (repeatLast pieces least most) := by
  unfold repeatLast
  split
  · exact (steady_take (by decide)).bind fun _ => steady_pure _
  · exact steady_failure

theorem steady_atom_pattern {other : Pattern → State → Prop} (flags : Flags) (a : Atom) :
    SteadyOn P other (a.pattern flags) := by
  cases a with
  | literal c => exact steady_pure _
  | byte n => exact .ite (steady_pure _) steady_failure
  | chars set => exact steady_pure _
  | place place => exact steady_pure _

/-- A group that is not closed takes the parenthesis that stands behind the pattern. -/
theorem steady_close {other : α → State → Prop} {m : Parser α} (hm : SteadyOn Anywhere other m) :
    SteadyOn P other (do
      if !(← take? ")") then failure
      m) := by
  refine ⟨(shrinks_take _).bind fun closed => .ite (shrinks_failure_bind _) hm.shrinks,
    fun s _ => ?_⟩
  obtain ⟨cs, flags, names⟩ := s
  cases cs with
  | nil =>
      show Framed other none (m ⟨['$'], flags, names⟩)
      cases h : m ⟨['$'], flags, names⟩ with
      | none => exact .refused
      | some p => exact .past p.1 p.2 (.inl (hm.shrinks _ p.1 p.2 h))
  | cons c cs =>
      by_cases hc : c = ')'
      · subst hc
        exact hm.framed ⟨cs, flags, names⟩ trivial
      · have hopen (tail : List Char) : (do
            if !(← take? ")") then failure
            m : Parser α) ⟨c :: tail, flags, names⟩ = none := by
          have hstrip : stripFront? ")".toList (c :: tail) = none := by
            show (if ')' = c then some tail else none) = none
            rw [if_neg (Ne.symm hc)]
          rw [bind_apply, take_apply]
          dsimp only
          rw [hstrip]
          rfl
        rw [hopen cs]
        show Framed other none ((do
            if !(← take? ")") then failure
            m : Parser α) ⟨c :: (cs ++ closing), flags, names⟩)
        rw [hopen]
        exact .refused

theorem alternatives_stuck {s : State} (h : s.IsStuck) (budget : Nat) (p : Pattern) (depth : Nat)
    (pieces : List Piece) (done : List (Nested Pattern)) :
    alternatives engine budget (.pattern p depth :: pieces) done s = none := by
  cases budget with
  | zero => rfl
  | succ budget =>
      have hrange := count_range_stuck h
      obtain ⟨cs, hrest, -⟩ := h
      obtain ⟨_, flags, names⟩ := s
      cases hrest
      rw [alternatives, bind_apply, skip_apply, Option.bind_some, spaced_brace]
      show (countRange ⟨'\x7b' :: cs, flags, names⟩).bind _ = none
      rw [hrange]
      rfl

theorem steady_alternatives (budget : Nat) (pieces : List Piece) (done : List (Nested Pattern)) :
    SteadyOn P Nowhere (alternatives engine budget pieces done) := by
  induction budget generalizing pieces done P with
  | zero => exact steady_failure
  | succ budget ih =>
      have hrepeat (least : Nat) (most : Option Nat) : SteadyOn Anywhere Nowhere
          (repeatLast pieces least most >>= fun pieces => alternatives engine budget pieces done) :=
        (steady_repeat_last _ _ _).bind fun _ => ih _ _
      rw [alternatives]
      refine steady_skip.bind fun _ => steady_get (fun s => ?_) fun s _ => rfl
      refine steady_peek (fun c => ?_) (shrinks_pure _) fun t _ => .kept _ t
      split
      · exact steady_pure _
      · exact steady_pure _
      · exact steady_advance (ih _ _)
      · refine steady_advance (steady_group_opening.bind fun opening => ?_)
        cases opening with
        | setting flags => exact (steady_flags flags).bind fun _ => ih _ _
        | group inner =>
            exact (steady_flags inner).bind fun _ => (ih _ _).bind fun p =>
              steady_close ((steady_flags s.flags).bind fun _ => ih _ _)
      · refine steady_get_budget (F := fun n => bracketed engine (2 * n + 2))
          (fun n => (steady_brackets _).1.anywhere) (fun n => ?_) fun p => ih _ _
        exact agree_of_step (fun b (hb : 2 * n ≤ b) => (brackets_budget b).1 n hb)
          (by omega) (by omega)
      · exact steady_advance (hrepeat _ _)
      · exact steady_advance (hrepeat _ _)
      · exact steady_advance (hrepeat _ _)
      · exact .ite (steady_failure_bind _) (steady_count_range.bind fun range => hrepeat _ _)
      · exact steady_advance (.ite (steady_failure_bind _) (ih _ _))
      · exact steady_advance (ih _ _)
      · exact steady_advance (ih _ _)
      · next hc =>
        cases hc
        refine steady_escape.bind_other (fun a => (steady_atom_pattern _ a).bind fun _ => ih _ _) ?_
        rintro _ t ⟨⟨place, rfl⟩, ht⟩ b r hr
        exact absurd (hr.symm.trans (alternatives_stuck ht _ _ _ _ _)) (Option.some_ne_none _)
      · exact steady_advance ((steady_atom_pattern _ _).bind fun _ => ih _ _)

end Frame

section Reading

/-- The reading of a text up to its end or to a parenthesis that closes no group: the pattern and
how deep it is, and the place. -/
def reading (engine : Engine) (written : String) : Option (Nested Pattern × State) :=
  alternatives engine (2 * written.toList.length + 2) [] [] ⟨written.toList, {}, []⟩

theorem parse_eq_bind (engine : Engine) (written : String) :
    parse? engine written = (reading engine written).bind fun r =>
      if r.2.rest.isEmpty && r.1.2 ≤ depthLimit && engine.fits written r.1.1 then some r.1.1
      else none :=
  rfl

theorem parse_eq_some_iff {written : String} {p : Pattern} : parse? engine written = some p ↔
    ∃ r, reading engine written = some r ∧ r.2.rest = [] ∧ r.1.2 ≤ depthLimit ∧
      engine.fits written r.1.1 ∧ r.1.1 = p := by
  rw [parse_eq_bind, Option.bind_eq_some_iff]
  refine exists_congr fun r => and_congr_right fun _ => ?_
  rw [Option.ite_none_right_eq_some, Bool.and_eq_true, Bool.and_eq_true, List.isEmpty_iff,
    decide_eq_true_eq, Option.some.injEq, and_assoc, and_assoc]

/-- Whether a text closes a group that it did not open. -/
def ClosesGroup (engine : Engine) (written : String) : Prop :=
  ∃ r, reading engine written = some r ∧ r.2.rest ≠ []

/-- Whether a text that writes a pattern ends in a comment, which takes what is put behind it. -/
def EndsInComment (engine : Engine) (written : String) : Prop :=
  reading engine (written ++ ")$") = reading engine written

/-- How deep groups and repetitions are inside one another, where there is a reading. -/
def depth? (engine : Engine) (written : String) : Option Nat :=
  (reading engine written).map (·.1.2)

/-- The pattern of a reading, however deep or large it is. -/
def pattern? (engine : Engine) (written : String) : Option Pattern :=
  (reading engine written).map (·.1.1)

/-- Whether a pattern stands between anchors as it does alone: no comment is open at its end, and
with the group and the anchors around it it is neither too deep nor too large. -/
structure FitsFrame (engine : Engine) (written : String) : Prop where
  closed : ¬ EndsInComment engine written
  shallow : ∀ depth ∈ depth? engine written, depth + 2 ≤ depthLimit
  small : ∀ p ∈ pattern? engine written, engine.fits (whole written) p.anchored

theorem reading_budget (written : String) {budget : Nat}
    (hbudget : 2 * written.toList.length + 2 ≤ budget) :
    reading engine written = alternatives engine budget [] [] ⟨written.toList, {}, []⟩ :=
  agree_of_step (fun b (hb : written.toList.length + 1 ≤ b) => alternatives_budget b [] [] hb)
    (by omega) hbudget ⟨written.toList, {}, []⟩ le_rfl

theorem to_list_closed (written : String) : (written ++ ")$").toList = written.toList ++ closing :=
  String.toList_append

/-- The reading of a text with a parenthesis and an anchor behind it. -/
theorem reading_framed (engine : Engine) (written : String) :
    Framed Nowhere (reading engine written) (reading engine (written ++ ")$")) := by
  have hlength : (written ++ ")$").toList.length = written.toList.length + 2 := by
    rw [to_list_closed, List.length_append]
    rfl
  have hbudget : 2 * written.toList.length + 2 ≤ 2 * (written ++ ")$").toList.length + 2 := by omega
  rw [reading_budget written hbudget, reading, to_list_closed]
  exact (steady_alternatives (P := Anywhere) _ [] []).framed ⟨written.toList, {}, []⟩ trivial

end Reading

section Wrapping

variable {written : String}

theorem frame_apply (cs : List Char) (budget : Nat) :
    alternatives engine (budget + 2) [] [] ⟨'^' :: '(' :: '?' :: ':' :: cs, {}, []⟩ = (do
      let (p, depth) ← alternatives engine budget [] []
      if !(← take? ")") then failure
      modify fun s => { s with flags := {} }
      alternatives engine budget [.pattern p (depth + 1), .pattern (.at .textStart) 0] [] :
        Parser (Nested Pattern)) ⟨cs, {}, []⟩ :=
  rfl

theorem anchor_apply (engine : Engine) (budget : Nat) (p : Pattern) (depth : Nat)
    (names : List (List Char)) :
    alternatives engine (budget + 2) [.pattern p depth, .pattern (.at .textStart) 0] []
      ⟨['$'], {}, names⟩ = some ((p.anchored, depth + 1), ⟨[], {}, names⟩) := by
  have hdepth : 1 + max (max (max 0 0) depth) 0 = depth + 1 := by omega
  rw [← hdepth]
  rfl

theorem parse_whole_eq (engine : Engine) (written : String) : ∃ budget,
    parseWhole? engine written = (reading engine (written ++ ")$")).bind fun r => ((do
      if !(← take? ")") then failure
      modify fun s => { s with flags := {} }
      alternatives engine (budget + 2) [.pattern r.1.1 (r.1.2 + 1),
          .pattern (.at .textStart) 0] [] :
        Parser (Nested Pattern)) r.2).bind fun r =>
          if r.2.rest.isEmpty && r.1.2 ≤ depthLimit && engine.fits (whole written) r.1.1 then
            some r.1.1
          else none := by
  have hcs : (whole written).toList = '^' :: '(' :: '?' :: ':' :: (written ++ ")$").toList := by
    rw [whole, String.append_assoc, String.toList_append]
    rfl
  refine ⟨2 * (written ++ ")$").toList.length + 6, ?_⟩
  rw [parseWhole?, parse_eq_bind, reading, hcs]
  have hbudget : 2 * ('^' :: '(' :: '?' :: ':' :: (written ++ ")$").toList).length + 2 =
      2 * (written ++ ")$").toList.length + 6 + 2 + 2 := by
    simp only [List.length_cons]
    omega
  have hreading : reading engine (written ++ ")$") =
      alternatives engine (2 * (written ++ ")$").toList.length + 6 + 2) [] []
        ⟨(written ++ ")$").toList, {}, []⟩ := reading_budget _ (by omega)
  rw [hbudget, frame_apply, bind_apply, Option.bind_assoc, hreading]

theorem whole_of_kept {p : Pattern} {depth : Nat} {s : State}
    (h : reading engine (written ++ ")$") = some ((p, depth), s)) (hs : s.rest = closing) :
    parseWhole? engine written =
      if depth + 2 ≤ depthLimit ∧ engine.fits (whole written) p.anchored then some p.anchored
      else none := by
  obtain ⟨_, flags, names⟩ := s
  cases hs
  obtain ⟨budget, hwhole⟩ := parse_whole_eq engine written
  have htail := anchor_apply engine budget p (depth + 1) names
  rw [hwhole, h, Option.bind_some]
  show Option.bind (alternatives engine (budget + 2) _ [] ⟨['$'], {}, names⟩) _ = _
  rw [htail, Option.bind_some]
  show (if (true && decide (depth + 1 + 1 ≤ depthLimit) &&
    engine.fits (whole written) p.anchored) = true then _ else _) = _
  simp only [Bool.true_and, Bool.and_eq_true, decide_eq_true_eq]

theorem whole_of_past {r : Nested Pattern × State} (h : reading engine (written ++ ")$") = some r)
    (hr : r.2.IsPast) : parseWhole? engine written = none := by
  obtain ⟨p, cs, flags, names⟩ := r
  have hopen : stripFront? ")".toList cs = none := by
    rcases List.suffix_cons_iff.mp hr with hcs | hcs
    · obtain rfl : cs = ['$'] := hcs
      rfl
    · obtain rfl : cs = [] := List.suffix_nil.mp hcs
      rfl
  obtain ⟨budget, hwhole⟩ := parse_whole_eq engine written
  rw [hwhole, h, Option.bind_some, bind_apply, take_apply]
  dsimp only
  rw [hopen]
  rfl

theorem whole_of_refused (h : reading engine (written ++ ")$") = none) :
    parseWhole? engine written = none := by
  obtain ⟨budget, hwhole⟩ := parse_whole_eq engine written
  rw [hwhole, h]
  rfl

/-- A reading to the end of the text gives the pattern between the anchors, if it fits in there. -/
theorem parse_whole_of_reading {p q : Pattern} {depth : Nat} {s : State}
    (hreading : reading engine written = some ((p, depth), s)) (hrest : s.rest = []) :
    parseWhole? engine written = some q ↔ FitsFrame engine written ∧ p.anchored = q := by
  have hframed := reading_framed engine written
  rw [hreading] at hframed
  have hdepth : depth? engine written = some depth := by
    rw [depth?, hreading]
    rfl
  have hpattern : pattern? engine written = some p := by
    rw [pattern?, hreading]
    rfl
  generalize hclosed : reading engine (written ++ ")$") = outcome at hframed
  cases hframed with
  | kept =>
      have hs : s.closed.rest = closing := by rw [State.closed, hrest, List.nil_append]
      have hcomment : ¬ EndsInComment engine written := by
        intro hcomment
        have heq := congrArg State.rest (congrArg Prod.snd
          (Option.some.inj (hclosed.symm.trans (hcomment.trans hreading))))
        rw [hs, hrest] at heq
        cases heq
      rw [whole_of_kept hclosed hs, Option.ite_none_right_eq_some, Option.some.injEq]
      refine and_congr_left fun _ => ⟨fun hsmall => ⟨hcomment, ?_, ?_⟩, fun hfits => ?_⟩
      · rw [hdepth]
        rintro _ ⟨⟩
        exact hsmall.1
      · rw [hpattern]
        rintro _ ⟨⟩
        exact hsmall.2
      · exact ⟨hfits.shallow depth hdepth, hfits.small p hpattern⟩
  | swallowed =>
      have hpast : s.IsPast := by
        rw [State.IsPast, hrest]
        exact List.nil_suffix
      rw [whole_of_past hclosed hpast]
      exact iff_of_false (Option.some_ne_none q).symm fun h =>
        h.1.closed (hclosed.trans hreading.symm)

/-- Where the text writes a pattern, this pattern between the anchors is meant, or none if it does
not fit in there. -/
theorem parse_whole_of_parse {p q : Pattern} (h : parse? engine written = some p) :
    parseWhole? engine written = some q ↔ FitsFrame engine written ∧ p.anchored = q := by
  obtain ⟨⟨⟨p, depth⟩, s⟩, hreading, hrest, -, -, rfl⟩ := parse_eq_some_iff.mp h
  exact parse_whole_of_reading hreading hrest

/-- A text that passes for a pattern between the anchors without closing the group that it is put
into is one, unless it is too large without the anchors. -/
theorem parse_of_parse_whole {q : Pattern} (hwhole : parseWhole? engine written = some q)
    (hgroup : ¬ ClosesGroup engine written)
    (hsized : FitsFrame engine written → ∀ p ∈ pattern? engine written, engine.fits written p) :
    ∃ p, parse? engine written = some p := by
  have hframed := reading_framed engine written
  generalize hclosed : reading engine (written ++ ")$") = outcome at hframed
  cases hreading : reading engine written with
  | none =>
      rw [hreading] at hframed
      cases hframed with
      | refused =>
          rw [whole_of_refused hclosed] at hwhole
          cases hwhole
      | past r s hpast =>
          rw [whole_of_past hclosed (hpast.resolve_right id)] at hwhole
          cases hwhole
  | some r =>
      obtain ⟨⟨p, depth⟩, s⟩ := r
      have hrest : s.rest = [] := by
        by_contra hrest
        exact hgroup ⟨_, hreading, hrest⟩
      have hfits := ((parse_whole_of_reading hreading hrest).mp hwhole).1
      -- With the group and the anchors around it the pattern is two levels deeper.
      have hshallow := hfits.shallow depth (by rw [depth?, hreading]; rfl)
      have hsmall := hsized hfits p (by rw [pattern?, hreading]; rfl)
      exact ⟨p, parse_eq_some_iff.mpr
        ⟨_, hreading, hrest, Nat.le_of_add_right_le hshallow, hsmall, rfl⟩⟩

theorem not_parse_of_closes_group (h : ClosesGroup engine written) :
    parse? engine written = none := by
  obtain ⟨r, hreading, hrest⟩ := h
  rw [Option.eq_none_iff_forall_ne_some]
  intro p hp
  obtain ⟨other, hother, hend, -⟩ := parse_eq_some_iff.mp hp
  rw [hreading] at hother
  cases hother
  exact hrest hend

/-- Whether a text is taken for what it is between the anchors: a pattern fits in there, what fits
in there is not too large to be a pattern, and a text that closes the group there is refused. -/
structure KeepsMeaning (engine : Engine) (written : String) : Prop where
  fits : (∃ p, parse? engine written = some p) → FitsFrame engine written
  sized : ¬ ClosesGroup engine written → FitsFrame engine written →
    ∀ p ∈ pattern? engine written, engine.fits written p
  refused : ClosesGroup engine written → parseWhole? engine written = none

/-- Such texts are those that are taken between the anchors just if they are patterns. -/
theorem keeps_meaning_iff (engine : Engine) (written : String) : KeepsMeaning engine written ↔
    ((∃ q, parseWhole? engine written = some q) ↔ ∃ p, parse? engine written = some p) := by
  constructor
  · rintro ⟨hfits, hsized, hrefused⟩
    constructor
    · rintro ⟨q, hq⟩
      have hgroup : ¬ ClosesGroup engine written := by
        intro hgroup
        rw [hrefused hgroup] at hq
        cases hq
      exact parse_of_parse_whole hq hgroup (hsized hgroup)
    · rintro ⟨p, hp⟩
      exact ⟨_, (parse_whole_of_parse hp).mpr ⟨hfits ⟨p, hp⟩, rfl⟩⟩
  · intro h
    refine ⟨?_, fun hgroup hframe p hpattern => ?_, fun hcloses => ?_⟩
    · rintro ⟨p, hp⟩
      obtain ⟨q, hq⟩ := h.mpr ⟨p, hp⟩
      exact ((parse_whole_of_parse hp).mp hq).1
    · obtain ⟨⟨⟨p, depth⟩, s⟩, hreading, rfl⟩ := Option.map_eq_some_iff.mp hpattern
      have hrest : s.rest = [] := by
        by_contra hrest
        exact hgroup ⟨_, hreading, hrest⟩
      obtain ⟨other, hother⟩ := h.mp ⟨_, (parse_whole_of_reading hreading hrest).mpr ⟨hframe, rfl⟩⟩
      obtain ⟨r, hr, -, -, hsmall, -⟩ := parse_eq_some_iff.mp hother
      rw [hreading] at hr
      cases hr
      exact hsmall
    · rw [Option.eq_none_iff_forall_ne_some]
      intro q hq
      obtain ⟨p, hp⟩ := h.mp ⟨q, hq⟩
      rw [not_parse_of_closes_group hcloses] at hp
      cases hp

/-- Between the anchors a pattern matches the texts that it spans. -/
theorem matches_whole {p q : Pattern} (hp : parse? engine written = some p)
    (hq : parseWhole? engine written = some q)
    (s : String) : q.matchesIn s ↔ p.SpansAll s := by
  obtain ⟨-, rfl⟩ := (parse_whole_of_parse hp).mp hq
  exact anchored_iff p s

end Wrapping

end SvgPress.Text.Pattern
