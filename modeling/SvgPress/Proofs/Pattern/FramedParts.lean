import SvgPress.Proofs.Pattern.Framing

/-!
The parts of patterns inside the frame: escapes, sets in brackets, the opening of groups and the
counts of repetitions. Of what a pattern leaves open at its end, a parenthesis completes an escape,
the upper end of a range in brackets or the flags of a group, and nothing that needs a digit, a name
or a bracket. An escape for the edge of a word is the one part that gives back what it has read, a
brace with nothing behind it.
-/

namespace SvgPress.Text.Pattern

variable {α β : Type} {engine : Engine} {P : State → Prop}

section Fronts

theorem strip_front_closing {word : List Char} (hword : ')' ∉ word) (cs : List Char) :
    stripFront? word (cs ++ closing) = (stripFront? word cs).map (· ++ closing) := by
  induction word generalizing cs with
  | nil => rfl
  | cons c word ih =>
      rw [List.mem_cons, not_or] at hword
      cases cs with
      | nil =>
          rw [List.nil_append, stripFront?]
          exact if_neg (Ne.symm hword.1)
      | cons d cs =>
          rw [List.cons_append, stripFront?, stripFront?]
          split
          · exact ih hword.2 cs
          · rfl

theorem drop_blanks_closing (cs : List Char) :
    (cs ++ closing).dropWhile isBlank = cs.dropWhile isBlank ++ closing := by
  induction cs with
  | nil => rfl
  | cons c cs ih =>
      rw [List.cons_append, List.dropWhile_cons, List.dropWhile_cons, ih]
      split <;> rfl

theorem drop_sign_closing (cs : List Char) : dropSign (cs ++ closing) = dropSign cs ++ closing := by
  cases cs with
  | nil => rfl
  | cons c rest =>
      rw [List.cons_append, dropSign, dropSign, drop_blanks_closing]
      split <;> rfl

/-- Where spacing is all that is left, the parenthesis is seen behind it. -/
theorem past_spacing_closing (cs : List Char) :
    pastSpacing? (cs ++ closing) = (pastSpacing? cs).or (some ')') := by
  rw [pastSpacing?, drop_blanks_closing, drop_sign_closing, List.head?_append]
  rfl

theorem steady_take {other : Bool → State → Prop} {word : String} (hword : ')' ∉ word.toList) :
    SteadyOn P other (take? word) := by
  refine ⟨shrinks_take word, fun s _ => ?_⟩
  rw [take_apply, take_apply]
  have hclosed : stripFront? word.toList s.closed.rest =
      (stripFront? word.toList s.rest).map (· ++ closing) := strip_front_closing hword s.rest
  rw [hclosed]
  cases stripFront? word.toList s.rest with
  | none => exact .kept false s
  | some rest => exact .kept true { s with rest := rest }

end Fronts

section Escapes

theorem steady_hex_digits {other : Nat → State → Prop} (count n : Nat) :
    SteadyOn P other (hexDigits count n) := by
  induction count generalizing n P with
  | zero => exact steady_pure n
  | succ count ih =>
      rw [hexDigits]
      refine steady_peek_failing (fun c => ?_) rfl ?_
      · dsimp only
        cases hexValue? c with
        | none => exact steady_failure
        | some d => exact steady_advance (steady_skip.bind fun _ => ih _)
      · dsimp only
        cases hexValue? ')' with
        | none => exact takes_failure
        | some d =>
            exact (takes_advance 0).bind fun _ => shrinks_skip.bind fun _ => shrinks_hex_digits _ _

theorem steady_braced_hex {other : Nat → State → Prop} (budget : Nat) (ds : List Nat) :
    SteadyOn P other (bracedHex budget ds) := by
  induction budget generalizing ds P with
  | zero => exact steady_failure
  | succ budget ih =>
      rw [bracedHex]
      refine steady_more (fun c => .ite ?_ ?_) (.ite ?_ ?_)
      · refine steady_advance (steady_skip.bind fun _ => ?_)
        exact .ite (steady_failure_bind _) (.ite (steady_pure _) steady_failure)
      · cases hexValue? c with
        | none => exact steady_failure
        | some d => exact ih _
      · refine (takes_advance 0).bind fun _ => shrinks_skip.bind fun _ => ?_
        exact .ite (shrinks_failure_bind _) (.ite (shrinks_pure _) shrinks_failure)
      · cases hexValue? ')' with
        | none => exact takes_failure
        | some d => exact takes_braced_hex _ _

theorem steady_braced {other : List Char → State → Prop} (budget : Nat) (acc : List Char) :
    SteadyOn P other (property.braced budget acc) := by
  induction budget generalizing acc P with
  | zero => exact steady_failure
  | succ budget ih =>
      rw [property.braced]
      refine steady_more (fun c => .ite ?_ (ih _)) (.ite ?_ (takes_braced _ _))
      · exact steady_advance (steady_pure _)
      · exact (takes_advance 0).bind fun _ => shrinks_pure _

theorem steady_gather {other : List Char → State → Prop} {keep : Char → Bool}
    (hkeep : keep ')' = false) (budget : Nat) (acc : List Char) :
    SteadyOn P other (gather keep budget acc) := by
  induction budget generalizing acc P with
  | zero => exact steady_pure _
  | succ budget ih =>
      rw [gather]
      refine steady_peek (fun c => .ite ?_ (steady_pure _)) (shrinks_pure _) fun s _ => ?_
      · exact steady_advance (steady_skip.bind fun _ => ih _)
      · -- The parenthesis that comes next ends the run, as the end of the text does.
        dsimp only
        rw [if_neg (Bool.not_eq_true _ ▸ hkeep)]
        exact .kept _ s

/-- As many characters as the rest of the text has are enough, inside the frame and without it. -/
theorem steady_gathered {other : α → State → Prop} {keep : Char → Bool} (hkeep : keep ')' = false)
    {next : List Char → Parser α} (hnext : ∀ cs, SteadyOn Anywhere other (next cs)) :
    SteadyOn P other (do
      let cs ← gather keep (← get).rest.length []
      next cs) := by
  refine steady_get_budget (F := fun n => gather keep n []) (fun n => steady_gather hkeep n [])
    (fun n => ?_) hnext
  exact agree_of_step (fun budget hbudget => (gather_budget keep budget []).mono hbudget) le_rfl
    (Nat.le_add_right n 2)

theorem steady_found_set {other : CharSet → State → Prop} (flags : Flags) (negated : Bool)
    (found : Option CharSet) : SteadyOn P other (foundSet flags negated found) := by
  cases found with
  | none => exact steady_failure
  | some found => exact steady_pure _

theorem steady_property_body {other : CharSet → State → Prop} (flags : Flags) (negated : Bool) :
    SteadyOn P other (propertyBody engine flags negated) := by
  unfold propertyBody
  refine steady_more (fun c => .ite ?_ (.ite (steady_failure_bind _) ?_))
    (.ite ?_ (.ite (takes_failure_bind _) ?_))
  · exact steady_get_budget (F := fun n => property.braced n []) (fun n => steady_braced _ _)
      (fun n =>
        agree_of_step (fun b hb => (braced_budget b []).mono hb) le_rfl (Nat.le_add_right n 2))
      fun name => (steady_pure _).bind (steady_found_set flags negated)
  · exact steady_advance
      (steady_skip.bind fun _ => (steady_pure _).bind (steady_found_set flags negated))
  · exact .after shrinks_get fun s => (takes_braced _ _).bind fun name =>
      (shrinks_pure _).bind fun found => shrinks_found_set flags negated found
  · exact (takes_advance 0).bind fun _ => shrinks_skip.bind fun _ =>
      (shrinks_pure _).bind fun found => shrinks_found_set flags negated found

theorem steady_property {other : CharSet → State → Prop} : SteadyOn P other (property engine) := by
  have hbody (flags : Flags) (negated : Bool) :
      SteadyOn Anywhere other (propertyBody engine flags negated) :=
    steady_property_body flags negated
  unfold property
  refine steady_get (fun s => .ite (steady_failure_bind _) ?_) fun s _ => rfl
  refine steady_peek (fun c => (hbody _ _).anywhere) (hbody s.flags false).shrinks fun t ht => ?_
  exact (hbody s.flags false).framed t trivial

/-- Whether a brace is left with nothing but spacing up to what stands behind the pattern. -/
def State.IsStuck (s : State) : Prop :=
  ∃ cs, s.rest = '\x7b' :: cs ∧ spaced s.flags cs = closing

theorem spaced_brace (flags : Flags) (cs : List Char) :
    spaced flags ('\x7b' :: cs) = '\x7b' :: cs := by
  have hblank : isBlank '\x7b' = false := by decide
  rw [spaced, dropSpacing, hblank]
  exact ite_self _

theorem steady_named_place {other : Option Place → State → Prop} (ascii : Bool) :
    SteadyOn Anywhere other (namedPlace ascii) := by
  have hplace (place : Place) : SteadyOn Anywhere other (do
      if (← peek?) != some '\x7d' then failure
      advance 1
      return some place : Parser (Option Place)) := by
    refine steady_peek_failing (fun c => .ite (steady_failure_bind _) ?_) rfl ?_
    · exact steady_advance (steady_pure _)
    · exact .ite (takes_failure_bind _) ((takes_advance 0).bind fun _ => shrinks_pure _)
  refine steady_gathered rfl fun name => ?_
  exact .ite ((steady_pure _).bind hplace) (.ite ((steady_pure _).bind hplace)
    (.ite ((steady_pure _).bind hplace) (.ite ((steady_pure _).bind hplace)
      (steady_failure_bind _))))

/-- The name of a word place is not there if the pattern ends behind the brace; the brace is given
back inside the frame. -/
theorem steady_word_place (ascii : Bool) :
    SteadyOn (Before '\x7b') (fun place s => place = none ∧ s.IsStuck) (wordPlace? ascii) := by
  refine ⟨shrinks_word_place ascii, fun s hs => ?_⟩
  obtain ⟨cs, flags, names⟩ := s
  cases cs with
  | nil => cases hs
  | cons c cs =>
      cases hs
      show Framed _ _ (wordPlace? ascii ⟨'\x7b' :: (cs ++ closing), flags, names⟩)
      rw [word_place_apply, word_place_apply, advance_to_more_apply, advance_to_more_apply,
        List.drop_one, List.drop_one, List.tail_cons, List.tail_cons]
      rcases spaced_closing flags cs with h | ⟨h, hcs⟩
      · cases hcs : spaced flags cs with
        | nil =>
            rw [hcs, List.nil_append] at h
            rw [h]
            exact .past none _ (.inr ⟨rfl, cs ++ closing, rfl, h⟩)
        | cons c behind =>
            rw [h, hcs]
            simp only [List.cons_append, Option.bind_some]
            split
            · exact .kept none ⟨'\x7b' :: cs, flags, names⟩
            · exact (steady_named_place ascii).framed ⟨c :: behind, flags, names⟩ trivial
      · rw [h, hcs]
        exact .refused

theorem steady_checked {other : CharSet → State → Prop} (flags : Flags) (set : CharSet) :
    SteadyOn P other (flags.checked set) := by
  unfold Flags.checked
  exact .ite steady_failure (steady_pure set)

/-- Ends of an atom that only the frame allows: an escape for a word's edge before a brace that is
left open. -/
def AtOpenBrace (a : Atom) (s : State) : Prop :=
  (∃ place, a = .place place) ∧ s.IsStuck

theorem steady_escape : SteadyOn (Before '\\') AtOpenBrace (escape engine) := by
  unfold escape
  refine steady_advance (steady_get (fun s => ?_) fun s _ => rfl)
  refine steady_peek (fun c => .ite (steady_failure_bind _) (.ite ?_ (.ite ?_ ?_)))
    shrinks_failure ?_
  · refine steady_more (fun next => .ite ?_ ?_) (.ite ?_ ?_)
    · refine steady_get_budget (F := fun n => bracedHex (n + 1) []) (fun n => steady_braced_hex _ _)
        (fun n => agree_of_step (fun b hb => ((braced_hex_budget b []).mono hb)) (Nat.le_succ n)
          (by omega)) fun n => ?_
      cases charOf? n with
      | none => exact steady_failure_bind _
      | some d => exact steady_pure _
    · refine (steady_hex_digits _ _).bind fun n => ?_
      cases charOf? n with
      | none => exact steady_failure_bind _
      | some d => exact steady_pure _
    · refine .after shrinks_get fun s => (takes_braced_hex _ _).bind fun n => ?_
      cases charOf? n with
      | none => exact shrinks_failure_bind _
      | some d => exact shrinks_pure _
    · refine (takes_hex_digits ?_ _).bind fun n => ?_
      · split_ifs <;> decide
      · cases charOf? n with
        | none => exact shrinks_failure_bind _
        | some d => exact shrinks_pure _
  · exact steady_property.bind fun set => steady_pure _
  · refine steady_advance (.ite (steady_pure _) (.ite ?_ (.ite (steady_pure _) ?_)))
    · exact (steady_checked _ _).bind fun set => steady_pure _
    · split
      case h_9 =>
        refine steady_peek (fun next => ?_) (shrinks_pure _) fun t _ => .kept _ t
        by_cases hnext : next = '\x7b'
        · subst hnext
          refine steady_word_place _ |>.bind_other (fun place => ?_) ?_
          · cases place with
            | none => exact steady_pure _
            | some place => exact steady_pure _
          · rintro _ t ⟨rfl, ht⟩ b r hr
            cases hr
            exact .inr ⟨⟨_, rfl⟩, ht⟩
        · have hbrace : ¬ (some next == some '\x7b') = true := by
            rwa [beq_iff_eq, Option.some.injEq]
          rw [if_neg hbrace]
          exact steady_pure _
      case h_13 => exact steady_failure
      all_goals exact steady_pure _
  · intro t ht
    obtain ⟨cs, flags, names⟩ := t
    cases ht
    exact .past (Atom.literal ')') ⟨['$'], flags, names⟩ (.inl (List.suffix_refl _))

end Escapes

section Sets

theorem steady_set_atom : SteadyOn P AtOpenBrace (setAtom engine) := by
  unfold setAtom
  refine steady_peek_failing (fun c => ?_) rfl
    (.ite takes_escape ((takes_advance 0).bind fun _ => shrinks_pure _))
  by_cases hc : c = '\\'
  · subst hc
    exact steady_escape
  · dsimp only
    rw [if_neg hc]
    exact steady_advance (steady_pure _)

theorem steady_peek_past {other : α → State → Prop} {c : Char} {f : Option Char → Parser α}
    (hf : ∀ next, SteadyOn (Before c) other (f next)) (hend : f none = f (some ')')) :
    SteadyOn (Before c) other (peekPastSpacing? >>= f) := by
  refine ⟨shrinks_peek_past.bind fun next => (hf next).shrinks, fun s hs => ?_⟩
  obtain ⟨cs, flags, names⟩ := s
  cases cs with
  | nil => cases hs
  | cons c cs =>
      have hnext (next : Option Char) : f (next.or (some ')')) = f next := by
        cases next with
        | none => exact hend.symm
        | some next => rfl
      have hclosed : (peekPastSpacing? >>= f) (State.closed ⟨c :: cs, flags, names⟩) =
          f (if flags.spaced then pastSpacing? cs else cs.head?)
            (State.closed ⟨c :: cs, flags, names⟩) := by
        show f (if flags.spaced then pastSpacing? (cs ++ closing) else (cs ++ closing).head?) _ = _
        rw [past_spacing_closing, List.head?_append]
        show f (if flags.spaced then (pastSpacing? cs).or (some ')') else cs.head?.or (some ')'))
          _ = _
        split
        · rw [hnext]
        · rw [hnext]
      rw [hclosed]
      exact (hf _).framed _ hs

/-- Ends right before what stands behind the pattern. -/
def AtClosing (_ : α) (s : State) : Prop :=
  s.rest = closing

theorem at_closing_of_suffix {s : State} (a : α) (h : s.rest <:+ closing) :
    s.IsPast ∨ AtClosing a s :=
  (List.suffix_cons_iff.mp h).symm

theorem steady_set_single {other : CharSet → State → Prop} (flags : Flags) (first : Atom) :
    SteadyOn P other (setSingle flags first) := by
  unfold setSingle
  cases first.charSet? flags with
  | none => exact steady_failure
  | some set => exact steady_pure _

theorem steady_set_range {other : CharSet → State → Prop} (flags : Flags) (first last : Atom) :
    SteadyOn P other (setRange flags first last) := by
  unfold setRange
  cases first.code? flags with
  | none => exact steady_failure
  | some low =>
      cases last.code? flags with
      | none => exact steady_failure
      | some high => exact .ite (steady_pure _) steady_failure

/-- A place of a word ends no range. -/
theorem set_range_place (flags : Flags) (first : Atom) (place : Place) (s : State) :
    setRange flags first (.place place) s = none := by
  unfold setRange
  cases first.code? flags with
  | none => rfl
  | some low => rfl

theorem set_single_end (flags : Flags) (first : Atom) {s : State} (hs : s.rest = closing) :
    Framed AtClosing none (setSingle flags first s) := by
  unfold setSingle
  cases first.charSet? flags with
  | none => exact .refused
  | some set => exact .past set s (.inr hs)

theorem steady_set_item : SteadyOn P AtClosing (setItem engine) := by
  unfold setItem
  refine steady_get (fun s => steady_set_atom.bind_other (fun first => ?_) ?_) fun s _ => rfl
  · refine steady_skip.bind fun _ => steady_peek (fun c => ?_) shrinks_failure fun t ht => ?_
    · refine steady_peek_past (fun next => .ite (steady_set_single s.flags first) ?_) rfl
      refine steady_more (fun c => steady_set_atom.bind_other (steady_set_range s.flags first) ?_)
        (takes_set_atom.bind fun last => shrinks_set_range s.flags first last)
      rintro _ t ⟨⟨place, rfl⟩, -⟩ b r hr
      cases (set_range_place s.flags first place t).symm.trans hr
    · have hclosed : t.closed.rest = closing := by rw [State.closed, ht, List.nil_append]
      exact set_single_end s.flags first hclosed
  · rintro _ t ⟨⟨place, rfl⟩, cs, hrest, -⟩ b r hr
    -- Nor is it a set.
    obtain ⟨_, flags, names⟩ := t
    cases hrest
    rw [bind_apply, skip_apply, spaced_brace] at hr
    cases hr

theorem steady_signed {other : CharSet → State → Prop} (flags : Flags) (negated : Bool)
    (set : CharSet) :
    SteadyOn P other (flags.signed negated set) :=
  steady_checked flags _

theorem steady_set_opening (budget : Nat) (items : Items) :
    SteadyOn P AtClosing (setOpening budget items) := by
  induction budget generalizing items P with
  | zero => exact steady_failure
  | succ budget ih =>
      rw [setOpening]
      refine steady_peek (fun c => .ite ?_ (steady_pure _)) (shrinks_pure _) fun s _ => .kept _ s
      refine steady_more_other (fun _ => ih _) fun s hs a t h => ?_
      exact at_closing_of_suffix a (hs ▸ shrinks_set_opening _ _ s a t h)

/-- The sign of a class at the front, and what is behind it. -/
def signed : List Char → Bool × List Char
  | '^' :: rest => (true, rest)
  | cs => (false, cs)

/-- A class from its name on. -/
def namedClass? (negated : Bool) (cs : List Char) : Option (CharSet × Bool × List Char) := do
  let rest ← stripFront? ":]".toList (cs.dropWhile (· != ':'))
  let set ← asciiSet? (String.ofList (cs.takeWhile (· != ':')))
  return (set, negated, rest)

theorem signed_of_ne {c : Char} (hc : c ≠ '^') (cs : List Char) :
    signed (c :: cs) = (false, c :: cs) := by
  rw [signed]
  exact fun rest heq => hc (List.cons.inj heq).1

theorem ascii_class_eq (cs : List Char) : asciiClass? cs =
    (stripFront? "[:".toList cs).bind fun inside =>
      namedClass? (signed inside).1 (signed inside).2 := by
  have hsigned (inside : List Char) : (match inside with
      | '^' :: rest => (true, rest)
      | _ => (false, inside)) = signed inside := by
    split
    · rfl
    · next hplain =>
      rw [signed]
      exact hplain
  rw [asciiClass?]
  cases stripFront? "[:".toList cs with
  | none => rfl
  | some inside => exact congrArg (fun p => namedClass? p.1 p.2) (hsigned inside)

theorem signed_closing (cs : List Char) :
    signed (cs ++ closing) = ((signed cs).1, (signed cs).2 ++ closing) := by
  cases cs with
  | nil => rfl
  | cons c cs =>
      by_cases hc : c = '^'
      · subst hc
        rfl
      · rw [List.cons_append, signed_of_ne hc, signed_of_ne hc]
        rfl

theorem named_class_closing (negated : Bool) (cs : List Char) :
    namedClass? negated (cs ++ closing) =
      (namedClass? negated cs).map fun p => (p.1, p.2.1, p.2.2 ++ closing) := by
  have hend : ')' ∉ ":]".toList := by decide
  rw [namedClass?, namedClass?]
  by_cases hcolon : ':' ∈ cs
  · obtain ⟨name, behind, rfl, hnotin⟩ := List.eq_append_cons_of_mem hcolon
    have hbefore (c : Char) (hc : c ∈ name) : (c != ':') = true :=
      bne_iff_ne.mpr fun heq => hnotin (heq ▸ hc)
    rw [List.append_assoc, List.cons_append, List.dropWhile_append_of_pos hbefore,
      List.dropWhile_append_of_pos hbefore, List.takeWhile_append_of_pos hbefore,
      List.takeWhile_append_of_pos hbefore, List.dropWhile_cons_of_neg (by decide),
      List.dropWhile_cons_of_neg (by decide), List.takeWhile_cons_of_neg (by decide),
      List.takeWhile_cons_of_neg (by decide), ← List.cons_append, strip_front_closing hend]
    cases stripFront? ":]".toList (':' :: behind) with
    | none => rfl
    | some rest => cases asciiSet? (String.ofList (name ++ [])) <;> rfl
  · have hdrop (tail : List Char) : (cs ++ tail).dropWhile (· != ':') = tail.dropWhile (· != ':') :=
      List.dropWhile_append_of_pos fun c hc => bne_iff_ne.mpr fun heq => hcolon (heq ▸ hc)
    have hnil := hdrop []
    rw [List.append_nil] at hnil
    rw [hdrop, hnil]
    rfl

theorem ascii_class_closing (cs : List Char) :
    asciiClass? (cs ++ closing) = (asciiClass? cs).map fun p => (p.1, p.2.1, p.2.2 ++ closing) := by
  have hopen : ')' ∉ "[:".toList := by decide
  rw [ascii_class_eq, ascii_class_eq, strip_front_closing hopen]
  cases stripFront? "[:".toList cs with
  | none => rfl
  | some inside =>
      rw [Option.map_some, Option.bind_some, Option.bind_some, signed_closing]
      exact named_class_closing _ _

theorem steady_peek_second {other : α → State → Prop} {c : Char} {f : Option Char → Parser α}
    (hf : ∀ next, SteadyOn (fun s => Before c s ∧ s.rest[1]? = next) other (f next))
    (hend : f none = f (some ')')) : SteadyOn (Before c) other (peekSecond? >>= f) := by
  refine ⟨shrinks_peek_second.bind fun next => (hf next).shrinks, fun s hs => ?_⟩
  obtain ⟨cs, flags, names⟩ := s
  match cs, hs with
  | [_], hs =>
      show Framed other (f none _) (f (some ')') _)
      rw [← hend]
      exact (hf none).framed _ ⟨hs, rfl⟩
  | _ :: next :: cs, hs => exact (hf (some next)).framed _ ⟨hs, rfl⟩

theorem steady_advance_two {other : α → State → Prop} {c next : Char} {f : Unit → Parser α}
    (hf : SteadyOn Anywhere other (f ())) :
    SteadyOn (fun s => Before c s ∧ s.rest[1]? = some next) other (advance 2 >>= f) := by
  refine ⟨(takes_advance 1).shrinks.bind fun _ => hf.shrinks, fun s hs => ?_⟩
  obtain ⟨cs, flags, names⟩ := s
  match cs, hs with
  | _ :: _ :: cs, _ => exact hf.framed ⟨cs, flags, names⟩ trivial

theorem bracket_items_end {s : State} (hs : s.rest.length ≤ 0) (budget : Nat) (items : Items)
    (waiting : Option Waiting) : bracketItems engine budget items waiting s = none := by
  cases budget with
  | zero => rfl
  | succ budget =>
      rw [bracketItems, skipped_bind_end hs]
      rfl

theorem set_opening_get {f : Items → Parser α}
    (hf : ∀ items s, s.rest.length ≤ 0 → f items s = none)
    (s : State) : (setOpening s.rest.length {} >>= f) s =
      (setOpening s.closed.rest.length {} >>= f) s := by
  have hlength : s.closed.rest.length = s.rest.length + 2 := List.length_append
  rw [hlength, bind_apply, bind_apply]
  by_cases hrest : s.rest = []
  · have hend : s.rest.length ≤ 0 := by rw [hrest]; rfl
    have hnone : setOpening (s.rest.length + 2) {} s = some ({}, s) := by
      rw [setOpening, peek_bind_end hend]
      rfl
    rw [hnone, Option.bind_some, hf _ s hend, hrest]
    rfl
  · rw [set_opening_budget _ _ hrest le_rfl, set_opening_budget _ _ hrest (Nat.le_succ _)]

theorem steady_ascii_class {other : α → State → Prop} {f : CharSet → Bool → Parser α} {m : Parser α}
    (hf : ∀ set negated, SteadyOn Anywhere other (f set negated)) (hm : SteadyOn P other m) :
    SteadyOn P other (do
      match asciiClass? (← get).rest with
      | some (set, negated, rest) =>
        modify fun s => { s with rest := rest }
        f set negated
      | none => m) := by
  constructor
  · intro s a r hr
    rw [bind_apply, get_apply, Option.bind_some] at hr
    cases hclass : asciiClass? s.rest with
    | none =>
        rw [hclass] at hr
        exact hm.shrinks s a r hr
    | some p =>
        obtain ⟨set, negated, rest⟩ := p
        rw [hclass] at hr
        exact ((hf set negated).shrinks { s with rest := rest } a r hr).trans
          ((ascii_class_suffix hclass).trans (List.drop_suffix 1 s.rest))
  · intro s hs
    have hclosed : asciiClass? s.closed.rest =
        (asciiClass? s.rest).map fun p => (p.1, p.2.1, p.2.2 ++ closing) :=
      ascii_class_closing s.rest
    rw [bind_apply, bind_apply, get_apply, get_apply, Option.bind_some, Option.bind_some, hclosed]
    cases asciiClass? s.rest with
    | none => exact hm.framed s hs
    | some p => exact (hf p.1 p.2.1).framed { s with rest := p.2.2 } trivial

theorem bracket_body_end {s : State} (hs : s.rest.length ≤ 0) (budget : Nat) (flags : Flags)
    (negated : Bool) (items : Items) : bracketBody engine budget flags negated items s = none := by
  have htail : bracketTail engine budget flags negated items s = none := by
    rw [bracketTail, bind_apply, bracket_items_end hs]
    rfl
  rw [bracketBody, peek_bind_end hs]
  show (if (_ && false) = true then _ else bracketTail engine budget flags negated items) s = none
  rw [Bool.and_false]
  exact htail

theorem steady_bracketed {budget : Nat}
    (hitems : ∀ items, SteadyOn Anywhere Nowhere (bracketItems engine budget items none)) :
    SteadyOn Anywhere Nowhere (bracketed engine (budget + 1)) := by
  have htaking (items : Items) : Takes (bracketItems engine budget items none) :=
    takes_bracket_items budget items none
  have htail (flags : Flags) (negated : Bool) (items : Items) {P : State → Prop} :
      SteadyOn P Nowhere (bracketTail engine budget flags negated items) :=
    (hitems items).anywhere.bind fun p => (steady_signed _ _ _).bind fun _ => steady_pure _
  have hbody (flags : Flags) (negated : Bool) (items : Items) :
      SteadyOn Anywhere Nowhere (bracketBody engine budget flags negated items) := by
    refine steady_peek (fun c => .ite ?_ (htail _ _ _)) ?_ ?_
    · exact steady_more (fun _ => htail _ _ _) (takes_bracket_tail htaking _ _ _)
    · exact .ite (takes_advance_to_more.shrinks.bind fun _ =>
          (takes_bracket_tail htaking _ _ _).shrinks)
        (takes_bracket_tail htaking _ _ _).shrinks
    · -- Neither the end of the text nor the parenthesis stands for a closing bracket.
      intro s _
      have hnone : (none == some ']') = false := rfl
      have hclosed : (some ')' == some ']') = false := rfl
      rw [hnone, hclosed, Bool.and_false]
      exact (htail (P := Anywhere) flags negated items).framed s trivial
  have hopening (flags : Flags) (negated : Bool) {P : State → Prop} : SteadyOn P Nowhere (do
      bracketBody engine budget flags negated (← setOpening (← get).rest.length {})) := by
    refine steady_get (fun s => (steady_set_opening _ _).bind_other (hbody _ _) ?_) fun s _ => ?_
    · exact fun items t ht b r hr =>
        .inl (past_of_takes (takes_bracket_body htaking _ _ _) (ht ▸ List.suffix_refl _) hr)
    · exact set_opening_get (fun items t ht => bracket_body_end ht _ _ _ _) s
  have htakes (flags : Flags) (negated : Bool) : Takes (do
      bracketBody engine budget flags negated (← setOpening (← get).rest.length {})) :=
    .after shrinks_get fun s => .after (shrinks_set_opening _ _) fun items =>
      takes_bracket_body htaking _ _ _
  rw [bracketed_eq]
  exact steady_get (fun s => steady_more
    (fun c => .ite (steady_more (fun _ => hopening _ _) (htakes _ _)) (hopening _ _))
    (.ite (takes_advance_to_more.bind fun _ => (htakes _ _).shrinks) (htakes _ _))) fun s _ => rfl

theorem steady_brackets (budget : Nat) : SteadyOn Anywhere Nowhere (bracketed engine budget) ∧
    ∀ items waiting, SteadyOn Anywhere Nowhere (bracketItems engine budget items waiting) := by
  induction budget with
  | zero => exact ⟨steady_failure, fun _ _ => steady_failure⟩
  | succ budget ih =>
      obtain ⟨ihset, ihitems⟩ := ih
      constructor
      · exact steady_bracketed fun items => ihitems items none
      · intro items waiting
        rw [bracketItems]
        refine steady_skip.bind fun _ => steady_get (fun s => ?_) fun s _ => rfl
        refine steady_peek_failing
          (fun c => .ite ?_ (.ite (steady_advance (steady_pure _)) ?_)) rfl ?_
        · exact steady_ascii_class
            (fun set negated => (steady_signed _ negated set).bind fun set => ihitems _ _)
            (ihset.anywhere.bind fun p => ihitems _ _)
        · refine steady_peek_second (fun next => ?_) ?_
          · dsimp only
            split
            · next op hop =>
              have hnext : next = some c := by
                by_contra hne
                rw [if_pos (bne_iff_ne.mpr hne)] at hop
                cases hop
              subst hnext
              exact steady_advance_two (ihitems _ _)
            · exact steady_set_item.bind_other (fun set => ihitems _ _) fun set t ht b r hr =>
                .inl (past_of_takes (takes_bracket_items _ _ _) (ht ▸ List.suffix_refl _) hr)
          · by_cases hc : c = ')'
            · subst hc
              rfl
            · have hnone : (none != some c) = true := rfl
              have hclosed : (some ')' != some c) = true :=
                bne_iff_ne.mpr fun heq => hc (Option.some.inj heq).symm
              rw [if_pos hnone, if_pos hclosed]
        · dsimp only
          rw [if_neg (by decide), if_neg (by decide)]
          refine .after shrinks_peek_second fun next => ?_
          split
          · exact (takes_advance 1).bind fun _ => (takes_bracket_items _ _ _).shrinks
          · exact takes_set_item.bind fun _ => (takes_bracket_items _ _ _).shrinks

end Sets

section Groups

theorem steady_flag_letters {other : Char × List Char × Flags → State → Prop} (budget : Nat)
    (seen : List Char) (flags : Flags) : SteadyOn P other (flagLetters budget seen flags) := by
  induction budget generalizing seen flags P with
  | zero => exact steady_failure
  | succ budget ih =>
      rw [flagLetters]
      refine steady_peek_failing (fun c => .ite ?_ (.ite (steady_failure_bind _) ?_)) rfl ?_
      · exact .ite (steady_failure_bind _) (steady_advance (steady_pure _))
      · refine steady_advance ?_
        repeat' apply SteadyOn.ite
        all_goals first
          | exact ih _ _
          | exact steady_failure
      · dsimp only
        rw [if_pos (Or.inr rfl)]
        exact .ite (takes_failure_bind _) ((takes_advance 0).bind fun _ => shrinks_pure _)

theorem steady_group_name {other : Unit → State → Prop} : SteadyOn P other (groupName engine) := by
  refine ⟨shrinks_group_name, fun s _ => ?_⟩
  by_cases hmem : '>' ∈ s.rest
  · obtain ⟨name, rest, hrest, hname⟩ := List.eq_append_cons_of_mem hmem
    have hclosed : s.closed.rest = name ++ '>' :: (rest ++ closing) := by
      rw [State.closed, hrest, List.append_assoc, List.cons_append]
    rw [group_name_closed hrest hname, group_name_closed hclosed hname]
    show Framed other (if isGroupName engine name && !s.names.contains name then _ else none)
      (if isGroupName engine name && !s.names.contains name then _ else none)
    split
    · exact .kept () { s with rest := rest, names := name :: s.names }
    · exact .refused
  · have hclosed : '>' ∉ s.closed.rest := by
      rw [State.closed, List.mem_append, not_or]
      exact ⟨hmem, by decide⟩
    rw [group_name_unclosed hmem, group_name_unclosed hclosed]
    exact .refused

theorem steady_group_opening {other : Opening → State → Prop} :
    SteadyOn P other (groupOpening engine) := by
  have hnamed (flags : Flags) : SteadyOn Anywhere other (do
      groupName engine
      return .group flags : Parser Opening) :=
    steady_group_name.bind fun _ => steady_pure _
  unfold groupOpening
  refine steady_skip.bind fun _ => steady_get (fun s => ?_) fun s _ => rfl
  refine (steady_take (by decide)).bind fun _ => (steady_take (by decide)).bind fun _ =>
    (steady_take (by decide)).bind fun _ => (steady_take (by decide)).bind fun _ =>
    .ite (steady_failure_bind _) ((steady_take (by decide)).bind fun _ => .ite (hnamed _) ?_)
  refine (steady_take (by decide)).bind fun _ => .ite (hnamed _) ?_
  refine (steady_take (by decide)).bind fun _ => .ite ?_ (steady_pure _)
  refine steady_get_budget (F := fun n => flagLetters (n + 1) [] s.flags)
    (fun n => steady_flag_letters _ _ _) (fun n => ?_) fun p => ?_
  · exact agree_of_step (fun b hb => (flag_letters_budget b [] s.flags).mono hb) (Nat.le_succ n)
      (by omega)
  · exact .ite (steady_pure _) (.ite (steady_failure_bind _) (steady_pure _))

end Groups

section Counts

theorem steady_drop_blanks {other : Unit → State → Prop} :
    SteadyOn P other (modify fun s => { s with rest := s.rest.dropWhile isBlank }) := by
  refine ⟨shrinks_modify fun s => List.dropWhile_suffix _, fun s _ => ?_⟩
  rw [modify_apply, modify_apply, State.closed]
  dsimp only
  rw [drop_blanks_closing]
  exact .kept () { s with rest := s.rest.dropWhile isBlank }

theorem steady_count {other : Option Nat → State → Prop} : SteadyOn P other count? := by
  unfold count?
  rw [digits_eq]
  refine steady_drop_blanks.bind fun _ => steady_gathered rfl fun ds => ?_
  exact steady_drop_blanks.bind fun _ => steady_skip.bind fun _ =>
    .ite (steady_pure _) (.ite (steady_pure _) steady_failure)

theorem steady_range_tail {other : Nat × Option Nat → State → Prop} (range : Nat × Option Nat) :
    SteadyOn P other (rangeTail range) := by
  refine steady_peek_failing (fun c => .ite (steady_failure_bind _) ?_) rfl ?_
  · refine steady_advance (steady_skip.bind fun _ => ?_)
    exact .ite (steady_failure_bind _) (steady_pure _)
  · exact takes_failure_bind _

theorem steady_range_most {other : Nat × Option Nat → State → Prop} (least : Nat) :
    SteadyOn P other (rangeMost least) := by
  refine steady_count.bind fun most => ?_
  cases most with
  | none => exact steady_failure
  | some most => exact steady_range_tail _

theorem steady_range_body {other : Nat × Option Nat → State → Prop} :
    SteadyOn P other rangeBody := by
  unfold rangeBody
  refine steady_count.bind fun least => ?_
  cases least with
  | none => exact steady_failure
  | some least =>
      refine steady_peek_failing (fun c => .ite ?_ (steady_range_tail _)) rfl (takes_range_tail _)
      exact steady_more (fun next => .ite (steady_range_tail _) (steady_range_most least))
        (.ite (takes_range_tail _) (takes_range_most least))

theorem steady_count_range {other : Nat × Option Nat → State → Prop} :
    SteadyOn P other countRange :=
  steady_more (fun _ => steady_range_body) takes_range_body

theorem count_range_stuck {s : State} (h : s.IsStuck) : countRange s = none := by
  obtain ⟨cs, hrest, hspaced⟩ := h
  obtain ⟨_, flags, names⟩ := s
  cases hrest
  rw [count_range_eq, more_bind_cons (s := ⟨'\x7b' :: cs, flags, names⟩) hspaced]
  have hcount : count? ⟨closing, flags, names⟩ = some (none, ⟨closing, flags, names⟩) := by
    obtain ⟨ignoreCase, multiLine, dotAll, returns, unicode, spaced⟩ := flags
    cases spaced
    · rfl
    · rfl
  show rangeBody ⟨closing, flags, names⟩ = none
  rw [rangeBody, bind_apply, hcount]
  rfl

end Counts

end SvgPress.Text.Pattern
