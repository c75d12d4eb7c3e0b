import Mathlib.Data.List.Infix
import SvgPress.Proofs.Markup.Leaves
import SvgPress.Text.Pattern.Parser

/-!
Reading a pattern step by step. What a step leaves of the text is an end of what was there before,
and the steps that begin with a character of their own leave less.
-/

namespace SvgPress.Text.Pattern

variable {α β : Type} {engine : Engine}

section Apply

theorem bind_apply (m : Parser α) (f : α → Parser β) (s : State) :
    (m >>= f) s = (m s).bind fun p => f p.1 p.2 := rfl

@[simp] theorem failure_apply (s : State) : (failure : Parser α) s = none := rfl

@[simp] theorem get_apply (s : State) : (get : Parser State) s = some (s, s) := rfl

@[simp] theorem modify_apply (f : State → State) (s : State) :
    (modify f : Parser PUnit) s = some ((), f s) := rfl

@[simp] theorem peek_apply (s : State) : peek? s = some (s.rest.head?, s) := rfl

@[simp] theorem advance_apply (n : Nat) (s : State) :
    advance n s = some ((), { s with rest := s.rest.drop n }) := rfl

/-- A text without the spacing in front, where spacing counts for nothing. -/
def spaced (flags : Flags) (cs : List Char) : List Char :=
  if flags.spaced then dropSpacing false cs else cs

@[simp] theorem skip_apply (s : State) :
    skipSpacing s = some ((), { s with rest := spaced s.flags s.rest }) := by
  obtain ⟨cs, flags, names⟩ := s
  rw [skipSpacing, modify_apply, spaced]
  split <;> rfl

theorem advance_to_more_apply (s : State) : advanceToMore s =
    match spaced s.flags (s.rest.drop 1) with
    | [] => none
    | c :: cs => some (c, { s with rest := c :: cs }) := by
  rw [advanceToMore, bind_apply, advance_apply, Option.bind_some, bind_apply, skip_apply,
    Option.bind_some, bind_apply, peek_apply, Option.bind_some]
  dsimp only
  cases spaced s.flags (s.rest.drop 1) <;> rfl

theorem more_bind_end {s : State} (h : spaced s.flags (s.rest.drop 1) = []) (f : Char → Parser α) :
    (advanceToMore >>= f) s = none := by
  rw [bind_apply, advance_to_more_apply, h]
  rfl

theorem more_bind_cons {s : State} {c : Char} {cs : List Char}
    (h : spaced s.flags (s.rest.drop 1) = c :: cs) (f : Char → Parser α) :
    (advanceToMore >>= f) s = f c { s with rest := c :: cs } := by
  rw [bind_apply, advance_to_more_apply, h]
  rfl

theorem take_apply (word : String) (s : State) : take? word s =
    some (match stripFront? word.toList s.rest with
      | some rest => (true, { s with rest := rest })
      | none => (false, s)) := by
  rw [take?, bind_apply, get_apply, Option.bind_some]
  cases stripFront? word.toList s.rest <;> rfl

end Apply

section Shrinks

/-- Whether a parser leaves an end of the text that it is at. -/
def Shrinks (m : Parser α) : Prop :=
  ∀ s a r, m s = some (a, r) → r.rest <:+ s.rest

/-- Whether a parser takes a character at least. -/
def Takes (m : Parser α) : Prop :=
  ∀ s a r, m s = some (a, r) → r.rest <:+ s.rest.drop 1

variable {m : Parser α} {f : α → Parser β}

theorem Takes.shrinks (h : Takes m) : Shrinks m :=
  fun s a r hr => (h s a r hr).trans (List.drop_suffix 1 s.rest)

theorem Shrinks.bind (hm : Shrinks m) (hf : ∀ a, Shrinks (f a)) : Shrinks (m >>= f) := by
  intro s b r hr
  obtain ⟨⟨a, t⟩, ht, hr⟩ := Option.bind_eq_some_iff.mp hr
  exact (hf a t b r hr).trans (hm s a t ht)

theorem Takes.bind (hm : Takes m) (hf : ∀ a, Shrinks (f a)) : Takes (m >>= f) := by
  intro s b r hr
  obtain ⟨⟨a, t⟩, ht, hr⟩ := Option.bind_eq_some_iff.mp hr
  exact (hf a t b r hr).trans (hm s a t ht)

theorem Takes.after (hm : Shrinks m) (hf : ∀ a, Takes (f a)) : Takes (m >>= f) := by
  intro s b r hr
  obtain ⟨⟨a, t⟩, ht, hr⟩ := Option.bind_eq_some_iff.mp hr
  obtain ⟨front, hfront⟩ := hm s a t ht
  refine (hf a t b r hr).trans ?_
  cases front with
  | nil => exact hfront ▸ List.suffix_refl _
  | cons c front =>
      rw [← hfront]
      exact (List.drop_suffix 1 t.rest).trans (List.suffix_append front t.rest)

theorem takes_failure : Takes (failure : Parser α) := by
  rintro s a r ⟨⟩

theorem Takes.ite {p : Prop} [Decidable p] {m m' : Parser α} (h : Takes m) (h' : Takes m') :
    Takes (if p then m else m') := by
  split
  · exact h
  · exact h'

theorem takes_failure_bind (f : β → Parser α) : Takes (failure >>= f) := by
  rintro s a r ⟨⟩

theorem shrinks_pure (a : α) : Shrinks (pure a : Parser α) := by
  rintro s b r ⟨⟩
  exact List.suffix_refl _

theorem shrinks_failure : Shrinks (failure : Parser α) := by
  rintro s a r ⟨⟩

theorem Shrinks.ite {p : Prop} [Decidable p] {m m' : Parser α} (h : Shrinks m) (h' : Shrinks m') :
    Shrinks (if p then m else m') := by
  split
  · exact h
  · exact h'

theorem shrinks_failure_bind (f : β → Parser α) : Shrinks (failure >>= f) := by
  rintro s a r ⟨⟩

theorem shrinks_get : Shrinks (get : Parser State) := by
  rintro s b r ⟨⟩
  exact List.suffix_refl _

theorem shrinks_modify {f : State → State} (hf : ∀ s, (f s).rest <:+ s.rest) :
    Shrinks (modify f : Parser PUnit) := by
  rintro s b r ⟨⟩
  exact hf s

theorem shrinks_flags (flags : Flags) : Shrinks (modify fun s => { s with flags := flags }) :=
  shrinks_modify fun s => List.suffix_refl s.rest

theorem shrinks_peek : Shrinks peek? := by
  rintro s b r ⟨⟩
  exact List.suffix_refl _

theorem shrinks_peek_second : Shrinks peekSecond? := by
  rintro s b r ⟨⟩
  exact List.suffix_refl _

theorem takes_advance (n : Nat) : Takes (advance (n + 1)) := by
  rintro s b r ⟨⟩
  have hdrop : (s.rest.drop 1).drop n = s.rest.drop (n + 1) := by
    rw [List.drop_drop, Nat.add_comm]
  have hsuffix := List.drop_suffix n (s.rest.drop 1)
  rwa [hdrop] at hsuffix

theorem drop_spacing_suffix (inComment : Bool) (cs : List Char) :
    dropSpacing inComment cs <:+ cs := by
  induction cs generalizing inComment with
  | nil => exact List.suffix_refl _
  | cons c cs ih =>
      rw [dropSpacing]
      split_ifs
      · exact (ih _).trans (List.suffix_cons c cs)
      · exact (ih _).trans (List.suffix_cons c cs)
      · exact (ih _).trans (List.suffix_cons c cs)
      · exact List.suffix_refl _

theorem spaced_suffix (flags : Flags) (cs : List Char) : spaced flags cs <:+ cs := by
  rw [spaced]
  split
  · exact drop_spacing_suffix false cs
  · exact List.suffix_refl _

theorem shrinks_skip : Shrinks skipSpacing := by
  intro s a r hr
  rw [skip_apply] at hr
  cases hr
  exact spaced_suffix _ _

theorem takes_advance_to_more : Takes advanceToMore :=
  (takes_advance 0).bind fun _ => shrinks_skip.bind fun _ => shrinks_peek.bind fun c => by
    cases c
    · exact shrinks_failure
    · exact shrinks_pure _

theorem shrinks_take (word : String) : Shrinks (take? word) := by
  intro s a r hr
  rw [take_apply] at hr
  obtain ⟨taken, hword⟩ : ∃ taken, ∀ rest, stripFront? word.toList s.rest = some rest →
      s.rest = taken ++ rest := ⟨word.toList, fun _ => Markup.strip_front_eq_some_iff.mp⟩
  cases hstrip : stripFront? word.toList s.rest with
  | none =>
      rw [hstrip] at hr
      cases hr
      exact List.suffix_refl _
  | some rest =>
      rw [hstrip] at hr
      cases hr
      exact ⟨taken, (hword rest hstrip).symm⟩

theorem shrinks_hex_digits (count n : Nat) : Shrinks (hexDigits count n) := by
  induction count generalizing n with
  | zero => exact shrinks_pure _
  | succ count ih =>
      rw [hexDigits]
      refine shrinks_peek.bind fun c => ?_
      split
      · split
        · exact (takes_advance 0).shrinks.bind fun _ => shrinks_skip.bind fun _ => ih _
        · exact shrinks_failure
      · exact shrinks_failure

theorem takes_hex_digits {count : Nat} (hcount : 0 < count) (n : Nat) :
    Takes (hexDigits count n) := by
  obtain ⟨count, rfl⟩ := Nat.exists_eq_add_of_lt hcount
  rw [Nat.zero_add, hexDigits]
  refine .after shrinks_peek fun c => ?_
  split
  · split
    · exact (takes_advance 0).bind fun _ => shrinks_skip.bind fun _ => shrinks_hex_digits _ _
    · exact takes_failure
  · exact takes_failure

theorem takes_braced_hex (budget : Nat) (ds : List Nat) : Takes (bracedHex budget ds) := by
  induction budget generalizing ds with
  | zero =>
      rintro s a r ⟨⟩
  | succ budget ih =>
      rw [bracedHex]
      refine takes_advance_to_more.bind fun c => .ite ?_ ?_
      · refine (takes_advance 0).shrinks.bind fun _ => shrinks_skip.bind fun _ => ?_
        exact .ite (shrinks_failure_bind _) (.ite (shrinks_pure _) shrinks_failure)
      · split
        · exact (ih _).shrinks
        · exact shrinks_failure

theorem takes_braced (budget : Nat) (acc : List Char) : Takes (property.braced budget acc) := by
  induction budget generalizing acc with
  | zero =>
      rintro s a r ⟨⟩
  | succ budget ih =>
      rw [property.braced]
      refine takes_advance_to_more.bind fun c => .ite ?_ (ih _).shrinks
      exact (takes_advance 0).shrinks.bind fun _ => shrinks_pure _

/-- Read characters of a kind, with spacing allowed between them. -/
def gather (keep : Char → Bool) : Nat → List Char → Parser (List Char)
  | 0, acc => return acc.reverse
  | budget + 1, acc => do
    match ← peek? with
    | some c =>
      if keep c then
        advance 1
        skipSpacing
        gather keep budget (c :: acc)
      else return acc.reverse
    | none => return acc.reverse

theorem letters_eq : wordPlace?.letters = gather fun c => c.isAlpha || c == '-' := by
  funext budget acc
  induction budget generalizing acc with
  | zero => rfl
  | succ budget ih =>
      simp only [wordPlace?.letters, ih]
      rfl

theorem digits_eq : count?.digits = gather Char.isDigit := by
  funext budget acc
  induction budget generalizing acc with
  | zero => rfl
  | succ budget ih =>
      simp only [count?.digits, ih]
      rfl

theorem shrinks_gather (keep : Char → Bool) (budget : Nat) (acc : List Char) :
    Shrinks (gather keep budget acc) := by
  induction budget generalizing acc with
  | zero => exact shrinks_pure _
  | succ budget ih =>
      rw [gather]
      refine shrinks_peek.bind fun c => ?_
      split
      · refine .ite ?_ (shrinks_pure _)
        exact (takes_advance 0).shrinks.bind fun _ => shrinks_skip.bind fun _ => ih _
      · exact shrinks_pure _

/-- The name of a word place, up to its closing brace. -/
def namedPlace (ascii : Bool) : Parser (Option Place) := do
  let name ← gather (fun c => c.isAlpha || c == '-') (← get).rest.length []
  let place ←
    if name = "start".toList then pure (Place.wordStart ascii)
    else if name = "end".toList then pure (Place.wordEnd ascii)
    else if name = "start-half".toList then pure (Place.wordStartHalf ascii)
    else if name = "end-half".toList then pure (Place.wordEndHalf ascii)
    else failure
  if (← peek?) != some '\x7d' then failure
  advance 1
  return some place

/-- A brace with no name behind it is given back. -/
theorem word_place_apply (ascii : Bool) (s : State) : wordPlace? ascii s =
    (advanceToMore s).bind fun p =>
      if !(p.1.isAlpha || p.1 == '-') then some (none, s) else namedPlace ascii p.2 := by
  rw [wordPlace?, letters_eq, bind_apply, get_apply, Option.bind_some, bind_apply]
  congr 1
  funext p
  dsimp only
  split
  · rfl
  · rfl

theorem shrinks_named_place (ascii : Bool) : Shrinks (namedPlace ascii) := by
  have hplace (place : Place) : Shrinks (do
      if (← peek?) != some '\x7d' then failure
      advance 1
      return some place : Parser (Option Place)) :=
    shrinks_peek.bind fun c => .ite (shrinks_failure_bind _)
      ((takes_advance 0).shrinks.bind fun _ => shrinks_pure _)
  refine shrinks_get.bind fun u => (shrinks_gather _ _ _).bind fun name => ?_
  exact .ite (hplace _) (.ite (hplace _) (.ite (hplace _) (.ite (hplace _)
    (shrinks_failure_bind _))))

theorem shrinks_word_place (ascii : Bool) : Shrinks (wordPlace? ascii) := by
  intro s a r hr
  rw [word_place_apply] at hr
  obtain ⟨⟨c, t⟩, ht, hr⟩ := Option.bind_eq_some_iff.mp hr
  dsimp only at hr
  split at hr
  · cases hr
    exact List.suffix_refl _
  · exact (shrinks_named_place ascii t a r hr).trans (takes_advance_to_more.shrinks s c t ht)

/-- The set of a property that has been looked up. -/
def foundSet (flags : Flags) (negated : Bool) (found : Option CharSet) : Parser CharSet := do
  let some found := found | failure
  let found := flags.folded found
  return if negated then .negate found else found

theorem shrinks_found_set (flags : Flags) (negated : Bool) (found : Option CharSet) :
    Shrinks (foundSet flags negated found) := by
  cases found with
  | none => exact shrinks_failure
  | some found => exact shrinks_pure _

/-- A property behind its letter. -/
def propertyBody (engine : Engine) (flags : Flags) (negated : Bool) : Parser CharSet := do
  let c ← advanceToMore
  let found ←
    if c = '\x7b' then
      let name ← property.braced (← get).rest.length []
      pure (engine.property name)
    else if c = '\\' then failure
    else
      advance 1
      skipSpacing
      pure (engine.property [c])
  foundSet flags negated found

theorem takes_property_body (flags : Flags) (negated : Bool) :
    Takes (propertyBody engine flags negated) := by
  unfold propertyBody
  refine takes_advance_to_more.bind fun c => .ite ?_ (.ite (shrinks_failure_bind _) ?_)
  · exact shrinks_get.bind fun t => (takes_braced _ _).shrinks.bind fun name =>
      (shrinks_pure _).bind fun found => shrinks_found_set flags negated found
  · exact (takes_advance 0).shrinks.bind fun _ => shrinks_skip.bind fun _ =>
      (shrinks_pure _).bind fun found => shrinks_found_set flags negated found

theorem takes_property : Takes (property engine) := by
  unfold property
  exact .after shrinks_get fun state => .ite (takes_failure_bind _)
    (.after shrinks_peek fun c => takes_property_body state.flags (c == some 'P'))

theorem shrinks_checked (flags : Flags) (set : CharSet) : Shrinks (flags.checked set) := by
  unfold Flags.checked
  exact .ite shrinks_failure (shrinks_pure _)

theorem takes_escape : Takes (escape engine) := by
  unfold escape
  refine (takes_advance 0).bind fun _ => shrinks_get.bind fun s => shrinks_peek.bind fun c => ?_
  split
  · rename_i c
    refine .ite (shrinks_failure_bind _) (.ite ?_ (.ite ?_ ?_))
    · refine takes_advance_to_more.shrinks.bind fun next => .ite ?_ ?_
      · refine shrinks_get.bind fun t => (takes_braced_hex _ _).shrinks.bind fun n => ?_
        split
        · exact shrinks_pure _
        · exact shrinks_failure_bind _
      · refine (shrinks_hex_digits _ _).bind fun n => ?_
        split
        · exact shrinks_pure _
        · exact shrinks_failure_bind _
    · exact takes_property.shrinks.bind fun _ => shrinks_pure _
    · refine (takes_advance 0).shrinks.bind fun _ => .ite (shrinks_pure _) (.ite ?_ (.ite ?_ ?_))
      · exact (shrinks_checked _ _).bind fun _ => shrinks_pure _
      · exact shrinks_pure _
      · split
        case h_9 =>
          refine shrinks_peek.bind fun next => .ite ?_ (shrinks_pure _)
          refine (shrinks_word_place _).bind fun place => ?_
          cases place with
          | none => exact shrinks_pure _
          | some place => exact shrinks_pure _
        case h_13 => exact shrinks_failure
        all_goals exact shrinks_pure _
  · exact shrinks_failure

theorem takes_set_atom : Takes (setAtom engine) := by
  unfold setAtom
  refine .after shrinks_peek fun c => ?_
  cases c with
  | none => exact takes_failure
  | some c => exact .ite takes_escape ((takes_advance 0).bind fun _ => shrinks_pure _)

theorem shrinks_peek_past : Shrinks peekPastSpacing? := by
  rintro s a r ⟨⟩
  exact List.suffix_refl _

/-- The set of an atom that stands alone in brackets. -/
def setSingle (flags : Flags) (first : Atom) : Parser CharSet := do
  let some set := first.charSet? flags | failure
  return set

/-- The set from one literal to another. -/
def setRange (flags : Flags) (first last : Atom) : Parser CharSet := do
  let some low := first.code? flags | failure
  let some high := last.code? flags | failure
  if low ≤ high then return .ranges [(low, high)] else failure

theorem shrinks_set_single (flags : Flags) (first : Atom) : Shrinks (setSingle flags first) := by
  unfold setSingle
  cases first.charSet? flags with
  | none => exact shrinks_failure
  | some set => exact shrinks_pure _

theorem shrinks_set_range (flags : Flags) (first last : Atom) :
    Shrinks (setRange flags first last) := by
  unfold setRange
  cases first.code? flags with
  | none => exact shrinks_failure
  | some low =>
      cases last.code? flags with
      | none => exact shrinks_failure
      | some high => exact .ite (shrinks_pure _) shrinks_failure

theorem takes_set_item : Takes (setItem engine) := by
  unfold setItem
  refine .after shrinks_get fun s => takes_set_atom.bind fun first => shrinks_skip.bind fun _ =>
    shrinks_peek.bind fun c => ?_
  cases c with
  | none => exact shrinks_failure
  | some c =>
      refine shrinks_peek_past.bind fun next => .ite (shrinks_set_single s.flags first) ?_
      exact takes_advance_to_more.shrinks.bind fun _ => takes_set_atom.shrinks.bind fun last =>
        shrinks_set_range s.flags first last

theorem shrinks_set_opening (budget : Nat) (items : Items) : Shrinks (setOpening budget items) := by
  induction budget generalizing items with
  | zero => exact shrinks_failure
  | succ budget ih =>
      rw [setOpening]
      refine shrinks_peek.bind fun c => .ite ?_ (shrinks_pure _)
      exact takes_advance_to_more.shrinks.bind fun _ => ih _

theorem suffix_of_strip_front {taken cs rest : List Char} (h : stripFront? taken cs = some rest) :
    rest <:+ cs :=
  ⟨taken, (Markup.strip_front_eq_some_iff.mp h).symm⟩

theorem ascii_class_suffix {cs rest : List Char} {set : CharSet} {negated : Bool}
    (h : asciiClass? cs = some (set, negated, rest)) : rest <:+ cs.drop 1 := by
  simp only [asciiClass?, Option.bind_eq_bind, Option.bind_eq_some_iff, Option.pure_def,
    Option.some.injEq, Prod.mk.injEq] at h
  obtain ⟨inside, hinside, behind, hbehind, -, -, -, -, rfl⟩ := h
  have hcs : cs = '[' :: ':' :: inside := Markup.strip_front_eq_some_iff.mp hinside
  have hdrop := (suffix_of_strip_front hbehind).trans (List.dropWhile_suffix _)
  rw [hcs, List.drop_one, List.tail_cons]
  refine hdrop.trans (List.IsSuffix.trans ?_ (List.suffix_cons _ _))
  split
  · exact List.suffix_cons _ _
  · exact List.suffix_refl _

theorem shrinks_signed (flags : Flags) (negated : Bool) (set : CharSet) :
    Shrinks (flags.signed negated set) :=
  shrinks_checked flags _

/-- A set in brackets from its items on. -/
def bracketTail (engine : Engine) (budget : Nat) (flags : Flags) (negated : Bool) (items : Items) :
    Parser (Nested CharSet) := do
  let (set, depth) ← bracketItems engine budget items none
  return (← flags.signed negated set, depth + 1)

/-- A set in brackets from the place on where a closing bracket stands for itself. -/
def bracketBody (engine : Engine) (budget : Nat) (flags : Flags) (negated : Bool) (items : Items) :
    Parser (Nested CharSet) := do
  if items.count = 0 && (← peek?) == some ']' then
    let _ ← advanceToMore
    bracketTail engine budget flags negated (items.add (.single ']') 0)
  else bracketTail engine budget flags negated items

theorem bracketed_eq (budget : Nat) : bracketed engine (budget + 1) = (do
    let flags := (← get).flags
    let c ← advanceToMore
    if c == '^' then
      let _ ← advanceToMore
      bracketBody engine budget flags (c == '^') (← setOpening (← get).rest.length {})
    else bracketBody engine budget flags (c == '^') (← setOpening (← get).rest.length {})) := by
  rw [bracketed]
  rfl

theorem takes_bracket_tail {budget : Nat}
    (hitems : ∀ items, Takes (bracketItems engine budget items none))
    (flags : Flags) (negated : Bool) (items : Items) :
    Takes (bracketTail engine budget flags negated items) :=
  (hitems items).bind fun _ => (shrinks_signed _ _ _).bind fun _ => shrinks_pure _

theorem takes_bracket_body {budget : Nat}
    (hitems : ∀ items, Takes (bracketItems engine budget items none))
    (flags : Flags) (negated : Bool) (items : Items) :
    Takes (bracketBody engine budget flags negated items) :=
  .after shrinks_peek fun _ => .ite
    (takes_advance_to_more.bind fun _ => (takes_bracket_tail hitems _ _ _).shrinks)
    (takes_bracket_tail hitems _ _ _)

theorem takes_brackets (budget : Nat) : Takes (bracketed engine budget) ∧
    ∀ items waiting, Takes (bracketItems engine budget items waiting) := by
  induction budget with
  | zero => exact ⟨takes_failure, fun _ _ => takes_failure⟩
  | succ budget ih =>
      obtain ⟨ihset, ihitems⟩ := ih
      constructor
      · have hbody (flags : Flags) (negated : Bool) : Shrinks (do
            bracketBody engine budget flags negated (← setOpening (← get).rest.length {})) :=
          shrinks_get.bind fun _ => (shrinks_set_opening _ _).bind fun items =>
            (takes_bracket_body (fun items => ihitems items none) flags negated items).shrinks
        rw [bracketed_eq]
        exact .after shrinks_get fun s => takes_advance_to_more.bind fun c =>
          .ite (takes_advance_to_more.shrinks.bind fun _ => hbody _ _) (hbody _ _)
      · intro items waiting
        rw [bracketItems]
        refine .after shrinks_skip fun _ => .after shrinks_get fun s =>
          .after shrinks_peek fun c => ?_
        cases c with
        | none => exact takes_failure
        | some c =>
            refine .ite ?_ (.ite ?_ (.after shrinks_peek_second fun next => ?_))
            · intro t a r hr
              rw [bind_apply, get_apply, Option.bind_some] at hr
              cases hclass : asciiClass? t.rest with
              | none =>
                  rw [hclass] at hr
                  exact ihset.bind (fun p => (ihitems _ _).shrinks) t a r hr
              | some p =>
                  rw [hclass] at hr
                  have hitems := (shrinks_signed s.flags p.2.1 p.1).bind fun set =>
                    (ihitems (items.add set 0) waiting).shrinks
                  exact (hitems _ a r hr).trans (ascii_class_suffix hclass)
            · exact (takes_advance 0).bind fun _ => shrinks_pure _
            · dsimp only
              split
              · exact (takes_advance 1).bind fun _ => (ihitems _ _).shrinks
              · exact takes_set_item.bind fun _ => (ihitems _ _).shrinks

theorem takes_bracketed (budget : Nat) : Takes (bracketed engine budget) :=
  (takes_brackets budget).1

theorem takes_bracket_items (budget : Nat) (items : Items) (waiting : Option Waiting) :
    Takes (bracketItems engine budget items waiting) :=
  (takes_brackets budget).2 items waiting

theorem takes_flag_letters (budget : Nat) (seen : List Char) (flags : Flags) :
    Takes (flagLetters budget seen flags) := by
  induction budget generalizing seen flags with
  | zero => exact takes_failure
  | succ budget ih =>
      rw [flagLetters]
      refine .after shrinks_peek fun c => ?_
      cases c with
      | none => exact takes_failure
      | some c =>
          refine .ite (.ite (takes_failure_bind _) ((takes_advance 0).bind fun _ => shrinks_pure _))
            (.ite (takes_failure_bind _) ((takes_advance 0).bind fun _ => ?_))
          repeat' apply Shrinks.ite
          all_goals first
            | exact (ih _ _).shrinks
            | exact shrinks_failure

/-- Whether a group may have a name. -/
def isGroupName (engine : Engine) : List Char → Bool
  | [] => false
  | c :: more => isGroupNameChar engine true c && more.all (isGroupNameChar engine false)

theorem group_name_apply (s : State) {name behind : List Char}
    (hname : s.rest.takeWhile (· != '>') = name) (hbehind : s.rest.drop name.length = behind) :
    groupName engine s = if isGroupName engine name && !s.names.contains name then
        match behind with
        | _ :: rest => some ((), { s with rest := rest, names := name :: s.names })
        | [] => none
      else none := by
  unfold groupName
  show (match s.rest.takeWhile (· != '>') with
    | [] => _
    | c :: more => _ : Parser Unit) s = _
  rw [hname]
  cases name with
  | nil => rfl
  | cons c more =>
      rw [isGroupName]
      dsimp only
      rw [hbehind]
      cases isGroupNameChar engine true c && more.all (isGroupNameChar engine false) with
      | false => rfl
      | true =>
          cases s.names.contains (c :: more) with
          | true => rfl
          | false => cases behind <;> rfl

theorem group_name_closed {s : State} {name rest : List Char} (hrest : s.rest = name ++ '>' :: rest)
    (hname : '>' ∉ name) :
    groupName engine s = if isGroupName engine name && !s.names.contains name then
      some ((), { s with rest := rest, names := name :: s.names })
    else none := by
  have hbefore (c : Char) (hc : c ∈ name) : (c != '>') = true :=
    bne_iff_ne.mpr fun heq => hname (heq ▸ hc)
  have htake : s.rest.takeWhile (· != '>') = name := by
    rw [hrest, List.takeWhile_append_of_pos hbefore]
    simp
  have hbehind : s.rest.drop name.length = '>' :: rest := by rw [hrest, List.drop_left]
  rw [group_name_apply s htake hbehind]

theorem group_name_unclosed {s : State} (h : '>' ∉ s.rest) : groupName engine s = none := by
  have htake : s.rest.takeWhile (· != '>') = s.rest := by
    have hbefore (c : Char) (hc : c ∈ s.rest) : (c != '>') = true :=
      bne_iff_ne.mpr fun heq => h (heq ▸ hc)
    have hall : (s.rest ++ []).takeWhile (· != '>') = s.rest ++ [] :=
      List.takeWhile_append_of_pos hbefore
    rwa [List.append_nil] at hall
  rw [group_name_apply s htake List.drop_length]
  exact ite_self none

theorem shrinks_group_name : Shrinks (groupName engine) := by
  intro s a r hr
  by_cases hmem : '>' ∈ s.rest
  · obtain ⟨name, rest, hrest, hname⟩ := List.eq_append_cons_of_mem hmem
    rw [group_name_closed hrest hname] at hr
    split at hr
    · cases hr
      exact hrest ▸ (List.suffix_cons '>' rest).trans (List.suffix_append name _)
    · cases hr
  · rw [group_name_unclosed hmem] at hr
    cases hr

theorem shrinks_group_opening : Shrinks (groupOpening engine) := by
  unfold groupOpening
  refine shrinks_skip.bind fun _ => shrinks_get.bind fun s => (shrinks_take _).bind fun _ =>
    (shrinks_take _).bind fun _ => (shrinks_take _).bind fun _ => (shrinks_take _).bind fun _ =>
    .ite (shrinks_failure_bind _) ((shrinks_take _).bind fun _ => .ite ?_ ?_)
  · exact shrinks_group_name.bind fun _ => shrinks_pure _
  · refine (shrinks_take _).bind fun _ => .ite ?_ ((shrinks_take _).bind fun _ => .ite ?_ ?_)
    · exact shrinks_group_name.bind fun _ => shrinks_pure _
    · exact shrinks_get.bind fun t => (takes_flag_letters _ _ _).shrinks.bind fun p =>
        .ite (shrinks_pure _) (.ite (shrinks_failure_bind _) (shrinks_pure _))
    · exact shrinks_pure _

theorem shrinks_count : Shrinks count? := by
  have hblanks : Shrinks (modify fun s => { s with rest := s.rest.dropWhile isBlank }) :=
    shrinks_modify fun s => List.dropWhile_suffix _
  unfold count?
  rw [digits_eq]
  refine hblanks.bind fun _ => shrinks_get.bind fun s => (shrinks_gather _ _ _).bind fun ds =>
    hblanks.bind fun _ => shrinks_skip.bind fun _ => .ite (shrinks_pure _) (.ite ?_ ?_)
  · exact shrinks_pure _
  · exact shrinks_failure

/-- The range of a repetition from its closing brace on. -/
def rangeTail (range : Nat × Option Nat) : Parser (Nat × Option Nat) := do
  if (← peek?) != some '\x7d' then failure
  advance 1
  skipSpacing
  if range.2.any (· < range.1) then failure
  return range

theorem takes_range_tail (range : Nat × Option Nat) : Takes (rangeTail range) :=
  .after shrinks_peek fun _ => .ite (takes_failure_bind _) <| (takes_advance 0).bind fun _ =>
    shrinks_skip.bind fun _ => .ite (shrinks_failure_bind _) (shrinks_pure _)

/-- The range of a repetition from its upper end on. -/
def rangeMost (least : Nat) : Parser (Nat × Option Nat) := do
  let some most ← count? | failure
  rangeTail (least, some most)

theorem takes_range_most (least : Nat) : Takes (rangeMost least) := by
  refine .after shrinks_count fun most => ?_
  cases most with
  | none => exact takes_failure
  | some most => exact takes_range_tail _

/-- The range of a repetition behind its opening brace. -/
def rangeBody : Parser (Nat × Option Nat) := do
  let some least ← count? | failure
  let some c ← peek? | failure
  if c = ',' then
    let next ← advanceToMore
    if next = '\x7d' then rangeTail (least, none)
    else rangeMost least
  else rangeTail (least, some least)

theorem count_range_eq : countRange = (advanceToMore >>= fun _ => rangeBody) := by
  rfl

theorem takes_range_body : Takes rangeBody := by
  unfold rangeBody
  refine .after shrinks_count fun least => ?_
  cases least with
  | none => exact takes_failure
  | some least =>
      refine .after shrinks_peek fun c => ?_
      cases c with
      | none => exact takes_failure
      | some c =>
          exact .ite (takes_advance_to_more.bind fun next =>
            .ite (takes_range_tail _).shrinks (takes_range_most _).shrinks) (takes_range_tail _)

theorem takes_count_range : Takes countRange :=
  takes_advance_to_more.bind fun _ => takes_range_body.shrinks

theorem shrinks_repeat_last (pieces : List Piece) (least : Nat) (most : Option Nat) :
    Shrinks (repeatLast pieces least most) := by
  unfold repeatLast
  split
  · exact (shrinks_take _).bind fun _ => shrinks_pure _
  · exact shrinks_failure

theorem shrinks_atom_pattern (flags : Flags) (a : Atom) : Shrinks (a.pattern flags) := by
  cases a with
  | literal c => exact shrinks_pure _
  | byte n => exact .ite (shrinks_pure _) shrinks_failure
  | chars set => exact shrinks_pure _
  | place place => exact shrinks_pure _

theorem shrinks_alternatives (budget : Nat) (pieces : List Piece) (done : List (Nested Pattern)) :
    Shrinks (alternatives engine budget pieces done) := by
  induction budget generalizing pieces done with
  | zero => exact shrinks_failure
  | succ budget ih =>
      have hadvance := (takes_advance 0).shrinks
      have hrepeat (least : Nat) (most : Option Nat) : Shrinks
          (repeatLast pieces least most >>= fun pieces => alternatives engine budget pieces done) :=
        (shrinks_repeat_last _ _ _).bind fun _ => ih _ _
      rw [alternatives]
      refine shrinks_skip.bind fun _ => shrinks_get.bind fun s => shrinks_peek.bind fun c => ?_
      split
      · exact shrinks_pure _
      · exact shrinks_pure _
      · exact hadvance.bind fun _ => ih _ _
      · refine hadvance.bind fun _ => shrinks_group_opening.bind fun opening => ?_
        cases opening with
        | setting flags => exact (shrinks_flags _).bind fun _ => ih _ _
        | group inner =>
            refine (shrinks_flags _).bind fun _ => (ih _ _).bind fun p =>
              (shrinks_take _).bind fun closed => .ite (shrinks_failure_bind _) ?_
            exact (shrinks_flags _).bind fun _ => ih _ _
      · exact shrinks_get.bind fun t => (takes_bracketed _).shrinks.bind fun p => ih _ _
      · exact hadvance.bind fun _ => hrepeat _ _
      · exact hadvance.bind fun _ => hrepeat _ _
      · exact hadvance.bind fun _ => hrepeat _ _
      · exact .ite (shrinks_failure_bind _) (takes_count_range.shrinks.bind fun p => hrepeat _ _)
      · exact hadvance.bind fun _ => .ite (shrinks_failure_bind _) (ih _ _)
      · exact hadvance.bind fun _ => ih _ _
      · exact hadvance.bind fun _ => ih _ _
      · exact takes_escape.shrinks.bind fun a => (shrinks_atom_pattern _ _).bind fun _ => ih _ _
      · exact hadvance.bind fun _ => (shrinks_atom_pattern _ _).bind fun _ => ih _ _

end Shrinks

end SvgPress.Text.Pattern
