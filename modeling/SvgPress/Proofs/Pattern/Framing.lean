import SvgPress.Proofs.Pattern.Budgets

/-!
Patterns inside a frame. A pattern for whole texts is read with a parenthesis and an anchor behind
it. Each reader then does the same as without them, with two exceptions: a comment that is open
where the pattern ends takes what stands behind it, and where the pattern alone is refused because
it ends too early, the reading can go on into what stands behind it. In the latter case the
parenthesis is used up, so that none is left to close the group around the pattern.
-/

namespace SvgPress.Text.Pattern

variable {α β : Type}

/-- What stands behind a pattern for whole texts. -/
def closing : List Char :=
  [')', '$']

/-- A place of a pattern with that behind it. -/
def State.closed (s : State) : State :=
  { s with rest := s.rest ++ closing }

/-- Whether the parenthesis behind the pattern has been used up. -/
def State.IsPast (s : State) : Prop :=
  s.rest <:+ ['$']

section Spacing

theorem drop_spacing_closing (inComment : Bool) (cs : List Char) :
    dropSpacing inComment (cs ++ closing) = dropSpacing inComment cs ++ closing ∨
      dropSpacing inComment (cs ++ closing) = [] ∧ dropSpacing inComment cs = [] := by
  induction cs generalizing inComment with
  | nil =>
      cases inComment with
      | true => exact .inr ⟨rfl, rfl⟩
      | false => exact .inl rfl
  | cons c cs ih =>
      rw [List.cons_append, dropSpacing, dropSpacing]
      split_ifs
      · exact ih _
      · exact ih _
      · exact ih _
      · exact .inl rfl

/-- Spacing ends before what stands behind, or takes it all into a comment. -/
theorem spaced_closing (flags : Flags) (cs : List Char) :
    spaced flags (cs ++ closing) = spaced flags cs ++ closing ∨
      spaced flags (cs ++ closing) = [] ∧ spaced flags cs = [] := by
  rw [spaced, spaced]
  split
  · exact drop_spacing_closing false cs
  · exact .inl rfl

end Spacing

section Framed

/-- How the outcome inside the frame can differ from the one without it. -/
inductive Framed (other : α → State → Prop) : Option (α × State) → Option (α × State) → Prop
  | kept (a : α) (s : State) : Framed other (some (a, s)) (some (a, s.closed))
  /-- A comment has taken what stands behind. -/
  | swallowed (a : α) (s : State) (h : s.rest = []) : Framed other (some (a, s)) (some (a, s))
  | refused : Framed other none none
  /-- Without the frame the pattern ends too early. -/
  | past (a : α) (s : State) (h : s.IsPast ∨ other a s) : Framed other none (some (a, s))

/-- Whether a parser does the same inside the frame, at places of some kind. Where it is refused
without the frame, there may be `other` ends besides those behind the parenthesis. -/
structure SteadyOn (P : State → Prop) (other : α → State → Prop) (m : Parser α) : Prop where
  shrinks : Shrinks m
  framed : ∀ s, P s → Framed other (m s) (m s.closed)

/-- No restriction on places. -/
abbrev Anywhere : State → Prop :=
  fun _ => True

/-- No other ends. -/
abbrev Nowhere : α → State → Prop :=
  fun _ _ => False

/-- Places before a character. -/
abbrev Before (c : Char) : State → Prop :=
  fun s => s.rest.head? = some c

variable {P : State → Prop} {other : α → State → Prop} {past : β → State → Prop}
variable {m : Parser α} {f : α → Parser β}

/-- A parser does the same at the end of a text that a comment has taken. -/
theorem Framed.same {s : State} (hm : Shrinks m) (hs : s.rest = []) : Framed other (m s) (m s) := by
  cases h : m s with
  | none => exact .refused
  | some p => exact .swallowed p.1 p.2 (List.suffix_nil.mp (hs ▸ hm s p.1 p.2 h))

theorem SteadyOn.anywhere (h : SteadyOn Anywhere other m) : SteadyOn P other m :=
  ⟨h.shrinks, fun s _ => h.framed s trivial⟩

theorem SteadyOn.bind_other (hm : SteadyOn P other m) (hf : ∀ a, SteadyOn Anywhere past (f a))
    (hother : ∀ a s, other a s → ∀ b t, f a s = some (b, t) → t.IsPast ∨ past b t) :
    SteadyOn P past (m >>= f) := by
  refine ⟨hm.shrinks.bind fun a => (hf a).shrinks, fun s hs => ?_⟩
  have hframed := hm.framed s hs
  rw [bind_apply, bind_apply]
  generalize m s = x at hframed
  generalize m s.closed = y at hframed
  cases hframed with
  | kept a t => exact (hf a).framed t trivial
  | swallowed a t ht => exact .same (hf a).shrinks ht
  | refused => exact .refused
  | past a t ht =>
      rw [Option.bind_none, Option.bind_some]
      cases h : f a t with
      | none => exact .refused
      | some p =>
          refine .past p.1 p.2 ?_
          cases ht with
          | inl ht => exact .inl (((hf a).shrinks t p.1 p.2 h).trans ht)
          | inr ht => exact hother a t ht p.1 p.2 h

theorem SteadyOn.bind (hm : SteadyOn P Nowhere m) (hf : ∀ a, SteadyOn Anywhere past (f a)) :
    SteadyOn P past (m >>= f) :=
  hm.bind_other hf fun _ _ h => h.elim

theorem steady_pure (a : α) : SteadyOn P other (pure a) :=
  ⟨shrinks_pure a, fun s _ => .kept a s⟩

theorem steady_failure : SteadyOn P other (failure : Parser α) :=
  ⟨shrinks_failure, fun _ _ => .refused⟩

theorem steady_failure_bind (f : β → Parser α) : SteadyOn P other (failure >>= f) :=
  ⟨shrinks_failure_bind f, fun _ _ => .refused⟩

theorem SteadyOn.ite {p : Prop} [Decidable p] {m m' : Parser α} (h : SteadyOn P other m)
    (h' : SteadyOn P other m') : SteadyOn P other (if p then m else m') := by
  split
  · exact h
  · exact h'

/-- What is done with the state must not depend on what stands behind the pattern. -/
theorem steady_get {f : State → Parser α} (hf : ∀ s, SteadyOn P other (f s))
    (hsame : ∀ s, P s → f s s = f s.closed s) : SteadyOn P other (get >>= f) := by
  refine ⟨shrinks_get.bind fun s => (hf s).shrinks, fun s hs => ?_⟩
  rw [bind_apply, bind_apply, get_apply, get_apply, Option.bind_some, Option.bind_some]
  rw [hsame s hs]
  exact (hf s.closed).framed s hs

/-- A budget for the text that is left is greater inside the frame, which must not matter. -/
theorem steady_get_budget {F : Nat → Parser β} {f : β → Parser α}
    (hF : ∀ n, SteadyOn P Nowhere (F n)) (hagree : ∀ n, Agree n (F n) (F (n + 2)))
    (hf : ∀ b, SteadyOn Anywhere other (f b)) :
    SteadyOn P other (get >>= fun s => F s.rest.length >>= f) := by
  refine steady_get (fun s => (hF _).bind hf) fun s _ => ?_
  have hlength : s.closed.rest.length = s.rest.length + 2 := List.length_append
  rw [hlength]
  exact (hagree _).bind (hF _).shrinks (fun b => .refl _ (f b)) s le_rfl

theorem steady_peek {f : Option Char → Parser α}
    (hsome : ∀ c, SteadyOn (Before c) other (f (some c)))
    (hnone : Shrinks (f none))
    (hend : ∀ s, s.rest = [] → Framed other (f none s) (f (some ')') s.closed)) :
    SteadyOn P other (peek? >>= f) := by
  refine ⟨shrinks_peek.bind fun c => ?_, fun s _ => ?_⟩
  · cases c with
    | none => exact hnone
    | some c => exact (hsome c).shrinks
  · rw [bind_apply, bind_apply, peek_apply, peek_apply, Option.bind_some, Option.bind_some]
    cases hrest : s.rest with
    | nil =>
        have hclosed : s.closed.rest.head? = some ')' := by rw [State.closed, hrest]; rfl
        rw [hclosed]
        exact hend s hrest
    | cons c cs =>
        have hclosed : s.closed.rest.head? = some c := by rw [State.closed, hrest]; rfl
        rw [hclosed]
        exact (hsome c).framed s (by rw [Before, hrest]; rfl)

/-- Where nothing may be missing, the parenthesis is taken in its place. -/
theorem past_of_takes {s t : State} {a : α} (hm : Takes m) (hs : s.rest <:+ closing)
    (h : m s = some (a, t)) : t.IsPast := by
  refine (hm s a t h).trans ?_
  rcases List.suffix_cons_iff.mp hs with hs | hs
  · rw [hs]
    exact List.suffix_refl _
  · exact (List.drop_suffix 1 _).trans hs

theorem steady_peek_failing {f : Option Char → Parser α}
    (hsome : ∀ c, SteadyOn (Before c) other (f (some c))) (hnone : f none = failure)
    (htakes : Takes (f (some ')'))) : SteadyOn P other (peek? >>= f) := by
  refine steady_peek hsome (hnone ▸ shrinks_failure) fun s hs => ?_
  rw [hnone, failure_apply]
  cases h : f (some ')') s.closed with
  | none => exact .refused
  | some p =>
      have hclosed : s.closed.rest = closing := by rw [State.closed, hs, List.nil_append]
      exact .past p.1 p.2 (.inl (past_of_takes htakes (hclosed ▸ List.suffix_refl _) h))

theorem steady_advance {c : Char} {f : Unit → Parser α} (hf : SteadyOn Anywhere other (f ())) :
    SteadyOn (Before c) other (advance 1 >>= f) := by
  refine ⟨(takes_advance 0).shrinks.bind fun _ => hf.shrinks, fun s hs => ?_⟩
  obtain ⟨cs, flags, names⟩ := s
  cases cs with
  | nil => cases hs
  | cons c' cs => exact hf.framed ⟨cs, flags, names⟩ trivial

theorem steady_skip {other : Unit → State → Prop} : SteadyOn P other skipSpacing := by
  refine ⟨shrinks_skip, fun s _ => ?_⟩
  rw [skip_apply, skip_apply]
  obtain ⟨cs, flags, names⟩ := s
  rcases spaced_closing flags cs with h | ⟨h, hend⟩
  · rw [State.closed, h]
    exact .kept () ⟨spaced flags cs, flags, names⟩
  · rw [State.closed, h, hend]
    exact .swallowed () ⟨[], flags, names⟩ rfl

theorem steady_flags {other : Unit → State → Prop} (flags : Flags) :
    SteadyOn P other (modify fun s => { s with flags := flags }) :=
  ⟨shrinks_flags flags, fun s _ => .kept () { s with flags := flags }⟩

theorem steady_more_other {f : Char → Parser α} (hf : ∀ c, SteadyOn (Before c) other (f c))
    (hend : ∀ s, s.rest = closing → ∀ a t, f ')' s = some (a, t) → t.IsPast ∨ other a t) :
    SteadyOn P other (advanceToMore >>= f) := by
  refine ⟨takes_advance_to_more.shrinks.bind fun c => (hf c).shrinks, fun s _ => ?_⟩
  obtain ⟨cs, flags, names⟩ := s
  cases cs with
  | nil =>
      have hnone : spaced flags [] = [] := List.suffix_nil.mp (spaced_suffix flags [])
      have hsuffix : spaced flags ['$'] <:+ ['$'] := spaced_suffix flags ['$']
      rw [more_bind_end hnone f]
      cases hspaced : spaced flags ['$'] with
      | nil =>
          rw [more_bind_end (s := State.closed ⟨[], flags, names⟩) hspaced f]
          exact .refused
      | cons c cs =>
          rw [more_bind_cons (s := State.closed ⟨[], flags, names⟩) hspaced f]
          show Framed other none (f c ⟨c :: cs, flags, names⟩)
          cases h : f c ⟨c :: cs, flags, names⟩ with
          | none => exact .refused
          | some p =>
              exact .past p.1 p.2 (.inl (((hf c).shrinks _ p.1 p.2 h).trans (hspaced ▸ hsuffix)))
  | cons c cs =>
      rcases spaced_closing flags cs with h | ⟨h, hcs⟩
      · cases hcs : spaced flags cs with
        | nil =>
            rw [hcs, List.nil_append] at h
            rw [more_bind_end (s := ⟨c :: cs, flags, names⟩) hcs f,
              more_bind_cons (s := State.closed ⟨c :: cs, flags, names⟩) h f]
            show Framed other none (f ')' ⟨closing, flags, names⟩)
            cases h : f ')' ⟨closing, flags, names⟩ with
            | none => exact .refused
            | some p => exact .past p.1 p.2 (hend _ rfl p.1 p.2 h)
        | cons d behind =>
            rw [hcs, List.cons_append] at h
            rw [more_bind_cons (s := ⟨c :: cs, flags, names⟩) hcs f,
              more_bind_cons (s := State.closed ⟨c :: cs, flags, names⟩) h f]
            exact (hf d).framed ⟨d :: behind, flags, names⟩ rfl
      · rw [more_bind_end (s := ⟨c :: cs, flags, names⟩) hcs f,
          more_bind_end (s := State.closed ⟨c :: cs, flags, names⟩) h f]
        exact .refused

theorem steady_more {f : Char → Parser α} (hf : ∀ c, SteadyOn (Before c) other (f c))
    (htakes : Takes (f ')')) : SteadyOn P other (advanceToMore >>= f) :=
  steady_more_other hf fun _ hs _ _ h => .inl (past_of_takes htakes (hs ▸ List.suffix_refl _) h)

end Framed

end SvgPress.Text.Pattern
