import SvgPress.Proofs.Pattern.Steps

/-!
Budgets of the readers of patterns. A reader that calls itself has a budget for its steps. Each step
takes a character, so once the budget covers the text that is left, a greater one changes nothing.
-/

namespace SvgPress.Text.Pattern

variable {α β : Type} {engine : Engine}

section Agreement

/-- Whether two parsers do the same on texts up to a length. -/
def Agree (n : Nat) (m m' : Parser α) : Prop :=
  ∀ s, s.rest.length ≤ n → m s = m' s

variable {n : Nat} {m m' : Parser α} {f f' : α → Parser β}

theorem Agree.refl (n : Nat) (m : Parser α) : Agree n m m :=
  fun _ _ => rfl

theorem Agree.mono {k : Nat} (h : Agree n m m') (hk : k ≤ n) : Agree k m m' :=
  fun s hs => h s (hs.trans hk)

theorem Agree.bind (hm : Agree n m m') (hs : Shrinks m) (hf : ∀ a, Agree n (f a) (f' a)) :
    Agree n (m >>= f) (m' >>= f') := by
  intro s hn
  rw [bind_apply, bind_apply, ← hm s hn]
  refine Option.bind_congr fun p hp => hf p.1 p.2 ?_
  exact (hs s p.1 p.2 hp).length_le.trans hn

/-- What comes after the same parser has to agree on what that leaves. -/
theorem Agree.before (hs : Shrinks m) (hf : ∀ a, Agree n (f a) (f' a)) :
    Agree n (m >>= f) (m >>= f') :=
  (refl n m).bind hs hf

/-- After a character was taken, the texts are shorter by one. -/
theorem Agree.bind_taking (hm : Agree (n + 1) m m') (ht : Takes m)
    (hf : ∀ a, Agree n (f a) (f' a)) :
    Agree (n + 1) (m >>= f) (m' >>= f') := by
  intro s hn
  rw [bind_apply, bind_apply, ← hm s hn]
  refine Option.bind_congr fun p hp => hf p.1 p.2 ?_
  have hle := (ht s p.1 p.2 hp).length_le
  rw [List.length_drop] at hle
  omega

theorem Agree.after (ht : Takes m) (hf : ∀ a, Agree n (f a) (f' a)) :
    Agree (n + 1) (m >>= f) (m >>= f') :=
  (refl (n + 1) m).bind_taking ht hf

theorem Agree.ite {p : Prop} [Decidable p] {k k' : Parser α} (h : Agree n m m')
    (h' : Agree n k k') :
    Agree n (if p then m else k) (if p then m' else k') := by
  split
  · exact h
  · exact h'

/-- Budgets that cover the text do the same. -/
theorem agree_of_step {F : Nat → Parser α} {least : Nat}
    (h : ∀ budget, least ≤ budget → Agree n (F budget) (F (budget + 1))) {budget more : Nat}
    (hleast : least ≤ budget) (hmore : budget ≤ more) : Agree n (F budget) (F more) := by
  induction hmore with
  | refl => exact .refl n _
  | step hle ih => exact fun s hs => (ih s hs).trans (h _ (hleast.trans hle) s hs)

end Agreement

theorem advance_to_more_end {s : State} (h : s.rest.length ≤ 0) : advanceToMore s = none := by
  have hrest : s.rest = [] := List.eq_nil_of_length_eq_zero (Nat.le_zero.mp h)
  have hspaced : spaced s.flags [] = [] := List.suffix_nil.mp (spaced_suffix s.flags [])
  rw [advance_to_more_apply, hrest, List.drop_nil, hspaced]

theorem peek_bind_end {f : Option Char → Parser α} {s : State} (h : s.rest.length ≤ 0) :
    (peek? >>= f) s = f none s := by
  have hrest : s.rest = [] := List.eq_nil_of_length_eq_zero (Nat.le_zero.mp h)
  rw [bind_apply, peek_apply, hrest]
  rfl

theorem gather_budget (keep : Char → Bool) (budget : Nat) (acc : List Char) :
    Agree budget (gather keep budget acc) (gather keep (budget + 1) acc) := by
  induction budget generalizing acc with
  | zero =>
      intro s hs
      rw [gather, gather, peek_bind_end hs]
  | succ budget ih =>
      rw [gather, gather]
      refine .before shrinks_peek fun c => ?_
      cases c with
      | none => exact .refl _ _
      | some c =>
          refine .ite ?_ (.refl _ _)
          exact .after (takes_advance 0) fun _ => .before shrinks_skip fun _ => ih _

theorem braced_budget (budget : Nat) (acc : List Char) :
    Agree budget (property.braced budget acc) (property.braced (budget + 1) acc) := by
  induction budget generalizing acc with
  | zero =>
      intro s hs
      rw [property.braced, property.braced, bind_apply, advance_to_more_end hs]
      rfl
  | succ budget ih =>
      rw [property.braced, property.braced]
      exact .after takes_advance_to_more fun c => .ite (.refl _ _) (ih _)

theorem braced_hex_budget (budget : Nat) (ds : List Nat) :
    Agree budget (bracedHex budget ds) (bracedHex (budget + 1) ds) := by
  induction budget generalizing ds with
  | zero =>
      intro s hs
      rw [bracedHex, bracedHex, bind_apply, advance_to_more_end hs]
      rfl
  | succ budget ih =>
      rw [bracedHex, bracedHex]
      refine .after takes_advance_to_more fun c => .ite (.refl _ _) ?_
      cases hexValue? c with
      | none => exact .refl _ _
      | some d => exact ih _

theorem flag_letters_budget (budget : Nat) (seen : List Char) (flags : Flags) :
    Agree budget (flagLetters budget seen flags) (flagLetters (budget + 1) seen flags) := by
  induction budget generalizing seen flags with
  | zero =>
      intro s hs
      rw [flagLetters, flagLetters, peek_bind_end hs]
  | succ budget ih =>
      rw [flagLetters, flagLetters]
      refine .before shrinks_peek fun c => ?_
      cases c with
      | none => exact .refl _ _
      | some c =>
          refine .ite (.refl _ _) (.ite (.refl _ _) (.after (takes_advance 0) fun _ => ?_))
          repeat' apply Agree.ite
          all_goals first
            | exact ih _ _
            | exact .refl _ _

/-- At the end of the text a budget for a character is missing. -/
theorem set_opening_budget (budget : Nat) (items : Items) {s : State} (hrest : s.rest ≠ [])
    (hs : s.rest.length ≤ budget) :
    setOpening budget items s = setOpening (budget + 1) items s := by
  induction budget generalizing items s with
  | zero => exact absurd (List.eq_nil_of_length_eq_zero (Nat.le_zero.mp hs)) hrest
  | succ budget ih =>
      rw [setOpening, setOpening, bind_apply, bind_apply, peek_apply, Option.bind_some,
        Option.bind_some]
      dsimp only
      split
      · rw [bind_apply, bind_apply]
        refine Option.bind_congr fun p hp => ih _ ?_ ?_
        · rw [advance_to_more_apply] at hp
          split at hp
          · cases hp
          · cases hp
            exact List.cons_ne_nil _ _
        · have hle := (takes_advance_to_more s p.1 p.2 hp).length_le
          rw [List.length_drop] at hle
          omega
      · rfl

theorem skipped_bind_end {f : Option Char → State → Parser α} {s : State} (h : s.rest.length ≤ 0) :
    (skipSpacing >>= fun _ => get >>= fun t => peek? >>= fun c => f c t) s = f none s s := by
  have hrest : s.rest = [] := List.eq_nil_of_length_eq_zero (Nat.le_zero.mp h)
  have hspaced : spaced s.flags [] = [] := List.suffix_nil.mp (spaced_suffix s.flags [])
  obtain ⟨cs, flags, names⟩ := s
  subst hrest
  rw [bind_apply, skip_apply, Option.bind_some, hspaced]
  rfl

section Brackets

variable {budget n : Nat}

/-- A set in brackets needs one step more than its items. -/
theorem bracketed_budget
    (ihitems : ∀ n, 2 * n < budget → ∀ items waiting, Agree n
      (bracketItems engine budget items waiting) (bracketItems engine (budget + 1) items waiting))
    (hn : 2 * n ≤ budget + 1) :
    Agree n (bracketed engine (budget + 1)) (bracketed engine (budget + 2)) := by
  rw [bracketed_eq, bracketed_eq]
  refine .before shrinks_get fun s => ?_
  cases n with
  | zero =>
      intro t ht
      rw [bind_apply, bind_apply, advance_to_more_end ht]
      rfl
  | succ n =>
      have htail (negated : Bool) (items : Items) : Agree n
          (bracketTail engine budget s.flags negated items)
          (bracketTail engine (budget + 1) s.flags negated items) :=
        (ihitems n (by omega) items none).bind (takes_bracket_items _ _ _).shrinks
          fun _ => .refl n _
      have hbody (negated : Bool) : Agree n (do
          bracketBody engine budget s.flags negated (← setOpening (← get).rest.length {})) (do
          bracketBody engine (budget + 1) s.flags negated
            (← setOpening (← get).rest.length {})) :=
        .before shrinks_get fun _ => .before (shrinks_set_opening _ _) fun _ =>
          .before shrinks_peek fun _ => .ite
            (.before takes_advance_to_more.shrinks fun _ => htail _ _) (htail _ _)
      exact .after takes_advance_to_more fun c =>
        .ite (.before takes_advance_to_more.shrinks fun _ => hbody _) (hbody _)

/-- An item may be a set in brackets, which is read with the same text at hand. -/
theorem bracket_items_budget
    (ihset : ∀ n, 2 * n ≤ budget →
      Agree n (bracketed engine budget) (bracketed engine (budget + 1)))
    (ihitems : ∀ n, 2 * n < budget → ∀ items waiting, Agree n
      (bracketItems engine budget items waiting) (bracketItems engine (budget + 1) items waiting))
    (hn : 2 * n < budget + 1) (items : Items) (waiting : Option Waiting) :
    Agree n (bracketItems engine (budget + 1) items waiting)
      (bracketItems engine (budget + 2) items waiting) := by
  rw [bracketItems, bracketItems]
  cases n with
  | zero =>
      intro s hs
      rw [skipped_bind_end hs, skipped_bind_end hs]
  | succ n =>
      have hitems := ihitems n (by omega)
      refine .before shrinks_skip fun _ => .before shrinks_get fun s =>
        .before shrinks_peek fun c => ?_
      cases c with
      | none => exact .refl _ _
      | some c =>
          refine .ite ?_ (.ite (.refl _ _) (.before shrinks_peek_second fun next => ?_))
          · intro t ht
            rw [bind_apply, bind_apply, get_apply, Option.bind_some, Option.bind_some]
            cases hclass : asciiClass? t.rest with
            | none =>
                exact (ihset (n + 1) (by omega)).bind_taking (takes_bracketed _)
                  (fun p => hitems _ _) t ht
            | some p =>
                obtain ⟨set, negated, rest⟩ := p
                have hle := (ascii_class_suffix hclass).length_le
                rw [List.length_drop] at hle
                exact Agree.before (shrinks_signed s.flags negated set)
                  (fun set => hitems (items.add set 0) waiting)
                  { t with rest := rest } (by show rest.length ≤ n; omega)
          · dsimp only
            split
            · exact .after (takes_advance 1) fun _ => hitems _ _
            · exact .after takes_set_item fun set => hitems _ _

theorem brackets_budget (budget : Nat) :
    (∀ n, 2 * n ≤ budget → Agree n (bracketed engine budget) (bracketed engine (budget + 1))) ∧
      ∀ n, 2 * n < budget → ∀ items waiting, Agree n (bracketItems engine budget items waiting)
        (bracketItems engine (budget + 1) items waiting) := by
  induction budget with
  | zero =>
      refine ⟨fun n hn s hs => ?_, fun n hn => absurd hn (Nat.not_lt_zero _)⟩
      rw [bracketed, bracketed, bind_apply, get_apply, Option.bind_some, bind_apply,
        advance_to_more_end (hs.trans (by omega))]
      rfl
  | succ budget ih =>
      obtain ⟨ihset, ihitems⟩ := ih
      exact ⟨fun n hn => bracketed_budget ihitems hn,
        fun n hn => bracket_items_budget ihset ihitems hn⟩

end Brackets

theorem alternatives_budget (budget : Nat) (pieces : List Piece) (done : List (Nested Pattern))
    {n : Nat} (hn : n < budget) :
    Agree n (alternatives engine budget pieces done)
      (alternatives engine (budget + 1) pieces done) := by
  induction budget generalizing pieces done n with
  | zero => exact absurd hn (Nat.not_lt_zero n)
  | succ budget ih =>
      rw [alternatives, alternatives]
      cases n with
      | zero =>
          intro s hs
          rw [skipped_bind_end hs, skipped_bind_end hs]
      | succ n =>
          have ih (pieces : List Piece) (done : List (Nested Pattern)) :=
            ih pieces done (Nat.lt_of_succ_lt_succ hn)
          have hrepeat (least : Nat) (most : Option Nat) : Agree n
              (repeatLast pieces least most >>= fun pieces =>
                alternatives engine budget pieces done)
              (repeatLast pieces least most >>= fun pieces =>
                alternatives engine (budget + 1) pieces done) :=
            .before (shrinks_repeat_last _ _ _) fun _ => ih _ _
          refine .before shrinks_skip fun _ => .before shrinks_get fun s =>
            .before shrinks_peek fun c => ?_
          split
          · exact .refl _ _
          · exact .refl _ _
          · exact .after (takes_advance 0) fun _ => ih _ _
          · refine .after (takes_advance 0) fun _ => .before shrinks_group_opening fun opening => ?_
            cases opening with
            | setting flags => exact .before (shrinks_flags _) fun _ => ih _ _
            | group inner =>
                refine .before (shrinks_flags _) fun _ =>
                  (ih _ _).bind (shrinks_alternatives _ _ _) fun p =>
                    .before (shrinks_take _) fun closed =>
                      .ite (.refl _ _) (.before (shrinks_flags _) fun _ => ih _ _)
          · exact .before shrinks_get fun t => .after (takes_bracketed _) fun p => ih _ _
          · exact .after (takes_advance 0) fun _ => hrepeat _ _
          · exact .after (takes_advance 0) fun _ => hrepeat _ _
          · exact .after (takes_advance 0) fun _ => hrepeat _ _
          · exact .ite (.refl _ _) (.after takes_count_range fun p => hrepeat _ _)
          · exact .after (takes_advance 0) fun _ => .ite (.refl _ _) (ih _ _)
          · exact .after (takes_advance 0) fun _ => ih _ _
          · exact .after (takes_advance 0) fun _ => ih _ _
          · exact .after takes_escape fun a => .before (shrinks_atom_pattern _ _) fun _ => ih _ _
          · exact .after (takes_advance 0) fun _ =>
              .before (shrinks_atom_pattern _ _) fun _ => ih _ _

end SvgPress.Text.Pattern
