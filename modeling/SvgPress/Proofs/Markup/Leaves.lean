import SvgPress.Proofs.Markup.Tags

/-!
Leaves written and read. The content of a comment, of literal character data and of an instruction
runs to the first mark that closes it; that is the mark which was written behind it exactly if the
content holds no such mark itself. A doctype runs to the `>` that no `<` inside it opened.
-/

namespace SvgPress.Markup

open Text (cutAt? stripFront? IsTrimmed)

theorem strip_front_append (mark rest : List Char) :
    stripFront? mark (mark ++ rest) = some rest := by
  induction mark with
  | nil => rfl
  | cons m mark ih => simp [stripFront?, ih]

theorem strip_front_eq_some_iff {mark cs rest : List Char} :
    stripFront? mark cs = some rest ↔ cs = mark ++ rest :=
  ⟨stripFront?_eq, fun h => h ▸ strip_front_append mark rest⟩

theorem drop_prefix_eq_some_iff {value mark rest : String} :
    Text.dropPrefix? value mark = some rest ↔ value = mark ++ rest := by
  rw [Text.dropPrefix?, Option.map_eq_some_iff]
  constructor
  · rintro ⟨behind, hstrip, rfl⟩
    apply String.toList_injective
    simp [strip_front_eq_some_iff.mp hstrip]
  · rintro rfl
    refine ⟨rest.toList, ?_, String.ofList_toList⟩
    rw [String.toList_append, strip_front_append]

theorem strip_front_eq_none_iff {mark cs : List Char} :
    stripFront? mark cs = none ↔ ¬ mark <+: cs := by
  constructor
  · rintro h ⟨rest, rfl⟩
    simp [strip_front_append] at h
  · intro h
    cases hstrip : stripFront? mark cs with
    | none => rfl
    | some rest => exact absurd ⟨rest, (stripFront?_eq hstrip).symm⟩ h

/-- A mark whose last character occurs only there cannot begin before its own first place: a text
without the mark is cut where the mark was put behind it. -/
theorem cut_at_append (front : List Char) (last : Char) (hlast : last ∉ front) {cs : List Char}
    (h : ¬ front ++ [last] <:+: cs) (rest : List Char) :
    cutAt? (front ++ [last]) (cs ++ (front ++ last :: rest)) = some (cs, rest) := by
  induction cs with
  | nil =>
      have hmark : front ++ last :: rest = front ++ [last] ++ rest := by simp
      cases hcs : front ++ last :: rest with
      | nil => simp at hcs
      | cons c more =>
          rw [List.nil_append, cutAt?, ← hcs, hmark, strip_front_append]
  | cons c cs ih =>
      have hnone : stripFront? (front ++ [last]) (c :: (cs ++ (front ++ last :: rest))) = none := by
        rw [strip_front_eq_none_iff]
        rintro ⟨after, heq⟩
        rw [← List.cons_append, List.append_eq_append_iff] at heq
        rcases heq with ⟨more, hmore, -⟩ | ⟨past, hpast, htail⟩
        · exact h ⟨[], more, by simpa using hmore.symm⟩
        · rcases List.eq_nil_or_concat past with rfl | ⟨past, d, rfl⟩
          · exact h ⟨[], [], by simpa using hpast⟩
          · -- the mark would run over the end of the text and meet its own last character early
            rw [List.concat_eq_append, ← List.append_assoc] at hpast
            obtain ⟨rfl, hd⟩ := List.append_inj' hpast rfl
            obtain rfl : last = d := by simpa using hd
            have hmem : last ∈ c :: cs ++ past := by
              rw [List.concat_eq_append, List.append_assoc past, List.singleton_append,
                List.append_eq_append_iff] at htail
              rcases htail with ⟨more, hmore, -⟩ | ⟨more, hmore, hrest⟩
              · have hlen := congrArg List.length hmore
                simp only [List.length_append, List.length_cons] at hlen
                omega
              · cases more with
                | nil =>
                    have hlen := congrArg List.length hmore
                    simp only [List.length_append, List.length_cons, List.length_nil] at hlen
                    omega
                | cons e more =>
                    obtain ⟨rfl, -⟩ := List.cons_eq_cons.mp hrest
                    rw [hmore]
                    simp
            exact hlast hmem
      rw [List.cons_append, cutAt?, hnone,
        ih fun hcs => h (hcs.trans (List.suffix_cons c cs).isInfix)]
      rfl

/-- Before the first place of a mark the mark does not occur. -/
theorem not_infix_of_cut_at {mark cs before after : List Char} (hmark : mark ≠ [])
    (h : cutAt? mark cs = some (before, after)) : ¬ mark <:+: before := by
  induction cs generalizing before with
  | nil =>
      simp only [cutAt?, List.isEmpty_iff, if_neg hmark] at h
      cases h
  | cons c rest ih =>
      rw [cutAt?] at h
      split at h
      · cases h
        simpa using hmark
      · rename_i hstrip
        obtain ⟨⟨b, a⟩, hcut, hpair⟩ := Option.map_eq_some_iff.1 h
        obtain ⟨rfl, rfl⟩ : c :: b = before ∧ a = after := by simpa using hpair
        rw [List.infix_cons_iff]
        rintro (hfront | hinfix)
        · rw [strip_front_eq_none_iff] at hstrip
          refine hstrip (hfront.trans ⟨mark ++ a, ?_⟩)
          simpa using (cutAt?_eq hcut).symm
        · exact ih hcut hinfix

/-- How deep brackets are open after a text; nothing if it closes one that it did not open. -/
def nesting : Nat → List Char → Option Nat
  | depth, [] => some depth
  | depth, c :: cs =>
    if c = '<' then nesting (depth + 1) cs
    else if c = '>' then (if depth = 0 then none else nesting (depth - 1) cs)
    else nesting depth cs

theorem nesting_append (depth : Nat) (cs ds : List Char) :
    nesting depth (cs ++ ds) = (nesting depth cs).bind (nesting · ds) := by
  induction cs generalizing depth with
  | nil => rfl
  | cons c cs ih =>
      simp only [List.cons_append, nesting, ih]
      split
      · rfl
      · split
        · split <;> rfl
        · rfl

theorem nesting_of_no_bracket {cs : List Char} (h : ∀ c ∈ cs, c ≠ '<' ∧ c ≠ '>') (depth : Nat) :
    nesting depth cs = some depth := by
  induction cs with
  | nil => rfl
  | cons c cs ih =>
      obtain ⟨hopen, hclose⟩ := h c List.mem_cons_self
      rw [nesting, if_neg hopen, if_neg hclose, ih fun d hd => h d (List.mem_cons_of_mem c hd)]

/-- A doctype ends at the first `>` outside all its brackets. -/
theorem doctype_content_iff {depth : Nat} {cs content rest : List Char} :
    doctypeContent? depth cs = some (content, rest) ↔
      cs = content ++ '>' :: rest ∧ nesting depth content = some 0 := by
  induction cs generalizing depth content rest with
  | nil => simp [doctypeContent?]
  | cons c cs ih =>
      rw [doctypeContent?]
      by_cases hend : c = '>' ∧ depth = 0
      · rw [if_pos hend]
        obtain ⟨rfl, rfl⟩ := hend
        cases content with
        | nil => simp [nesting]
        | cons d content =>
            simp only [Option.some.injEq, Prod.mk.injEq, List.nil_eq, reduceCtorEq, false_and,
              List.cons_append, List.cons.injEq, false_iff, not_and, and_imp]
            rintro rfl -
            simp [nesting]
      · rw [if_neg hend]
        cases content with
        | nil =>
            simp only [Option.map_eq_some_iff, Prod.mk.injEq, reduceCtorEq, false_and, and_false,
              exists_false, List.nil_append, List.cons.injEq, nesting, Option.some.injEq,
              false_iff, not_and]
            rintro ⟨rfl, -⟩ rfl
            exact hend ⟨rfl, rfl⟩
        | cons d content =>
            have hstep : nesting depth (c :: content) =
                nesting (if c = '<' then depth + 1 else if c = '>' then depth - 1 else depth)
                  content := by
              rw [nesting]
              split
              · rfl
              · split
                · rename_i hclose
                  rw [if_neg fun hzero => hend ⟨hclose, hzero⟩]
                · rfl
            simp only [Option.map_eq_some_iff, Prod.exists, Prod.mk.injEq, List.cons.injEq, ih,
              List.cons_append]
            constructor
            · rintro ⟨b, a, ⟨rfl, hnest⟩, ⟨rfl, rfl⟩, rfl⟩
              exact ⟨⟨rfl, rfl⟩, hstep.trans hnest⟩
            · rintro ⟨⟨rfl, rfl⟩, hnest⟩
              exact ⟨content, rest, ⟨rfl, hstep.symm.trans hnest⟩, ⟨rfl, rfl⟩, rfl⟩

theorem is_blank_of_is_space {c : Char} (h : isSpace c) : Text.isBlank c := by
  simp only [isSpace, Bool.or_eq_true, beq_iff_eq] at h
  rcases h with ((rfl | rfl) | rfl) | rfl <;> rfl

/-- A text that begins with something other than white space loses nothing where white space before
it is dropped. -/
theorem drop_space_of_trimmed {cs : List Char} (h : IsTrimmed cs) : cs.dropWhile isSpace = cs := by
  cases cs with
  | nil => rfl
  | cons c cs =>
      refine List.dropWhile_cons_of_neg fun hspace => ?_
      have hblank := h.1 c rfl
      rw [is_blank_of_is_space hspace] at hblank
      cases hblank

/-- Whether a leaf of a kind is read back from what is written for it. -/
def IsReadable (kind : LeafKind) (cs : List Char) : Prop :=
  match kind with
  | .text => True
  | .cdata => ¬ "]]>".toList <:+: cs
  | .comment => ¬ "-->".toList <:+: cs
  | .declaration => declares cs ∧ ¬ "?>".toList <:+: cs
  | .instruction => declares cs = false ∧ cs.head? ≠ some '>' ∧ ¬ "?>".toList <:+: cs
  | .doctype => cs ≠ [] ∧ IsTrimmed cs ∧ nesting 0 cs = some 0

theorem declares_head {cs : List Char} (h : declares cs) : cs.head? = some 'x' := by
  unfold declares at h
  split at h
  · rename_i hstrip
    rw [stripFront?_eq hstrip]
    rfl
  · rename_i hstrip
    rw [stripFront?_eq hstrip]
    rfl
  · cases h

/-- The content of an instruction is cut where it was closed. The search begins at the question mark
that opens it, so a content that begins with `>` would close it at once. -/
theorem cut_at_instruction {cs : List Char} (hhead : cs.head? ≠ some '>')
    (h : ¬ "?>".toList <:+: cs) (rest : List Char) :
    cutAt? "?>".toList ('?' :: (cs ++ '?' :: '>' :: rest)) = some ('?' :: cs, rest) := by
  have hbody : ¬ ['?'] ++ ['>'] <:+: '?' :: cs := by
    rw [List.infix_cons_iff]
    rintro (⟨more, hmore⟩ | hinfix)
    · obtain ⟨-, hcs⟩ := List.cons_eq_cons.mp hmore
      exact hhead (by rw [← hcs]; rfl)
    · exact h hinfix
  exact cut_at_append ['?'] '>' (by decide) hbody rest

/-- A leaf other than text is read back as one event. -/
theorem markup_leaf {kind : LeafKind} (htext : kind ≠ .text) {s : String}
    (h : IsReadable kind s.toList) (opened : List String) (rest : List Char) :
    ∃ cs, (writeLeaf kind s).toList ++ rest = '<' :: cs ∧
      Takes (markup opened cs) opened (.leaf kind s) rest := by
  have hself : String.ofList s.toList = s := String.ofList_toList
  cases kind with
  | text => exact absurd rfl htext
  | cdata =>
      have hclosed : ¬ "]]>".toList <:+: "![CDATA[".toList ++ s.toList := by
        simpa [IsReadable, List.infix_cons_iff] using h
      have hcut := cut_at_append "]]".toList '>' (by decide) hclosed rest
      have htakes := cdata_takes opened hcut
      rw [hself] at htakes
      exact ⟨_, by simp [writeLeaf, LeafKind.opening, LeafKind.closing], htakes⟩
  | comment =>
      have hcut := cut_at_append "--".toList '>' (by decide) h rest
      have htakes := comment_takes opened hcut
      rw [hself] at htakes
      exact ⟨_, by simp [writeLeaf, LeafKind.opening, LeafKind.closing], htakes⟩
  | declaration =>
      obtain ⟨hdeclares, hclosed⟩ := h
      have hhead : s.toList.head? ≠ some '>' := by simp [declares_head hdeclares]
      have htakes := instruction_takes opened (cut_at_instruction hhead hclosed rest)
      rw [hself, if_pos hdeclares] at htakes
      exact ⟨_, by simp [writeLeaf, LeafKind.opening, LeafKind.closing], htakes⟩
  | instruction =>
      obtain ⟨hdeclares, hhead, hclosed⟩ := h
      have htakes := instruction_takes opened (cut_at_instruction hhead hclosed rest)
      rw [hself, if_neg (by simp [hdeclares])] at htakes
      exact ⟨_, by simp [writeLeaf, LeafKind.opening, LeafKind.closing], htakes⟩
  | doctype =>
      obtain ⟨hne, htrimmed, hnesting⟩ := h
      have hcut : doctypeContent? 0 ("!DOCTYPE ".toList ++ (s.toList ++ '>' :: rest)) =
          some ("!DOCTYPE ".toList ++ s.toList, rest) := by
        rw [doctype_content_iff]
        refine ⟨(List.append_assoc _ _ _).symm, ?_⟩
        have hopening : nesting 0 "!DOCTYPE ".toList = some 0 := by decide
        rw [nesting_append, hopening, Option.bind_some, hnesting]
      have hname : (("!DOCTYPE ".toList ++ s.toList).drop 8).dropWhile isSpace = s.toList := by
        have hdrop : ("!DOCTYPE ".toList ++ s.toList).drop 8 = ' ' :: s.toList := rfl
        rw [hdrop, List.dropWhile_cons_of_pos rfl, drop_space_of_trimmed htrimmed]
      have htakes := doctype_takes opened hcut rfl hname hne
      rw [hself] at htakes
      exact ⟨_, by simp [writeLeaf, LeafKind.opening, LeafKind.closing], htakes⟩

end SvgPress.Markup
