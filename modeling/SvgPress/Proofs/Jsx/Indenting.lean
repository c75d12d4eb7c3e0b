import SvgPress.Jsx.Component
import SvgPress.Proofs.Jsx.Braces
import SvgPress.Proofs.Jsx.Hearing

/-!
Lines that go one level deeper. A component has its JSX in lines with two spaces more, so a text of
one line is left as it is, and a text of several lines never is. The scan of an expression in braces
takes the spaces for nothing: braces that are balanced stay balanced.
-/

namespace SvgPress.Jsx

section Deeper

/-- Whether the first line of a text ends at once. -/
def BeginsEmpty (cs : List Char) : Prop :=
  cs.head? = some '\n' ∨ cs.take 2 = ['\r', '\n']

instance (cs : List Char) : Decidable (BeginsEmpty cs) :=
  inferInstanceAs (Decidable (_ ∨ _))

/-- What is put in front of a line. -/
def pad (cs : List Char) : List Char :=
  if BeginsEmpty cs then [] else [' ', ' ']

/-- What a component renders: its JSX, each line one level deeper. -/
def bodyOf (jsx : String) : String :=
  "\n".intercalate ((Text.lines jsx.toList).map indentLine)

/-- A text with its lines one level deeper, but for the first: two spaces are put behind each line
feed, unless an empty line follows, and a carriage return in front of it goes. -/
def deeper : List Char → List Char
  | [] => []
  | c :: cs =>
    if c = '\n' then '\n' :: (pad cs ++ deeper cs)
    else if c = '\r' ∧ cs.head? = some '\n' then deeper cs
    else c :: deeper cs

variable {cs ds : List Char}

/-- Where no line feed is, nothing changes, unless a carriage return stands in front of one. -/
theorem deeper_front (h : '\n' ∉ cs) (hds : cs.getLast? = some '\r' → ds.head? ≠ some '\n') :
    deeper (cs ++ ds) = cs ++ deeper ds := by
  induction cs with
  | nil => rfl
  | cons c cs ih =>
      rw [List.mem_cons, not_or] at h
      have hkept : ¬ (c = '\r' ∧ (cs ++ ds).head? = some '\n') := by
        rintro ⟨rfl, hhead⟩
        cases cs with
        | nil => exact hds rfl hhead
        | cons d cs =>
            cases hhead
            exact h.2 List.mem_cons_self
      have hrest : cs.getLast? = some '\r' → ds.head? ≠ some '\n' := by
        intro hlast
        refine hds ?_
        rw [List.getLast?_cons, hlast]
        rfl
      rw [List.cons_append, deeper, if_neg (Ne.symm h.1), if_neg hkept, ih h.2 hrest,
        List.cons_append]

theorem deeper_of_line (h : '\n' ∉ cs) : deeper cs = cs := by
  have hfront : deeper (cs ++ []) = cs ++ deeper [] := deeper_front h (by simp)
  rwa [List.append_nil, deeper, List.append_nil] at hfront

/-- Behind a character that is no part of a line ending a text goes on as it would alone. -/
theorem deeper_append {c : Char} (hfeed : c ≠ '\n') (hreturn : c ≠ '\r') (cs ds : List Char) :
    deeper (cs ++ c :: ds) = deeper cs ++ c :: deeper ds := by
  have hempty (more : List Char) : BeginsEmpty (more ++ c :: ds) ↔ BeginsEmpty more := by
    match more with
    | [] => simp [BeginsEmpty, hfeed, hreturn]
    | [d] => simp [BeginsEmpty, hfeed]
    | d :: e :: more => simp [BeginsEmpty]
  induction cs with
  | nil =>
      rw [List.nil_append, deeper, deeper, if_neg hfeed, if_neg fun h => hreturn h.1,
        List.nil_append]
  | cons d cs ih =>
      have hhead : (cs ++ c :: ds).head? = some '\n' ↔ cs.head? = some '\n' := by
        cases cs with
        | nil => simp [hfeed]
        | cons e cs => rfl
      rw [List.cons_append, deeper, deeper, ih]
      simp only [hhead]
      split
      · simp only [pad, hempty, List.cons_append, List.append_assoc]
      · split
        · rfl
        · rfl

theorem pad_of_line (h : '\n' ∉ cs) : pad cs = [' ', ' '] := by
  refine if_neg ?_
  rintro (hhead | htake)
  · exact h (List.mem_of_mem_head? hhead)
  · have hmem : '\n' ∈ cs.take 2 := by simp [htake]
    exact h (List.mem_of_mem_take hmem)

theorem mem_deeper {c : Char} (h : c ∈ deeper cs) : c ∈ cs ∨ c = ' ' := by
  induction cs with
  | nil => exact absurd h List.not_mem_nil
  | cons d cs ih =>
      rw [deeper] at h
      have hrest (hc : c ∈ deeper cs) : c ∈ d :: cs ∨ c = ' ' :=
        (ih hc).imp_left (List.mem_cons_of_mem d)
      split at h
      · rename_i hd
        rw [List.mem_cons, List.mem_append] at h
        rcases h with hc | hc | hc
        · exact .inl (List.mem_cons.mpr (.inl (hc.trans hd.symm)))
        · rw [pad] at hc
          split at hc
          · exact absurd hc List.not_mem_nil
          · simp only [List.mem_cons, List.not_mem_nil, or_false, or_self] at hc
            exact .inr hc
        · exact hrest hc
      · split at h
        · exact hrest h
        · rw [List.mem_cons] at h
          rcases h with hc | hc
          · exact .inl (List.mem_cons.mpr (.inl hc))
          · exact hrest hc

/-- The last line of a text of more than one has two spaces more. -/
theorem deeper_last_line (front : List Char) (h : '\n' ∉ ds) :
    ∃ before, deeper (front ++ '\n' :: ds) =
      before ++ '\n' :: ' ' :: ' ' :: ds := by
  induction front with
  | nil =>
      exact ⟨[], by rw [List.nil_append, deeper, if_pos rfl, pad_of_line h, deeper_of_line h]; rfl⟩
  | cons c front ih =>
      obtain ⟨before, hbefore⟩ := ih
      rw [List.cons_append, deeper, hbefore]
      split
      · exact ⟨'\n' :: (pad (front ++ '\n' :: ds) ++ before), by simp⟩
      · split
        · exact ⟨before, rfl⟩
        · exact ⟨c :: before, rfl⟩

/-- Exactly the texts of one line are left as they are. -/
theorem deeper_eq_self_iff : deeper cs = cs ↔ '\n' ∉ cs := by
  refine ⟨fun hself hmem => ?_, deeper_of_line⟩
  obtain ⟨last, front, hsplit, hlast⟩ := List.eq_append_cons_of_mem (List.mem_reverse.mpr hmem)
  have hcs : cs = front.reverse ++ '\n' :: last.reverse := by
    rw [← List.reverse_reverse cs, hsplit]
    simp
  obtain ⟨before, hbefore⟩ := deeper_last_line front.reverse (mt List.mem_reverse.mp hlast)
  -- The text and the deeper one would have the same last line.
  have hline : (' ' :: ' ' :: last.reverse).rtakeWhile (· != '\n') =
      last.reverse.rtakeWhile (· != '\n') := by
    rw [← Text.take_back_stop (x := '\n') (by simp) before, ← hbefore, ← hcs, hself, hcs,
      Text.take_back_stop (x := '\n') (by simp)]
  have hplain : ∀ c ∈ last.reverse, (c != '\n') = true := by
    intro c hc
    rw [bne_iff_ne]
    rintro rfl
    exact hlast (List.mem_reverse.mp hc)
  rw [List.rtakeWhile_eq_self_iff.mpr hplain, List.rtakeWhile_eq_self_iff.mpr (by
    simpa using hplain)] at hline
  have hlength := congrArg List.length hline
  simp only [List.length_cons] at hlength
  omega

end Deeper

section Lines

open Text.lines (collect ended)

theorem to_list_indent_line (line : List Char) :
    (indentLine line).toList = if line = [] then [] else ' ' :: ' ' :: line := by
  unfold indentLine
  by_cases h : line = []
  · simp [h]
  · simp [h, String.toList_append]

/-- A text that goes on after the beginning of a line begins with an empty line only if that
beginning is the carriage return of its ending. -/
theorem begins_empty_append {line : List Char} (h : '\n' ∉ line) (hne : line ≠ [])
    (cs : List Char) :
    BeginsEmpty (line ++ cs) ↔ line = ['\r'] ∧ cs.head? = some '\n' := by
  match line with
  | [c] =>
      have hc : c ≠ '\n' := fun heq => h (heq ▸ List.mem_cons_self)
      cases cs with
      | nil => simp [BeginsEmpty, hc]
      | cons d cs => simp [BeginsEmpty, hc]
  | c :: d :: line =>
      have hc : c ≠ '\n' := fun heq => h (heq ▸ List.mem_cons_self)
      have hd : d ≠ '\n' := fun heq => h (heq ▸ List.mem_cons_of_mem _ List.mem_cons_self)
      simp [BeginsEmpty, hc, hd]

/-- A line with its ending, one level deeper. -/
theorem deeper_ended {line : List Char} (h : '\n' ∉ line) (cs : List Char) :
    pad (line.reverse ++ '\n' :: cs) ++ deeper (line.reverse ++ '\n' :: cs) =
      (indentLine (ended line)).toList ++ '\n' :: (pad cs ++ deeper cs) := by
  have hreverse {front : List Char} (hfront : '\n' ∉ front) : '\n' ∉ front.reverse :=
    mt List.mem_reverse.mp hfront
  have hfeed : deeper ('\n' :: cs) = '\n' :: (pad cs ++ deeper cs) := by rw [deeper, if_pos rfl]
  rw [to_list_indent_line]
  unfold ended
  split
  · rename_i front
    rw [List.mem_cons, not_or] at h
    have hsplit : ('\r' :: front).reverse ++ '\n' :: cs = front.reverse ++ '\r' :: '\n' :: cs := by
      simp
    have hreturn : deeper ('\r' :: '\n' :: cs) = deeper ('\n' :: cs) := by
      rw [deeper, if_neg (by decide), if_pos ⟨rfl, rfl⟩]
    have hempty : BeginsEmpty (front.reverse ++ '\r' :: '\n' :: cs) ↔ front.reverse = [] := by
      by_cases hfront : front.reverse = []
      · simp [hfront, BeginsEmpty]
      · rw [begins_empty_append (hreverse h.2) hfront]
        simp [hfront]
    rw [hsplit, deeper_front (hreverse h.2) (by simp), hreturn, hfeed, pad]
    simp only [hempty]
    split <;> rename_i hline <;> simp [hline]
  · rename_i hkept
    have hlast : line.reverse.getLast? ≠ some '\r' := by
      rw [List.getLast?_reverse]
      intro hhead
      obtain ⟨front, rfl⟩ := List.head?_eq_some_iff.mp hhead
      exact hkept front rfl
    have hempty : BeginsEmpty (line.reverse ++ '\n' :: cs) ↔ line.reverse = [] := by
      by_cases hfront : line.reverse = []
      · simp [hfront, BeginsEmpty]
      · rw [begins_empty_append (hreverse h) hfront]
        constructor
        · rintro ⟨hline, -⟩
          rw [hline] at hlast
          exact absurd rfl hlast
        · exact fun hnil => absurd hnil hfront
    rw [deeper_front (hreverse h) (fun hreturn => absurd hreturn hlast), hfeed, pad]
    simp only [hempty]
    split <;> rename_i hline <;> simp [hline]

theorem collect_ne_nil (line : List Char) {cs : List Char} (h : line ≠ [] ∨ cs ≠ []) :
    collect line cs ≠ [] := by
  induction cs generalizing line with
  | nil =>
      have hline : line ≠ [] := h.resolve_right fun hne => hne rfl
      simp [collect, hline]
  | cons c cs ih =>
      by_cases hc : c = '\n'
      · rw [hc, collect]
        exact List.cons_ne_nil _ _
      · have hmore := ih (c :: line) (.inl (List.cons_ne_nil _ _))
        simpa [collect] using hmore

/-- Lines put together, each one level deeper, when some of the first one was read before. -/
theorem indent_collect (line : List Char) {cs : List Char} (hline : '\n' ∉ line)
    (hne : line ≠ [] ∨ cs ≠ [])
    (hlast : cs.getLast? ≠ some '\n') :
    ("\n".intercalate ((collect line cs).map indentLine)).toList =
      pad (line.reverse ++ cs) ++ deeper (line.reverse ++ cs) := by
  induction cs generalizing line with
  | nil =>
      have hsome : line ≠ [] := hne.resolve_right fun hnil => hnil rfl
      have hreverse : '\n' ∉ line.reverse := mt List.mem_reverse.mp hline
      rw [List.append_nil, pad_of_line hreverse, deeper_of_line hreverse]
      simp [collect, hsome, to_list_indent_line]
  | cons c cs ih =>
      by_cases hc : c = '\n'
      · subst hc
        have hcs : cs ≠ [] := by
          rintro rfl
          exact hlast rfl
        have hmore := ih [] (by simp) (.inr hcs) (by
          rwa [List.getLast?_cons_of_ne_nil hcs] at hlast)
        rw [List.reverse_nil, List.nil_append] at hmore
        have hcollect : collect line ('\n' :: cs) = ended line :: collect [] cs := rfl
        rw [hcollect, List.map_cons, String.intercalate_cons_of_ne_nil (by
          simpa using collect_ne_nil [] (.inr hcs)), deeper_ended hline, ← hmore]
        simp [String.toList_append]
      · have hmore := ih (c :: line) (by simp [Ne.symm hc, hline])
          (.inl (List.cons_ne_nil _ _)) (by
            intro hend
            refine hlast ?_
            rw [List.getLast?_cons, hend]
            rfl)
        have hcollect : collect line (c :: cs) = collect (c :: line) cs := by
          simp [collect]
        rw [hcollect, hmore]
        simp

theorem body_of_jsx {jsx : String} (hne : jsx.toList ≠ [])
    (hlast : jsx.toList.getLast? ≠ some '\n') :
    bodyOf jsx = String.ofList (pad jsx.toList ++ deeper jsx.toList) := by
  have hlines := indent_collect [] (by simp) (.inr hne) hlast
  rw [List.reverse_nil, List.nil_append] at hlines
  rw [← hlines, String.ofList_toList]
  rfl

/-- A component has its JSX with all lines one level deeper. -/
theorem Component.source_of_jsx (name : String) {jsx : String} (hne : jsx.toList ≠ [])
    (hlast : jsx.toList.getLast? ≠ some '\n') :
    (Component.ofJsx name jsx).source = "const " ++ name ++ " = () => (\n" ++
      String.ofList (pad jsx.toList ++ deeper jsx.toList) ++ "\n);\n" := by
  rw [← body_of_jsx hne hlast]
  rfl

end Lines

namespace Inside

/-- Whether string literals are between quotation marks. -/
def IsMarked : Inside → Prop
  | .quoted mark _ => mark ∈ ['"', '\'', '\x60']
  | .escaped mark _ => mark ∈ ['"', '\'', '\x60']
  | _ => True

variable {s : Inside}

theorem IsMarked.next (h : s.IsMarked) (c : Char) : (s.next c).IsMarked := by
  have hcode (depth : Nat) : (afterCode depth c).IsMarked := by
    unfold afterCode
    split
    · rename_i hmark
      simpa [IsMarked] using hmark
    · split_ifs <;> trivial
  cases s with
  | code depth => exact hcode depth
  | slash depth =>
      rw [Inside.next]
      split_ifs
      · trivial
      · trivial
      · exact hcode depth
  | lineComment depth | blockComment depth | star depth =>
      rw [Inside.next]
      split_ifs <;> trivial
  | quoted mark depth =>
      rw [Inside.next]
      split_ifs
      · exact h
      · trivial
      · exact h
  | escaped mark depth => exact h

/-- A string literal goes on at any character that is no mark and no backslash. -/
theorem next_quoted {mark c : Char} (hmark : mark ∈ ['"', '\'', '\x60'])
    (hc : c ∉ ['\\', '"', '\'', '\x60']) (depth : Nat) :
    (quoted mark depth).next c = quoted mark depth := by
  rw [List.mem_cons, not_or] at hc
  have hne : c ≠ mark := fun heq => hc.2 (heq ▸ hmark)
  rw [next, if_neg hc.1, if_neg hne]

/-- A space behind a line feed changes nothing. -/
theorem next_feed_space (h : s.IsMarked) : (s.next '\n').next ' ' = s.next '\n' := by
  cases s with
  | code depth | slash depth | lineComment depth | blockComment depth | star depth => rfl
  | quoted mark depth => rw [next_quoted h (by decide), next_quoted h (by decide)]
  | escaped mark depth => exact next_quoted h (by decide) depth

/-- A carriage return in front of a line feed changes nothing. -/
theorem next_return_feed (h : s.IsMarked) : (s.next '\r').next '\n' = s.next '\n' := by
  cases s with
  | code depth | slash depth | lineComment depth | blockComment depth | star depth => rfl
  | quoted mark depth => rw [next_quoted h (by decide), next_quoted h (by decide)]
  | escaped mark depth => exact next_quoted h (by decide) depth

theorem after_cons_of_ne (s : Inside) {c : Char} (hc : c ≠ '\x7d') (cs : List Char) :
    s.after? (c :: cs) = (s.next c).after? cs := by
  rw [after?, if_neg (by simp [closes, hc])]

theorem after_pad (h : s.IsMarked) (cs ds : List Char) :
    (s.next '\n').after? (pad cs ++ ds) = (s.next '\n').after? ds := by
  unfold pad
  split
  · rfl
  · rw [List.cons_append, List.cons_append, after_cons_of_ne _ (by decide), next_feed_space h,
      after_cons_of_ne _ (by decide), next_feed_space h, List.nil_append]

/-- A text is scanned one level deeper as it is scanned where it stands. -/
theorem after_deeper (h : s.IsMarked) (cs : List Char) : s.after? (deeper cs) = s.after? cs := by
  induction cs generalizing s with
  | nil => rfl
  | cons c cs ih =>
      rw [deeper]
      split
      · rename_i hc
        rw [hc, after_cons_of_ne _ (by decide), after_cons_of_ne _ (by decide), after_pad h,
          ih (h.next '\n')]
      · split
        · rename_i hreturn
          obtain ⟨rfl, hhead⟩ := hreturn
          obtain ⟨rest, rfl⟩ := List.head?_eq_some_iff.mp hhead
          rw [ih h, after_cons_of_ne _ (by decide), after_cons_of_ne _ (by decide),
            after_cons_of_ne _ (by decide), next_return_feed h]
        · rw [after?, after?, ih (h.next c)]

end Inside

theorem IsClosed.deeper {cs : List Char} (h : IsClosed cs) : IsClosed (deeper cs) := by
  obtain ⟨s, hs, hcloses⟩ := h
  have hmarked : (Inside.code 0).IsMarked := trivial
  exact ⟨s, by rw [Inside.after_deeper hmarked, hs], hcloses⟩

end SvgPress.Jsx
