import SvgPress.Proofs.Identifiers.Following

/-!
References that are written anew, whatever their new names are. Those that are not renamed are read
as before, since no reference reaches over the closing parenthesis of another. Where references are
written anew twice, the second time changes nothing if every name that is then renamed is renamed to
itself: a reference that was written anew is in its plain form already, and what an unfinished
reference has taken over holds a parenthesis, so it is the name of nothing.
-/

namespace SvgPress.Identifiers

theorem take_reference_of_ne_u {c : Char} (h : c ≠ 'u') (cs : List Char) :
    takeReference? (c :: cs) = none := by
  rw [Option.eq_none_iff_forall_ne_some]
  rintro ⟨name, rest⟩ hread
  obtain ⟨lead, trail, hsplit, ⟨blanks, quote, rfl, -, -⟩, -, -⟩ := take_reference_iff.mp hread
  exact h (List.cons_eq_cons.mp hsplit).1

/-- Up to a closing parenthesis no reference begins if none is opened. -/
theorem take_reference_of_no_open {front : List Char} (hopen : '(' ∉ front) (hclose : ')' ∉ front)
    (rest : List Char) : takeReference? (front ++ ')' :: rest) = none := by
  rw [Option.eq_none_iff_forall_ne_some]
  rintro ⟨name, after⟩ hread
  obtain ⟨lead, back, rfl, hlead, -⟩ := take_reference_closed hclose hread
  exact hopen (List.mem_append_left _ (mem_paren_of_lead hlead))

/-- A name that is read where another stands that ends as a name does is that one. -/
theorem take_reference_sealed {new rest name after : List Char} (hnew : IsSealed new)
    (h : takeReference? ("url(#".toList ++ new ++ ')' :: rest) = some (name, after)) :
    name = new := by
  obtain ⟨most, last, rfl, hlast, hmost⟩ := hnew
  have hclose : ')' ∉ most ++ [last] := by
    have hne : ')' ≠ last := (name_char_ne hlast).2.2.symm
    simpa [hne] using hmost
  obtain ⟨lead, trail, hsplit, hlead, hname, htrail⟩ := take_reference_iff.mp h
  obtain ⟨back, rfl, hback, hblank⟩ := htrail.split
  -- both begin with the same mark, so the name begins where the other one does
  have hplain : afterLead? ("url(#".toList ++ (most ++ [last]) ++ ')' :: rest) =
      some (most ++ [last] ++ ')' :: rest) :=
    after_lead_iff.mpr ⟨_, by rw [List.append_assoc], lead_plain⟩
  rw [after_lead_iff.mpr ⟨lead, hsplit, hlead⟩, Option.some.injEq] at hplain
  have hboth : name ++ back ++ ')' :: after = most ++ [last] ++ ')' :: rest := by
    rw [← hplain]
    simp
  obtain ⟨hfront, -⟩ := first_close
    (List.mem_append.not.mpr (not_or.mpr ⟨hname.not_mem_close, hback⟩)) hclose hboth
  rcases List.eq_nil_or_concat back with rfl | ⟨begun, final, rfl⟩
  · rw [← hfront, List.append_nil]
  · rw [List.concat_eq_append, ← List.append_assoc] at hfront
    obtain ⟨-, hfinal⟩ := List.append_inj' hfront rfl
    obtain rfl : final = last := List.singleton_inj.mp hfinal
    have hno := hblank final (by simp)
    rw [hlast] at hno
    cases hno

/-! ### References that stay -/

/-- What follows a closing parenthesis cannot make a reference of the text before it. -/
theorem take_reference_before_close {front rest : List Char}
    (h : takeReference? (front ++ ')' :: rest) = none) (other : List Char) :
    takeReference? (front ++ ')' :: other) = none := by
  by_cases hclose : ')' ∈ front
  · obtain ⟨early, late, rfl, hearly⟩ := List.eq_append_cons_of_mem hclose
    rw [List.append_assoc, List.cons_append] at h ⊢
    exact take_reference_closed_none hearly h _
  · exact take_reference_closed_none hclose h other

/-- References behind a closing parenthesis are read whatever stands before it. -/
theorem names_behind_close (front : List Char) {rest : List Char} {name : String}
    (h : name ∈ namesOf rest) : name ∈ namesOf (front ++ ')' :: rest) := by
  induction hlength : front.length using Nat.strongRecOn generalizing front with
  | ind n ih =>
      cases front with
      | nil =>
          rw [List.nil_append, names_of_plain (take_reference_of_ne_u (by decide) rest)]
          exact h
      | cons c front =>
          rw [List.length_cons] at hlength
          cases htake : takeReference? (c :: front ++ ')' :: rest) with
          | none =>
              rw [List.cons_append] at htake
              rw [List.cons_append, names_of_plain htake]
              exact ih front.length (by omega) front rfl
          | some found =>
              obtain ⟨inner, after⟩ := found
              obtain ⟨lead, trail, hsplit, hlead, hname, htrail⟩ := take_reference_iff.mp htake
              have hafter : name ∈ namesOf after := by
                by_cases hclose : ')' ∈ c :: front
                · -- the reference ends with the first parenthesis, which stands before this one
                  obtain ⟨early, late, heq, hearly⟩ := List.eq_append_cons_of_mem hclose
                  have hshort := congrArg List.length heq
                  rw [List.length_cons, List.length_append, List.length_cons] at hshort
                  rw [heq, List.append_assoc, List.cons_append] at htake
                  obtain ⟨-, -, -, -, -, -, rfl⟩ := take_reference_closed hearly htake
                  exact ih late.length (by omega) late rfl
                · obtain ⟨-, -, -, -, -, -, rfl⟩ := take_reference_closed hclose htake
                  exact h
              rw [hsplit, names_of_reference hlead hname htrail]
              exact List.mem_cons_of_mem _ hafter

/-- A reference that is not renamed is still there, whatever the others are renamed to. -/
theorem mem_names_render_of_none {renames : Renaming} {cs : List Char} {name : String}
    (h : name ∈ namesOf cs) (hnone : renames.lookup name = none) :
    name ∈ namesOf (render renames cs) := by
  induction cs using segments_strong_induction with
  | nil => cases h
  | plain c cs htake ih =>
      rw [names_of_plain htake] at h
      rw [render_of_plain htake]
      rcases segments_split cs with
        hplain | ⟨front, lead, old, trail, behind, rfl, hlead, hold, htrail, hsegments⟩
      · rw [namesOf, hplain, names_plain] at h
        cases h
      cases hlookup : renames.lookup (String.ofList old) with
      | some new =>
          have hbehind : name ∈ namesOf behind := by
            rw [names_of_segments hsegments] at h
            refine (List.mem_cons.mp h).resolve_left ?_
            rintro rfl
            rw [hlookup] at hnone
            cases hnone
          have hlater := ih behind (by simp only [List.length_append]; omega) hbehind
          have hclosed := names_behind_close (c :: front ++ ("url(#".toList ++ new.toList)) hlater
          rw [render_of_segments hsegments, Segment.renamed, hlookup]
          simpa using hclosed
      | none =>
          obtain ⟨back, rfl, -, -⟩ := htrail.split
          have hbefore : takeReference? (c :: front ++ (lead ++ (old ++ back)) ++ ')' :: behind) =
              none := by
            rw [← htake]
            simp
          have hstay : takeReference? (c :: render renames
              (front ++ (lead ++ (old ++ (back ++ [')'] ++ behind))))) = none := by
            rw [render_of_segments hsegments, Segment.renamed, hlookup,
              ← take_reference_before_close hbefore (render renames behind)]
            simp
          rw [names_of_plain hstay]
          exact ih _ (Nat.le_refl _) h
  | reference lead old trail rest hlead hold htrail ih =>
      rw [names_of_reference hlead hold htrail, List.mem_cons] at h
      cases hlookup : renames.lookup (String.ofList old) with
      | none =>
          rw [render_of_kept hlead hold htrail rest hlookup, names_of_reference hlead hold htrail,
            List.mem_cons]
          exact h.imp_right ih
      | some new =>
          have hrest : name ∈ namesOf rest := by
            refine h.resolve_left ?_
            rintro rfl
            rw [hlookup] at hnone
            cases hnone
          have hclosed := names_behind_close ("url(#".toList ++ new.toList) (ih hrest)
          rw [render_of_renamed hlead hold htrail rest hlookup]
          simpa using hclosed

/-! ### References that are written twice -/

section Render

variable {renames next : Renaming}

theorem render_past {front : List Char} (hopen : '(' ∉ front) (hclose : ')' ∉ front)
    (rest : List Char) :
    render renames (front ++ ')' :: rest) = front ++ ')' :: render renames rest := by
  induction front with
  | nil => exact render_of_plain (take_reference_of_no_open hopen hclose rest)
  | cons c front ih =>
      have htake := take_reference_of_no_open hopen hclose rest
      rw [List.cons_append] at htake ⊢
      rw [render_of_plain htake, List.cons_append,
        ih (fun hmem => hopen (List.mem_cons_of_mem c hmem))
          fun hmem => hclose (List.mem_cons_of_mem c hmem)]

/-- What was written for a name that cannot be read is no reference. -/
theorem render_unreadable {new : List Char} (hmade : IsMade new) (hname : ¬ IsName new)
    (rest : List Char) : render renames ("url(#".toList ++ new ++ ')' :: rest) =
      "url(#".toList ++ new ++ ')' :: render renames rest := by
  obtain ⟨most, last, hlast, hend, hlastOpen, hmost⟩ := hmade
  have hopen : '(' ∉ '#' :: new := by
    rw [hlast, List.mem_cons, List.mem_append, List.mem_singleton, not_or, not_or]
    exact ⟨by decide, fun hmem => (hmost _ hmem).2.2.2 rfl, hlastOpen.symm⟩
  have hclose : ')' ∉ '#' :: new := by
    rw [hlast, List.mem_cons, List.mem_append, List.mem_singleton, not_or, not_or]
    exact ⟨by decide, fun hmem => (hmost _ hmem).2.2.1 rfl, (name_char_ne hend).2.2.symm⟩
  have hunread : takeReference? ("url(#".toList ++ new ++ ')' :: rest) = none := by
    rw [Option.eq_none_iff_forall_ne_some]
    rintro ⟨name, after⟩ hread
    have hsealed : IsSealed new := ⟨most, last, hlast, hend, fun hmem => (hmost _ hmem).2.2.1 rfl⟩
    obtain ⟨lead, trail, -, -, hread', -⟩ := take_reference_iff.mp hread
    rw [take_reference_sealed hsealed hread] at hread'
    exact hname hread'
  have hlater (c : Char) (hc : c ≠ 'u') (cs : List Char) :
      render renames (c :: cs) = c :: render renames cs :=
    render_of_plain (take_reference_of_ne_u hc cs)
  have hbegin : "url(#".toList ++ new ++ ')' :: rest =
      'u' :: 'r' :: 'l' :: '(' :: ('#' :: new ++ ')' :: rest) := rfl
  rw [hbegin] at hunread ⊢
  rw [render_of_plain hunread, hlater _ (by decide), hlater _ (by decide), hlater _ (by decide),
    render_past hopen hclose]
  rfl

/-- A text that was written anew stays as it is when names are renamed to themselves. -/
theorem render_render (hsame : ∀ name new, next.lookup name = some new → new = name)
    (hopen : ∀ name, next.has name → '(' ∉ name.toList) {cs : List Char}
    (hmade : ∀ name ∈ namesOf cs, ∀ new, renames.lookup name = some new → IsMade new.toList)
    (hkept : ∀ name ∈ namesOf cs, renames.lookup name = none → next.lookup name = none) :
    render next (render renames cs) = render renames cs := by
  induction cs using segments_strong_induction with
  | nil => rfl
  | plain c cs htake ih =>
      rw [names_of_plain htake] at hmade hkept
      rw [render_of_plain htake]
      cases hread : takeReference? (c :: render renames cs) with
      | none => rw [render_of_plain hread, ih cs (Nat.le_refl _) hmade hkept]
      | some found =>
          obtain ⟨name, rest⟩ := found
          obtain ⟨front, written, old, behind, new, -, begun, hcs, hsegments, -, -, -, rfl, rfl⟩ :=
            take_reference_render (fun name hname new hnew => (hmade name hname new hnew).sealed)
              htake hread
          obtain ⟨lead, trail, hsplit, hlead, hname, htrail⟩ := take_reference_iff.mp hread
          have hbehind : namesOf behind ⊆ namesOf cs := by
            rw [names_of_segments hsegments]
            exact List.subset_cons_self _ _
          have hlength : behind.length ≤ cs.length := by
            rw [hcs, List.length_append, List.length_append]
            omega
          have htaken : next.lookup (String.ofList (begun ++ ("url(#".toList ++ new.toList))) =
              none := by
            rw [← Option.not_isSome_iff_eq_none]
            intro hhas
            exact hopen _ hhas (by simp)
          rw [hsplit, render_of_kept hlead hname htrail _ htaken,
            ih behind hlength (fun name hname => hmade name (hbehind hname))
              fun name hname => hkept name (hbehind hname)]
  | reference lead name trail rest hlead hname htrail ih =>
      rw [names_of_reference hlead hname htrail, List.forall_mem_cons] at hmade hkept
      have hrest := ih hmade.2 hkept.2
      cases hlookup : renames.lookup (String.ofList name) with
      | none =>
          rw [render_of_kept hlead hname htrail rest hlookup,
            render_of_kept hlead hname htrail _ (hkept.1 hlookup), hrest]
      | some new =>
          rw [render_of_renamed hlead hname htrail rest hlookup]
          by_cases hread : IsName new.toList
          · cases hagain : next.lookup new with
            | none =>
                rw [← String.ofList_toList (s := new)] at hagain
                rw [render_of_kept lead_plain hread trail_plain _ hagain, hrest]
            | some found =>
                obtain rfl := hsame new found hagain
                rw [← String.ofList_toList (s := found)] at hagain
                rw [render_of_renamed lead_plain hread trail_plain _ hagain, hrest]
                simp
          · have hunread :
                render next ("url(#".toList ++ new.toList ++ ')' :: render renames rest) =
                "url(#".toList ++ new.toList ++ ')' :: render next (render renames rest) :=
              render_unreadable (hmade.1 new hlookup) hread _
            rw [hrest] at hunread
            simpa using hunread

end Render

/-- An attribute in which no reference changes is left alone by names that are given to
themselves. -/
theorem follow_of_same {next : Renaming}
    (hsame : ∀ name new, next.lookup name = some new → new = name) {a : Attribute}
    (h : renameInValue next a.value = a.value) : follow next a = a.value := by
  rw [follow, h]
  split
  · rename_i new hbind
    obtain ⟨name, htarget, hnew⟩ := Option.bind_eq_some_iff.mp hbind
    rw [hsame name new hnew]
    exact (target_iff.mp htarget).2.symm
  · rfl

end SvgPress.Identifiers
