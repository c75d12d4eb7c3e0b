import Mathlib.Data.List.Forall2
import SvgPress.Proofs.Identifiers.Renaming

/-!
Mentions: the references of a text, each with the plain text before it. Where references are written
anew with names that can be read, the mentions stay in their order. One of a name that was replaced
is one of the new name, unless the text before it had begun a reference: then it is one of
everything from there to the end of the new name.
-/

namespace SvgPress.Identifiers

/-- The names of references, each with the plain text before it. -/
def mentions : List Segment → List (List Char × String)
  | [] => []
  | .reference _ name :: rest => ([], String.ofList name) :: mentions rest
  | .plain c :: rest => (mentions rest).modifyHead fun mention => (c :: mention.1, mention.2)

def mentionsIn (value : String) : List (List Char × String) :=
  mentions (segments value)

/-- Whether a text has begun a reference somewhere and not left its name. -/
def overruns : List Char → Bool
  | [] => false
  | c :: cs => beginsReference (c :: cs) || overruns cs

theorem names_of_mentions (ss : List Segment) :
    (mentions ss).map Prod.snd = ss.filterMap Segment.name? := by
  induction ss with
  | nil => rfl
  | cons s ss ih =>
      cases s with
      | reference written name => exact congrArg (String.ofList name :: ·) ih
      | plain c =>
          have hplain : (Segment.plain c :: ss).filterMap Segment.name? =
            ss.filterMap Segment.name? := rfl
          rw [mentions, hplain, ← ih]
          cases mentions ss <;> rfl

theorem names_of_eq_mentions (cs : List Char) :
    namesOf cs = (mentions (segmentsOf cs)).map Prod.snd :=
  (names_of_mentions (segmentsOf cs)).symm

theorem names_in_eq_mentions (value : String) : namesIn value = (mentionsIn value).map Prod.snd :=
  (names_of_mentions (segments value)).symm

theorem mentions_append (front written name : List Char) (ss : List Segment) :
    mentions (front.map .plain ++ .reference written name :: ss) =
      (front, String.ofList name) :: mentions ss := by
  induction front with
  | nil => rfl
  | cons c front ih =>
      rw [List.map_cons, List.cons_append, mentions, ih]
      rfl

theorem run_up_eq_mentions (ss : List Segment) :
    (runUp ss).2 = (mentions ss).head?.map Prod.snd ∧
      ∀ mention ∈ (mentions ss).head?, (runUp ss).1 = mention.1 := by
  induction ss with
  | nil => exact ⟨rfl, by simp [mentions]⟩
  | cons s ss ih =>
      cases s with
      | reference written name => exact ⟨rfl, by simp [mentions, runUp]⟩
      | plain c =>
          rw [mentions, runUp]
          cases hss : mentions ss with
          | nil =>
              rw [hss] at ih
              exact ⟨ih.1, by simp⟩
          | cons mention more =>
              rw [hss] at ih
              simpa using ih

theorem mentions_plain (front : List Char) : mentions (front.map .plain) = [] := by
  induction front with
  | nil => rfl
  | cons c front ih =>
      rw [List.map_cons, mentions, ih]
      rfl

/-- Only mentions behind an unfinished reference are swallowed. -/
theorem swallows_eq_false_iff {renamed : String → Bool} {ss : List Segment} :
    swallows renamed ss = false ↔
      ∀ mention ∈ mentions ss, renamed mention.2 → overruns mention.1 = false := by
  induction ss with
  | nil => simp [swallows, mentions]
  | cons s ss ih =>
      rw [swallows, Bool.or_eq_false_iff, ih]
      cases s with
      | reference written name =>
          have hnot : runsOver renamed (.reference written name :: ss) = false := rfl
          rw [mentions, List.forall_mem_cons, hnot]
          simp [overruns]
      | plain c =>
          obtain ⟨hnext, hfront⟩ := run_up_eq_mentions ss
          rw [mentions, runsOver, runUp]
          cases hss : mentions ss with
          | nil =>
              rw [hss] at hnext
              simp [show (runUp ss).2 = none from hnext]
          | cons mention more =>
              rw [hss] at hnext hfront
              simp only [show (runUp ss).2 = some mention.2 from hnext,
                show (runUp ss).1 = mention.1 from hfront mention rfl, List.modifyHead_cons,
                List.forall_mem_cons, overruns]
              cases renamed mention.2 <;> simp [and_assoc]

/-! ### What becomes of a mention -/

/-- What a mention becomes when references are written anew. -/
def MentionFollows (renames : Renaming) (old new : List Char × String) : Prop :=
  match renames.lookup old.2 with
  | none => new = old
  | some name =>
    if overruns old.1 then ∃ begun, new.2.toList = begun ++ ("url(#".toList ++ name.toList)
    else new = (old.1, name)

section

variable {renames : Renaming} {before : List Char} {old name : String} {found : List Char × String}

theorem mention_follows_none (h : renames.lookup old = none) :
    MentionFollows renames (before, old) found ↔ found = (before, old) := by
  simp only [MentionFollows, h]

theorem mention_follows_overrun (h : renames.lookup old = some name) (hover : overruns before) :
    MentionFollows renames (before, old) found ↔
      ∃ begun, found.2.toList = begun ++ ("url(#".toList ++ name.toList) := by
  simp only [MentionFollows, h, hover, if_true]

theorem mention_follows_apart (h : renames.lookup old = some name)
    (hapart : overruns before = false) :
    MentionFollows renames (before, old) found ↔ found = (before, name) := by
  simp only [MentionFollows, h, hapart, Bool.false_eq_true, if_false]

/-- A character more before a mention, if no reference begins with it. -/
theorem MentionFollows.cons (h : MentionFollows renames (before, old) found) {c : Char}
    (hplain : beginsReference (c :: before) → renames.lookup old = none) :
    MentionFollows renames (c :: before, old) (c :: found.1, found.2) := by
  cases hlookup : renames.lookup old with
  | none =>
      rw [mention_follows_none hlookup] at h ⊢
      rw [h]
  | some name =>
      have hbegins : beginsReference (c :: before) = false := by
        rw [Bool.eq_false_iff]
        intro hbegins
        rw [hplain hbegins] at hlookup
        cases hlookup
      have hover : overruns (c :: before) = overruns before := by
        rw [overruns, hbegins, Bool.false_or]
      cases hbefore : overruns before with
      | true =>
          rw [hbefore] at hover
          rw [mention_follows_overrun hlookup hbefore] at h
          exact (mention_follows_overrun hlookup hover).mpr h
      | false =>
          rw [hbefore] at hover
          rw [mention_follows_apart hlookup hbefore] at h
          rw [mention_follows_apart hlookup hover, h]

end

theorem mentions_of_plain {c : Char} {cs : List Char} (h : takeReference? (c :: cs) = none) :
    mentions (segmentsOf (c :: cs)) =
      (mentions (segmentsOf cs)).modifyHead fun mention => (c :: mention.1, mention.2) := by
  rw [segments_of_plain h, mentions]

theorem mentions_of_reference {lead name trail : List Char} (hlead : IsLead lead)
    (hname : IsName name) (htrail : IsTrail trail) (rest : List Char) :
    mentions (segmentsOf (lead ++ (name ++ (trail ++ rest)))) =
      ([], String.ofList name) :: mentions (segmentsOf rest) := by
  rw [segments_of_reference hlead hname htrail, mentions]

section Render

variable {renames : Renaming}

/-- An unfinished reference takes the next one, if that was renamed to a name that can be read. -/
theorem take_reference_of_begins {c : Char} {cs before : List Char} {old new : String}
    {more : List (List Char × String)}
    (hmentions : mentions (segmentsOf cs) = (before, old) :: more)
    (hbegins : beginsReference (c :: before)) (hnew : renames.lookup old = some new)
    (hname : IsName new.toList) : (takeReference? (c :: render renames cs)).isSome := by
  rcases segments_split cs with
    hplain | ⟨front, lead, name, trail, rest, -, hlead, -, htrail, hsegments⟩
  · rw [hplain, mentions_plain] at hmentions
    cases hmentions
  · rw [hsegments, mentions_append] at hmentions
    obtain ⟨rfl, rfl⟩ := Prod.mk.inj (List.cons_eq_cons.mp hmentions).1
    obtain ⟨lead', begun, hfront, hlead', hbegun⟩ := begins_reference_iff.mp hbegins
    have hjoined : IsName (begun ++ ("url(#".toList ++ new.toList)) := by
      refine ⟨by simp, fun d hd => ?_⟩
      rcases List.mem_append.mp hd with hd | hd
      · exact hbegun d hd
      · rcases List.mem_append.mp hd with hd | hd
        · exact List.all_eq_true.mp (by decide : "url(#".toList.all isNameChar) d hd
        · exact hname.2 d hd
    have hrender : c :: render renames cs = lead' ++ ((begun ++ ("url(#".toList ++ new.toList)) ++
        ([')'] ++ render renames rest)) := by
      rw [render_of_segments hsegments, Segment.renamed, hnew, ← List.cons_append, hfront]
      simp
    rw [hrender, take_reference_parts hlead' hjoined trail_plain]
    rfl

/-- A character that stays plain, since no reference begins with it. -/
theorem mentions_cons_of_plain {c : Char} {cs : List Char}
    (hread : takeReference? (c :: render renames cs) = none)
    (hnames : ∀ name ∈ namesOf cs, ∀ new, renames.lookup name = some new → IsName new.toList)
    (h : List.Forall₂ (MentionFollows renames) (mentions (segmentsOf cs))
      (mentions (segmentsOf (render renames cs)))) :
    List.Forall₂ (MentionFollows renames)
      ((mentions (segmentsOf cs)).modifyHead fun mention => (c :: mention.1, mention.2))
      ((mentions (segmentsOf (render renames cs))).modifyHead
        fun mention => (c :: mention.1, mention.2)) := by
  rw [names_of_eq_mentions] at hnames
  generalize mentions (segmentsOf (render renames cs)) = found at h
  cases hmentions : mentions (segmentsOf cs) with
  | nil =>
      rw [hmentions, List.forall₂_nil_left_iff] at h
      rw [h]
      exact .nil
  | cons mention more =>
      obtain ⟨before, old⟩ := mention
      rw [hmentions] at h hnames
      obtain ⟨found, rest, hfirst, hrest, rfl⟩ := List.forall₂_cons_left_iff.mp h
      refine .cons (hfirst.cons fun hbegins => ?_) hrest
      -- otherwise the unfinished reference would have taken the mention
      rw [Option.eq_none_iff_forall_ne_some]
      intro new hnew
      have hsome := take_reference_of_begins hmentions hbegins hnew
        (hnames old List.mem_cons_self new hnew)
      rw [hread] at hsome
      cases hsome

/-- A character with which a reference begins only now takes the mention behind it, and no other. -/
theorem mentions_cons_of_reference {c : Char} {cs name rest : List Char}
    (hsealed : ∀ name ∈ namesOf cs, ∀ new, renames.lookup name = some new → IsSealed new.toList)
    (htake : takeReference? (c :: cs) = none)
    (hread : takeReference? (c :: render renames cs) = some (name, rest))
    (h : ∀ ds, ds.length ≤ cs.length → namesOf ds ⊆ namesOf cs →
      List.Forall₂ (MentionFollows renames) (mentions (segmentsOf ds))
        (mentions (segmentsOf (render renames ds)))) :
    List.Forall₂ (MentionFollows renames) (mentions (segmentsOf (c :: cs)))
      (mentions (segmentsOf (c :: render renames cs))) := by
  obtain ⟨front, written, old, behind, new, lead', begun, hcs, hsegments, hlookup, hfront, hlead',
    rfl, rfl⟩ := take_reference_render hsealed htake hread
  obtain ⟨lead, trail, hw, hlead, hname, htrail⟩ := take_reference_iff.mp hread
  have hbegins : beginsReference (c :: front) := begins_reference_iff.mpr
    ⟨lead', begun, hfront, hlead', fun d hd => hname.2 d (List.mem_append_left _ hd)⟩
  have hover : overruns (c :: front) := by
    rw [overruns, hbegins, Bool.true_or]
  have hbehind : namesOf behind ⊆ namesOf cs := by
    rw [names_of_segments hsegments]
    exact List.subset_cons_self _ _
  rw [hw, mentions_of_reference hlead hname htrail, segments_of_plain htake, hsegments,
    ← List.cons_append, ← List.map_cons, mentions_append]
  refine .cons ((mention_follows_overrun hlookup hover).mpr ⟨begun, by simp⟩) (h behind ?_ hbehind)
  rw [hcs, List.length_append, List.length_append]
  omega

theorem mentions_render {cs : List Char}
    (hnames : ∀ name ∈ namesOf cs, ∀ new, renames.lookup name = some new → IsName new.toList) :
    List.Forall₂ (MentionFollows renames) (mentions (segmentsOf cs))
      (mentions (segmentsOf (render renames cs))) := by
  induction cs using segments_strong_induction with
  | nil => exact .nil
  | plain c cs htake ih =>
      rw [names_of_plain htake] at hnames
      rw [render_of_plain htake]
      cases hread : takeReference? (c :: render renames cs) with
      | none =>
          rw [mentions_of_plain htake, mentions_of_plain hread]
          exact mentions_cons_of_plain hread hnames (ih cs (Nat.le_refl _) hnames)
      | some found =>
          have hsealed : ∀ name ∈ namesOf cs, ∀ new, renames.lookup name = some new →
              IsSealed new.toList := fun name hname new hnew => (hnames name hname new hnew).sealed
          exact mentions_cons_of_reference hsealed htake hread fun ds hds hsub =>
            ih ds hds fun name hname => hnames name (hsub hname)
  | reference lead name trail rest hlead hname htrail ih =>
      rw [names_of_reference hlead hname htrail, List.forall_mem_cons] at hnames
      rw [mentions_of_reference hlead hname htrail]
      cases hlookup : renames.lookup (String.ofList name) with
      | none =>
          rw [render_of_kept hlead hname htrail rest hlookup,
            mentions_of_reference hlead hname htrail]
          exact .cons ((mention_follows_none hlookup).mpr rfl) (ih hnames.2)
      | some new =>
          rw [render_of_renamed hlead hname htrail rest hlookup,
            mentions_of_reference lead_plain (hnames.1 new hlookup) trail_plain,
            String.ofList_toList]
          exact .cons ((mention_follows_apart hlookup rfl).mpr rfl) (ih hnames.2)

end Render

/-! ### References that are read back -/

/-- Whether every renamed reference is read back: its new name holds no white space, and no
unfinished reference stands before it. -/
def IsClean (renames : Renaming) (ss : List Segment) : Prop :=
  (∀ name ∈ ss.filterMap Segment.name?, ∀ new, renames.lookup name = some new →
    IsName new.toList) ∧ swallows renames.has ss = false

theorem getElem?_of_forall₂ {α β : Type} {r : α → β → Prop} {as : List α} {bs : List β}
    (h : List.Forall₂ r as bs) {k : Nat} {a : α} (ha : as[k]? = some a) :
    ∃ b, bs[k]? = some b ∧ r a b := by
  induction h generalizing k with
  | nil => cases ha
  | @cons first other as bs hfirst _ ih =>
      cases k with
      | zero =>
          obtain rfl : first = a := Option.some.inj ha
          exact ⟨other, rfl, hfirst⟩
      | succ k => exact ih ha

/-- A new name that is read back was not taken over: otherwise a parenthesis would have come into
it. -/
theorem MentionFollows.overruns_eq_false {renames : Renaming} {before : List Char}
    {old new : String} {found : List Char × String}
    (h : MentionFollows renames (before, old) found) (hlookup : renames.lookup old = some new)
    (hmade : IsMade new.toList) (hread : found.2 = new) : overruns before = false := by
  rw [Bool.eq_false_iff]
  intro hover
  obtain ⟨begun, hbegun⟩ := (mention_follows_overrun hlookup hover).mp h
  rw [hread] at hbegun
  have hmark : '(' ∈ new.toList := by
    rw [hbegun]
    simp
  obtain ⟨most, last, hlast, -, hlastMark, hmost⟩ := hmade
  rw [hlast] at hmark
  rcases List.mem_append.mp hmark with hmem | hmem
  · exact (hmost _ hmem).2.2.2 rfl
  · exact hlastMark (List.mem_singleton.mp hmem).symm

/-- A mention that was not taken over is one of the new name, where there is one. -/
theorem MentionFollows.snd_eq {renames : Renaming} {before : List Char} {old : String}
    {found : List Char × String} (h : MentionFollows renames (before, old) found)
    (hapart : renames.has old → overruns before = false) :
    found.2 = (renames.lookup old).getD old := by
  cases hlookup : renames.lookup old with
  | none =>
      rw [(mention_follows_none hlookup).mp h]
      rfl
  | some new =>
      have hhas : renames.has old := by
        rw [Renaming.has, hlookup]
        rfl
      rw [(mention_follows_apart hlookup (hapart hhas)).mp h]
      rfl

/-- Renamed references are read back one by one exactly if nothing is in their way. What it means to
be read back is left open for the names that are not renamed, as long as they can stay as they
are. -/
theorem names_render_iff {renames : Renaming} {follows : String → String → Prop}
    (hmade : ∀ name new, renames.lookup name = some new → IsMade new.toList)
    (hnew : ∀ name new, renames.lookup name = some new → ∀ found, follows name found ↔ found = new)
    {cs : List Char}
    (hold : ∀ name ∈ namesOf cs, renames.lookup name = none → follows name name) :
    List.Forall₂ follows (namesOf cs) (namesOf (render renames cs)) ↔
      IsClean renames (segmentsOf cs) := by
  constructor
  · intro h
    have hnames : ∀ name ∈ namesOf cs, ∀ new, renames.lookup name = some new →
        IsName new.toList := by
      intro name hname new hlookup
      obtain ⟨k, hk⟩ := List.mem_iff_getElem?.mp hname
      obtain ⟨found, hfound, hfollows⟩ := getElem?_of_forall₂ h hk
      obtain rfl : found = new := (hnew name new hlookup found).mp hfollows
      exact is_name_of_mem (List.mem_of_getElem? hfound)
    refine ⟨hnames, swallows_eq_false_iff.mpr fun mention hmention hhas => ?_⟩
    obtain ⟨new, hlookup⟩ := Option.isSome_iff_exists.mp hhas
    rw [names_of_eq_mentions, names_of_eq_mentions, List.forall₂_map_left_iff,
      List.forall₂_map_right_iff] at h
    -- the mention in its place, as it is read back and as it was written
    obtain ⟨k, hk⟩ := List.mem_iff_getElem?.mp hmention
    obtain ⟨found, hfound, hfollows⟩ := getElem?_of_forall₂ h hk
    obtain ⟨other, hother, hread⟩ := getElem?_of_forall₂ (mentions_render hnames) hk
    obtain rfl : other = found := Option.some.inj (hother.symm.trans hfound)
    exact hread.overruns_eq_false hlookup (hmade _ _ hlookup)
      ((hnew _ _ hlookup _).mp hfollows)
  · rintro ⟨hnames, hswallows⟩
    have hapart : ∀ mention ∈ mentions (segmentsOf cs), mention.2 ∈ namesOf cs ∧
        (renames.has mention.2 → overruns mention.1 = false) := by
      intro mention hmention
      refine ⟨?_, swallows_eq_false_iff.mp hswallows mention hmention⟩
      rw [names_of_eq_mentions]
      exact List.mem_map_of_mem hmention
    rw [names_of_eq_mentions, names_of_eq_mentions, List.forall₂_map_left_iff,
      List.forall₂_map_right_iff]
    refine ((List.forall₂_and_left _ _).mpr ⟨hapart, mentions_render hnames⟩).imp ?_
    rintro ⟨before, old⟩ found ⟨⟨hmem, hfree⟩, hread⟩
    rw [hread.snd_eq hfree]
    cases hlookup : renames.lookup old with
    | none => exact hold old hmem hlookup
    | some new => exact (hnew old new hlookup new).mpr rfl

end SvgPress.Identifiers
