import SvgPress.Proofs.Jsx.Scripts
import SvgPress.Proofs.Jsx.Wrapping

/-!
Converted markup as an expression. The pieces of a root element are one element also for the reader
of scripts, and so they are with all lines one level deeper, if every name and every key in them is
one that JSX and scripts can have. Then the keys leave no object literal, and the component around
the JSX ends where it was meant to.
-/

namespace SvgPress.Jsx

section Members

/-- Whether a text is a key that a script can have: an identifier or a quoted string. -/
def IsKey (key : String) : Prop :=
  IsIdentifier key.toList ∨ ∃ s, key = Json.quote s

variable {key : String} {members : List (String × String)}

theorem IsIdentifier.parts {cs : List Char} (h : IsIdentifier cs) : ∀ c ∈ cs, isPart c := by
  obtain ⟨first, rest, rfl, hfirst, hrest⟩ := h
  exact List.forall_mem_cons.mpr ⟨part_of_start hfirst, hrest⟩

theorem IsKey.steady (h : IsKey key) : ∀ c ∈ key.toList, c ≠ '\n' ∧ c ≠ '\r' := by
  rcases h with h | ⟨s, rfl⟩
  · intro c hc
    have hspace := space_not_part (h.parts c hc)
    constructor <;>
      · rintro rfl
        cases hspace
  · exact steady_quote s

/-- Code without braces, slashes and quotation marks leaves the reader where it was. -/
theorem after_plain (depth : Nat) {cs : List Char}
    (h : ∀ c ∈ cs, c ∉ "\x7b\x7d/\"'\x60".toList) :
    Inside.after? (.code depth) cs = some (.code depth) := by
  induction cs with
  | nil => rfl
  | cons c cs ih =>
      rw [List.forall_mem_cons] at h
      have hc : c ≠ '\x7b' ∧ c ≠ '\x7d' ∧ c ≠ '/' ∧ c ≠ '"' ∧ c ≠ '\'' ∧ c ≠ '\x60' := by
        simpa using h.1
      obtain ⟨hopen, hclose, hslash, hmarks⟩ := hc
      rw [Inside.after?, if_neg (by simp [Inside.closes, hclose]), Inside.next, Inside.afterCode,
        if_neg (by simp [hmarks]), if_neg hslash, if_neg hopen, if_neg hclose, ih h.2]

theorem after_quoted (depth : Nat) (s : String) :
    Inside.after? (.code depth) (Json.quote s).toList = some (.code depth) := by
  rw [Json.quote, String.toList_ofList, after_quote]

theorem IsKey.after (h : IsKey key) (depth : Nat) :
    Inside.after? (.code depth) key.toList = some (.code depth) := by
  rcases h with h | ⟨s, rfl⟩
  · have hnone : ∀ c ∈ "\x7b\x7d/\"'\x60".toList, isPart c = false := by decide +kernel
    refine after_plain depth fun c hc hspecial => ?_
    have hpart := h.parts c hc
    rw [hnone c hspecial] at hpart
    cases hpart
  · exact after_quoted depth s

theorem after_entries (depth : Nat) (h : ∀ m ∈ members, IsKey m.1) :
    Inside.after? (.code depth) (", ".intercalate (members.map entryOf)).toList =
      some (.code depth) := by
  have hentry (m : String × String) (hkey : IsKey m.1) :
      Inside.after? (.code depth) (entryOf m).toList = some (.code depth) := by
    rw [entryOf, String.toList_append, String.toList_append, Inside.after_append,
      Inside.after_append, hkey.after, Option.bind_some, after_plain depth (by decide),
      Option.bind_some, after_quoted]
  induction members with
  | nil => rfl
  | cons m members ih =>
      rw [List.forall_mem_cons] at h
      cases members with
      | nil =>
          rw [List.map_singleton, String.intercalate_singleton]
          exact hentry m h.1
      | cons next members =>
          rw [List.map_cons, List.map_cons, String.intercalate_cons_cons, ← List.map_cons,
            String.toList_append, String.toList_append, Inside.after_append, Inside.after_append,
            hentry m h.1, Option.bind_some, after_plain depth (by decide), Option.bind_some, ih h.2]

/-- An object literal has balanced braces if its keys are keys. -/
theorem closed_object (h : ∀ m ∈ members, IsKey m.1) : IsClosed (objectOf members).toList := by
  have hopen : Inside.after? (.code 0) "\x7b ".toList = some (.code 1) := by decide
  have hclose : Inside.after? (.code 1) " \x7d".toList = some (.code 0) := by decide
  refine ⟨.code 0, ?_, rfl⟩
  rw [objectOf, String.toList_append, String.toList_append, Inside.after_append,
    Inside.after_append, hopen, Option.bind_some, after_entries 1 h, Option.bind_some, hclose]

theorem steady_object (h : ∀ m ∈ members, IsKey m.1) :
    ∀ c ∈ (objectOf members).toList, c ≠ '\n' ∧ c ≠ '\r' := by
  have hentries : ∀ entry ∈ members.map entryOf, ∀ c ∈ entry.toList, c ≠ '\n' ∧ c ≠ '\r' := by
    rw [List.forall_mem_map]
    intro m hm
    rw [entryOf, String.toList_append, String.toList_append, List.forall_mem_append,
      List.forall_mem_append]
    exact ⟨⟨(h m hm).steady, by decide⟩, steady_quote m.2⟩
  have hall (entries : List String)
      (hsteady : ∀ entry ∈ entries, ∀ c ∈ entry.toList, c ≠ '\n' ∧ c ≠ '\r') :
      ∀ c ∈ (", ".intercalate entries).toList, c ≠ '\n' ∧ c ≠ '\r' := by
    induction entries with
    | nil => exact fun c hc => absurd hc (by simp)
    | cons entry entries ih =>
        rw [List.forall_mem_cons] at hsteady
        cases entries with
        | nil =>
            rw [String.intercalate_singleton]
            exact hsteady.1
        | cons next entries =>
            rw [String.intercalate_cons_cons, String.toList_append, String.toList_append,
              List.forall_mem_append, List.forall_mem_append]
            exact ⟨⟨hsteady.1, by decide⟩, ih hsteady.2⟩
  rw [objectOf, String.toList_append, String.toList_append, List.forall_mem_append,
    List.forall_mem_append]
  exact ⟨⟨by decide, hall _ hentries⟩, by decide⟩

theorem IsKey.tokens (h : IsKey key) (element : List Char → Option (List Char)) (more : List Char)
    (hmore : ∀ c ∈ more.head?, isPart c = false) :
    ∃ token : Token, token.isKey ∧
      tokens? element (key.toList ++ more) = (tokens? element more).map (token :: ·) := by
  rcases h with h | ⟨s, rfl⟩
  · exact ⟨.word key, rfl, tokens_word h hmore⟩
  · exact ⟨.string, rfl, tokens_quote s more⟩

/-- A member of an object literal is read as a key, a colon and a string. -/
theorem tokens_entry {m : String × String} (h : IsKey m.1)
    (element : List Char → Option (List Char)) (more : List Char) :
    ∃ token : Token, token.isKey ∧ tokens? element ((entryOf m).toList ++ more) =
      (tokens? element more).map fun tokens => token :: .mark ':' :: .string :: tokens := by
  have hsplit : (entryOf m).toList ++ more =
      m.1.toList ++ ':' :: ' ' :: ((Json.quote m.2).toList ++ more) := by
    simp [entryOf]
  have hcolon : isPart ':' = false := by decide +kernel
  obtain ⟨token, hkey, htoken⟩ := h.tokens element
    (':' :: ' ' :: ((Json.quote m.2).toList ++ more)) (by simpa using hcolon)
  refine ⟨token, hkey, ?_⟩
  rw [hsplit, htoken, tokens_mark (by decide), tokens_space rfl, tokens_quote]
  simp only [Option.map_map]
  rfl

theorem members_of_tokens (h : ∀ m ∈ members, IsKey m.1)
    (element : List Char → Option (List Char)) :
    ∃ tokens, tokens? element ((", ".intercalate (members.map entryOf)).toList ++ [' ', '\x7d']) =
      some tokens ∧ areMembers tokens := by
  have hend : tokens? element [' ', '\x7d'] = some [.mark '\x7d'] := by
    rw [tokens_space rfl, tokens_mark (by decide), tokens?]
    rfl
  induction members with
  | nil => exact ⟨_, hend, rfl⟩
  | cons m members ih =>
      rw [List.forall_mem_cons] at h
      cases members with
      | nil =>
          obtain ⟨token, hkey, htoken⟩ := tokens_entry h.1 element [' ', '\x7d']
          rw [List.map_singleton, String.intercalate_singleton, htoken, hend]
          refine ⟨_, rfl, ?_⟩
          rwa [areMembers]
      | cons next members =>
          obtain ⟨tokens, htokens, hmembers⟩ := ih h.2
          have hsplit : (", ".intercalate ((m :: next :: members).map entryOf)).toList ++
              [' ', '\x7d'] = (entryOf m).toList ++ ',' :: ' ' ::
                ((", ".intercalate ((next :: members).map entryOf)).toList ++ [' ', '\x7d']) := by
            simp [String.intercalate_cons_cons]
          obtain ⟨token, hkey, htoken⟩ := tokens_entry h.1 element (',' :: ' ' ::
            ((", ".intercalate ((next :: members).map entryOf)).toList ++ [' ', '\x7d']))
          rw [hsplit, htoken, tokens_mark (by decide), tokens_space rfl, htokens]
          refine ⟨_, rfl, ?_⟩
          rw [areMembers, hkey, hmembers]
          rfl

theorem object_of_members (h : ∀ m ∈ members, IsKey m.1) : isObject (objectOf members).toList := by
  have hsplit : (objectOf members).toList =
      '\x7b' :: ' ' :: ((", ".intercalate (members.map entryOf)).toList ++ [' ', '\x7d']) := by
    simp [objectOf]
  obtain ⟨tokens, htokens, hmembers⟩ := members_of_tokens h fun _ => none
  rw [isObject, hsplit, tokens_mark (by decide), tokens_space rfl, htokens]
  exact hmembers

end Members

section Names

variable {IsQuoted : List Char → Prop} {a : Attribute} {tag : Tag}

theorem name_part_of_part {c : Char} (h : isPart c ∨ c = '-' ∨ c = ':') : isNamePart c := by
  have hnone : ∀ d ∈ ['/', '>', '='], isPart d = false := by decide +kernel
  rcases h with h | rfl | rfl
  · rw [isNamePart, space_not_part h, Bool.not_false, Bool.true_and, Bool.not_eq_true',
      Bool.eq_false_iff]
    intro hmark
    rw [hnone c (List.contains_iff_mem.mp hmark)] at h
    cases h
  · rfl
  · rfl

theorem IsAttributeName.parts {cs : List Char} (h : IsAttributeName cs) :
    ∀ c ∈ cs, isPart c ∨ c = '-' := by
  obtain ⟨first, rest, rfl, hfirst, hrest⟩ := h
  exact List.forall_mem_cons.mpr ⟨.inl (part_of_start hfirst), hrest⟩

/-- The name of an element can be told from what stands around it. -/
theorem parts_of_element_name {name : String} (h : isElementName name) :
    ∀ c ∈ name.toList, isNamePart c := by
  rw [isElementName, Bool.and_eq_true, List.all_eq_true] at h
  intro c hc
  by_cases hcolon : c = ':'
  · exact name_part_of_part (.inr (.inr hcolon))
  · have hflat : c ∈ (Text.splitChars (· == ':') name.toList).flatten := by
      rw [Text.flatten_split_chars, List.mem_filter]
      exact ⟨hc, by simpa using hcolon⟩
    obtain ⟨part, hpart, hmem⟩ := List.mem_flatten.mp hflat
    refine name_part_of_part ((of_decide_eq_true (h.2 part hpart)).parts c hmem |>.imp_right .inl)

/-- The object literal for an attribute that fits has keys that a script can have. -/
theorem members_of_fits (hquoted : ∀ cs, IsQuoted cs → ∃ s, cs = (Json.quote s).toList)
    (h : Fits IsQuoted a) {object : String} (hstyle : style? a = some object) :
    ∃ members, object = objectOf members ∧ ∀ m ∈ members, IsKey m.1 := by
  obtain ⟨members, rfl, -, hkeys⟩ := members_of_style (object_of_style hstyle)
  rw [Fits, hstyle] at h
  refine ⟨members, rfl, fun m hm => ?_⟩
  have hkey : m.1 ∈ (propertiesOf a.value).map keyOf := hkeys ▸ List.mem_map_of_mem hm
  obtain ⟨property, hproperty, hm⟩ := List.mem_map.mp hkey
  rw [← hm, keyOf]
  split
  · exact .inr ⟨property, rfl⟩
  · rename_i hcustom
    rcases h property hproperty with hstart | hidentifier | hpasses
    · exact absurd hstart hcustom
    · refine .inl ?_
      rw [camelCase, String.toList_ofList]
      exact (identifier_camel_iff _).mpr hidentifier
    · obtain ⟨s, hs⟩ := hquoted _ hpasses
      exact .inr ⟨s, String.toList_injective hs⟩

theorem stands_of_fits (hquoted : ∀ cs, IsQuoted cs → ∃ s, cs = (Json.quote s).toList)
    (h : Fits IsQuoted a) : Stands a := by
  unfold Stands
  cases hstyle : style? a with
  | some object =>
      obtain ⟨members, rfl, hmembers⟩ := members_of_fits hquoted h hstyle
      exact closed_object hmembers
  | none =>
      rw [Fits, hstyle] at h
      have hname := (attribute_name_iff a.name).mpr h
      exact fun c hc => name_part_of_part ((hname.parts c hc).imp_right .inl)

/-- Attributes that fit can stand in a tag of a script one level deeper. -/
theorem writable_of_fits (hquoted : ∀ cs, IsQuoted cs → ∃ s, cs = (Json.quote s).toList)
    (h : ∀ a ∈ tag.attributes, Fits IsQuoted a) :
    areWritable (deeperAttributes (meanings tag)) := by
  rw [areWritable, deeperAttributes, meanings, List.map_map, List.all_eq_true, List.forall_mem_map]
  intro a ha
  rw [Bool.and_eq_true, decide_eq_true_eq, Function.comp_apply]
  have hfits := h a ha
  unfold meant
  cases hstyle : style? a with
  | some object =>
      obtain ⟨members, rfl, hmembers⟩ := members_of_fits hquoted hfits hstyle
      have hname : IsAttributeName "style".toList := by decide +kernel
      have hsteady := deeper_steady (steady_object hmembers) []
      rw [List.append_nil, deeper, List.append_nil] at hsteady
      have hdeeper : (Meaning.code (objectOf members)).deeper = .code (objectOf members) := by
        rw [Meaning.deeper, hsteady, String.ofList_toList]
      refine ⟨hname, ?_⟩
      dsimp only
      rw [hdeeper]
      exact object_of_members hmembers
  | none =>
      rw [Fits, hstyle] at hfits
      refine ⟨(attribute_name_iff a.name).mpr hfits, ?_⟩
      dsimp only [Meaning.deeper]
      split <;> rfl

end Names

section Walk

variable {p : Piece} {ps : List Piece} {before names : List String} {rest : List Char}

/-- A clear piece that is no literal text is read back, whatever follows it. -/
theorem piece_spell (h : p.IsClear) (hother : ∀ s, p ≠ .literal s) (rest : List Char) :
    piece? (p.spell ++ rest) = some (p, rest) := by
  cases p with
  | opening name attributes =>
      have hsplit : (Piece.opening name attributes).spell ++ rest =
          '<' :: (name.toList ++ (spellAttributes attributes ++ '>' :: rest)) := by
        simp [Piece.spell]
      rw [hsplit, piece?, if_pos rfl, tag_opening h.1 h.2]
  | single name attributes =>
      have hsplit : (Piece.single name attributes).spell ++ rest =
          '<' :: (name.toList ++ (spellAttributes attributes ++ ' ' :: '/' :: '>' :: rest)) := by
        simp [Piece.spell]
      rw [hsplit, piece?, if_pos rfl, tag_single h.1 h.2]
  | closing name =>
      have hsplit : (Piece.closing name).spell ++ rest =
          '<' :: '/' :: (name.toList ++ '>' :: rest) := by
        simp [Piece.spell]
      rw [hsplit, piece?, if_pos rfl, tag_closing h]
  | literal s => exact absurd rfl (hother s)
  | braces meaning =>
      cases meaning with
      | string s =>
          have hsplit : (Piece.braces (.string s)).spell ++ rest =
              '\x7b' :: ((Json.quote s).toList ++ '\x7d' :: rest) := by
            rw [Piece.spell, to_list_expression]
            simp
          rw [hsplit, piece?, if_neg (by decide), if_pos rfl, (closed_quote s).braced,
            Option.map_some]
          simp only [Meaning.of_source_quote]
      | code source =>
          have hsplit : (Piece.braces (.code source)).spell ++ rest =
              '\x7b' :: (source.toList ++ '\x7d' :: rest) := by
            simp [Piece.spell]
          rw [hsplit, piece?, if_neg (by decide), if_pos rfl, h.1.braced, Option.map_some]
          simp only [h.2]

/-- An element goes on behind a piece, unless the piece ends it. -/
theorem element_piece (h : p.IsClear) (hother : ∀ s, p ≠ .literal s)
    (henter : p.enter before = some names) (rest : List Char) :
    element? before (p.spell ++ rest) = if names = [] then some rest else element? names rest := by
  obtain ⟨c, cs, hp, -⟩ := head_spell hother
  rw [element?, piece_spell h hother]
  dsimp only
  rw [henter]
  cases names with
  | nil => rfl
  | cons name names =>
      dsimp only
      rw [if_pos (by rw [hp, List.length_append, List.length_cons]; omega), if_neg (by simp)]

/-- Literal text in an element is read over. -/
theorem element_literal (hrest : names ≠ []) {cs : List Char} (h : ∀ c ∈ cs, isLiteral c)
    (rest : List Char) : element? names (cs ++ rest) = element? names rest := by
  obtain ⟨name, outer, rfl⟩ := List.exists_cons_of_ne_nil hrest
  induction cs with
  | nil => rfl
  | cons c cs ih =>
      rw [List.forall_mem_cons] at h
      have hnone : ∀ d ∈ ['<', '\x7b'], isLiteral d = false := by decide
      have hc : c ∉ ['<', '\x7b'] := by
        intro hmem
        rw [hnone c hmem] at h
        cases h.1
      have hmarks : c ≠ '<' ∧ c ≠ '\x7b' := by simpa using hc
      have hpiece :
          piece? (c :: (cs ++ rest)) = some (.literal (String.ofList [c]), cs ++ rest) := by
        rw [piece?, if_neg hmarks.1, if_neg hmarks.2, if_pos h.1]
      rw [List.cons_append, element?, hpiece]
      dsimp only [Piece.enter]
      rw [if_pos (by simp), ih h.2]

/-- Whether pieces end the elements that are open, with nothing behind. -/
inductive Finish : List String → List Piece → Prop
  | done : Finish [] []
  | step {name : String} {outer names : List String} {p : Piece} {ps : List Piece}
      (henter : p.enter (name :: outer) = some names) (hrest : Finish names ps) :
      Finish (name :: outer) (p :: ps)

/-- Clear pieces that end the open elements are read to the end. -/
theorem Finish.element (h : Finish names ps) (hnames : names ≠ []) (hclear : ∀ p ∈ ps, p.IsClear) :
    element? names (spellAll ps) = some [] := by
  induction h with
  | done => exact absurd rfl hnames
  | @step name outer names p ps henter hrest ih =>
      rw [List.forall_mem_cons] at hclear
      rw [spell_all_cons]
      by_cases hliteral : ∃ s, p = .literal s
      · obtain ⟨s, rfl⟩ := hliteral
        cases henter
        rw [Piece.spell, element_literal hnames hclear.1, ih hnames hclear.2]
      · have hother : ∀ s, p ≠ .literal s := fun s hs => hliteral ⟨s, hs⟩
        rw [element_piece hclear.1 hother henter]
        split
        · rename_i hempty
          subst hempty
          cases hrest
          rfl
        · rename_i hopen
          exact ih hopen hclear.2

/-- Literal texts that come together do not change what ends where. -/
theorem Finish.joined (h : Finish names (ps.map Piece.deeper)) :
    Finish names ((joined ps).map Piece.deeper) := by
  induction ps generalizing names with
  | nil => exact h
  | cons p ps ih =>
      have hcons : Jsx.joined (p :: ps) = p.onto (Jsx.joined ps) := rfl
      rw [List.map_cons] at h
      cases h with
      | step henter hrest =>
          have hmore := ih hrest
          rw [hcons]
          cases p with
          | literal s =>
              cases henter
              rw [Piece.onto, consLiteral.eq_def]
              split
              · rename_i t qs hqs
                rw [hqs] at hmore
                cases hmore with
                | step henter hmore =>
                    cases henter
                    exact .step rfl hmore
              · split
                · exact hmore
                · exact .step rfl hmore
          | opening _ _ | single _ _ | closing _ | braces _ => exact .step henter hmore

end Walk

section Laid

variable {tag : Tag} {ps qs : List Piece}

/-- Whether a tag can be written in a script one level deeper. -/
structure IsWritable (tag : Tag) : Prop where
  named : isElementName tag.name
  attributes : areWritable (deeperAttributes (meanings tag))

theorem IsWritable.opening (h : IsWritable tag) (names : List String) :
    (Piece.opening tag.name (meanings tag)).deeper.enter names = some (tag.name :: names) :=
  if_pos (by rw [h.named, h.attributes]; rfl)

theorem IsWritable.single (h : IsWritable tag) (names : List String) :
    (Piece.single tag.name (meanings tag)).deeper.enter names = some names :=
  if_pos (by rw [h.named, h.attributes]; rfl)

/-- Whether pieces, one level deeper, leave the elements that are open around them as they are. -/
def Keep (ps : List Piece) : Prop :=
  ∀ name outer rest, Finish (name :: outer) rest →
    Finish (name :: outer) (ps.map Piece.deeper ++ rest)

theorem keep_nil : Keep [] :=
  fun _ _ _ hrest => hrest

theorem Keep.append (hps : Keep ps) (hqs : Keep qs) : Keep (ps ++ qs) := by
  intro name outer rest hrest
  rw [List.map_append, List.append_assoc]
  exact hps name outer _ (hqs name outer rest hrest)

theorem keep_literal (s : String) : Keep [.literal s] :=
  fun _ _ _ hrest => .step rfl hrest

theorem keep_text_piece (s : String) : Keep [textPiece s] := by
  intro name outer rest hrest
  unfold textPiece
  split <;> exact .step rfl hrest

/-- Whether pieces are an element with some tag, as it is written with or without content. -/
inductive IsWhole (tag : Tag) : List Piece → Prop
  | single : IsWhole tag [.single tag.name (meanings tag)]
  | around {content : List Piece} (hcontent : Keep content) :
      IsWhole tag (.opening tag.name (meanings tag) :: (content ++ [.closing tag.name]))

/-- What is in an element and its closing tag end the element. -/
theorem Keep.ends (h : Keep ps) (name : String) {outer : List String} {rest : List Piece}
    (hrest : Finish outer rest) :
    Finish (name :: outer) ((ps ++ [Piece.closing name]).map Piece.deeper ++ rest) := by
  rw [List.map_append, List.append_assoc]
  exact h name outer _ (.step (if_pos rfl) hrest)

theorem IsWhole.keep (h : IsWhole tag ps) (htag : IsWritable tag) : Keep ps := by
  intro name outer rest hrest
  cases h with
  | single => exact .step (htag.single _) hrest
  | around hcontent => exact .step (htag.opening _) (hcontent.ends _ hrest)

mutual

theorem keep_inline : (n : Node) → (∀ t ∈ n.tags, IsWritable t) → Keep (inline n)
  | .element tag children, h => by
      rw [Node.tags, List.forall_mem_cons] at h
      rw [inline]
      split
      · exact (IsWhole.around (keep_inline_all children h.2)).keep h.1
      · exact IsWhole.single.keep h.1
  | .leaf kind s, _ => by
      rw [inline]
      split
      · exact keep_text_piece s
      · exact keep_nil

theorem keep_inline_all : (ns : List Node) → (∀ t ∈ Node.tagsOf ns, IsWritable t) →
    Keep (inlineAll ns)
  | [], _ => keep_nil
  | n :: rest, h => by
      rw [Node.tagsOf, List.forall_mem_append] at h
      exact (keep_inline n h.1).append (keep_inline_all rest h.2)

end

theorem whole_laid {indent depth : Nat} {children : List Node} (hinline : Keep (inlineAll children))
    (hlaid : Keep (laidAll indent (depth + 1) children)) :
    IsWhole tag (laid indent depth (.element tag children)) := by
  rw [laid]
  split
  · exact .around hinline
  · split
    · have hlines := (keep_literal "\n").append (hlaid.append (keep_literal
        (Text.spaces (depth * indent))))
      have hwhole : IsWhole tag _ := .around hlines
      simpa [margin] using hwhole
    · exact .single

mutual

theorem keep_laid (indent depth : Nat) : (n : Node) → (∀ t ∈ n.tags, IsWritable t) →
    Keep (laid indent depth n)
  | .element tag children, h => by
      rw [Node.tags, List.forall_mem_cons] at h
      have hlaid := keep_laid_all indent (depth + 1) children h.2
      exact (whole_laid (keep_inline_all children h.2) hlaid).keep h.1
  | .leaf .., _ => keep_nil

theorem keep_laid_all (indent depth : Nat) : (ns : List Node) →
    (∀ t ∈ Node.tagsOf ns, IsWritable t) → Keep (laidAll indent depth ns)
  | [], _ => keep_nil
  | n :: rest, h => by
      rw [Node.tagsOf, List.forall_mem_append] at h
      have hrest := keep_laid_all indent depth rest h.2
      rw [laidAll]
      split
      · exact (keep_literal _).append
          ((keep_laid indent depth n h.1).append ((keep_literal "\n").append hrest))
      · exact hrest

end

theorem IsWhole.begins (h : IsWhole tag ps) :
    ∃ rest, spellAll ((joined ps).map Piece.deeper) = '<' :: rest := by
  cases h <;> exact ⟨_, rfl⟩

/-- An element that is written in clear pieces is read as one, one level deeper. -/
theorem IsWhole.element (h : IsWhole tag ps) (htag : IsWritable tag)
    (hclear : ∀ p ∈ (joined ps).map Piece.deeper, p.IsClear) :
    element? [] (spellAll ((joined ps).map Piece.deeper)) = some [] := by
  cases h with
  | single =>
      exact element_piece (hclear _ List.mem_cons_self) (by simp [Piece.deeper]) (htag.single []) []
  | @around content hcontent =>
      have hends := hcontent.ends tag.name .done
      rw [List.append_nil] at hends
      have hcons :
          (joined (.opening tag.name (meanings tag) :: (content ++ [.closing tag.name]))).map
          Piece.deeper = (Piece.opening tag.name (meanings tag)).deeper ::
            (joined (content ++ [.closing tag.name])).map Piece.deeper := rfl
      rw [hcons, List.forall_mem_cons] at hclear
      rw [hcons, spell_all_cons, element_piece hclear.1 (by simp [Piece.deeper]) (htag.opening []),
        if_neg (by simp)]
      exact hends.joined.element (by simp) hclear.2

end Laid

/-- Markup that can be read is converted. What a component around the JSX renders is one element, if
the names of all elements are names that JSX can have, and all attributes fit: then they are written
under such names, and as object literals with keys that a script can have. -/
theorem element_of_convert {IsQuoted : List Char → Prop}
    (hquoted : ∀ cs, IsQuoted cs → ∃ s, cs = (Json.quote s).toList) {markup : String}
    {doc : Document}
    (h : Document.parse markup = .ok doc) (indent : Nat) :
    ∃ tag children jsx, doc.root? = some (tag, children) ∧ convert indent markup = .ok jsx ∧
      ((∀ t ∈ (Node.element tag children).tags,
          isElementName t.name ∧ ∀ a ∈ t.attributes, Fits IsQuoted a) →
            IsElement (bodyOf jsx)) := by
  obtain ⟨tag, children, hroot, hconvert⟩ := convert_pieces h indent
  refine ⟨tag, children, _, hroot, hconvert, fun hfits => ?_⟩
  have hout : ∀ t ∈ (Node.element tag children).tags, StandsOut t := fun t ht =>
    ⟨parts_of_element_name (hfits t ht).1, fun a ha => stands_of_fits hquoted ((hfits t ht).2 a ha)⟩
  have hwritable : ∀ t ∈ (Node.element tag children).tags, IsWritable t := fun t ht =>
    ⟨(hfits t ht).1, writable_of_fits hquoted (hfits t ht).2⟩
  have hchildren := (List.forall_mem_cons.mp hwritable).2
  have hwhole : IsWhole tag (laid indent 0 (.element tag children)) :=
    whole_laid (keep_inline_all children hchildren) (keep_laid_all indent 1 children hchildren)
  have hparts := parts_of_laid indent 0 (.element tag children)
  have hhead := head_joined_laid indent 0 tag children
  obtain ⟨front, hend⟩ := spell_laid_ends indent 0 tag children
  generalize laid indent 0 (.element tag children) = ps at hwhole hparts hhead hend
  have hclear := pieces_clear (pieces_spell_all fun p hp => (hparts p hp).clear hout)
  have hdeeper : ∀ p ∈ (joined ps).map Piece.deeper, p.IsClear := by
    rw [List.forall_mem_map]
    exact deeper_joined_clear hout hparts
  have hbody : (bodyOf (String.ofList (spellAll ps))).toList =
      [' ', ' '] ++ spellAll ((joined ps).map Piece.deeper) := by
    have hjsx : (String.ofList (spellAll ps)).toList = spellAll ps := String.toList_ofList
    rw [body_of_jsx (by simp [hend]) (by simp [hend]), String.toList_ofList, hjsx,
      ← spell_joined ps, pad_spell_all hhead, deeper_spell_all (are_joined_joined ps) hclear]
  obtain ⟨rest, hrest⟩ := hwhole.begins
  have helement := hwhole.element (hwritable tag List.mem_cons_self) hdeeper
  rw [hrest] at hbody helement
  exact .of_read hbody (by decide) helement

end SvgPress.Jsx
