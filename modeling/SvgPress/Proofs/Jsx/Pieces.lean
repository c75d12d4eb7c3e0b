import Mathlib.Data.List.TakeWhile
import SvgPress.Jsx.Element
import SvgPress.Proofs.Jsx.Braces
import SvgPress.Proofs.Markup.Tags

/-!
JSX read into pieces: tags with their attributes, literal text, and expressions in braces. The value
of an attribute is the text between its quotation marks or an expression. What would have to be
decoded, an ampersand in a value or in text, is refused. Whatever text is read, the names that come
out of it are names, and the code that comes out of it has balanced braces.
-/

namespace SvgPress.Jsx

/-- Attributes as they are read, by name. -/
abbrev Meanings := List (String × Meaning)

inductive Piece where
  | opening (name : String) (attributes : Meanings)
  /-- An element without content, in one tag. -/
  | single (name : String) (attributes : Meanings)
  | closing (name : String)
  | literal (text : String)
  | braces (meaning : Meaning)
  deriving DecidableEq, Repr

/-- Whether a character can stand in the name of an element or of an attribute. -/
def isNamePart (c : Char) : Bool :=
  !Markup.isSpace c && !(['/', '>', '='].contains c)

/-- Whether a character of literal text stands for itself. -/
def isLiteral (c : Char) : Bool :=
  !"\x7b\x7d<>&".toList.contains c

/-- A value after its equals sign, and what follows it. -/
def value? : List Char → Option (Meaning × List Char)
  | '"' :: body =>
    match body.dropWhile (· != '"') with
    | [] => none
    | _ :: rest =>
      let text := body.takeWhile (· != '"')
      if text.contains '&' then none else some (.string (String.ofList text), rest)
  | '\x7b' :: body => (braced? (.code 0) body).map fun (source, rest) => (.ofSource source, rest)
  | _ => none

/-- An attribute, and what follows it. -/
def attribute? (cs : List Char) : Option ((String × Meaning) × List Char) :=
  match cs.dropWhile isNamePart with
  | '=' :: written => (value? written).map fun (meaning, rest) =>
    ((String.ofList (cs.takeWhile isNamePart), meaning), rest)
  | _ => none

theorem length_of_value {cs rest : List Char} {meaning : Meaning}
    (h : value? cs = some (meaning, rest)) : rest.length < cs.length := by
  unfold value? at h
  split at h
  · rename_i body
    have hdrop := (List.dropWhile_sublist (· != '"') (l := body)).length_le
    split at h
    · cases h
    · rename_i c after hbody
      rw [hbody, List.length_cons] at hdrop
      dsimp only at h
      split at h
      · cases h
      · cases h
        rw [List.length_cons]
        omega
  · rename_i body
    obtain ⟨⟨source, after⟩, hfound, heq⟩ := Option.map_eq_some_iff.mp h
    cases heq
    have := length_of_braced hfound
    rw [List.length_cons]
    omega
  · cases h

theorem length_of_attribute {cs rest : List Char} {a : String × Meaning}
    (h : attribute? cs = some (a, rest)) : rest.length < cs.length := by
  unfold attribute? at h
  have hdrop := (List.dropWhile_sublist isNamePart (l := cs)).length_le
  split at h
  · rename_i written hwritten
    obtain ⟨⟨meaning, after⟩, hfound, heq⟩ := Option.map_eq_some_iff.mp h
    cases heq
    have := length_of_value hfound
    rw [hwritten, List.length_cons] at hdrop
    omega
  · cases h

/-- The attributes of a tag up to its end, whether it is an element of its own, and what follows. -/
def attributes? (cs : List Char) : Option (Meanings × Bool × List Char) :=
  match _hcs : cs.dropWhile Markup.isSpace with
  | '>' :: rest => some ([], false, rest)
  | '/' :: '>' :: rest => some ([], true, rest)
  | more =>
    match _hmore : attribute? more with
    | none => none
    | some (a, rest) =>
      (attributes? rest).map fun (others, alone, after) => (a :: others, alone, after)
termination_by cs.length
decreasing_by
  have hdrop := (List.dropWhile_sublist Markup.isSpace (l := cs)).length_le
  have := length_of_attribute _hmore
  rw [_hcs] at hdrop
  omega

/-- A tag after its `<`, and what follows it. -/
def tag? : List Char → Option (Piece × List Char)
  | '/' :: cs =>
    match cs.dropWhile isNamePart with
    | '>' :: rest => some (.closing (String.ofList (cs.takeWhile isNamePart)), rest)
    | _ => none
  | cs =>
    let name := String.ofList (cs.takeWhile isNamePart)
    (attributes? (cs.dropWhile isNamePart)).map fun (attributes, alone, rest) =>
      (if alone then .single name attributes else .opening name attributes, rest)

theorem length_of_attributes {cs rest : List Char} {attributes : Meanings} {alone : Bool}
    (h : attributes? cs = some (attributes, alone, rest)) : rest.length < cs.length := by
  have hdrop (cs : List Char) : (cs.dropWhile Markup.isSpace).length ≤ cs.length :=
    (List.dropWhile_sublist Markup.isSpace).length_le
  fun_induction attributes? cs generalizing attributes alone with
  | case1 cs after hcs =>
      cases h
      have := hdrop cs
      rw [hcs, List.length_cons] at this
      omega
  | case2 cs after hcs =>
      cases h
      have := hdrop cs
      rw [hcs, List.length_cons, List.length_cons] at this
      omega
  | case3 cs hopen halone hnone => cases h
  | case4 cs hopen halone a after hmore ih =>
      obtain ⟨⟨others, alone', last⟩, hfound, heq⟩ := Option.map_eq_some_iff.mp h
      cases heq
      have hafter := length_of_attribute hmore
      have hlast := ih hfound
      have := hdrop cs
      omega

theorem length_of_tag {cs rest : List Char} {piece : Piece} (h : tag? cs = some (piece, rest)) :
    rest.length < cs.length := by
  unfold tag? at h
  split at h
  · rename_i cs
    have hdrop := (List.dropWhile_sublist isNamePart (l := cs)).length_le
    split at h
    · rename_i after hafter
      cases h
      rw [hafter, List.length_cons] at hdrop
      rw [List.length_cons]
      omega
    · cases h
  · have hdrop := (List.dropWhile_sublist isNamePart (l := cs)).length_le
    obtain ⟨⟨attributes, alone, after⟩, hfound, heq⟩ := Option.map_eq_some_iff.mp h
    cases heq
    have := length_of_attributes hfound
    omega

/-- The pieces of a text. -/
def pieces? (cs : List Char) : Option (List Piece) :=
  match cs with
  | [] => some []
  | c :: rest =>
    if c = '<' then
      match _htag : tag? rest with
      | none => none
      | some (piece, after) => (pieces? after).map (piece :: ·)
    else if c = '\x7b' then
      match _hbraces : braced? (.code 0) rest with
      | none => none
      | some (source, after) => (pieces? after).map (.braces (.ofSource source) :: ·)
    else if isLiteral c then
      (pieces? (rest.dropWhile isLiteral)).map
        (.literal (String.ofList (c :: rest.takeWhile isLiteral)) :: ·)
    else none
termination_by cs.length
decreasing_by
  · have := length_of_tag _htag
    rw [List.length_cons]
    omega
  · have := length_of_braced _hbraces
    rw [List.length_cons]
    omega
  · have := (List.dropWhile_sublist isLiteral (l := rest)).length_le
    rw [List.length_cons]
    omega

/-- The pieces of JSX, if it can be read. -/
def read? (jsx : String) : Option (List Piece) :=
  pieces? jsx.toList

section Clear

/-- Whether a meaning can come out of braces: code has balanced braces, and it is not just a
string. -/
def Meaning.IsClear : Meaning → Prop
  | .string _ => True
  | .code source => IsClosed source.toList ∧ ofSource source.toList = .code source

/-- Whether attributes can come out of a tag. -/
def AreClear (attributes : Meanings) : Prop :=
  ∀ a ∈ attributes, (∀ c ∈ a.1.toList, isNamePart c) ∧ a.2.IsClear

def Piece.IsClear : Piece → Prop
  | .opening name attributes => (∀ c ∈ name.toList, isNamePart c) ∧ AreClear attributes
  | .single name attributes => (∀ c ∈ name.toList, isNamePart c) ∧ AreClear attributes
  | .closing name => ∀ c ∈ name.toList, isNamePart c
  | .literal text => ∀ c ∈ text.toList, isLiteral c
  | .braces meaning => meaning.IsClear

variable {cs rest : List Char}

theorem name_of_take (cs : List Char) :
    ∀ c ∈ (String.ofList (cs.takeWhile isNamePart)).toList, isNamePart c := by
  rw [String.toList_ofList]
  exact fun c hc => List.mem_takeWhile_imp hc

theorem meaning_clear {source : List Char} (h : braced? (.code 0) cs = some (source, rest)) :
    (Meaning.ofSource source).IsClear := by
  cases hmeaning : Meaning.ofSource source with
  | string s => trivial
  | code text =>
      have htext := Meaning.of_source_eq_code hmeaning
      exact ⟨by rw [htext]; exact (braced_iff.mp h).2, by rw [htext]; exact hmeaning⟩

theorem value_clear {meaning : Meaning} (h : value? cs = some (meaning, rest)) :
    meaning.IsClear := by
  unfold value? at h
  split at h
  · split at h
    · cases h
    · dsimp only at h
      split at h
      · cases h
      · cases h
        trivial
  · obtain ⟨⟨source, after⟩, hfound, heq⟩ := Option.map_eq_some_iff.mp h
    cases heq
    exact meaning_clear hfound
  · cases h

theorem attributes_clear {attributes : Meanings} {alone : Bool}
    (h : attributes? cs = some (attributes, alone, rest)) : AreClear attributes := by
  fun_induction attributes? cs generalizing attributes alone with
  | case1 cs after hcs =>
      cases h
      exact fun a ha => absurd ha List.not_mem_nil
  | case2 cs after hcs =>
      cases h
      exact fun a ha => absurd ha List.not_mem_nil
  | case3 cs hopen halone hnone => cases h
  | case4 cs hopen halone a after hmore ih =>
      obtain ⟨⟨others, alone', last⟩, hfound, heq⟩ := Option.map_eq_some_iff.mp h
      cases heq
      refine List.forall_mem_cons.mpr ⟨?_, ih hfound⟩
      unfold attribute? at hmore
      split at hmore
      · obtain ⟨⟨meaning, between⟩, hvalue, hattribute⟩ := Option.map_eq_some_iff.mp hmore
        cases hattribute
        exact ⟨name_of_take _, value_clear hvalue⟩
      · cases hmore

theorem tag_clear {piece : Piece} (h : tag? cs = some (piece, rest)) : piece.IsClear := by
  unfold tag? at h
  split at h
  · split at h
    · cases h
      exact name_of_take _
    · cases h
  · obtain ⟨⟨attributes, alone, after⟩, hfound, heq⟩ := Option.map_eq_some_iff.mp h
    cases heq
    have hclear := attributes_clear hfound
    cases alone with
    | false => exact ⟨name_of_take _, hclear⟩
    | true => exact ⟨name_of_take _, hclear⟩

/-- Whatever is read, its pieces are clear. -/
theorem pieces_clear {ps : List Piece} (h : pieces? cs = some ps) : ∀ p ∈ ps, p.IsClear := by
  fun_induction pieces? cs generalizing ps with
  | case1 =>
      cases h
      exact fun p hp => absurd hp List.not_mem_nil
  | case2 rest hnone => cases h
  | case3 rest piece after htag ih =>
      obtain ⟨others, hothers, rfl⟩ := Option.map_eq_some_iff.mp h
      exact List.forall_mem_cons.mpr ⟨tag_clear htag, ih hothers⟩
  | case4 rest hnone hne => cases h
  | case5 rest source after hbraces hne ih =>
      obtain ⟨others, hothers, rfl⟩ := Option.map_eq_some_iff.mp h
      exact List.forall_mem_cons.mpr ⟨meaning_clear hbraces, ih hothers⟩
  | case6 c rest htag hbraces hliteral ih =>
      obtain ⟨others, hothers, rfl⟩ := Option.map_eq_some_iff.mp h
      refine List.forall_mem_cons.mpr ⟨?_, ih hothers⟩
      rw [Piece.IsClear, String.toList_ofList]
      exact List.forall_mem_cons.mpr ⟨hliteral, fun d hd => List.mem_takeWhile_imp hd⟩
  | case7 c rest htag hbraces hliteral => cases h

end Clear

end SvgPress.Jsx
