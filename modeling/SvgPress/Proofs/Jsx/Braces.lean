import SvgPress.Jsx.Attribute
import SvgPress.Proofs.Json.Quoting

/-!
Expressions in braces. An expression ends at the brace that closes it; braces in string literals and
in comments do not count. A quoted string is an expression of its own and reads back as the string
that it was made of, whatever characters that has.
-/

namespace SvgPress

namespace Jsx

/-- Where in an expression a reader is. `depth` counts the braces that are open in the
expression. -/
inductive Inside where
  | code (depth : Nat)
  /-- After a slash that may begin a comment. -/
  | slash (depth : Nat)
  | lineComment (depth : Nat)
  | blockComment (depth : Nat)
  /-- After a star that may end a comment. -/
  | star (depth : Nat)
  | quoted (mark : Char) (depth : Nat)
  /-- After a backslash in a string literal. -/
  | escaped (mark : Char) (depth : Nat)
  deriving DecidableEq, Repr

namespace Inside

/-- After one more character of code. -/
def afterCode (depth : Nat) (c : Char) : Inside :=
  if c = '"' ∨ c = '\'' ∨ c = '\x60' then .quoted c depth
  else if c = '/' then .slash depth
  else if c = '\x7b' then .code (depth + 1)
  else if c = '\x7d' then .code (depth - 1)
  else .code depth

/-- After one more character. -/
def next (s : Inside) (c : Char) : Inside :=
  match s with
  | .code depth => afterCode depth c
  | .slash depth =>
    if c = '/' then .lineComment depth
    else if c = '*' then .blockComment depth
    else afterCode depth c
  | .lineComment depth => if c = '\n' ∨ c = '\r' then .code depth else s
  | .blockComment depth => if c = '*' then .star depth else s
  | .star depth =>
    if c = '/' then .code depth else if c = '*' then s else .blockComment depth
  | .quoted mark depth =>
    if c = '\\' then .escaped mark depth else if c = mark then .code depth else s
  | .escaped mark depth => .quoted mark depth

/-- Whether the next character is the brace that closes the expression. -/
def closes (s : Inside) (c : Char) : Bool :=
  c == '\x7d' && (s == .code 0 || s == .slash 0)

/-- After a whole text, if no brace in it closes the expression. -/
def after? (s : Inside) : List Char → Option Inside
  | [] => some s
  | c :: cs => if s.closes c then none else (s.next c).after? cs

theorem after_append (s : Inside) (cs ds : List Char) :
    s.after? (cs ++ ds) = (s.after? cs).bind (·.after? ds) := by
  induction cs generalizing s with
  | nil => rfl
  | cons c cs ih =>
      rw [List.cons_append, after?, after?]
      split
      · rfl
      · exact ih (s.next c)

end Inside

/-- Whether a text stands as an expression in braces: its own braces are balanced. -/
def IsClosed (cs : List Char) : Prop :=
  ∃ s, Inside.after? (.code 0) cs = some s ∧ s.closes '\x7d'

instance (cs : List Char) : Decidable (IsClosed cs) :=
  match h : Inside.after? (.code 0) cs with
  | none => .isFalse fun ⟨s, hs, _⟩ => by rw [h] at hs; cases hs
  | some s => decidable_of_iff (s.closes '\x7d' = true) (by
      simp [IsClosed, h])

/-- An expression up to the brace that closes it, and what follows that brace. -/
def braced? (s : Inside) : List Char → Option (List Char × List Char)
  | [] => none
  | c :: rest =>
    if s.closes c then some ([], rest)
    else (braced? (s.next c) rest).map fun (source, after) => (c :: source, after)

/-- The cut is at the first brace that closes the expression, and nowhere else. -/
theorem braced_iff {s : Inside} {cs source rest : List Char} :
    braced? s cs = some (source, rest) ↔
      cs = source ++ '\x7d' :: rest ∧ ∃ t, s.after? source = some t ∧ t.closes '\x7d' := by
  induction cs generalizing s source with
  | nil => simp [braced?]
  | cons c cs ih =>
      rw [braced?]
      split
      · rename_i hcloses
        have hc : c = '\x7d' := by
          simp only [Inside.closes, Bool.and_eq_true, beq_iff_eq] at hcloses
          exact hcloses.1
        constructor
        · intro h
          cases h
          exact ⟨by rw [hc]; rfl, s, rfl, hc ▸ hcloses⟩
        · rintro ⟨hcs, t, ht, -⟩
          cases source with
          | nil =>
              rw [List.nil_append, List.cons.injEq] at hcs
              rw [hcs.2]
          | cons d source =>
              rw [List.cons_append, List.cons.injEq] at hcs
              rw [Inside.after?, ← hcs.1, if_pos hcloses] at ht
              cases ht
      · rename_i hopen
        rw [Option.map_eq_some_iff]
        constructor
        · rintro ⟨⟨inner, after⟩, hfound, heq⟩
          cases heq
          obtain ⟨hcs, t, ht, hcloses⟩ := ih.mp hfound
          exact ⟨by rw [hcs]; rfl, t, by rw [Inside.after?, if_neg hopen]; exact ht, hcloses⟩
        · rintro ⟨hcs, t, ht, hcloses⟩
          cases source with
          | nil =>
              rw [Inside.after?, Option.some.injEq] at ht
              rw [List.nil_append, List.cons.injEq] at hcs
              rw [hcs.1, ht] at hopen
              exact absurd hcloses hopen
          | cons d source =>
              rw [List.cons_append, List.cons.injEq] at hcs
              obtain ⟨rfl, hcs⟩ := hcs
              rw [Inside.after?, if_neg hopen] at ht
              exact ⟨(source, rest), ih.mpr ⟨hcs, t, ht, hcloses⟩, rfl⟩

theorem IsClosed.braced {cs : List Char} (h : IsClosed cs) (rest : List Char) :
    braced? (.code 0) (cs ++ '\x7d' :: rest) = some (cs, rest) :=
  braced_iff.mpr ⟨rfl, h⟩

theorem length_of_braced {s : Inside} {cs source rest : List Char}
    (h : braced? s cs = some (source, rest)) : rest.length < cs.length := by
  rw [(braced_iff.mp h).1, List.length_append, List.length_cons]
  omega

/-- What an expression in braces stands for: a string, or what its code comes to. -/
inductive Meaning where
  | string (s : String)
  | code (source : String)
  deriving DecidableEq, Repr

/-- A string literal stands for its string. -/
def Meaning.ofSource (cs : List Char) : Meaning :=
  match cs with
  | '"' :: body =>
    match Json.stringBody [] body with
    | .ok (s, []) => .string s
    | _ => .code (String.ofList cs)
  | _ => .code (String.ofList cs)

theorem Meaning.of_source_quote (s : String) : ofSource (Json.quote s).toList = .string s := by
  rw [Json.quote, String.toList_ofList, Json.quoteChars, ofSource, Json.string_body_quote]
  simp

/-- Code that does not begin like a string literal is no string. -/
theorem Meaning.of_source_code {s : String} (h : s.toList.head? ≠ some '"') :
    ofSource s.toList = .code s := by
  unfold ofSource
  split
  · rename_i body hbody
    rw [hbody] at h
    exact absurd rfl h
  · rw [String.ofList_toList]

/-- The code that an expression is read as is its own text. -/
theorem Meaning.of_source_eq_code {cs : List Char} {source : String}
    (h : ofSource cs = .code source) : source.toList = cs := by
  unfold ofSource at h
  split at h
  · split at h
    · cases h
    · cases h
      rw [String.toList_ofList]
  · cases h
    rw [String.toList_ofList]

/-- A quoted string leaves the reader where it was: nothing in it closes the string or the
expression. -/
theorem after_quote (depth : Nat) (cs : List Char) :
    Inside.after? (.code depth) (Json.quoteChars cs) = some (.code depth) := by
  have hplain (ds : List Char) (h : ∀ d ∈ ds, d ≠ '"' ∧ d ≠ '\\') :
      Inside.after? (.quoted '"' depth) ds = some (.quoted '"' depth) := by
    induction ds with
    | nil => rfl
    | cons d ds ih =>
        obtain ⟨hquote, hslash⟩ := h d List.mem_cons_self
        rw [Inside.after?, if_neg (by simp [Inside.closes]), Inside.next, if_neg hslash,
          if_neg hquote, ih fun e he => h e (List.mem_cons_of_mem d he)]
  have hchar (c : Char) : Inside.after? (.quoted '"' depth) (Json.escapeChar c) =
      some (.quoted '"' depth) := by
    rcases Json.escape_char_cases c with
      ⟨hwritten, hquote, hslash, -⟩ | ⟨letter, more, hwritten, hmore, -⟩
    · rw [hwritten, hplain _ (by simp [hquote, hslash])]
    · rw [hwritten, Inside.after?, if_neg (by simp [Inside.closes]), Inside.next, if_pos rfl,
        Inside.after?, if_neg (by simp [Inside.closes]), Inside.next, hplain more hmore]
  have hall : Inside.after? (.quoted '"' depth) (cs.flatMap Json.escapeChar) =
      some (.quoted '"' depth) := by
    induction cs with
    | nil => rfl
    | cons c cs ih => rw [List.flatMap_cons, Inside.after_append, hchar, Option.bind_some, ih]
  rw [Json.quoteChars, Inside.after?, if_neg (by simp [Inside.closes]), Inside.next,
    Inside.afterCode, if_pos (by simp), Inside.after_append, hall]
  rfl

theorem closed_quote (s : String) : IsClosed (Json.quote s).toList := by
  rw [Json.quote, String.toList_ofList]
  exact ⟨_, after_quote 0 s.toList, rfl⟩

end Jsx

end SvgPress
