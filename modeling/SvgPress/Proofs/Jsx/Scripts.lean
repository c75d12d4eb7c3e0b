import SvgPress.Proofs.Jsx.Indenting
import SvgPress.Proofs.Jsx.Tokens

/-!
Modules as scripts. From the tokens of a module its statements are read: declarations of components,
each of which renders one element, and exports. A text that is refused here can still be a script.
One that is read declares and exports what is read, but what scripts may not hold twice, a name that
is declared or the key `__proto__` of an object literal, is read twice. So a module of components
declares their names and exports them if each has a name that can be declared and renders one
element. Nothing else keeps what a component renders inside of it.
-/

namespace SvgPress

namespace Naming

/-- The words that mean something else than a name, each in some place or other. -/
def reservedWords : List String :=
  ["arguments", "await", "break", "case", "catch", "class", "const", "continue", "debugger",
    "default", "delete", "do", "else", "enum", "eval", "export", "extends", "false", "finally",
    "for", "function", "if", "implements", "import", "in", "instanceof", "interface", "let", "new",
    "null", "package", "private", "protected", "public", "return", "static", "super", "switch",
    "this", "throw", "true", "try", "typeof", "var", "void", "while", "with", "yield"]

end Naming

namespace Jsx

/-! ### Statements -/

/-- What a module declares and what it exports, in order. -/
structure Contents where
  declared : List String
  exported : List String
  deriving DecidableEq, Repr

namespace Contents

def declare (name : String) (contents : Contents) : Contents :=
  { contents with declared := name :: contents.declared }

def «export» (name : String) (contents : Contents) : Contents :=
  { contents with exported := name :: contents.exported }

end Contents

mutual

def statements? : List Token → Option Contents
  | [] => some ⟨[], []⟩
  | .word "const" :: rest => declarations? rest
  | .word "export" :: .mark '\x7b' :: rest => exports? rest
  | _ => none

/-- The names of a declaration, each with a component. -/
def declarations? : List Token → Option Contents
  | .word name :: .mark '=' :: .arrow :: .mark '(' :: .element :: .mark ')' :: .mark c :: rest =>
    if name ∈ Naming.reservedWords then none
    else if c = ',' then (declarations? rest).map (·.declare name)
    else if c = ';' then (statements? rest).map (·.declare name)
    else none
  | _ => none

/-- The names of an export, up to its closing brace. -/
def exports? : List Token → Option Contents
  | .mark '\x7d' :: .mark ';' :: rest => statements? rest
  | .word name :: .mark '\x7d' :: .mark ';' :: rest => (statements? rest).map (·.export name)
  | .word name :: .mark ',' :: rest => (exports? rest).map (·.export name)
  | _ => none

end

/-- What a text declares and exports as a module. -/
def contents? (text : String) : Option Contents :=
  (tokens? (element? []) text.toList).bind statements?

/-! ### Modules of elements -/

/-- Whether a name can be declared: an identifier that is no reserved word. -/
structure IsBinding (name : String) : Prop where
  identifier : IsIdentifier name.toList
  free : name ∉ Naming.reservedWords

instance (name : String) : Decidable (IsBinding name) :=
  decidable_of_iff (IsIdentifier name.toList ∧ name ∉ Naming.reservedWords)
    ⟨fun h => ⟨h.1, h.2⟩, fun h => ⟨h.1, h.2⟩⟩

theorem tokens_component {name jsx : String} (hname : IsBinding name)
    (hbody : IsElement (bodyOf jsx)) (rest : String) :
    tokens? (element? []) ((Component.ofJsx name jsx).source ++ rest).toList =
      (tokens? (element? []) rest.toList).map fun tokens =>
        .word "const" :: .word name :: .mark '=' :: .arrow :: .mark '(' :: .element :: .mark ')' ::
          .mark ';' :: tokens := by
  have hsource : ((Component.ofJsx name jsx).source ++ rest).toList =
      "const".toList ++ ' ' :: (name.toList ++
        ' ' :: '=' :: ' ' :: '(' :: ')' :: ' ' :: '=' :: '>' :: ' ' :: '(' :: '\n' ::
          ((bodyOf jsx).toList ++ '\n' :: ')' :: ';' :: '\n' :: rest.toList)) := by
    simp [Component.ofJsx, bodyOf]
  have hconst : IsIdentifier "const".toList := by decide +kernel
  have hspace : isPart ' ' = false := by decide +kernel
  have harrow (more : List Char) : arrow? ('\n' :: ((bodyOf jsx).toList ++ more)) = none :=
    hbody.no_arrow more
  rw [hsource, tokens_word hconst (by simpa using hspace), tokens_space rfl,
    tokens_word hname.identifier (by simpa using hspace), tokens_space rfl,
    tokens_mark (by decide), tokens_space rfl, tokens_arrow, tokens_space rfl,
    tokens_parenthesis (harrow _), tokens_space rfl, hbody.tokens_append, tokens_space rfl,
    tokens_mark (by decide), tokens_mark (by decide), tokens_space rfl]
  simp only [Option.map_map]
  rfl

/-- A module that begins with a component declares its name. -/
theorem contents_component {name jsx : String} (hname : IsBinding name)
    (hbody : IsElement (bodyOf jsx)) (rest : String) :
    contents? ((Component.ofJsx name jsx).source ++ rest) =
      (contents? rest).map (·.declare name) := by
  rw [contents?, tokens_component hname hbody, contents?]
  cases tokens? (element? []) rest.toList with
  | none => rfl
  | some tokens =>
      rw [Option.map_some, Option.bind_some, Option.bind_some, statements?, declarations?,
        if_neg hname.free]
      rfl

theorem tokens_export (names : List String) (h : ∀ name ∈ names, IsBinding name) :
    (tokens? (element? []) ((", ".intercalate names).toList ++ " \x7d;\n".toList)).bind exports? =
      some ⟨[], names⟩ := by
  have hspace : isPart ' ' = false := by decide +kernel
  have hcomma : isPart ',' = false := by decide +kernel
  have hend : tokens? (element? []) " \x7d;\n".toList = some [.mark '\x7d', .mark ';'] := by
    decide +kernel
  induction names with
  | nil => exact congrArg (·.bind exports?) hend
  | cons name names ih =>
      rw [List.forall_mem_cons] at h
      cases names with
      | nil =>
          rw [String.intercalate_singleton,
            tokens_word h.1.identifier (by simpa using hspace), hend]
          rfl
      | cons next names =>
          have hsplit : (", ".intercalate (name :: next :: names)).toList ++ " \x7d;\n".toList =
              name.toList ++ ',' :: ' ' :: ((", ".intercalate (next :: names)).toList ++
                " \x7d;\n".toList) := by
            simp [String.intercalate_cons_cons]
          rw [hsplit, tokens_word h.1.identifier (by simpa using hcomma), tokens_mark (by decide),
            tokens_space rfl]
          have hrest := ih h.2
          cases htokens : tokens? (element? []) ((", ".intercalate (next :: names)).toList ++
              " \x7d;\n".toList) with
          | none =>
              rw [htokens] at hrest
              cases hrest
          | some tokens =>
              rw [htokens, Option.bind_some] at hrest
              rw [Option.map_some, Option.map_some, Option.bind_some, exports?, hrest]
              rfl

theorem contents_export {names : List String} (h : ∀ name ∈ names, IsBinding name) :
    contents? ("export \x7b " ++ ", ".intercalate names ++ " \x7d;\n") = some ⟨[], names⟩ := by
  have hsplit : ("export \x7b " ++ ", ".intercalate names ++ " \x7d;\n").toList =
      "export".toList ++ ' ' :: '\x7b' :: ' ' :: ((", ".intercalate names).toList ++
        " \x7d;\n".toList) := by
    simp
  have hexport : IsIdentifier "export".toList := by decide +kernel
  have hspace : isPart ' ' = false := by decide +kernel
  have hnames := tokens_export names h
  rw [contents?, hsplit, tokens_word hexport (by simpa using hspace), tokens_space rfl,
    tokens_mark (by decide), tokens_space rfl]
  cases htokens : tokens? (element? []) ((", ".intercalate names).toList ++ " \x7d;\n".toList) with
  | none =>
      rw [htokens] at hnames
      cases hnames
  | some tokens =>
      rw [htokens, Option.bind_some] at hnames
      rw [Option.map_some, Option.map_some, Option.bind_some, statements?, hnames]

/-- Whether a component has a name that can be declared and renders one element. -/
def Component.IsSound (c : Component) : Prop :=
  ∃ name jsx, c = .ofJsx name jsx ∧ IsBinding name ∧ IsElement (bodyOf jsx)

theorem contents_components {components : List Component} (h : ∀ c ∈ components, c.IsSound)
    (rest : String) :
    contents? (String.join (components.map fun c => c.source ++ "\n") ++ rest) =
      (contents? rest).map fun contents =>
        { contents with declared := components.map (·.name) ++ contents.declared } := by
  induction components with
  | nil => simp
  | cons c components ih =>
      rw [List.forall_mem_cons] at h
      obtain ⟨⟨name, jsx, rfl, hname, hbody⟩, hrest⟩ := h
      have hfeed (text : String) : contents? ("\n" ++ text) = contents? text := by
        rw [contents?, String.toList_append, contents?]
        exact congrArg (·.bind statements?) (tokens_space (c := '\n') rfl text.toList)
      rw [List.map_cons, String.join_cons, String.append_assoc, String.append_assoc,
        contents_component hname hbody, hfeed, ih hrest, Option.map_map]
      rfl

/-- Where each component has a name that can be declared and renders one element, the module
declares the names of its components and exports them, in their order. -/
theorem contents_render {components : List Component} (h : ∀ c ∈ components, c.IsSound) :
    contents? (renderModule components) =
      some ⟨components.map (·.name), components.map (·.name)⟩ := by
  have hnames : ∀ name ∈ components.map (·.name), IsBinding name := by
    rw [List.forall_mem_map]
    intro c hc
    obtain ⟨name, jsx, rfl, hname, -⟩ := h c hc
    exact hname
  rw [renderModule, String.append_assoc, String.append_assoc, contents_components h,
    ← String.append_assoc, contents_export hnames, Option.map_some, List.append_nil]

end Jsx

end SvgPress
