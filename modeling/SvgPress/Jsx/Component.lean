import SvgPress.Text.Blank

/-!
Components and the modules that hold them.
-/

namespace SvgPress.Jsx

/-- A named component with its text. -/
structure Component where
  name : String
  source : String
  deriving DecidableEq, Repr

/-- A line one level deeper; an empty line stays empty. -/
def indentLine (line : List Char) : String :=
  if line.isEmpty then "" else "  " ++ String.ofList line

/-- A component that renders some JSX. -/
def Component.ofJsx (name jsx : String) : Component where
  name := name
  source :=
    "const " ++ name ++ " = () => (\n" ++
      "\n".intercalate ((Text.lines jsx.toList).map indentLine) ++ "\n);\n"

/-- The text of a module: every component in order, an empty line after each, and one line that
exports them all. -/
def renderModule (components : List Component) : String :=
  String.join (components.map fun c => c.source ++ "\n") ++
    "export \x7b " ++ ", ".intercalate (components.map (·.name)) ++ " \x7d;\n"

end SvgPress.Jsx
