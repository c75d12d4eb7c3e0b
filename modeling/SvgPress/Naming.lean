import SvgPress.Storage.Path
import SvgPress.Text.Case

/-!
Names that follow from the name of a file: the component's name, and the prefix of identifiers that
keeps drawings on one page apart.
-/

namespace SvgPress.Naming

/-- The file name without directory and extension; empty if there is none. -/
def baseName (p : Path) : String :=
  p.stem?.getD ""

/-- Maximal runs of letters and digits. -/
def words (cs : List Char) : List (List Char) :=
  (Text.splitChars (fun c => !Text.isLetterOrNumber c) cs).filter (!·.isEmpty)

def capitalize : List Char → List Char
  | [] => []
  | c :: rest => Text.upperChar c ++ rest

/-- The words of a name, each with a capital, and nothing between them. A name that would start
with a digit, or be empty, gets a fixed beginning. -/
def componentName (p : Path) : String :=
  let name := (words (baseName p).toList).flatMap capitalize
  String.ofList (if name.head?.all Text.isNumeric then "Svg".toList ++ name else name)

/-- The name in small letters, white space as hyphens, and a hyphen at the end. -/
def idPrefix (p : Path) : String :=
  String.ofList (Text.lower (Text.hyphenate (baseName p).toList) ++ ['-'])

end SvgPress.Naming
