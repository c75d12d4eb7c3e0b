import SvgPress.Pass.Basic
import SvgPress.Text.Blank

/-!
White space in attribute values: line ends become spaces, both ends are trimmed, and runs of white
space collapse, each if asked for and in this order.
-/

namespace SvgPress.AttributeText

structure Cleaning where
  newlines : Bool
  trim : Bool
  spaces : Bool

def Cleaning.clean (c : Cleaning) (value : String) : String :=
  let cs := value.toList
  let cs := if c.newlines then Text.joinLines cs else cs
  let cs := if c.trim then Text.trimChars cs else cs
  String.ofList (if c.spaces then Text.squeeze cs else cs)

def cleanup : Pass where
  name := "cleanupAttrs"
  description := "cleans up attributes from newlines, trailing and repeating spaces"
  defaults := some [("newlines", .bool true), ("spaces", .bool true), ("trim", .bool true)]
  apply := fun params doc => do
    let newlines ← params.bool "newlines" true
    let trim ← params.bool "trim" true
    let spaces ← params.bool "spaces" true
    let cleaning : Cleaning := ⟨newlines, trim, spaces⟩
    return doc.mapTags (·.mapValues fun a => cleaning.clean a.value)

end SvgPress.AttributeText
