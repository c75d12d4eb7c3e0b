import SvgPress.Pass.Basic

/-!
Definitions that nothing can refer to. Inside `<defs>` a node is of use only if an identifier or a
style sheet stands somewhere in it.
-/

namespace SvgPress.Definitions

mutual

/-- Whether a node holds an element with an identifier, or a style sheet. -/
def isReferable : Node → Bool
  | .element tag children =>
    tag.hasAttribute "id" || tag.name == "style" || anyReferable children
  | .leaf .. => false
termination_by structural n => n

def anyReferable : List Node → Bool
  | [] => false
  | n :: rest => isReferable n || anyReferable rest
termination_by structural ns => ns

end

mutual

/-- Drop, from every `<defs>` below a node or the node itself, the children that cannot be referred
to. -/
def tidy : Node → Node
  | .element tag children => .element tag (tidyAll (tag.name == "defs") children)
  | .leaf kind content => .leaf kind content
termination_by structural n => n

def tidyAll (inDefinitions : Bool) : List Node → List Node
  | [] => []
  | n :: rest =>
    if inDefinitions && !isReferable n then tidyAll inDefinitions rest
    else tidy n :: tidyAll inDefinitions rest
termination_by structural ns => ns

end

def removeUseless : Pass :=
  .always "removeUselessDefs" "removes elements in <defs> without id"
    fun doc => ⟨tidyAll false doc.nodes⟩

end SvgPress.Definitions
