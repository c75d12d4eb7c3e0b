import SvgPress.Pass.Basic
import SvgPress.Text.Blank

/-!
What drawing programs leave behind: namespaces of their own, and the elements and attributes in
them. A namespace counts for the whole document under every prefix that is bound to it anywhere.
-/

namespace SvgPress.EditorData

/-- The namespaces of known editors. -/
def namespaces : List String :=
  ["http://www.bohemiancoding.com/sketch/ns",
    "http://www.figma.com/figma/ns",
    "http://inkscape.sourceforge.net/DTD/sodipodi-0.dtd",
    "http://sodipodi.sourceforge.net/DTD/sodipodi-0.dtd",
    "http://www.inkscape.org/namespaces/inkscape",
    "http://ns.adobe.com/AdobeIllustrator/10.0/",
    "http://ns.adobe.com/Graphs/1.0/",
    "http://ns.adobe.com/AdobeSVGViewerExtensions/3.0/",
    "http://ns.adobe.com/Variables/1.0/",
    "http://ns.adobe.com/SaveForWeb/1.0/",
    "http://ns.adobe.com/Extensibility/1.0/",
    "http://ns.adobe.com/Flows/1.0/",
    "http://ns.adobe.com/ImageReplacement/1.0/",
    "http://ns.adobe.com/GenericCustomNamespace/1.0/",
    "http://ns.adobe.com/XPath/1.0/",
    "http://schemas.microsoft.com/visio/2003/SVGExtensions/",
    "http://taptrix.com/vectorillustrator/svg_extensions",
    "http://www.serif.com/",
    "http://www.vector.evaxdesign.sk"]

/-- The prefix that an attribute declares, if it declares one. -/
def declared? (name : String) : Option String :=
  Text.dropPrefix? name "xmlns:"

/-- The prefix of a name: what stands before the first colon. -/
def prefixOf? (name : String) : Option String :=
  (Text.splitOnce? name ":").map (·.1)

/-- The prefixes that some element of the document binds to a namespace of the list. -/
def prefixes (unwanted : List String) (doc : Document) : List String :=
  doc.tags.flatMap fun tag =>
    tag.attributes.filterMap fun a => if unwanted.contains a.value then declared? a.name else none

/-- Whether a name has one of the prefixes. The prefix of declarations is never meant. -/
def isForeign (prefixes : List String) (name : String) : Bool :=
  (prefixOf? name).any fun p => p != "xmlns" && prefixes.contains p

/-- Whether an attribute neither has nor declares one of the prefixes. -/
def isOwn (prefixes : List String) (a : Attribute) : Bool :=
  !((declared? a.name).any prefixes.contains) && !isForeign prefixes a.name

/-- The document without the elements and attributes under the given prefixes and without the
declarations of these. -/
def strip (prefixes : List String) (doc : Document) : Document :=
  if prefixes.isEmpty then doc
  else
    (doc.prune fun
      | .element tag _ => !isForeign prefixes tag.name
      | .leaf .. => true).mapTags (·.keepAttributes (isOwn prefixes))

def removeEditorData : Pass where
  name := "removeEditorsNSData"
  description :=
    "removes editor namespaces, elements and attributes (Sketch, Inkscape, Illustrator...)"
  defaults := some [("additionalNamespaces", .array [])]
  apply := fun params doc => do
    let additional ← params.texts "additionalNamespaces"
    return strip (prefixes (namespaces ++ additional) doc) doc

end SvgPress.EditorData
