import SvgPress.Pass.AttributeOrder
import SvgPress.Pass.AttributeRemoval
import SvgPress.Pass.AttributeText
import SvgPress.Pass.Colors
import SvgPress.Pass.Definitions
import SvgPress.Pass.EditorData
import SvgPress.Pass.EmptyContainers
import SvgPress.Pass.Groups
import SvgPress.Pass.Identifiers
import SvgPress.Pass.NodeRemoval
import SvgPress.Pass.PathData

/-!
The passes that come with the library, in the order in which they do best after one another.
-/

namespace SvgPress.Pass

def builtin : List Pass :=
  [NodeRemoval.removeDoctype,
    NodeRemoval.removeDeclaration,
    NodeRemoval.removeComments,
    NodeRemoval.removeMetadata,
    EditorData.removeEditorData,
    AttributeText.cleanup,
    NodeRemoval.removeTitle,
    NodeRemoval.removeDescriptions,
    Definitions.removeUseless,
    AttributeRemoval.removeEmpty,
    Numerals.cleanup,
    Colors.convertColors,
    PathData.convert,
    Identifiers.cleanup,
    Groups.collapseGroups,
    EmptyContainers.removeEmpty,
    AttributeRemoval.removeDimensions,
    AttributeRemoval.removeMatching .standard,
    AttributeOrder.sortAttributes]

end SvgPress.Pass
