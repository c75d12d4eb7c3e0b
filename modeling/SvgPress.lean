import SvgPress.Main
import SvgPress.Markup.Position
import SvgPress.Proofs.Markup.Resume
import SvgPress.Proofs.Markup.Steps
import SvgPress.Proofs.Markup.Escapes
import SvgPress.Proofs.Markup.Tags
import SvgPress.Proofs.Markup.Leaves
import SvgPress.Proofs.Markup.Balance
import SvgPress.Proofs.Markup.Pretty
import SvgPress.Proofs.Markup.RoundTrip
import SvgPress.Proofs.Identifiers.Assignment
import SvgPress.Proofs.Identifiers.Cleanup
import SvgPress.Proofs.Identifiers.Distinctness
import SvgPress.Proofs.Identifiers.Mentions
import SvgPress.Proofs.Identifiers.Succession
import SvgPress.Proofs.Markup.Firmness
import SvgPress.Proofs.Markup.Reprint
import SvgPress.Proofs.Pass.Cuts
import SvgPress.Proofs.Pass.Descriptions
import SvgPress.Proofs.Pass.Dissolving
import SvgPress.Proofs.Pass.Padding
import SvgPress.Proofs.Pass.Parts
import SvgPress.Proofs.Pass.Rereading
import SvgPress.Proofs.Pass.Retagging
import SvgPress.Proofs.Pipeline.Acceptance
import SvgPress.Proofs.Pipeline.BuiltinStages
import SvgPress.Proofs.Pipeline.Convergence
import SvgPress.Proofs.Pipeline.DefaultSteps
import SvgPress.Proofs.Pipeline.Drawing
import SvgPress.Proofs.Pipeline.FilePrefix
import SvgPress.Proofs.Pipeline.Resolution
import SvgPress.Proofs.Pipeline.SecondRun
import SvgPress.Proofs.Export.Modules
import SvgPress.Proofs.Export.Overwriting
import SvgPress.Proofs.Pass.Inheritance
import SvgPress.Proofs.Pass.Sorting
import SvgPress.Proofs.Pass.Weight
import SvgPress.Proofs.Pipeline.FixedPoint
import SvgPress.Proofs.Pipeline.Structural
import SvgPress.Proofs.Storage.Places
import SvgPress.Proofs.Storage.Writing
import SvgPress.Proofs.Batch.Settling
import SvgPress.Proofs.Batch.ComponentNames
import SvgPress.Proofs.Jsx.WordSpacing
import SvgPress.Proofs.Jsx.Wrapping
import SvgPress.Proofs.Markup.Flattening
import SvgPress.Proofs.Pass.WrittenNumbers
import SvgPress.Proofs.Pipeline.Separation
import SvgPress.Proofs.Markup.Decoding
import SvgPress.Proofs.Markup.WordGaps
import SvgPress.Proofs.Markup.Unexpanded
import SvgPress.Proofs.Identifiers.Capture
import SvgPress.Proofs.Identifiers.Stability
import SvgPress.Proofs.Pass.Hollowness
import SvgPress.Proofs.Pass.Scoping
import SvgPress.Proofs.Pass.Flatness
import SvgPress.Proofs.Pass.Alternatives
import SvgPress.Proofs.Pass.Survival
import SvgPress.Proofs.Pass.Tidiness
import SvgPress.Proofs.Pass.Removals
import SvgPress.Proofs.Pass.Ranking
import SvgPress.Proofs.Batch.ValidNames
import SvgPress.Proofs.Declared.Parameters
import SvgPress.Proofs.Jsx.WrittenNames
import SvgPress.Proofs.Pass.NamePatterns
import SvgPress.Proofs.Config.Written
import SvgPress.Proofs.Markup.SettledText
import SvgPress.Proofs.Pass.Repetition
import SvgPress.Proofs.Identifiers.Enumeration
import SvgPress.Proofs.Jsx.Splitting
import SvgPress.Proofs.Number.Stability
