import DocSheet.Main
import DocSheet.Command.Run
import DocSheet.Sheet.Assembly
import DocSheet.Sheet.Format
import DocSheet.Manifest.Reader
import DocSheet.Json.Fields
import DocSheet.Json.Variant
import DocSheet.Json.Value
import DocSheet.Json.Skip
import DocSheet.Json.Scalar
import DocSheet.Comment.DocFile
import DocSheet.Encoding
import DocSheet.Text.Quoted
import DocSheet.Proofs.Identifier.NormalForm
import DocSheet.Proofs.Identifier.Naming
import DocSheet.Proofs.Identifier.Signatures
import DocSheet.Proofs.Comment.Meaning
import DocSheet.Proofs.Comment.Reading
import DocSheet.Proofs.Comment.Members
import DocSheet.Proofs.Comment.Composition
import DocSheet.Proofs.Comment.ClosingTags
import DocSheet.Proofs.Comment.WellFormed
import DocSheet.Proofs.Sheet.Coverage
import DocSheet.Proofs.Command.Inputs
import DocSheet.Proofs.Command.Effects
import DocSheet.Proofs.Sheet.JsonForm
import DocSheet.Proofs.Sheet.Inheritance
import DocSheet.Proofs.Sheet.Filtering
import DocSheet.Proofs.Sheet.Precedence
import DocSheet.Proofs.Sheet.Alignment
import DocSheet.Proofs.Sheet.Enumerations
import DocSheet.Proofs.Sheet.Headers
import DocSheet.Proofs.Sheet.Lines
import DocSheet.Proofs.Sheet.Constants
import DocSheet.Proofs.Json.Layouts
import DocSheet.Proofs.Manifest.Format
import DocSheet.Proofs.Manifest.Reading
import DocSheet.Proofs.Manifest.Texts
import DocSheet.Proofs.Command.Output
import DocSheet.Proofs.Comment.Immaterial
import DocSheet.Proofs.Sheet.Layout
import DocSheet.Proofs.Sheet.Rearranging
import DocSheet.Proofs.Comment.Ending
import DocSheet.Proofs.Sheet.Vocabulary
import DocSheet.Proofs.Sheet.Subtree
