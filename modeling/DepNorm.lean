import DepNorm.Text.Lines
import DepNorm.Text.Numeral
import DepNorm.Text.Lowercase
import DepNorm.Text.Uppercase
import DepNorm.Regex.Parser
import DepNorm.Regex.Capture
import DepNorm.Operator
import DepNorm.Filters
import DepNorm.Graph.WellFormed
import DepNorm.TokenTable.Reader
import DepNorm.TokenTable.Writer
import DepNorm.Gloss.ThereBe
import DepNorm.Gloss.AtLeast
import DepNorm.Pattern.Declaration
import DepNorm.Pattern.Search
import DepNorm.Normalize
import DepNorm.CommandLine.Run
import DepNorm.Main
import DepNorm.Proofs.Graph.Edit
import DepNorm.Proofs.Graph.Reachable
import DepNorm.Proofs.Pattern.Choice
import DepNorm.Proofs.Pattern.First
import DepNorm.Proofs.Pattern.Required
import DepNorm.Proofs.Pattern.Complete
import DepNorm.Proofs.Pattern.Sound
import DepNorm.Proofs.Graph.Ends
import DepNorm.Proofs.Graph.Forest
import DepNorm.Proofs.Normalize
import DepNorm.Proofs.Splice.Collapse
import DepNorm.Proofs.TokenTable.RoundTrip
import DepNorm.Proofs.TokenTable.Normalized
import DepNorm.Proofs.TokenTable.LineOrder
import DepNorm.Proofs.Graph.Numbers
import DepNorm.Proofs.Splice.Loops
import DepNorm.Proofs.Provenance
import DepNorm.Proofs.Renaming
import DepNorm.Proofs.Unseen
import DepNorm.Proofs.Configuration
import DepNorm.Proofs.Splice.Effect
import DepNorm.Proofs.TokenTable.Accepted
import DepNorm.Proofs.Splice.Lowering
import DepNorm.Proofs.Gloss.Settling
import DepNorm.Proofs.Splice.Dropping
import DepNorm.Proofs.Splice.Heir
import DepNorm.Proofs.Splice.Repetition
import DepNorm.Proofs.Pattern.Optional
import DepNorm.Proofs.Pattern.Wider
import DepNorm.Proofs.Graph.Relabel
import DepNorm.Proofs.Pattern.Accepted
import DepNorm.Proofs.CommandLine.Spelling
import DepNorm.Proofs.CommandLine.Conclusion
import DepNorm.Proofs.Pattern.Calls
import DepNorm.Proofs.Regex.Search
