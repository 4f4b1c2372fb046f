import RSource.Node.Walk
import RSource.Program
import RSource.Proofs.Anchors
import RSource.Proofs.Braces
import RSource.Proofs.Buffering
import RSource.Proofs.Clauses
import RSource.Proofs.Concatenation
import RSource.Proofs.Continuations
import RSource.Proofs.Decoding
import RSource.Proofs.Delimiters
import RSource.Proofs.Enclosure
import RSource.Proofs.Fallbacks
import RSource.Proofs.Faults
import RSource.Proofs.Height
import RSource.Proofs.LineBreaks
import RSource.Proofs.LongestMatch
import RSource.Proofs.Names
import RSource.Proofs.Nesting
import RSource.Proofs.NormalForm
import RSource.Proofs.Numbering
import RSource.Proofs.Offsets
import RSource.Proofs.Outline
import RSource.Proofs.Partition
import RSource.Proofs.Places
import RSource.Proofs.Prefixes
import RSource.Proofs.Progress
import RSource.Proofs.Refusal
import RSource.Proofs.Restoring
import RSource.Proofs.RoundTrip
import RSource.Proofs.Sessions
import RSource.Proofs.Slots
import RSource.Proofs.Spacing
import RSource.Proofs.Splitting
import RSource.Proofs.Statements
import RSource.Proofs.Translation
import RSource.Proofs.Walks
import RSource.Proofs.Words
import RSource.Proofs.Yield
import RSource.Session
