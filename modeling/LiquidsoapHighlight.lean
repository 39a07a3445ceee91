import LiquidsoapHighlight.Liquidsoap.Validity
import LiquidsoapHighlight.Main
import LiquidsoapHighlight.Proofs.Scanner.Tiling
import LiquidsoapHighlight.Proofs.Liquidsoap.Holes
import LiquidsoapHighlight.Proofs.Liquidsoap.CommentEvidence
import LiquidsoapHighlight.Proofs.Liquidsoap.MaximalMunch
import LiquidsoapHighlight.Proofs.Liquidsoap.HoleScan
import LiquidsoapHighlight.Proofs.Token.Constructs
import LiquidsoapHighlight.Proofs.Liquidsoap.BracketedToken
import LiquidsoapHighlight.Proofs.Grammar.Built
import LiquidsoapHighlight.Proofs.Scanner.Ruled
import LiquidsoapHighlight.Proofs.Grammar.Following
import LiquidsoapHighlight.Proofs.Liquidsoap.FinishedLines
import LiquidsoapHighlight.Proofs.Scanner.Renaming
import LiquidsoapHighlight.Proofs.Relevance.Totals
import LiquidsoapHighlight.Proofs.Liquidsoap.Scripts
import LiquidsoapHighlight.Proofs.Regex.Exchange
import LiquidsoapHighlight.Proofs.Liquidsoap.Quotes
import LiquidsoapHighlight.Proofs.Relevance.Exchange
import LiquidsoapHighlight.Proofs.Grammar.Defects
import LiquidsoapHighlight.Proofs.Markup.Decoding
import LiquidsoapHighlight.Proofs.Text.Decoding
import LiquidsoapHighlight.Proofs.Liquidsoap.LastLine
import LiquidsoapHighlight.Proofs.Terminal.Sequences
import LiquidsoapHighlight.Proofs.CommandLine.Highlighting
import LiquidsoapHighlight.Proofs.CommandLine.Repair
import LiquidsoapHighlight.Proofs.Liquidsoap.Segments
import LiquidsoapHighlight.Proofs.Liquidsoap.DocTags
import LiquidsoapHighlight.Proofs.Liquidsoap.WholeWords
import LiquidsoapHighlight.Proofs.Liquidsoap.LineComment
import LiquidsoapHighlight.Proofs.Grammar.Measured
import LiquidsoapHighlight.Proofs.Liquidsoap.Numerals
import LiquidsoapHighlight.Proofs.Liquidsoap.RegexpLiterals
import LiquidsoapHighlight.Proofs.Liquidsoap.DirectiveEvidence
import LiquidsoapHighlight.Proofs.Relevance.Score
import LiquidsoapHighlight.Proofs.Grammar.Alternatives
import LiquidsoapHighlight.Proofs.Terminal.Screen
import LiquidsoapHighlight.Proofs.Terminal.Lines
import LiquidsoapHighlight.Proofs.CommandLine.Listing
import LiquidsoapHighlight.Proofs.CommandLine.Settings
import LiquidsoapHighlight.Proofs.Mode.History
import LiquidsoapHighlight.Proofs.Scanner.Counters
