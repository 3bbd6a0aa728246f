import Squirrel.Main
import Squirrel.Proofs.Format.Echo
import Squirrel.Proofs.Grammar.Flattening
import Squirrel.Proofs.Analysis.Uses
import Squirrel.Proofs.Analysis.Reordering
import Squirrel.Proofs.Highlight.Place
import Squirrel.Proofs.Analysis.Malformed
import Squirrel.Proofs.Analysis.Essence
import Squirrel.Proofs.Doc.Fitting
import Squirrel.Proofs.Format.Whitespace
import Squirrel.Proofs.Token.Position
import Squirrel.Proofs.Token.Respacing
import Squirrel.Proofs.Token.Attachment
import Squirrel.Proofs.Grammar.Reporting
import Squirrel.Proofs.Grammar.Progress
import Squirrel.Proofs.Analysis.Duplicates
import Squirrel.Proofs.Analysis.WellFormed
import Squirrel.Proofs.Doc.Flushing
