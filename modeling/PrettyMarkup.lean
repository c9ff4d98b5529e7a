import PrettyMarkup.Main
import PrettyMarkup.Markup.Node
import PrettyMarkup.Markup.Outline
import PrettyMarkup.Proofs.Decoding
import PrettyMarkup.Proofs.Grammar
import PrettyMarkup.Proofs.MarkedOutlines
import PrettyMarkup.Proofs.Outlines
import PrettyMarkup.Proofs.Partition
import PrettyMarkup.Proofs.ReadBack
import PrettyMarkup.Proofs.Rewriting
import PrettyMarkup.Proofs.Settling
import PrettyMarkup.Proofs.StartTags
import PrettyMarkup.Proofs.TagSlices
import PrettyMarkup.Proofs.TagStarts
import PrettyMarkup.Proofs.Trees
import PrettyMarkup.Text.Folding
import PrettyMarkup.Proofs.Coarsening
import PrettyMarkup.Proofs.Layering
import PrettyMarkup.Proofs.Runs
import PrettyMarkup.Proofs.Formats
import PrettyMarkup.Proofs.Relaid
import PrettyMarkup.Proofs.ClosedForm
import PrettyMarkup.Proofs.Heights
import PrettyMarkup.Proofs.Shapes
import PrettyMarkup.Proofs.TokenSeams
import PrettyMarkup.Proofs.LineSeams
import PrettyMarkup.Proofs.FlatDeclarations
import PrettyMarkup.Proofs.WholeValues
import PrettyMarkup.Proofs.CheckedLexer
