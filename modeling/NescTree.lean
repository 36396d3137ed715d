import NescTree.Main
import NescTree.Proofs.Notation.CompactForm
import NescTree.Proofs.Notation.Grammar
import NescTree.Proofs.Notation.Lexing
import NescTree.Proofs.Render.Bracketing
import NescTree.Proofs.Render.HeaderSkipping
import NescTree.Proofs.Render.Writing
import NescTree.Proofs.Render.ExpressionText
import NescTree.Proofs.Render.ExpressionReading
import NescTree.Proofs.Render.StatementText
import NescTree.Proofs.Render.StatementReading
import NescTree.Proofs.Render.LineStarts
import NescTree.Proofs.Render.StatementLines
import NescTree.Proofs.Render.Weaving
import NescTree.Proofs.Render.WrittenTexts
import NescTree.Proofs.Notation.Concatenation
import NescTree.Proofs.Notation.ViablePrefix
import NescTree.Proofs.Render.Renderability
import NescTree.Proofs.CommandLine.AllOrNothing
import NescTree.Proofs.Render.OperatorParentheses
import NescTree.Proofs.Render.PostfixBase
import NescTree.Proofs.Render.PrefixOperators
import NescTree.Proofs.Render.ParenthesisCount
import NescTree.Proofs.Notation.NodePlaces
import NescTree.Proofs.Notation.SyntaxFaults
import NescTree.Proofs.Source.FaultDisplay
import NescTree.Proofs.Notation.SingleTokens
import NescTree.Proofs.Source.MessageWindow
import NescTree.Proofs.Tree.Outline
import NescTree.Proofs.Service.TextInput
