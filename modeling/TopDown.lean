import TopDown.Main
import TopDown.Proofs.Grammar.Closure
import TopDown.Proofs.Grammar.Derivability
import TopDown.Proofs.Grammar.Lookahead
import TopDown.Proofs.Grammar.Prediction
import TopDown.Proofs.Grammar.Sets
import TopDown.Proofs.Grammar.Choice
import TopDown.Proofs.Grammar.Program
import TopDown.Proofs.Derivation.Run
import TopDown.Proofs.Derivation.Word
import TopDown.Proofs.Derivation.Forced
import TopDown.Proofs.Derivation.Call
import TopDown.Proofs.Derivation.Declarations
import TopDown.Proofs.Derivation.Phrase
import TopDown.Proofs.Derivation.Expected
import TopDown.Proofs.Derivation.Places
import TopDown.Proofs.Derivation.Passes
import TopDown.Proofs.Derivation.Trees
import TopDown.Proofs.Lexicon.Lexeme
import TopDown.Proofs.Lexicon.Scan
import TopDown.Proofs.Lexicon.Words
import TopDown.Proofs.Tree.Rose
import TopDown.Proofs.Tree.Children
import TopDown.Proofs.Tree.Graft
import TopDown.Proofs.Tree.Levels
import TopDown.Proofs.Tree.Numbering
import TopDown.Proofs.Tree.Spelling
import TopDown.Proofs.Tree.Terminals
import TopDown.Proofs.Render.Rows
import TopDown.Proofs.Parse.Program
import TopDown.Proofs.Parse.Acceptance
import TopDown.Proofs.Parse.ViablePrefix
import TopDown.Proofs.Parse.Tree
import TopDown.Proofs.Parse.Dispatch
import TopDown.Proofs.Parse.RoundTrip
import TopDown.Proofs.Parse.Failure
import TopDown.Proofs.Parse.Redeclaration
import TopDown.Proofs.Parse.Descent
import TopDown.Proofs.Parse.Routines
import TopDown.Proofs.Parse.Growth
import TopDown.Proofs.Parse.Preorder
import TopDown.Proofs.Derivation.Levels
import TopDown.Proofs.Parse.Limit
import TopDown.Proofs.Parse.Locality
import TopDown.Proofs.Parse.Resumption
import TopDown.Proofs.Parse.Message
import TopDown.Proofs.Parse.Expectation
import TopDown.Proofs.Parse.Trailing
import TopDown.Proofs.Lexicon.Layout
import TopDown.Proofs.Derivation.Renaming
import TopDown.Proofs.Parse.Renaming
import TopDown.Proofs.Derivation.Complete
import TopDown.Proofs.Derivation.Statements
import TopDown.Proofs.Lexicon.Joined
import TopDown.Proofs.Parse.Concatenation
import TopDown.Proofs.Lexicon.Shapes
import TopDown.Proofs.Lexicon.Respacing
import TopDown.Proofs.Tree.Walk
import TopDown.Proofs.Tree.Sink
import TopDown.Proofs.Tree.Store
import TopDown.Proofs.Parse.Frame
import TopDown.Proofs.Grammar.Unambiguous
import TopDown.Proofs.Lexicon.LineEnds
import TopDown.Proofs.Command.FileSystem
import TopDown.Proofs.Command.Run
import TopDown.Proofs.Render.Dot
import TopDown.Proofs.Command.Outcome
import TopDown.Proofs.Grammar.Forms
import TopDown.Proofs.Grammar.Rounds
import TopDown.Proofs.Grammar.First
import TopDown.Proofs.Grammar.Follow
import TopDown.Proofs.Grammar.Table
import TopDown.Proofs.Command.Content
import TopDown.Proofs.Command.Format
import TopDown.Proofs.Derivation.Size
import TopDown.Proofs.Parse.Size
import TopDown.Proofs.Derivation.Nesting
import TopDown.Proofs.Parse.Nesting
import TopDown.Proofs.Lexicon.Munch
import TopDown.Proofs.Lexicon.Comments
import TopDown.Proofs.Lexicon.Single
import TopDown.Proofs.Tree.Shape
import TopDown.Proofs.Tree.Filling
import TopDown.Proofs.Tree.Traversal
import TopDown.Proofs.Parse.Labels
import TopDown.Proofs.Render.Outline
import TopDown.Proofs.Render.Link
