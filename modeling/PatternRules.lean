import PatternRules.Analysis.Codec
import PatternRules.Config.Load
import PatternRules.Diagnostic.Codec
import PatternRules.Proofs.Ensures
import PatternRules.Proofs.NodeGrammar
import PatternRules.Source.Cursor.Lemmas
import PatternRules.Store
import PatternRules.Tree.Query
import PatternRules.Proofs.Reads
import PatternRules.Proofs.Reads.Expression
import PatternRules.Proofs.Reads.Document
import PatternRules.Proofs.Layout
import PatternRules.Proofs.Lookup
import PatternRules.Proofs.Abstract
import PatternRules.Proofs.Written
import PatternRules.Proofs.Accepts
import PatternRules.Proofs.Accepts.Expression
import PatternRules.Proofs.Accepts.Resolver
import PatternRules.Proofs.Accepts.Document
import PatternRules.Proofs.RoundTrip
import PatternRules.Proofs.Settles
import PatternRules.Proofs.Settles.Expression
import PatternRules.Proofs.Settles.Document
import PatternRules.Proofs.Located
import PatternRules.Proofs.Fidelity
import PatternRules.Proofs.Frame
import PatternRules.Proofs.Traceless
import PatternRules.Proofs.Twin
import PatternRules.Proofs.Twin.Expression
import PatternRules.Proofs.Twin.Resolver
import PatternRules.Proofs.Twin.Statement
import PatternRules.Proofs.Twin.Document
import PatternRules.Proofs.RuleLine
import PatternRules.Proofs.History
import PatternRules.Proofs.Contract
import PatternRules.Proofs.Contract.Expression
import PatternRules.Proofs.Contract.Statement
import PatternRules.Proofs.Contract.Document
import PatternRules.Proofs.InOrder
import PatternRules.Proofs.Merge
import PatternRules.Proofs.Impartial
import PatternRules.Proofs.RuleByItself
import PatternRules.Proofs.Coordinates
import PatternRules.Proofs.FileViews
import PatternRules.Proofs.Regions
import PatternRules.Proofs.Tiling
import PatternRules.Proofs.Course
import PatternRules.Proofs.Course.Expression
import PatternRules.Proofs.Course.Document
import PatternRules.Proofs.OpenEnded
import PatternRules.Proofs.JsonText
import PatternRules.Proofs.Codec
import PatternRules.Proofs.Depth
import PatternRules.Proofs.SameLine
import PatternRules.Proofs.Likeness
import PatternRules.Proofs.Likeness.Expression
import PatternRules.Proofs.Likeness.Statement
import PatternRules.Proofs.Likeness.Document
import PatternRules.Proofs.Spelling
import PatternRules.Proofs.Truncation
import PatternRules.Proofs.Uses
import PatternRules.Proofs.Room
import PatternRules.Proofs.LineEndings
import PatternRules.Proofs.Passes
import PatternRules.Proofs.Gives
import PatternRules.Proofs.Height
import PatternRules.Proofs.Nesting
import PatternRules.Proofs.Overruns
import PatternRules.Proofs.Commented
import PatternRules.Proofs.OpenLiterals
import PatternRules.Proofs.Recognition
import PatternRules.Proofs.Repetitions
import PatternRules.Proofs.Lineage
import PatternRules.Proofs.Automaton
import PatternRules.Proofs.Mentions
import PatternRules.Proofs.FileNames
import PatternRules.Proofs.Recovery
import PatternRules.Proofs.Progress
import PatternRules.Proofs.Yields
import PatternRules.Proofs.Classes
import PatternRules.Proofs.JsonReading
import PatternRules.Proofs.Configuration
import PatternRules.Proofs.Marks
