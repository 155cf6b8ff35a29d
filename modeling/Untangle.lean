import Untangle.CommandLine.Arguments
import Untangle.CommandLine.Environment
import Untangle.CommandLine.FileTree
import Untangle.CommandLine.Integer
import Untangle.CommandLine.Run
import Untangle.Diagnostic.Ink
import Untangle.Diagnostic.Location
import Untangle.Diagnostic.Render
import Untangle.Diagnostic.SourceError
import Untangle.Fault
import Untangle.Grammar.Feature
import Untangle.Grammar.Version
import Untangle.Main
import Untangle.Number.Binary64
import Untangle.Number.Shortest
import Untangle.Number.Sum
import Untangle.Pipeline.Options
import Untangle.Pipeline.Prettify
import Untangle.Print.Doc
import Untangle.Print.Expression
import Untangle.Print.Function
import Untangle.Print.Generate
import Untangle.Print.Literal
import Untangle.Print.Phrase
import Untangle.Print.Place
import Untangle.Print.Precedence
import Untangle.Print.Statement
import Untangle.Print.StatementStart
import Untangle.Proofs.Diagnostic.Pointing
import Untangle.Proofs.Grammar.Admission
import Untangle.Proofs.Grammar.Features
import Untangle.Proofs.Outcome
import Untangle.Proofs.Print.Brackets
import Untangle.Proofs.Print.Expressions
import Untangle.Proofs.Print.Indentation
import Untangle.Proofs.Print.Layout
import Untangle.Proofs.Print.Marking
import Untangle.Proofs.Print.Parts
import Untangle.Proofs.Print.PlainTrees
import Untangle.Proofs.Print.Progress
import Untangle.Proofs.Print.Shielding
import Untangle.Proofs.Print.SideBySide
import Untangle.Proofs.Print.Statements
import Untangle.Proofs.Reading.Constructions
import Untangle.Proofs.Reading.LoopHeads
import Untangle.Proofs.Reading.Parser
import Untangle.Proofs.Reading.Parsing
import Untangle.Proofs.Reading.RoundTrip
import Untangle.Proofs.Reading.SentenceLayout
import Untangle.Proofs.Reading.SentenceParsing
import Untangle.Proofs.Reading.SentenceRoundTrip
import Untangle.Proofs.Reading.SentenceWriting
import Untangle.Proofs.Reading.Sentences
import Untangle.Proofs.Reading.Spelling
import Untangle.Proofs.Reading.Tokens
import Untangle.Proofs.Reading.Writing
import Untangle.Proofs.Reshape.Adequacy
import Untangle.Proofs.Reshape.Chains
import Untangle.Proofs.Reshape.CommaHeads
import Untangle.Proofs.Reshape.Comparisons
import Untangle.Proofs.Reshape.Conservation
import Untangle.Proofs.Reshape.Constants
import Untangle.Proofs.Reshape.Declarators
import Untangle.Proofs.Reshape.Directives
import Untangle.Proofs.Reshape.Effects
import Untangle.Proofs.Reshape.Functions
import Untangle.Proofs.Reshape.Idempotence
import Untangle.Proofs.Reshape.Jumps
import Untangle.Proofs.Reshape.Kinds
import Untangle.Proofs.Reshape.Made
import Untangle.Proofs.Reshape.NormalForm
import Untangle.Proofs.Reshape.Packings
import Untangle.Proofs.Reshape.Rules
import Untangle.Proofs.Reshape.Termination
import Untangle.Proofs.Reshape.Unfolding
import Untangle.Proofs.Reshape.Visits
import Untangle.Proofs.Reshape.Yields
import Untangle.Proofs.Semantics.EvaluationOrder
import Untangle.Proofs.Semantics.Expressions
import Untangle.Proofs.Semantics.Heads
import Untangle.Proofs.Semantics.Labels
import Untangle.Proofs.Semantics.Language
import Untangle.Proofs.Semantics.Preservation
import Untangle.Proofs.Semantics.Reading
import Untangle.Proofs.Semantics.Statements
import Untangle.Proofs.Semantics.Unpacking
import Untangle.Proofs.Text.Decimal
import Untangle.Proofs.Text.Memory
import Untangle.Proofs.Text.StringLiterals
import Untangle.Proofs.Tree.Everywhere
import Untangle.Proofs.Tree.Fields
import Untangle.Proofs.Tree.PlainData
import Untangle.Proofs.Tree.Tally
import Untangle.Proofs.Tree.WellFormed
import Untangle.Reshape.Builtin
import Untangle.Reshape.Draft
import Untangle.Reshape.Engine
import Untangle.Reshape.Rule.Branch
import Untangle.Reshape.Rule.Elementary
import Untangle.Reshape.Rule.Loop
import Untangle.Reshape.Rule.Operator
import Untangle.Reshape.Rule.Unpack
import Untangle.Reshape.Traversal
import Untangle.Text.Blank
import Untangle.Text.CodePoint
import Untangle.Text.Digit
import Untangle.Text.Hex
import Untangle.Text.Memory
import Untangle.Text.Printable
import Untangle.Text.Quoted
import Untangle.Text.Split
import Untangle.Text.StringLiteral
import Untangle.Text.Word
import Untangle.Tree.Access
import Untangle.Tree.Build
import Untangle.Tree.Data
import Untangle.Tree.Display
import Untangle.Tree.Equality
import Untangle.Tree.Json
import Untangle.Tree.Sum
import Untangle.Tree.Value
import Untangle.Tree.Walk
