import LineScript.Action
import LineScript.Assoc
import LineScript.Block
import LineScript.Collection
import LineScript.Files
import LineScript.Formula.Evaluation
import LineScript.Formula.Lexeme
import LineScript.Formula.Polish
import LineScript.Formula.Token
import LineScript.Function
import LineScript.Library
import LineScript.Library.Arrays
import LineScript.Library.Entry
import LineScript.Library.Math
import LineScript.Library.Strings
import LineScript.Main
import LineScript.Message
import LineScript.Nesting
import LineScript.Number.Binary64
import LineScript.Number.Decimal
import LineScript.Number.Shortest
import LineScript.Options
import LineScript.Pattern
import LineScript.Quoted
import LineScript.Runner
import LineScript.ScriptError
import LineScript.Session.Basic
import LineScript.Session.Call
import LineScript.Session.Run
import LineScript.Session.Statements
import LineScript.Settings
import LineScript.Statement.Basic
import LineScript.Statement.ForHeader
import LineScript.Statement.Parser
import LineScript.Store
import LineScript.Text.Blank
import LineScript.Text.Lines
import LineScript.Text.Search
import LineScript.Text.WordChar
import LineScript.Text.WordRanges
import LineScript.Value.Arithmetic
import LineScript.Value.Basic
import LineScript.Value.Comparison
import LineScript.Proofs.Action
import LineScript.Proofs.Formula.Evaluation
import LineScript.Proofs.Session.Locals
import LineScript.Proofs.Formula.Lexemes
import LineScript.Proofs.Formula.WellFormed
import LineScript.Proofs.Formula.Grammar
import LineScript.Proofs.Formula.Spelling
import LineScript.Proofs.Formula.Precedence
import LineScript.Proofs.Session.Matching
import LineScript.Proofs.Statement.Shape
import LineScript.Proofs.Structured.Program
import LineScript.Proofs.Structured.Semantics
import LineScript.Proofs.Structured.Blocks
import LineScript.Proofs.Structured.Passing
import LineScript.Proofs.Structured.Performing
import LineScript.Proofs.Structured.Headers
import LineScript.Proofs.Structured.Refinement
import LineScript.Proofs.Causes
import LineScript.Proofs.Lines
import LineScript.Proofs.Nesting
import LineScript.Proofs.Collection
import LineScript.Proofs.Block.Openers
import LineScript.Proofs.Block.Nested
import LineScript.Proofs.Block.Run
import LineScript.Proofs.Block.Bodies
import LineScript.Proofs.Formula.Literal
import LineScript.Proofs.Session.Upholding
import LineScript.Proofs.Session.Errors
import LineScript.Proofs.Upholding
import LineScript.Proofs.Path
import LineScript.Proofs.DistinctKeys
import LineScript.Proofs.Session.Lifetimes
import LineScript.Proofs.Delimiters
import LineScript.Proofs.Formula.Nested
import LineScript.Proofs.Formula.Depth
import LineScript.Proofs.Statement.Call
import LineScript.Proofs.Statement.Names
import LineScript.Proofs.Session.Silence
import LineScript.Proofs.Abreast
import LineScript.Proofs.Session.Abreast
import LineScript.Proofs.Session.Parting
import LineScript.Proofs.InPlace
import LineScript.Proofs.Block.Gathering
import LineScript.Proofs.Session.Growth
import LineScript.Proofs.Session.Places
import LineScript.Proofs.Comparison
import LineScript.Proofs.Lists
import LineScript.Proofs.Formula.CallFree
import LineScript.Proofs.Session.Skipped
import LineScript.Proofs.Concatenation
import LineScript.Proofs.Formula.Pieces
import LineScript.Proofs.Formula.Apart
import LineScript.Proofs.Formula.Parenthesized
import LineScript.Proofs.Statement.Counting
import LineScript.Proofs.Statement.Setting
import LineScript.Proofs.Session.Reporting
import LineScript.Proofs.Session.Compound
import LineScript.Proofs.Library.Answers
import LineScript.Proofs.Library.Slices
import LineScript.Proofs.Library.Splitting
import LineScript.Proofs.Formula.Interpolation
import LineScript.Proofs.Number.Integers
import LineScript.Proofs.Statement.Decimals
import LineScript.Proofs.Session.Counter
import LineScript.Proofs.Block.Skipping
import LineScript.Proofs.Block.Rounds
import LineScript.Proofs.Unordered
import LineScript.Proofs.Settings.Faults
import LineScript.Proofs.Settings.Written
import LineScript.Proofs.Options
import LineScript.Proofs.Unterminated
import LineScript.Proofs.Library.Finding
