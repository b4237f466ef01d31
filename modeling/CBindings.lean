import CBindings.CType.Basic
import CBindings.CommandLine.Argument
import CBindings.CommandLine.Options
import CBindings.CommandLine.Response
import CBindings.Constant.Evaluation
import CBindings.Constant.Value
import CBindings.Decimal.Basic
import CBindings.Decimal.Double
import CBindings.Decimal.Shortest
import CBindings.Declaration.Basic
import CBindings.Declaration.Declarator
import CBindings.Declaration.Listing
import CBindings.Declaration.Naming
import CBindings.Declaration.ParseError
import CBindings.Declaration.Reader
import CBindings.Declaration.Statement
import CBindings.Declaration.Syntax
import CBindings.Diagnostic
import CBindings.Expr.Basic
import CBindings.Expr.Error
import CBindings.Expr.Evaluation
import CBindings.Expr.Parser
import CBindings.File.Path
import CBindings.File.Tree
import CBindings.File.Writing
import CBindings.Header.Conditional
import CBindings.Header.Directive
import CBindings.Header.IncludeGraph
import CBindings.Integer.Basic
import CBindings.Integer.Literal
import CBindings.Json.Basic
import CBindings.Json.Printer
import CBindings.Json.Reader
import CBindings.Macro.Basic
import CBindings.Macro.Condition
import CBindings.Macro.Expansion
import CBindings.Macro.Weight
import CBindings.Main
import CBindings.OrderedMap
import CBindings.Output.Emission
import CBindings.Output.JsonView
import CBindings.Output.Module
import CBindings.Output.Namespace
import CBindings.Output.Registry
import CBindings.Output.Writer
import CBindings.Primitive
import CBindings.Report.Basic
import CBindings.Report.Comparison
import CBindings.Run.Basic
import CBindings.Run.SearchPath
import CBindings.Rust.Item
import CBindings.Rust.Name
import CBindings.Rust.Source
import CBindings.Rust.TypeMapping
import CBindings.SymbolTable.Basic
import CBindings.SymbolTable.Insertion
import CBindings.SymbolTable.Reference
import CBindings.Target
import CBindings.Text.Blank
import CBindings.Text.Boundary
import CBindings.Text.Digit
import CBindings.Text.Lowercase
import CBindings.Text.Numeral
import CBindings.Text.Printable
import CBindings.Text.Quoted
import CBindings.Text.Utf8
import CBindings.Text.Word
import CBindings.Token.Basic
import CBindings.Token.Group
import CBindings.Token.Lexer
import CBindings.Token.LogicalLine
import CBindings.Token.Parsed
import CBindings.Unseen
import CBindings.Proofs.Macro.Nesting
import CBindings.Proofs.Macro.Termination
import CBindings.Proofs.SymbolTable.Holder
import CBindings.Proofs.SymbolTable.History
import CBindings.Proofs.Header.Lookup
import CBindings.Proofs.Macro.Findings
import CBindings.Proofs.Header.Line
import CBindings.Proofs.Header.Traversal
import CBindings.Proofs.Header.Order
import CBindings.Proofs.Header.Dependency
import CBindings.Proofs.Constant.Agreement
import CBindings.Proofs.Constant.Reference
import CBindings.Proofs.Constant.Replay
import CBindings.Proofs.Constant.Stage
import CBindings.Proofs.Expr.Dependence
import CBindings.Proofs.Rust.Replay
import CBindings.Proofs.Rust.Reference
import CBindings.Proofs.SymbolTable.Step
import CBindings.Proofs.SymbolTable.Winner
import CBindings.Proofs.SymbolTable.Enumerator
import CBindings.Proofs.Output.Module
import CBindings.Proofs.Output.Declared
import CBindings.Proofs.Constant.Counting
import CBindings.Proofs.Constant.Settling
import CBindings.Proofs.Constant.Question
import CBindings.Proofs.Rust.Settling
import CBindings.Proofs.Declaration.Nesting
import CBindings.Proofs.Declaration.Grouping
import CBindings.Proofs.Integer.Decimal
import CBindings.Proofs.Declaration.Reading
import CBindings.Proofs.Declaration.RoundTrip
import CBindings.Proofs.Expr.Grammar
import CBindings.Proofs.Expr.Inlining
import CBindings.Proofs.Expr.Writing
import CBindings.Proofs.Integer.Literal
import CBindings.Proofs.Integer.Word
import CBindings.Proofs.Integer.Written
import CBindings.Proofs.Expr.Respelling
import CBindings.Proofs.Macro.Arithmetic
import CBindings.Proofs.Macro.Condition
import CBindings.Proofs.Macro.Unfolding
import CBindings.Proofs.Constant.Expansion
import CBindings.Proofs.Header.Outline
import CBindings.Proofs.Header.Selection
import CBindings.Proofs.Macro.ObjectLike
import CBindings.Proofs.SymbolTable.Emitted
import CBindings.Proofs.SymbolTable.Account
import CBindings.Proofs.Output.Files
import CBindings.Proofs.Output.Report
import CBindings.Proofs.Expr.Literal
import CBindings.Proofs.Integer.Range
import CBindings.Proofs.Constant.Guarding
import CBindings.Proofs.Constant.Range
import CBindings.Proofs.Declaration.Omission
import CBindings.Proofs.File.Places
import CBindings.Proofs.Header.Predefined
import CBindings.Proofs.Header.Definition
import CBindings.Proofs.CType.Definition
import CBindings.Proofs.CType.Expansion
import CBindings.Proofs.Rust.Written
import CBindings.Proofs.Rust.Alias
import CBindings.Proofs.Rust.Unaliasing
import CBindings.Proofs.SymbolTable.Numbering
import CBindings.Proofs.SymbolTable.Unresolved
import CBindings.Proofs.Report.Serialization
import CBindings.Proofs.Output.FunctionLine
import CBindings.Proofs.Output.Signature
import CBindings.Proofs.Token.Spelling
import CBindings.Proofs.Expr.Folding
import CBindings.Proofs.Constant.Folding
import CBindings.Proofs.Text.Line
import CBindings.Proofs.Constant.Shape
import CBindings.Proofs.Rust.Line
import CBindings.Proofs.Output.Outline
import CBindings.Proofs.Output.Balance
import CBindings.Proofs.Output.Contribution
import CBindings.Proofs.Declaration.Convention
import CBindings.Proofs.Declaration.Interleaving
import CBindings.Proofs.Declaration.Kind
import CBindings.Proofs.Declaration.Locality
import CBindings.Proofs.SymbolTable.Refusal
import CBindings.Proofs.Decimal.Literal
import CBindings.Proofs.Constant.Kind
import CBindings.Proofs.Constant.Numbering
import CBindings.Proofs.Declaration.Inversion
import CBindings.Proofs.Declaration.Untagged
import CBindings.Proofs.Declaration.Hygiene
import CBindings.Proofs.Constant.Meaning
import CBindings.Proofs.Expr.Typing
import CBindings.Proofs.Expr.Wrapping
import CBindings.Proofs.Expr.Range
import CBindings.Proofs.Token.Comment
import CBindings.Proofs.Token.Storage
import CBindings.Proofs.Macro.Line
import CBindings.Proofs.Report.Comparison
import CBindings.Proofs.Output.Block
import CBindings.Proofs.Output.Naming
import CBindings.Proofs.Primitive.Specifier
import CBindings.Proofs.Run.Naming
