import ElixirReader.Analysis.Basic
import ElixirReader.CommandLine.Arguments
import ElixirReader.Decimal.Layout
import ElixirReader.Decimal.Shortest
import ElixirReader.Lexer.Basic
import ElixirReader.Main
import ElixirReader.Parser.Expression
import ElixirReader.Term.Walk
import ElixirReader.Token.Category
import ElixirReader.Tree.Calling
import ElixirReader.Tree.Traversal
import ElixirReader.Proofs.Lexer.Frames
import ElixirReader.Proofs.Lexer.Tiling
import ElixirReader.Proofs.Lexer.Nesting
import ElixirReader.Proofs.Parser.Delimiters
import ElixirReader.Proofs.Parser.Moves
import ElixirReader.Proofs.Parser.Runs
import ElixirReader.Proofs.Parser.Primitives
import ElixirReader.Proofs.Parser.Statements
import ElixirReader.Proofs.Parser.Delimited
import ElixirReader.Proofs.Parser.Texts
import ElixirReader.Proofs.Parser.Lookahead
import ElixirReader.Proofs.Parser.Literals
import ElixirReader.Proofs.Parser.Containers
import ElixirReader.Proofs.Parser.Clauses
import ElixirReader.Proofs.Parser.Blocks
import ElixirReader.Proofs.Parser.Calls
import ElixirReader.Proofs.Parser.Expressions
import ElixirReader.Proofs.Parser.Termination
import ElixirReader.Proofs.Parser.Containment
import ElixirReader.Proofs.Lexer.Enclosures
import ElixirReader.Proofs.Operators.Tree
import ElixirReader.Proofs.Parser.Yields
import ElixirReader.Proofs.Parser.Climbing
import ElixirReader.Proofs.Parser.Chains
import ElixirReader.Proofs.Lexer.Stretches
import ElixirReader.Proofs.Lexer.Operands
import ElixirReader.Proofs.Lexer.Literals
import ElixirReader.Proofs.Quote.Code
import ElixirReader.Proofs.Quote.Operands
import ElixirReader.Proofs.Quote.Operations
import ElixirReader.Proofs.Quote.Literals
import ElixirReader.Proofs.Quote.Elements
import ElixirReader.Proofs.Quote.Containers
import ElixirReader.Proofs.Quote.Data
import ElixirReader.Proofs.Lexer.Framing
import ElixirReader.Proofs.Lexer.Positions
import ElixirReader.Proofs.Lexer.Resuming
import ElixirReader.Proofs.Errors.Reading
import ElixirReader.Proofs.Errors.Texts
import ElixirReader.Proofs.Errors.Literals
import ElixirReader.Proofs.Errors.Containers
import ElixirReader.Proofs.Errors.Blocks
import ElixirReader.Proofs.Errors.Calls
import ElixirReader.Proofs.Errors.Expressions
import ElixirReader.Proofs.Errors.Documents
import ElixirReader.Proofs.Quote.Congruence
import ElixirReader.Proofs.Quote.Positions
import ElixirReader.Proofs.Quote.Messages
import ElixirReader.Proofs.Spans.Expressions
import ElixirReader.Proofs.Embedding.Statements
import ElixirReader.Proofs.Diagnosis.Documents
import ElixirReader.Proofs.Lexer.Driving
import ElixirReader.Proofs.Term.Inspect
import ElixirReader.Proofs.Analysis.Drivers
import ElixirReader.Proofs.Diagnosis.Escapes
import ElixirReader.Proofs.Likeness.Abreast
import ElixirReader.Proofs.Likeness.Ahead
import ElixirReader.Proofs.Likeness.Blocks
import ElixirReader.Proofs.Likeness.Calls
import ElixirReader.Proofs.Likeness.Expressions
import ElixirReader.Proofs.Likeness.Fronts
import ElixirReader.Proofs.Likeness.Comments
import ElixirReader.Proofs.Heights.Documents
import ElixirReader.Proofs.Parser.Segments
import ElixirReader.Proofs.Quote.Segments
import ElixirReader.Proofs.Lexer.Pieces
import ElixirReader.Proofs.Quote.Escapes
import ElixirReader.Proofs.Lexer.Sigils
import ElixirReader.Proofs.Quote.Sigils
import ElixirReader.Proofs.Lexer.Heredocs
import ElixirReader.Proofs.Quote.Heredocs
import ElixirReader.Proofs.Lexer.Lengths
import ElixirReader.Proofs.Lexer.Effect
import ElixirReader.Proofs.Likeness.Endings
import ElixirReader.Proofs.Embedding.Lexing
import ElixirReader.Proofs.Embedding.Sources
import ElixirReader.Proofs.Lexer.Code
import ElixirReader.Proofs.Quote.Numerals
import ElixirReader.Proofs.Quote.Atoms
import ElixirReader.Proofs.Render.Positions
import ElixirReader.Proofs.DoBlocks.Outermost
import ElixirReader.Proofs.Lexer.Neighbours
import ElixirReader.Proofs.Term.Walk
import ElixirReader.Proofs.Locating.Documents
import ElixirReader.Proofs.Decimal.Layouts
