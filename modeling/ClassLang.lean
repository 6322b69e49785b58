import ClassLang.Main
import ClassLang.CommandLine
import ClassLang.Syntax.Equality
import ClassLang.Proofs.Lowering.Stmt
import ClassLang.Proofs.Folding
import ClassLang.Proofs.Simplification
import ClassLang.Proofs.IntegerFolding
import ClassLang.Proofs.Capture
import ClassLang.Proofs.Printing.Layout
import ClassLang.Proofs.Printing.Scanning
import ClassLang.Proofs.Printing.Source
import ClassLang.Proofs.Printing.Operand
import ClassLang.Proofs.Printing.Block
import ClassLang.Proofs.Printing.Declaration
import ClassLang.Proofs.Printing.Lexical
import ClassLang.Proofs.Printing.Spelling
import ClassLang.Proofs.Lowering.Assembly
import ClassLang.Proofs.Lowering.Labels
import ClassLang.Proofs.Acceptance
import ClassLang.Proofs.Grammar.Correspondence
import ClassLang.Proofs.Lowering.Depth
import ClassLang.Proofs.Lowering.Simplified
import ClassLang.Proofs.Lowering.Scoping
import ClassLang.Proofs.Entry
import ClassLang.Proofs.Grammar.Nesting
import ClassLang.Proofs.Grammar.Failure
import ClassLang.Proofs.Grammar.Layout
import ClassLang.Proofs.Control
import ClassLang.Proofs.Printing.Limit
import ClassLang.Proofs.Printing.Simplified
import ClassLang.Proofs.Hierarchy.Ancestors
import ClassLang.Proofs.Hierarchy.Cycles
import ClassLang.Proofs.Hierarchy.Fields
import ClassLang.Proofs.Hierarchy.Overrides
import ClassLang.Proofs.Analysis.Steps
import ClassLang.Proofs.Analysis.Names
import ClassLang.Proofs.Analysis.Scoping
import ClassLang.Proofs.Analysis.Balance
import ClassLang.Proofs.Analysis.Independence
import ClassLang.Proofs.Analysis.Types
import ClassLang.Proofs.Lines
import ClassLang.Proofs.Tiling
import ClassLang.Proofs.Grammar.Alignment
import ClassLang.Proofs.Lowering.Names
import ClassLang.Proofs.Listing
import ClassLang.Proofs.Lowering.Kinds
import ClassLang.Proofs.Grammar.Precedence
import ClassLang.Proofs.Lowering.Literals
import ClassLang.Proofs.Spacing
import ClassLang.Proofs.ScopeRuns
import ClassLang.Proofs.Grammar.Runs
import ClassLang.Proofs.Listing.Styled
import ClassLang.Proofs.Printing.TypeText
