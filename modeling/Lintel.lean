import Lintel.Text.Lines
import Lintel.Edit.Plan
import Lintel.Allowance
import Lintel.Tree.Walk
import Lintel.Registry.Basic
import Lintel.Go.Token
import Lintel.Go.Concrete
import Lintel.Go.Grammar.Expressions
import Lintel.Go.Grammar.File
import Lintel.Go.Lowering
import Lintel.Go.Resolver
import Lintel.Rules.Index
import Lintel.Rules.Query
import Lintel.Rules.Presets
import Lintel.Toml.Document
import Lintel.Pattern.Ignore
import Lintel.Project.Store
import Lintel.Go.Frontend
import Lintel.Analyzer
import Lintel.Project.Lint
import Lintel.Command.Check
import Lintel.Command.Init
import Lintel.Command.Rules
import Lintel.Main
import Lintel.Rules.Script
import Lintel.Proofs.Edit.Splice
import Lintel.Proofs.Except
import Lintel.Proofs.Registry.Build
import Lintel.Proofs.Registry.Declared
import Lintel.Proofs.Registry.Schedule
import Lintel.Proofs.Analyzer.Run
import Lintel.Proofs.Rules.Findings
import Lintel.Proofs.Rules.Indexes
import Lintel.Proofs.Analyzer.Selection
import Lintel.Proofs.Tree.Grounded
import Lintel.Proofs.Go.Placed
import Lintel.Proofs.Edit.Plan
import Lintel.Proofs.Go.Lowering
import Lintel.Proofs.Analyzer.Fixes
import Lintel.Proofs.Tree.Placed
import Lintel.Proofs.Edit.Listing
import Lintel.Proofs.Tree.Accept
import Lintel.Proofs.Analyzer.Turns
import Lintel.Proofs.Tree.Ancestors
import Lintel.Proofs.Go.Arena
import Lintel.Proofs.Go.Outline
import Lintel.Proofs.Tree.Order
import Lintel.Proofs.Go.Order
import Lintel.Proofs.Go.Declarations
import Lintel.Proofs.Go.Methods
import Lintel.Proofs.Analyzer.Absence
import Lintel.Proofs.Go.Uses
import Lintel.Proofs.Go.Justified
import Lintel.Proofs.Allowance.Comments
import Lintel.Proofs.Registry.Cycle
import Lintel.Proofs.Registry.Plan
import Lintel.Proofs.Analyzer.Silence
import Lintel.Proofs.Facts.History
import Lintel.Proofs.Facts.Inserts
import Lintel.Proofs.Path
import Lintel.Proofs.Project.Store
import Lintel.Proofs.Command.Fix
import Lintel.Proofs.Rules.Success
import Lintel.Proofs.Analyzer.Success
import Lintel.Proofs.Rules.Times
import Lintel.Proofs.Tree.Pruned
import Lintel.Proofs.Rules.Members
import Lintel.Proofs.Rules.Logging
import Lintel.Proofs.Rules.Style
import Lintel.Proofs.Rules.Sizes
import Lintel.Proofs.Rules.FieldOrder
import Lintel.Proofs.Rules.Middleware
import Lintel.Proofs.Rules.TypeNames
import Lintel.Proofs.Text.Places
import Lintel.Proofs.Allowance.Printed
import Lintel.Proofs.Rules.Listing
import Lintel.Proofs.Go.Imports
import Lintel.Proofs.Rules.Imports
