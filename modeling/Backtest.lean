import Backtest.Aggregate
import Backtest.Aggregate.Custom
import Backtest.Aggregate.Majority
import Backtest.Aggregate.Method
import Backtest.Aggregate.Weighted
import Backtest.Aggregate.Weights
import Backtest.Calendar.Date
import Backtest.Calendar.DateText
import Backtest.Command
import Backtest.Command.Arguments
import Backtest.Command.Failure
import Backtest.Command.FormulaCheck
import Backtest.Command.Preparation
import Backtest.Command.Summary
import Backtest.Condition.Evaluation
import Backtest.Condition.Lexer
import Backtest.Condition.Parser
import Backtest.Config.Document
import Backtest.Config.Plan
import Backtest.Config.Reader
import Backtest.Config.Settings
import Backtest.Config.Setup
import Backtest.Config.Validation
import Backtest.Csv.Fault
import Backtest.Csv.Record
import Backtest.Csv.Table
import Backtest.Decimal.Binary
import Backtest.Decimal.Numeral
import Backtest.Decimal.Rounding
import Backtest.Decimal.Shortest
import Backtest.Error
import Backtest.FeeConvention
import Backtest.Formula
import Backtest.Formula.Fault
import Backtest.Formula.Parser
import Backtest.Formula.Token
import Backtest.Host
import Backtest.Host.Memory
import Backtest.Ledger
import Backtest.Ledger.RoundTrip
import Backtest.Ledger.Trade
import Backtest.Main
import Backtest.Market
import Backtest.Market.Bar
import Backtest.Market.Columns
import Backtest.NameTable
import Backtest.Performance
import Backtest.Performance.Activity
import Backtest.Performance.Drawdown
import Backtest.Performance.Growth
import Backtest.Performance.Returns
import Backtest.Performance.Shape
import Backtest.Performance.Tail
import Backtest.Plan
import Backtest.Position
import Backtest.Proofs.Aggregate.Cutoff
import Backtest.Proofs.Calendar.Order
import Backtest.Proofs.Error.Stages
import Backtest.Proofs.Ledger.Matching
import Backtest.Proofs.Plan.Causality
import Backtest.Proofs.Scalar.Exact
import Backtest.Proofs.Series.Cutoff
import Backtest.Proofs.Simulation.Balance
import Backtest.Proofs.Simulation.Checks
import Backtest.Proofs.Simulation.Compounding
import Backtest.Proofs.Simulation.Conservation
import Backtest.Proofs.Simulation.Cutoff
import Backtest.Proofs.Simulation.Days
import Backtest.Proofs.Simulation.Tracking
import Backtest.Proofs.Simulation.Turn
import Backtest.Proofs.Strategy.Cutoff
import Backtest.Report
import Backtest.Report.Paths
import Backtest.Report.Rows
import Backtest.Scalar
import Backtest.Scalar.Binary64
import Backtest.Scalar.Rational
import Backtest.Series
import Backtest.Simulation
import Backtest.Simulation.Account
import Backtest.Storage.Fault
import Backtest.Storage.Path
import Backtest.Storage.Tree
import Backtest.Strategy
import Backtest.Strategy.Kind
import Backtest.Text.Blank
import Backtest.Text.Letters
import Backtest.Text.LowerCase
import Backtest.Text.Split
import Backtest.Text.Utf8
import Backtest.Vote.Lexer
import Backtest.Vote.Parser
import Backtest.Proofs.Formula.Grammar
import Backtest.Proofs.Formula.Parsing
import Backtest.Proofs.Formula.Limits
import Backtest.Proofs.Condition.Language
import Backtest.Proofs.Aggregate.Hysteresis
import Backtest.Proofs.Simulation.Conventions
import Backtest.Proofs.Condition.Evaluation
import Backtest.Proofs.Aggregate.Acceptance
import Backtest.Proofs.Plan.Readiness
import Backtest.Proofs.Config.Strategies
import Backtest.Proofs.Market.Reading
import Backtest.Proofs.Scalar.Lawful
import Backtest.Proofs.Config.Methods
import Backtest.Proofs.Config.Setup
import Backtest.Proofs.Command.Preparation
import Backtest.Proofs.Ledger.Pairing
import Backtest.Proofs.Simulation.Alternation
import Backtest.Proofs.Simulation.Fees
import Backtest.Proofs.Simulation.Units
import Backtest.Proofs.Scalar.Rounding
import Backtest.Proofs.Plan.Acceptance
import Backtest.Proofs.Position.Order
import Backtest.Proofs.Series.Pointwise
import Backtest.Proofs.Aggregate.Monotonicity
import Backtest.Proofs.Config.Reading
import Backtest.Proofs.Config.Settings
import Backtest.Proofs.Config.Plans
import Backtest.Proofs.Market.Dates
import Backtest.Proofs.Condition.Truth
import Backtest.Proofs.Vote.Language
import Backtest.Proofs.Csv.Fields
import Backtest.Proofs.Csv.Writing
import Backtest.Proofs.Csv.Arrangement
import Backtest.Proofs.Market.Cells
import Backtest.Proofs.Market.Conditions
import Backtest.Proofs.Market.Arrangement
import Backtest.Proofs.Formula.Viability
import Backtest.Proofs.Condition.Names
import Backtest.Proofs.Formula.Printing
import Backtest.Proofs.Condition.Printing
import Backtest.Proofs.Condition.Refusals
import Backtest.Proofs.Series.Lists
import Backtest.Proofs.Series.Axes
import Backtest.Proofs.Aggregate.Alignment
import Backtest.Proofs.Aggregate.Arrangement
import Backtest.Proofs.Vote.Evaluation
import Backtest.Proofs.Aggregate.Shares
import Backtest.Proofs.Aggregate.Symmetry
import Backtest.Proofs.Aggregate.Unanimity
import Backtest.Proofs.Vote.Reach
import Backtest.Proofs.Aggregate.Ballots
import Backtest.Proofs.Strategy.Meaning
import Backtest.Proofs.Config.Sections
import Backtest.Proofs.Performance.Drawdown
import Backtest.Proofs.Ledger.Closings
import Backtest.Proofs.Ledger.Fifo
import Backtest.Proofs.Simulation.Leverage
import Backtest.Proofs.Performance.Growth
import Backtest.Proofs.Performance.Mean
import Backtest.Proofs.Performance.Tail
import Backtest.Proofs.Performance.Shape
import Backtest.Proofs.Vote.Spelling
import Backtest.Proofs.Vote.Printing
import Backtest.Proofs.Vote.Values
import Backtest.Proofs.Scalar.Partial
import Backtest.Proofs.Simulation.Divisions
import Backtest.Proofs.Aggregate.Divisions
import Backtest.Proofs.Performance.Statistics
import Backtest.Proofs.Performance.Divisions
import Backtest.Proofs.Condition.Layout
import Backtest.Proofs.Vote.Layout
import Backtest.Proofs.Formula.Caret
import Backtest.Proofs.Aggregate.Weights
import Backtest.Proofs.Config.Unused
import Backtest.Proofs.Vote.Bytewise
import Backtest.Proofs.Formula.Depth
import Backtest.Proofs.Condition.Descent
import Backtest.Proofs.Series.Exactness
