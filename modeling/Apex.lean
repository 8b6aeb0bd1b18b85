import Apex.Main
import Apex.Number.Reading
import Apex.Source.Line
import Apex.Proofs.Blur.Sources
import Apex.Proofs.Nesting.Cap
import Apex.Proofs.Reading.Declarations
import Apex.Proofs.Spans.Declarations
import Apex.Proofs.Spans.Programs
import Apex.Proofs.Spans.Order
import Apex.Proofs.Leaves.Coverage
import Apex.Proofs.Echo.Programs
import Apex.Proofs.Shape.Programs
import Apex.Proofs.Walks.Calls
import Apex.Proofs.Walks.Visits
import Apex.Proofs.Tiling.Gaps
import Apex.Proofs.Tiling.Queries
import Apex.Proofs.Tiling.Quoted
import Apex.Proofs.Writing.Genuine
import Apex.Proofs.Safety.Programs
import Apex.Proofs.Decimals.Nearest
import Apex.Proofs.Decimals.Shortest
import Apex.Proofs.Decimals.Texts
import Apex.Proofs.Writing.Expressions
import Apex.Proofs.Writing.Statements
import Apex.Proofs.Writing.Declarations
import Apex.Proofs.Lookahead.Casts
import Apex.Proofs.Progress.Headers
import Apex.Proofs.Progress.Declarations
import Apex.Proofs.Progress.Programs
import Apex.Proofs.Nesting.Conditionals
import Apex.Proofs.Depth.Paths
import Apex.Proofs.Depth.Types
import Apex.Proofs.Depth.Expressions
import Apex.Proofs.Depth.Declarations
import Apex.Proofs.Depth.Programs
import Apex.Proofs.Reports.LoopDml
import Apex.Proofs.Reports.Census
import Apex.Proofs.Reports.Members
import Apex.Proofs.Writing.Programs
import Apex.Proofs.Writing.Tidy
import Apex.Proofs.Writing.Cleanliness
import Apex.Proofs.Differences.Patches
import Apex.Proofs.Collecting.Collections
import Apex.Proofs.Collecting.Places
import Apex.Proofs.Coordinates.Lines
import Apex.Proofs.Cursors.Sessions
import Apex.Proofs.Numbers.Programs
import Apex.Proofs.Writing.Stacks
import Apex.Proofs.Writing.Legibility
import Apex.Proofs.Writing.Signs
