import StackExpr.Run
import StackExpr.Typed.Layout
import StackExpr.Proofs.Runs
import StackExpr.Proofs.Slots
import StackExpr.Proofs.Heights
import StackExpr.Proofs.Evaluation
import StackExpr.Proofs.Numbers
import StackExpr.Proofs.Subtyping
import StackExpr.Proofs.Conversions
import StackExpr.Proofs.Typing
import StackExpr.Proofs.Coercions
import StackExpr.Proofs.Checked
import StackExpr.Proofs.Conformance
import StackExpr.Proofs.Values
import StackExpr.Proofs.Soundness
import StackExpr.Proofs.Emission
import StackExpr.Proofs.Walks
import StackExpr.Proofs.EmittedHeights
import StackExpr.Proofs.Simulation
import StackExpr.Proofs.Operations
import StackExpr.Proofs.Compiled
import StackExpr.Proofs.Literals
import StackExpr.Proofs.Execution
import StackExpr.Proofs.Equalities
import StackExpr.Proofs.OrderedMaps
import StackExpr.Proofs.Unseen
import StackExpr.Proofs.Construction
import StackExpr.Proofs.Layouts
import StackExpr.Proofs.EmittedCode
import StackExpr.Proofs.Nulls
import StackExpr.Proofs.Instances
import StackExpr.Proofs.Upcasts
import StackExpr.Proofs.Acceptance
import StackExpr.Proofs.Effects
import StackExpr.Proofs.Permitted
import StackExpr.Proofs.Places
import StackExpr.Proofs.Parentheses
import StackExpr.Proofs.Narrowing
import StackExpr.Proofs.Bodies
import StackExpr.Proofs.Compounds
import StackExpr.Proofs.WholeNumbers
import StackExpr.Proofs.IntegralOperators
import StackExpr.Proofs.Updates
import StackExpr.Proofs.Casts
import StackExpr.Proofs.Comparisons
import StackExpr.Proofs.Strictness
import StackExpr.Proofs.Inequalities
import StackExpr.Proofs.Branches
import StackExpr.Proofs.WholeKeys
import StackExpr.Proofs.ValueEquality
import StackExpr.Proofs.WrittenTypes
import StackExpr.Proofs.Descriptors
import StackExpr.Proofs.PoolIndices
