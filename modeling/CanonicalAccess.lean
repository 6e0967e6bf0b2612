import CanonicalAccess.Diagnostic.Basic
import CanonicalAccess.Diagnostic.Display
import CanonicalAccess.Diagnostic.Unstyled
import CanonicalAccess.Double.Basic
import CanonicalAccess.Double.Shortest
import CanonicalAccess.Event
import CanonicalAccess.Expr.Basic
import CanonicalAccess.Expr.Equality
import CanonicalAccess.Expr.Hash
import CanonicalAccess.Expr.Induction
import CanonicalAccess.Expr.Leaves
import CanonicalAccess.Expr.Skeleton
import CanonicalAccess.Expr.Structure
import CanonicalAccess.Expr.Typing
import CanonicalAccess.Fault
import CanonicalAccess.Member
import CanonicalAccess.Normalization.Accessor
import CanonicalAccess.Normalization.Basic
import CanonicalAccess.Normalization.Expansion
import CanonicalAccess.Normalization.RoundTrip
import CanonicalAccess.Pass.Basic
import CanonicalAccess.Pass.Dependence
import CanonicalAccess.Pass.Schedule
import CanonicalAccess.Proofs.Additions
import CanonicalAccess.Proofs.Atomicity
import CanonicalAccess.Proofs.Children
import CanonicalAccess.Proofs.Colour
import CanonicalAccess.Proofs.Commutation
import CanonicalAccess.Proofs.Comparison
import CanonicalAccess.Proofs.Composition
import CanonicalAccess.Proofs.Congruence
import CanonicalAccess.Proofs.Display
import CanonicalAccess.Proofs.Duplicates
import CanonicalAccess.Proofs.Equality
import CanonicalAccess.Proofs.Faithfulness
import CanonicalAccess.Proofs.FirstFault
import CanonicalAccess.Proofs.Fitting
import CanonicalAccess.Proofs.Freshness
import CanonicalAccess.Proofs.Generation
import CanonicalAccess.Proofs.Growth
import CanonicalAccess.Proofs.Hashing
import CanonicalAccess.Proofs.Indentation
import CanonicalAccess.Proofs.Layering
import CanonicalAccess.Proofs.LeafRewriting
import CanonicalAccess.Proofs.Lockstep
import CanonicalAccess.Proofs.Lookup
import CanonicalAccess.Proofs.Modularity
import CanonicalAccess.Proofs.NormalForm
import CanonicalAccess.Proofs.Numbers
import CanonicalAccess.Proofs.Operands
import CanonicalAccess.Proofs.Ordering
import CanonicalAccess.Proofs.Outcome
import CanonicalAccess.Proofs.Parallel
import CanonicalAccess.Proofs.PassOrder
import CanonicalAccess.Proofs.Payload
import CanonicalAccess.Proofs.ReadingBack
import CanonicalAccess.Proofs.Records
import CanonicalAccess.Proofs.Recovery
import CanonicalAccess.Proofs.Refusals
import CanonicalAccess.Proofs.Rendering
import CanonicalAccess.Proofs.Replacement
import CanonicalAccess.Proofs.Settlement
import CanonicalAccess.Proofs.Sharing
import CanonicalAccess.Proofs.Soundness
import CanonicalAccess.Proofs.Spelling
import CanonicalAccess.Proofs.Stability
import CanonicalAccess.Proofs.StaticTypes
import CanonicalAccess.Proofs.Suitability
import CanonicalAccess.Proofs.Tables
import CanonicalAccess.Proofs.Targets
import CanonicalAccess.Proofs.Tokens
import CanonicalAccess.Proofs.TypeMarks
import CanonicalAccess.Proofs.Unlabelled
import CanonicalAccess.Proofs.Walk
import CanonicalAccess.Query
import CanonicalAccess.Registry.Basic
import CanonicalAccess.Registry.Definition
import CanonicalAccess.Registry.History
import CanonicalAccess.Sexp.Basic
import CanonicalAccess.Sexp.Decoration
import CanonicalAccess.Sexp.Flat
import CanonicalAccess.Sexp.Layout
import CanonicalAccess.Sexp.OfExpr
import CanonicalAccess.Sexp.OfSkeleton
import CanonicalAccess.Sexp.Reader
import CanonicalAccess.Text.Blank
import CanonicalAccess.Text.Printable
import CanonicalAccess.Text.Quoted
import CanonicalAccess.Transformation.Position
import CanonicalAccess.Transformation.Stock
import CanonicalAccess.Transformation.Traversal
import CanonicalAccess.Transformation.Update
import CanonicalAccess.Transformation.Work
import CanonicalAccess.Ty
import CanonicalAccess.Value.Basic
import CanonicalAccess.Value.Equality
import CanonicalAccess.Value.Hash
import CanonicalAccess.Value.Text
import CanonicalAccess.Violation
