import TypeRecovery.Main
import TypeRecovery.DocComment
import TypeRecovery.Recovery.Solver
import TypeRecovery.Graph.Traversal
import TypeRecovery.Settings
import TypeRecovery.Signatures.Packaged
import TypeRecovery.Signatures.Reader
import TypeRecovery.Ty.Build
import TypeRecovery.Ty.Lattice
import TypeRecovery.Value.Json
import TypeRecovery.Value.JsonWriter
import TypeRecovery.Proofs.Closure
import TypeRecovery.Proofs.Equality
import TypeRecovery.Proofs.Fitting
import TypeRecovery.Proofs.Combination
import TypeRecovery.Proofs.Flatness
import TypeRecovery.Proofs.Gathering
import TypeRecovery.Proofs.Declared
import TypeRecovery.Proofs.Alike
import TypeRecovery.Proofs.Exchange
import TypeRecovery.Proofs.Agreement
import TypeRecovery.Proofs.Attempts
import TypeRecovery.Proofs.Rounds
import TypeRecovery.Proofs.Promotion
import TypeRecovery.Proofs.Endless
import TypeRecovery.Proofs.Growth
import TypeRecovery.Proofs.Rest
import TypeRecovery.Proofs.Construction
import TypeRecovery.Proofs.Convergence
import TypeRecovery.Proofs.Grammar
import TypeRecovery.Proofs.RoundTrip
import TypeRecovery.Proofs.ClassHierarchy
import TypeRecovery.Proofs.Dispatch
import TypeRecovery.Proofs.Waiting
import TypeRecovery.Proofs.Derivation
import TypeRecovery.Proofs.Confluence
import TypeRecovery.Proofs.Unambiguity
import TypeRecovery.Proofs.SingleClosing
import TypeRecovery.Proofs.Course
import TypeRecovery.Proofs.Persistence
import TypeRecovery.Proofs.LeastTyping
import TypeRecovery.Proofs.Consistency
import TypeRecovery.Proofs.LongerRuns
import TypeRecovery.Proofs.Traversals
import TypeRecovery.Proofs.SecondRun
import TypeRecovery.Proofs.FoldedDeclarations
import TypeRecovery.Proofs.FoldedPrograms
import TypeRecovery.Proofs.FoldedRules
import TypeRecovery.Proofs.CaseInsensitivity
import TypeRecovery.Proofs.Turns
import TypeRecovery.Proofs.Undeclared
import TypeRecovery.Proofs.CallOrders
import TypeRecovery.Proofs.MergeFree
import TypeRecovery.Proofs.Hashing
import TypeRecovery.Proofs.Variants
import TypeRecovery.Proofs.Bounds
import TypeRecovery.Proofs.Greatest
import TypeRecovery.Proofs.Simplification
import TypeRecovery.Proofs.Narrowing
import TypeRecovery.Proofs.MethodLookup
import TypeRecovery.Proofs.Lineage
import TypeRecovery.Proofs.FirstSeen
import TypeRecovery.Proofs.ParameterTags
import TypeRecovery.Proofs.Reachability
import TypeRecovery.Proofs.Refusals
import TypeRecovery.Proofs.Bookkeeping
import TypeRecovery.Proofs.Redeclarations
