import SimplexMethod.Proofs.Feasible
import SimplexMethod.Proofs.Points
import SimplexMethod.Report
import SimplexMethod.Solve
import SimplexMethod.Tableau.Checked
import SimplexMethod.Proofs.Standard
import SimplexMethod.Proofs.Expulsion
import SimplexMethod.Proofs.Search
import SimplexMethod.Proofs.Answer
import SimplexMethod.Proofs.Visited
import SimplexMethod.Proofs.CanonicalStates
import SimplexMethod.Proofs.Certificate
import SimplexMethod.Proofs.Drift
import SimplexMethod.Proofs.Tolerance
import SimplexMethod.Proofs.Transcript
import SimplexMethod.Proofs.Caps
import SimplexMethod.Proofs.Cycling
import SimplexMethod.Proofs.SearchBound
import SimplexMethod.Proofs.CutShort
import SimplexMethod.Proofs.ObjectiveValue
import SimplexMethod.Proofs.Scaling
import SimplexMethod.Proofs.Simulation
import SimplexMethod.Proofs.Widening
import SimplexMethod.Proofs.IdleRow
import SimplexMethod.Proofs.IdleConstraint
import SimplexMethod.Proofs.ForcedSearch
import SimplexMethod.Proofs.Counters
import SimplexMethod.Proofs.Pivots
import SimplexMethod.Proofs.Determined
import SimplexMethod.Proofs.StoredRaw
import SimplexMethod.Checked
import SimplexMethod.Proofs.CheckedSteps
import SimplexMethod.Proofs.CheckedSolve
import SimplexMethod.Proofs.Repair
import SimplexMethod.Proofs.Reversal
import SimplexMethod.Proofs.CostRow
import SimplexMethod.Proofs.Layout
import SimplexMethod.Proofs.Repaired
import SimplexMethod.Proofs.Requests
import SimplexMethod.Proofs.SearchCutShort
import SimplexMethod.Proofs.InPlace
import SimplexMethod.Proofs.Pricing
import SimplexMethod.Proofs.Performed
