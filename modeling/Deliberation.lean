import Deliberation.Goal.Solutions
import Deliberation.Main
import Deliberation.Proofs.AcyclicRuns
import Deliberation.Proofs.Agreement
import Deliberation.Proofs.BeliefLedger
import Deliberation.Proofs.Collecting
import Deliberation.Proofs.Deadlines
import Deliberation.Proofs.Discipline
import Deliberation.Proofs.GoalAnnotations
import Deliberation.Proofs.GroundUnification
import Deliberation.Proofs.Isolation
import Deliberation.Proofs.MostGeneral
import Deliberation.Proofs.Namespaces
import Deliberation.Proofs.NoOvertaking
import Deliberation.Proofs.Noninterference
import Deliberation.Proofs.OrderAgreement
import Deliberation.Proofs.Refinement
import Deliberation.Proofs.Restoration
import Deliberation.Proofs.RunAccounts
import Deliberation.Proofs.Snapshots
import Deliberation.Proofs.SortedSequences
import Deliberation.Proofs.Termination
import Deliberation.Proofs.UndoRuns
import Deliberation.Proofs.UnificationCalls
import Deliberation.Proofs.UnificationSymmetry
import Deliberation.Proofs.VariableHygiene
