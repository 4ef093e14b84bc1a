import EnergyStep.Decimal.Read
import EnergyStep.Fault.Message
import EnergyStep.Minimize.CentralDifference
import EnergyStep.Particle.State
import EnergyStep.Stepper
import EnergyStep.Text.Json
import EnergyStep.System.AxisBody
import EnergyStep.System.FallingParticle
import EnergyStep.Proofs.Ends
import EnergyStep.Proofs.Exact
import EnergyStep.Proofs.Law.Difference
import EnergyStep.Proofs.Law.Dimension
import EnergyStep.Proofs.Law.Evaluation
import EnergyStep.Proofs.Law.Gradient
import EnergyStep.Proofs.Law.Holds
import EnergyStep.Proofs.Law.InPlace
import EnergyStep.Proofs.Law.Locality
import EnergyStep.Proofs.Law.Reading
import EnergyStep.Proofs.Law.Superposition
import EnergyStep.Proofs.Law.Units
import EnergyStep.Proofs.Law.Violation
import EnergyStep.Proofs.Law.Zero
import EnergyStep.Proofs.Linear.AxisAngle
import EnergyStep.Proofs.Linear.Components
import EnergyStep.Proofs.Linear.Turn
import EnergyStep.Proofs.Linear.Versor
import EnergyStep.Proofs.Loop
import EnergyStep.Proofs.Minimize.Anchor
import EnergyStep.Proofs.Minimize.Descent
import EnergyStep.Proofs.Minimize.Difference
import EnergyStep.Proofs.Minimize.Directions
import EnergyStep.Proofs.Minimize.Iterations
import EnergyStep.Proofs.Particle.Dimension
import EnergyStep.Proofs.Particle.FreeFall
import EnergyStep.Proofs.Particle.RoundTrip
import EnergyStep.Proofs.Particle.State
import EnergyStep.Proofs.Recording
import EnergyStep.Proofs.Search.Bracketing
import EnergyStep.Proofs.Search.Effort
import EnergyStep.Proofs.Search.Enclosure
import EnergyStep.Proofs.Search.InPlace
import EnergyStep.Proofs.Search.LineMinimum
import EnergyStep.Proofs.Search.Parabola
import EnergyStep.Proofs.Search.Parabolic
import EnergyStep.Proofs.Search.Secant
import EnergyStep.Proofs.Search.Slope
import EnergyStep.Proofs.Search.Valley
import EnergyStep.Proofs.Solver.Descent
import EnergyStep.Proofs.Solver.Exhaustion
import EnergyStep.Proofs.Solver.Rest
import EnergyStep.Proofs.Solver.Settled
import EnergyStep.Proofs.Stepper.Assembly
import EnergyStep.Proofs.Stepper.Budget
import EnergyStep.Proofs.Stepper.Session
import EnergyStep.Proofs.Stepper.Span
import EnergyStep.Proofs.Store.Access
import EnergyStep.Proofs.Store.Disjoint
import EnergyStep.Proofs.Store.InPlace
import EnergyStep.Proofs.Store.Layout
import EnergyStep.Proofs.Store.Place
import EnergyStep.Proofs.Store.Rotation
import EnergyStep.Proofs.System.Exchange
import EnergyStep.Proofs.System.Thrust
import EnergyStep.Proofs.System.Trajectory
