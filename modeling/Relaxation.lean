import Relaxation.Arithmetic
import Relaxation.Block
import Relaxation.Block.Factor
import Relaxation.Block.Triple
import Relaxation.Collective
import Relaxation.Command
import Relaxation.Convergence
import Relaxation.Decimal.Binary
import Relaxation.Decimal.Reading
import Relaxation.Decimal.Rounding
import Relaxation.Decimal.Shortest
import Relaxation.Decimal.Text
import Relaxation.Device
import Relaxation.Device.Launcher
import Relaxation.Device.Operator
import Relaxation.Fault
import Relaxation.Group
import Relaxation.Halo
import Relaxation.InverseDiagonal
import Relaxation.Journal
import Relaxation.Kernel
import Relaxation.Launch
import Relaxation.Main
import Relaxation.Matrix
import Relaxation.Matrix.Assembly
import Relaxation.Model
import Relaxation.Options
import Relaxation.Proofs.Acceptance
import Relaxation.Proofs.Accounting
import Relaxation.Proofs.Agreement
import Relaxation.Proofs.Alongside
import Relaxation.Proofs.Assembly
import Relaxation.Proofs.BalancedCut
import Relaxation.Proofs.Barrier
import Relaxation.Proofs.BlockOrder
import Relaxation.Proofs.ChainRanks
import Relaxation.Proofs.ChainRows
import Relaxation.Proofs.ChainSolve
import Relaxation.Proofs.ChainStep
import Relaxation.Proofs.Coefficients
import Relaxation.Proofs.ComponentSync
import Relaxation.Proofs.CompressedRows
import Relaxation.Proofs.Contraction
import Relaxation.Proofs.Delivery
import Relaxation.Proofs.DenseProduct
import Relaxation.Proofs.Device
import Relaxation.Proofs.Diffusion
import Relaxation.Proofs.Dominance
import Relaxation.Proofs.Elimination
import Relaxation.Proofs.Exact
import Relaxation.Proofs.ExactSolve
import Relaxation.Proofs.Factor
import Relaxation.Proofs.FiniteFactors
import Relaxation.Proofs.Frame
import Relaxation.Proofs.GridAdjacency
import Relaxation.Proofs.HaloExpansion
import Relaxation.Proofs.HaloFrame
import Relaxation.Proofs.HaloLoop
import Relaxation.Proofs.Interleaving
import Relaxation.Proofs.InverseDiagonal
import Relaxation.Proofs.Iteration
import Relaxation.Proofs.Kernel
import Relaxation.Proofs.Launch
import Relaxation.Proofs.LaunchGuards
import Relaxation.Proofs.LaunchMode
import Relaxation.Proofs.LeadingMinors
import Relaxation.Proofs.Lockstep
import Relaxation.Proofs.Loop
import Relaxation.Proofs.Mailbox
import Relaxation.Proofs.Opening
import Relaxation.Proofs.Order
import Relaxation.Proofs.PlainSolve
import Relaxation.Proofs.PlainSweep
import Relaxation.Proofs.Process
import Relaxation.Proofs.Product
import Relaxation.Proofs.Program
import Relaxation.Proofs.Reciprocal
import Relaxation.Proofs.Reduction
import Relaxation.Proofs.Refusal
import Relaxation.Proofs.Residual
import Relaxation.Proofs.ResidualDecay
import Relaxation.Proofs.ResidualLoop
import Relaxation.Proofs.Returns
import Relaxation.Proofs.Rounding
import Relaxation.Proofs.Rounds
import Relaxation.Proofs.RowEquation
import Relaxation.Proofs.Rows
import Relaxation.Proofs.Run
import Relaxation.Proofs.SafeSolve
import Relaxation.Proofs.Safety
import Relaxation.Proofs.Scratch
import Relaxation.Proofs.Script
import Relaxation.Proofs.Session
import Relaxation.Proofs.Setup
import Relaxation.Proofs.SetupShapes
import Relaxation.Proofs.SharedSolve
import Relaxation.Proofs.Solve
import Relaxation.Proofs.SolveFrame
import Relaxation.Proofs.SolveScript
import Relaxation.Proofs.SplitSolve
import Relaxation.Proofs.Standing
import Relaxation.Proofs.Start
import Relaxation.Proofs.Stopping
import Relaxation.Proofs.Storage
import Relaxation.Proofs.Subdomains
import Relaxation.Proofs.Sweep
import Relaxation.Proofs.Tally
import Relaxation.Proofs.Transcript
import Relaxation.Proofs.TwoLevels
import Relaxation.Proofs.Unrolled
import Relaxation.Proofs.Word
import Relaxation.Reduction
import Relaxation.Sink
import Relaxation.Solver
import Relaxation.Statistics
import Relaxation.Storage
import Relaxation.Table
import Relaxation.Word
