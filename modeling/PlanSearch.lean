import PlanSearch.Document.Json
import PlanSearch.Main
import PlanSearch.Proofs.Act
import PlanSearch.Proofs.Chain.Routes
import PlanSearch.Proofs.Director
import PlanSearch.Proofs.Move.Chains
import PlanSearch.Proofs.Move.Trial
import PlanSearch.Script.Chains
import PlanSearch.Script.Consoles
import PlanSearch.Script.Constructions
import PlanSearch.Script.Contexts
import PlanSearch.Script.Demands
import PlanSearch.Script.Draws
import PlanSearch.Script.Scores
import PlanSearch.Script.Session
import PlanSearch.Script.Settings
import PlanSearch.Script.Solvers
import PlanSearch.Script.Terminations
import PlanSearch.Script.Wards
import PlanSearch.Proofs.Ledger.Basic
import PlanSearch.Proofs.Ledger.Steps
import PlanSearch.Proofs.Ledger.Directors
import PlanSearch.Proofs.Ledger.Protocol
import PlanSearch.Proofs.Demand
import PlanSearch.Proofs.Construction.Greedy
import PlanSearch.Proofs.Construction.Steady
import PlanSearch.Proofs.Construction.Build
import PlanSearch.Proofs.Construction.Limits
import PlanSearch.Proofs.Construction.Engines
import PlanSearch.Proofs.Config.Building
import PlanSearch.Proofs.Config.RoundTrip
import PlanSearch.Proofs.Selector.Sizes
import PlanSearch.Proofs.Text.Score
import PlanSearch.Proofs.Selector.Endless
import PlanSearch.Proofs.Chain.Cuts
import PlanSearch.Proofs.Chain.Outcome
import PlanSearch.Proofs.Move.Effects
import PlanSearch.Proofs.Move.Rewriting
import PlanSearch.Proofs.Construction.Failure
import PlanSearch.Proofs.Move.Doable
import PlanSearch.Proofs.Score.Group
import PlanSearch.Proofs.Selector.Segments
import PlanSearch.Proofs.Ward.Climb
import PlanSearch.Proofs.Selector.DrawnPasses
import PlanSearch.Proofs.Selector.Advance
import PlanSearch.Proofs.Selector.Interleaved
import PlanSearch.Proofs.Config.Places
import PlanSearch.Proofs.Selector.Products
import PlanSearch.Proofs.Selector.Seeds
import PlanSearch.Proofs.Selector.History
import PlanSearch.Proofs.Roster
import PlanSearch.Proofs.Selector.Tails
import PlanSearch.Proofs.Selector.Swaps
import PlanSearch.Proofs.Construction.Configured
