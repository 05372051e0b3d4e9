import Determinize.Main
import Determinize.Proofs.Construction.Reached
import Determinize.Proofs.Nfa.History
import Determinize.Proofs.Construction.DefaultAlphabet
import Determinize.Proofs.Collection.BreadthFirst
import Determinize.Proofs.Construction.Session
import Determinize.Proofs.Construction.Shortlex
import Determinize.Proofs.Collection.DepthFirst
import Determinize.Proofs.Number.Rounding
import Determinize.Proofs.Number.Shortest
import Determinize.Proofs.Number.Text
import Determinize.Proofs.Text.Quoted
import Determinize.Proofs.Value.Equality
import Determinize.Proofs.Value.Order
import Determinize.Proofs.Value.Text
import Determinize.Proofs.Collection.Simulation
import Determinize.Proofs.Value.Sort
import Determinize.Proofs.Dfa.Rendering
import Determinize.Proofs.Nfa.Stored
import Determinize.Proofs.Nfa.Description
import Determinize.Proofs.Construction.Description
import Determinize.Proofs.Construction.Interference
import Determinize.Proofs.Dfa.History
import Determinize.Proofs.Dfa.Store
import Determinize.Proofs.Collection.Image
import Determinize.Proofs.Nfa.Renaming
import Determinize.Proofs.Construction.Renaming
import Determinize.Proofs.Construction.Exchange
import Determinize.Proofs.Session.Log
import Determinize.Proofs.Nfa.Spelled
import Determinize.Proofs.Session.FailedAddition
import Determinize.Proofs.Dfa.Table
import Determinize.Proofs.Construction.Table
import Determinize.Proofs.Dfa.Observation
import Determinize.Proofs.Nfa.ClosureOperator
import Determinize.Proofs.Construction.Observation
import Determinize.Proofs.Dfa.Restored
import Determinize.Proofs.Dfa.Deciphering
import Determinize.Proofs.Construction.Lossless
import Determinize.Proofs.Construction.Worklist
import Determinize.Proofs.Config.Idempotence
import Determinize.Proofs.Value.StableSort
import Determinize.Proofs.Collection.Report
import Determinize.Proofs.Config.Checks
import Determinize.Proofs.Config.Faults
import Determinize.Proofs.CommandLine.Plan
import Determinize.Proofs.CommandLine.Parse
import Determinize.Proofs.Program.Call
import Determinize.Proofs.Program.Library
import Determinize.Proofs.Json.RoundTrip
import Determinize.Proofs.Config.Scalars
import Determinize.Proofs.Program.PrintedJson
import Determinize.Proofs.Dfa.Incomplete
import Determinize.Proofs.Construction.Course
import Determinize.Proofs.Construction.Reported
