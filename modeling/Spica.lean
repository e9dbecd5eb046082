import Spica.Lib.Eff
import Spica.Lib.Prog
import Spica.Lib.Forest
import Spica.Lib.Run
import Spica.Lib.Log
import Spica.Types.Json
import Spica.Types.Meta
import Spica.Asl
import Spica.Types.Error
import Spica.Types.Objects
import Spica.Types.Entry
import Spica.Storage
import Spica.Applier
import Spica.Fold
import Spica.Rows
import Spica.Replay
import Spica.Names
import Spica.Handler
import Spica.Lawful
import Spica.Ownership
import Spica.Course
import Spica.Eval
import Spica.Elements.Container
import Spica.States.Base
import Spica.States.Simple
import Spica.States.Task
import Spica.States.FanOut
import Spica.Elements.Activity
import Spica.Elements.Thread
import Spica.Elements.Execution
import Spica.Elements.Task
import Spica.Dispatch
import Spica.Leader
import Spica.Emission
import Spica.Logic
import Spica.Reading
import Spica.Anonymous
import Spica.Duty.Rules
import Spica.Duty.Base
import Spica.Stream
import Spica.Scenario
import Spica.Batches
import Spica.Refinement
import Spica.Lifecycle
import Spica.Lives
import Spica.Answers
import Spica.Envelope
import Spica.Hook
import Spica.Gateway
import Spica.Faults
import Spica.Outcome.Runs
import Spica.Outcome.Cases
import Spica.Outcome.States
import Spica.Outcome.Elements
import Spica.Outcome.Dispatch
import Spica.Outcome.Shape
import Spica.Frame
import Spica.Ledger
import Spica.Creation
import Spica.Lib.Kin
import Spica.Family
import Spica.Within
import Spica.Follow
import Spica.Interference
import Spica.Finish
import Spica.Chronicle
import Spica.Outcome.Menu
import Spica.Duty.Deeds
import Spica.Duty.Leader
import Spica.Outcome.Values
import Spica.Lineage
import Spica.TaskRows
import Spica.TaskLog
import Spica.Reports
import Spica.Leases
import Spica.Lib.Scan
import Spica.Keys
import Spica.Backends
import Spica.Scans
import Spica.Consequence
import Spica.Failures
import Spica.Provenance
import Spica.Retries
import Spica.Requests
import Spica.Addresses
import Spica.Transactions
import Spica.Lib.Journal
import Spica.Scheduler
import Spica.Calls
import Spica.Acknowledgements
import Spica.Paths
import Spica.Templates
import Spica.Lib.Numerals
import Spica.Spelling
import Spica.LogStreams
import Spica.Tailing
import Spica.DurableLog
import Spica.Delivery
import Spica.Serde
import Spica.Wire.Names
import Spica.Wire.Rows
import Spica.Wire.Log
import Spica.Wire.Nulls
import Spica.Stored
import Spica.Mirrored
import Spica.Durability
import Spica.Lossless
import Spica.Listing
