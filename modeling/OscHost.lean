import OscHost.Main
import OscHost.Proofs.Files.Names
import OscHost.Proofs.Files.Walk
import OscHost.Proofs.Files.Containment
import OscHost.Proofs.Files.NormalForms
import OscHost.Proofs.Files.Acceptance
import OscHost.Proofs.Files.Lexical
import OscHost.Proofs.Files.JailSets
import OscHost.Proofs.Loading
import OscHost.Proofs.Files.Idempotence
import OscHost.Proofs.Number.Shortest
import OscHost.Proofs.Number.Texts
import OscHost.Proofs.Number.Doubles
import OscHost.Proofs.Script.Entries
import OscHost.Proofs.Script.Sequences
import OscHost.Proofs.Script.Slots
import OscHost.Proofs.Script.Lawful
import OscHost.Proofs.Script.Filling
import OscHost.Proofs.Script.Vault
import OscHost.Proofs.Script.Safety
import OscHost.Proofs.Script.Operations
import OscHost.Proofs.Script.Library.Base
import OscHost.Proofs.Script.Library.Coroutines
import OscHost.Proofs.Script.Library.Texts
import OscHost.Proofs.Script.Library.Files
import OscHost.Proofs.Script.Library.Tables
import OscHost.Proofs.Script.Library.HostApi
import OscHost.Proofs.Script.Library.Modules
import OscHost.Proofs.Script.Library
import OscHost.Proofs.Script.Activation
import OscHost.Proofs.Script.Machine
import OscHost.Proofs.Sandbox
import OscHost.Proofs.Runs
import OscHost.Proofs.ModuleTables
import OscHost.Proofs.HostCalls
import OscHost.Proofs.Scheduler.Operations
import OscHost.Proofs.Scheduler.LifeCycle
import OscHost.Proofs.Scheduler.Sleep
import OscHost.Proofs.Scheduler.Ticks
import OscHost.Proofs.Worker.Inbox
import OscHost.Proofs.Worker.Exchange
import OscHost.Proofs.Worker.Quiet
import OscHost.Proofs.Worker.Delivery
import OscHost.Proofs.Worker.Rounds
import OscHost.Proofs.Worker.Ready
import OscHost.Proofs.FileAccess
import OscHost.Proofs.FileGuards
import OscHost.Proofs.Script.Coroutines
import OscHost.Proofs.Resumption
import OscHost.Proofs.Scheduler.Agreement
import OscHost.Proofs.Scheduler.Calls
import OscHost.Proofs.Scheduler.Refusals
import OscHost.Proofs.Trees.Forest
import OscHost.Proofs.Trees.Conversion
import OscHost.Proofs.Trees.Unfolding
import OscHost.Proofs.Trees.RoundTrip
import OscHost.Proofs.Trees.Gaps
import OscHost.Proofs.Trees.Depth
import OscHost.Proofs.Trees.Acyclic
import OscHost.Proofs.Trees.Bounds
import OscHost.Proofs.Trees.Alike
import OscHost.Proofs.Trees.Members
import OscHost.Proofs.Trees.Shapes
import OscHost.Proofs.Trees.Documents
import OscHost.Proofs.Trees.Apart
import OscHost.Proofs.Trees.KeyTexts
import OscHost.Proofs.Trees.Maps
import OscHost.Proofs.Decoding
import OscHost.Proofs.Sending
import OscHost.Proofs.Menus.Requests
import OscHost.Proofs.Menus.Trails
import OscHost.Proofs.Menus.Operations
import OscHost.Proofs.Menus.Service
import OscHost.Proofs.Menus.Directories
import OscHost.Proofs.Menus.Configuration
import OscHost.Proofs.Menus.Grammar
import OscHost.Proofs.Menus.Encoding
import OscHost.Proofs.Script.Outcomes
import OscHost.Proofs.Views.Heaps
import OscHost.Proofs.Views.Serving
import OscHost.Proofs.Views.Paths
import OscHost.Proofs.Views.Walks
import OscHost.Proofs.Views.Facade
import OscHost.Proofs.Lines.Shapes
import OscHost.Proofs.Lines.Reader
import OscHost.Proofs.Lines.Readiness
import OscHost.Proofs.Lines.Receiving
import OscHost.Proofs.Sleep.Threads
import OscHost.Proofs.Number.Values
import OscHost.Proofs.Number.Words
import OscHost.Proofs.Sleep.Durations
import OscHost.Proofs.WireIntegers
import OscHost.Proofs.Trees.Arrays
import OscHost.Proofs.Files.Folding
