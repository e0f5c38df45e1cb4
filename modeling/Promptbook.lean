import Promptbook.Action.Basic
import Promptbook.Action.Outcome
import Promptbook.Bubble.Reveal
import Promptbook.Bubble.Transcript
import Promptbook.Data.Decode
import Promptbook.Data.Encode
import Promptbook.Data.Json
import Promptbook.Data.Number
import Promptbook.Dialogue
import Promptbook.Duration
import Promptbook.Frame
import Promptbook.Journal
import Promptbook.Performance
import Promptbook.Proofs.Action.Appearance
import Promptbook.Proofs.Action.Choosing
import Promptbook.Proofs.Action.Contract
import Promptbook.Proofs.Action.Course
import Promptbook.Proofs.Action.Flattening
import Promptbook.Proofs.Action.Joining
import Promptbook.Proofs.Action.Plan
import Promptbook.Proofs.Action.Punctuality
import Promptbook.Proofs.Action.Stepping
import Promptbook.Proofs.Action.Tracking
import Promptbook.Proofs.Action.Waiting
import Promptbook.Proofs.Bubble.Conduct
import Promptbook.Proofs.Bubble.Life
import Promptbook.Proofs.Bubble.Limits
import Promptbook.Proofs.Bubble.Navigation
import Promptbook.Proofs.Bubble.Showing
import Promptbook.Proofs.Performance.Branching
import Promptbook.Proofs.Performance.Choosing
import Promptbook.Proofs.Performance.Dismissal
import Promptbook.Proofs.Performance.Ending
import Promptbook.Proofs.Performance.Ledger
import Promptbook.Proofs.Performance.Limits
import Promptbook.Proofs.Performance.Pacing
import Promptbook.Proofs.Performance.Passage
import Promptbook.Proofs.Performance.Performable
import Promptbook.Proofs.Performance.Readiness
import Promptbook.Proofs.Performance.Recording
import Promptbook.Proofs.Performance.Refinement
import Promptbook.Proofs.Performance.Remainder
import Promptbook.Proofs.Performance.Rundown
import Promptbook.Proofs.Performance.Shadow
import Promptbook.Proofs.Performance.Soundness
import Promptbook.Proofs.Performance.Storing
import Promptbook.Proofs.Performance.Talking
import Promptbook.Proofs.Performance.Together
import Promptbook.Proofs.Performance.Trace
import Promptbook.Proofs.Performance.Underway
import Promptbook.Proofs.Performance.Warrant
import Promptbook.Proofs.Scheduler.Faithfulness
import Promptbook.Proofs.Scheduler.Isolation
import Promptbook.Proofs.Scheduler.Requests
import Promptbook.Proofs.Scheduler.Rounds
import Promptbook.Proofs.Scheduler.Running
import Promptbook.Proofs.Scheduler.Sharing
import Promptbook.Proofs.Script.BlankLines
import Promptbook.Proofs.Script.Blocks
import Promptbook.Proofs.Script.Branches
import Promptbook.Proofs.Script.Citation
import Promptbook.Proofs.Script.Concatenation
import Promptbook.Proofs.Script.Cues
import Promptbook.Proofs.Script.Growth
import Promptbook.Proofs.Script.Heads
import Promptbook.Proofs.Script.LineOrder
import Promptbook.Proofs.Script.Lossless
import Promptbook.Proofs.Script.Places
import Promptbook.Proofs.Script.Playable
import Promptbook.Proofs.Script.Printing
import Promptbook.Proofs.Script.Provenance
import Promptbook.Proofs.Script.ReadingBack
import Promptbook.Proofs.Script.Relocation
import Promptbook.Proofs.Script.Report
import Promptbook.Proofs.Script.Tree
import Promptbook.Proofs.Stage.History
import Promptbook.Proofs.Stage.Selecting
import Promptbook.Proofs.Text.Cutting
import Promptbook.Rehearsal.Answering
import Promptbook.Rehearsal.Booth
import Promptbook.Rehearsal.Exercise
import Promptbook.Rehearsal.Observation
import Promptbook.Rehearsal.Puppet
import Promptbook.Rehearsal.Session
import Promptbook.Scheduler
import Promptbook.Script.Cursor
import Promptbook.Script.Fault
import Promptbook.Script.Kind
import Promptbook.Script.Line
import Promptbook.Script.Outline
import Promptbook.Script.Reader
import Promptbook.Script.Statement
import Promptbook.Script.Warning
import Promptbook.Settings
import Promptbook.Stage.Lookup
import Promptbook.Stage.Position
import Promptbook.Stage.Selection
import Promptbook.Stage.Variables
import Promptbook.Text.Blank
import Promptbook.Text.Hex
import Promptbook.Text.Quoted
import Promptbook.Text.Split
import Promptbook.Timer
import Promptbook.World
