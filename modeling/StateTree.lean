import StateTree.Declaration
import StateTree.Violation
import StateTree.Observed
import StateTree.Observer.Gate
import StateTree.Observer.Recorder
import StateTree.Observer.Reporter
import StateTree.Journal.Archive
import StateTree.Diagram.Document
import StateTree.Diagram.Dot
import StateTree.Folder
import StateTree.Proofs.Tree.Ancestor
import StateTree.Proofs.Tree.CommonAncestor
import StateTree.Proofs.Tree.Violations
import StateTree.Proofs.Step.March
import StateTree.Proofs.Step.Itinerary
import StateTree.Proofs.Step.Standing
import StateTree.Proofs.Step.Reaction
import StateTree.Proofs.Step.Move
import StateTree.Proofs.Step.Record
import StateTree.Proofs.Step.Story
import StateTree.Proofs.Step.Completion
import StateTree.Proofs.Step.Stopping
import StateTree.Proofs.Run
import StateTree.Proofs.Step.Choice
import StateTree.Proofs.Step.Owner
import StateTree.Proofs.Step.Passing
import StateTree.Proofs.Run.Chain
import StateTree.Proofs.Run.Settled
import StateTree.Proofs.Run.Plan
import StateTree.Proofs.Run.Descent
import StateTree.Proofs.Run.Records
import StateTree.Proofs.Run.Survival
import StateTree.Proofs.Run.Replay
import StateTree.Proofs.Run.Restoring
import StateTree.Proofs.Run.Reentry
import StateTree.Proofs.Run.Nesting
import StateTree.Proofs.Run.Stopping
import StateTree.Proofs.Run.Resetting
import StateTree.Proofs.Run.Failures
import StateTree.Proofs.Run.Beside
import StateTree.Proofs.Run.Gate
import StateTree.Proofs.Run.Story
import StateTree.Proofs.Run.Unfinished
import StateTree.Proofs.Run.Quiet
import StateTree.Proofs.Tree.WellFormed
import StateTree.Proofs.Tree.Renaming
import StateTree.Proofs.Step.Renaming
import StateTree.Proofs.Run.Renaming
import StateTree.Proofs.Tree.Accepted
import StateTree.Proofs.Tree.Outline
import StateTree.Proofs.Tree.Walk
import StateTree.Proofs.Diagram.Tokens
import StateTree.Proofs.Diagram.Quoting
import StateTree.Proofs.Diagram.Reading
import StateTree.Proofs.Diagram.Lossless
import StateTree.Proofs.Json.Reading
import StateTree.Proofs.Diagram.Recovery
import StateTree.Proofs.Run.Roster
import StateTree.Proofs.Run.Notices
import StateTree.Proofs.Run.Dialogue
import StateTree.Proofs.Run.Recording
import StateTree.Proofs.Run.Panics
