import TermScene.CommandLine.Program
import TermScene.Main
import TermScene.Session
import TermScene.Proofs.Playback.Agenda
import TermScene.Proofs.Playback.FiringOrder
import TermScene.Proofs.Playback.Timeline
import TermScene.Proofs.Playback.Enactment
import TermScene.Proofs.Playback.Schedule
import TermScene.Proofs.Playback.Pacing
import TermScene.Proofs.Playback.Display
import TermScene.Proofs.Part.Normal
import TermScene.Proofs.Text.Reread
import TermScene.Proofs.Part.Joined
import TermScene.Proofs.Part.Spelling
import TermScene.Proofs.Part.Decomposition
import TermScene.Proofs.Part.Canonical
import TermScene.Proofs.Scenario.Written
import TermScene.Proofs.Scenario.Body
import TermScene.Proofs.Scenario.Restored
import TermScene.Proofs.Scenario.RoundTrip
import TermScene.Proofs.Playback.Phases
import TermScene.Proofs.Playback.Course
import TermScene.Proofs.Playback.Completion
import TermScene.Proofs.Playback.Interruption
import TermScene.Proofs.Playback.Restart
import TermScene.Proofs.Scenario.Yield
import TermScene.Proofs.Scenario.Composition
import TermScene.Proofs.Scenario.Accounting
import TermScene.Proofs.Scenario.Interchange
import TermScene.Proofs.Playback.Acceptance
import TermScene.Proofs.Playback.Succession
import TermScene.Proofs.Playback.Printing
import TermScene.Proofs.Playback.Typing
import TermScene.Proofs.Playback.Defects
import TermScene.Proofs.Playback.Announcement
import TermScene.Proofs.Playback.Presentation
import TermScene.Proofs.Playback.RunningTime
import TermScene.Proofs.Scenario.PrintedBlock
import TermScene.Proofs.Playback.Dispatching
import TermScene.Proofs.Playback.QueueHistory
import TermScene.Proofs.Playback.Capacity
