import Dialogue.CommandLine.Files
import Dialogue.Knot.Log
import Dialogue.Main
import Dialogue.Options.Writer
import Dialogue.Phrasebook
import Dialogue.Proofs.Talk.Playback
import Dialogue.Proofs.Talk.Progress
import Dialogue.Proofs.Talk.Visibility
import Dialogue.Script.Printer
import Dialogue.Signal.Board
import Dialogue.Stage
import Dialogue.Proofs.Scrap.Bare
import Dialogue.Proofs.Talk.Aside
import Dialogue.Proofs.Talk.Slicing
import Dialogue.Proofs.Talk.Reach
import Dialogue.Proofs.Talk.Teardown
import Dialogue.Proofs.Scrap.Paragraphs
import Dialogue.Proofs.Talk.Sealing
import Dialogue.Proofs.Scrap.Outline
import Dialogue.Proofs.Talk.Drafting
import Dialogue.Proofs.Scrap.Pauses
import Dialogue.Proofs.Talk.Shape
import Dialogue.Proofs.Scrap.Sameness
import Dialogue.Proofs.Talk.Outlook
import Dialogue.Proofs.Talk.Skipping
import Dialogue.Proofs.Talk.Chronicle
import Dialogue.Proofs.CommandLine.Simulation
import Dialogue.Proofs.CommandLine.Driving
import Dialogue.Proofs.Script.RoundTrip
import Dialogue.Proofs.Talk.Pacing
import Dialogue.Proofs.Knot.Replaying
import Dialogue.Proofs.Agenda.Serving
import Dialogue.Proofs.Stage.Ledger
import Dialogue.Proofs.Stage.Undisturbed
import Dialogue.Proofs.Stage.Reaching
import Dialogue.Proofs.Talk.Airing
import Dialogue.Proofs.Markup.Contract
import Dialogue.Markup.Reader
import Dialogue.Proofs.Markup.Reading
import Dialogue.Proofs.Talk.Beforehand
import Dialogue.Proofs.Signal.Serving
import Dialogue.Proofs.Talk.Touring
import Dialogue.Proofs.Script.Faults
import Dialogue.Proofs.Knot.Lookups
import Dialogue.Proofs.CommandLine.Configuration
import Dialogue.Proofs.Options.RoundTrip
import Dialogue.Proofs.Scrap.Addresses
import Dialogue.Proofs.Phrasebook.Selecting
