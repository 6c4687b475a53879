import CommandBlocks.Main
import CommandBlocks.Proofs.Canvas.Blanks
import CommandBlocks.Proofs.Canvas.Faults
import CommandBlocks.Proofs.Canvas.Policies
import CommandBlocks.Proofs.CommandLine
import CommandBlocks.Proofs.Editing.Recompiling
import CommandBlocks.Proofs.Editing.Ruled
import CommandBlocks.Proofs.Editing.Sessions
import CommandBlocks.Proofs.Editing.Undoing
import CommandBlocks.Proofs.Graph.Monotone
import CommandBlocks.Proofs.Graph.Reaching
import CommandBlocks.Proofs.Graph.Redrawing
import CommandBlocks.Proofs.Graph.Refusals
import CommandBlocks.Proofs.Graph.Removal
import CommandBlocks.Proofs.Program.Arrivals
import CommandBlocks.Proofs.Program.Inputs
import CommandBlocks.Proofs.Program.Listing
import CommandBlocks.Proofs.Program.Numerals
import CommandBlocks.Proofs.Program.Options
import CommandBlocks.Proofs.Program.Outline
import CommandBlocks.Proofs.Program.Renumbering
import CommandBlocks.Proofs.Program.Wire
import CommandBlocks.Proofs.Snapshot.Accepting
import CommandBlocks.Proofs.Snapshot.Refusals
import CommandBlocks.Snapshot.Form
