import Paddock.Console.Steps
import Paddock.Git.Launch
import Paddock.Main
import Paddock.Proofs.Asking
import Paddock.Proofs.Stanza
import Paddock.Proofs.Listing
import Paddock.Proofs.Printing
import Paddock.Proofs.Naming
import Paddock.Proofs.Creation
import Paddock.Proofs.Replies
import Paddock.Proofs.WorkspaceRoot
import Paddock.Proofs.Decision
import Paddock.Proofs.Confinement
import Paddock.Proofs.Faults
import Paddock.Proofs.Spelling
import Paddock.Proofs.InStep
import Paddock.Proofs.Display
import Paddock.Proofs.Itinerary
import Paddock.Proofs.Repository
import Paddock.Proofs.Keeper
import Paddock.Proofs.Ledger
import Paddock.Proofs.Growth
import Paddock.Proofs.History
import Paddock.Proofs.Reference
import Paddock.Proofs.Overlaying
import Paddock.Proofs.SnakeCase
import Paddock.Proofs.Precedence
import Paddock.Proofs.Diagnostics
import Paddock.Proofs.CamelCase
import Paddock.Proofs.Collisions
import Paddock.Proofs.Validation
import Paddock.Proofs.Chords
import Paddock.Proofs.Casing
import Paddock.Proofs.ChordParts
import Paddock.Proofs.Completing
import Paddock.Proofs.Components
import Paddock.Proofs.Suggesting
import Paddock.Proofs.Absolute
import Paddock.Proofs.Preparation
import Paddock.Proofs.Inventory
import Paddock.Proofs.Threshold
import Paddock.Proofs.Joining
import Paddock.Proofs.Pool
import Paddock.Proofs.Printable
