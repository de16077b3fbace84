import Nodeflow.Main
import Nodeflow.Proofs.Data.LooseEquality
import Nodeflow.Proofs.Expr.Names
import Nodeflow.Proofs.Graph.Saving
import Nodeflow.Proofs.Palette
import Nodeflow.Proofs.Player.Missing
import Nodeflow.Proofs.Player.Screen
import Nodeflow.Proofs.Player.Ticks
import Nodeflow.Proofs.Program.Inert
import Nodeflow.Proofs.Program.Stranded
import Nodeflow.Proofs.Run.Budget
import Nodeflow.Proofs.Run.Calls
import Nodeflow.Proofs.Run.Comparison
import Nodeflow.Proofs.Run.Damage
import Nodeflow.Proofs.Run.Strict
import Nodeflow.Proofs.Run.Suspension
import Nodeflow.Proofs.World.Abort
import Nodeflow.Proofs.World.Accounting
import Nodeflow.Proofs.World.Delays
import Nodeflow.Proofs.World.Fallback
import Nodeflow.Proofs.World.Inheritance
import Nodeflow.Proofs.World.Isolation
import Nodeflow.Proofs.World.Handles
import Nodeflow.Proofs.World.Recording
import Nodeflow.Proofs.World.Steps
import Nodeflow.Proofs.World.Trails
import Nodeflow.Proofs.World.Waits
