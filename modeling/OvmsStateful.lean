import OvmsStateful.Proto
import OvmsStateful.SpecialInputs
import OvmsStateful.SequenceManager
import OvmsStateful.Pipeline
import OvmsStateful.Infer
import OvmsStateful.Refinement
import OvmsStateful.Interleaving.World
import OvmsStateful.Interleaving.Deadlock
import OvmsStateful.Interleaving.Exclusion
import OvmsStateful.Interleaving.SavedState
import OvmsStateful.Interleaving.Alone
import OvmsStateful.Interleaving.Serial
import OvmsStateful.Interleaving.Completion
import OvmsStateful.Interleaving.History
import OvmsStateful.Interleaving.Ownership
import OvmsStateful.Interleaving.Private
import OvmsStateful.Lifecycle
