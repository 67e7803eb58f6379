import GroupKey.Main
import GroupKey.Proofs.Agreement.KeyPairs
import GroupKey.Proofs.Agreement.Keystream
import GroupKey.Proofs.Agreement.SingleUse
import GroupKey.Proofs.Agreement.Tiers
import GroupKey.Proofs.Clock
import GroupKey.Proofs.Group.Ceremony
import GroupKey.Proofs.Group.SlotLists
import GroupKey.Proofs.Node.Dispatch
import GroupKey.Proofs.Node.Failures
import GroupKey.Proofs.Node.KeyRotation
import GroupKey.Proofs.Node.Receipt
import GroupKey.Proofs.Node.Recovery
import GroupKey.Proofs.Node.Rejection
import GroupKey.Proofs.Node.Repetition
import GroupKey.Proofs.Node.Resilience
import GroupKey.Proofs.Node.Reuse
import GroupKey.Proofs.Node.Rounds
import GroupKey.Proofs.Node.Versions
import GroupKey.Proofs.Session.Convergence
import GroupKey.Proofs.Session.Pruning
import GroupKey.Proofs.Session.Timeline
import GroupKey.Proofs.Simulation.Accounting
import GroupKey.Proofs.Simulation.Termination
import GroupKey.Random.Scripted
import GroupKey.Wire.Writer
