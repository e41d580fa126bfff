import FaultRelay.Scenario.Request
import FaultRelay.Proofs.Blocks
import FaultRelay.Proofs.Custody
import FaultRelay.Proofs.LastWrite
import FaultRelay.Proofs.Representation
import FaultRelay.Proofs.Selecting
import FaultRelay.Proofs.GuardTarget
import FaultRelay.Proofs.Meter
import FaultRelay.Proofs.HiddenSlots
import FaultRelay.Proofs.BothStyles
import FaultRelay.Proofs.ForeignUnwinding
import FaultRelay.Proofs.Totality
import FaultRelay.Proofs.Allocation
import FaultRelay.Proofs.Conveyance
import FaultRelay.Proofs.Seclusion
import FaultRelay.Proofs.ReferenceCount
import FaultRelay.Proofs.Lending
import FaultRelay.Proofs.Unmatched
import FaultRelay.Proofs.Errand
import FaultRelay.Proofs.StorageGone
import FaultRelay.Proofs.NothingOpen
import FaultRelay.Proofs.Grammar
import FaultRelay.Proofs.Declared
import FaultRelay.Proofs.Vigil
import FaultRelay.Proofs.DecidedOnce
