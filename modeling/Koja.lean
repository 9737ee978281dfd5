import Koja.Guarantees.Binary.Match
import Koja.Guarantees.Collections.BackendsAgree
import Koja.Guarantees.Ir.MangledSymbols
import Koja.Guarantees.Ir.ReceiveDispatch
import Koja.Guarantees.Ir.TagDispatch
import Koja.Guarantees.Ir.YieldPoints
import Koja.Guarantees.Numbers.Checksum
import Koja.Guarantees.Numbers.HashCodes
import Koja.Guarantees.Numbers.RandomRange
import Koja.Guarantees.Runtime.ExitRecords
import Koja.Guarantees.Runtime.InterpreterReceive
import Koja.Guarantees.Runtime.IoWaiters
import Koja.Guarantees.Runtime.LostWakeup
import Koja.Guarantees.Runtime.ReadyOrder
import Koja.Guarantees.Runtime.ReceiveWakes
import Koja.Guarantees.Runtime.RegistryHygiene
import Koja.Guarantees.Runtime.SlotAddressing
import Koja.Guarantees.Runtime.StaleHandles
import Koja.Guarantees.Runtime.Stranded
import Koja.Guarantees.Runtime.TimerGate
import Koja.Guarantees.Runtime.TimerOrder
import Koja.Guarantees.Stdlib.HttpTransport
import Koja.Guarantees.Time.Projection
import Koja.Guarantees.Typecheck.AliasCycles
import Koja.Guarantees.Typecheck.DefiniteAssignment
import Koja.Guarantees.Typecheck.Inference
import Koja.Guarantees.Typecheck.PartialTypes
import Koja.Guarantees.Typecheck.UnionSubstitution
