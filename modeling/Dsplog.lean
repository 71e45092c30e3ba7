import Dsplog.Driver
import Dsplog.Theorems.Queue
import Dsplog.Theorems.Overlap
import Dsplog.Theorems.Capture
import Dsplog.Theorems.TickEnd
import Dsplog.Theorems.Control
import Dsplog.Theorems.Partition
import Dsplog.Theorems.Wakeup
import Dsplog.Theorems.Sleep
import Dsplog.Theorems.EndOfLog
import Dsplog.Theorems.Balance
import Dsplog.Theorems.Census
import Dsplog.Theorems.Settled
import Dsplog.Theorems.Ownership
import Dsplog.Theorems.Exclusive
import Dsplog.Theorems.Instance
import Dsplog.Theorems.Bounds
import Dsplog.Theorems.Overrun
import Dsplog.Theorems.Restart
import Dsplog.Theorems.Freeze
import Dsplog.Theorems.Delivery
import Dsplog.Theorems.Pipeline
import Dsplog.Theorems.SingleSteps
import Dsplog.Theorems.Unlock
import Dsplog.Lib.Ledger
import Dsplog.Lifetime
import Dsplog.Theorems.Lifetime
import Dsplog.Theorems.Memory
import Dsplog.Theorems.Transport
import Dsplog.Theorems.Lossless
import Dsplog.Theorems.TickBound
import Dsplog.Theorems.Snapshot
