import RvKernel.Lib.Word
import RvKernel.Lib.Effect
import RvKernel.Lib.Radix
import RvKernel.Lib.PageTree
import RvKernel.Lib.Lts
import RvKernel.Lib.Lock
import RvKernel.Lib.Bytes
import RvKernel.Mm.Late
import RvKernel.Mm.Refuse
import RvKernel.Mm.Exhaust
import RvKernel.Mm.Discipline
import RvKernel.Mm.DirectMap
import RvKernel.Mm.Dump
import RvKernel.Boot.Entry
import RvKernel.Plic.Plic
import RvKernel.Trap.Entry
import RvKernel.Trap.Ktest
import RvKernel.Trap.Interrupted
import RvKernel.Text.Truncate
import RvKernel.Text.Standard
import RvKernel.Text.Strtou
import RvKernel.Text.Turns
import RvKernel.Text.Buffer
import RvKernel.Text.Find
import RvKernel.Text.Compare
import RvKernel.Text.Memory
import RvKernel.Shell.Lines
import RvKernel.Shell.Alarm
import RvKernel.Shell.Transcript
import RvKernel.Serial.Livelock
import RvKernel.Serial.Transmit
import RvKernel.Console.Session
import RvKernel.Console.Log
import RvKernel.Console.Report
import RvKernel.Lock.Masking
import RvKernel.Dtb.Malformed
import RvKernel.Dtb.Nops
import RvKernel.Dtb.Startup
import RvKernel.Ktest.VmMap
import RvKernel.Ktest.Runner
