import LinuxCourse.Library.Execution
import LinuxCourse.Library.Bytes
import LinuxCourse.Library.CString
import LinuxCourse.Library.Blocks
import LinuxCourse.Library.Reading
import LinuxCourse.Library.Channel
import LinuxCourse.Library.Delivery
import LinuxCourse.Library.Lingering
import LinuxCourse.Library.Farewell
import LinuxCourse.Library.BoundedPipe
import LinuxCourse.Library.Descriptors
import LinuxCourse.Library.Stdio
import LinuxCourse.Library.Queue
import LinuxCourse.Library.NamedQueue
import LinuxCourse.Library.Signals
import LinuxCourse.Library.SignalsRules
import LinuxCourse.Library.Waiting
import LinuxCourse.Library.Monitor
import LinuxCourse.Library.MonitorRules
import LinuxCourse.Library.OwickiGries
import LinuxCourse.Library.Progress
import LinuxCourse.Library.Response
import LinuxCourse.Library.MonitorProgress
import LinuxCourse.Library.MonitorPrinting
import LinuxCourse.Library.Hoarding
import LinuxCourse.Library.RwLock
import LinuxCourse.Library.Heap
import LinuxCourse.Library.Ledger
import LinuxCourse.Library.Lifecycle
import LinuxCourse.Library.Staged
import LinuxCourse.Library.Intake
import LinuxCourse.Library.Rounding
import LinuxCourse.Library.Binary32
import LinuxCourse.Processes.Pipe
import LinuxCourse.Processes.PipeCapture
import LinuxCourse.Processes.PipeBounds
import LinuxCourse.Processes.PipeDescriptors
import LinuxCourse.Processes.PipeWiring
import LinuxCourse.Processes.Tlv
import LinuxCourse.Processes.Piperw
import LinuxCourse.Processes.PiperwChannel
import LinuxCourse.Processes.PiperwSafety
import LinuxCourse.Processes.PiperwParent
import LinuxCourse.Processes.Piperwp
import LinuxCourse.Processes.PiperwpChannel
import LinuxCourse.Processes.PiperwpValue
import LinuxCourse.Processes.PiperwpParent
import LinuxCourse.Processes.TlvWire
import LinuxCourse.Processes.Readnonblock
import LinuxCourse.Processes.Dup2
import LinuxCourse.Processes.Fork
import LinuxCourse.Processes.Signals
import LinuxCourse.Processes.Waitpid
import LinuxCourse.Processes.WaitpidChild
import LinuxCourse.ReaderWriter.MessageQueue
import LinuxCourse.ReaderWriter.MqWithoverflow
import LinuxCourse.ReaderWriter.MqWithoverflowNonblock
import LinuxCourse.ReaderWriter.NonblockErrno
import LinuxCourse.ReaderWriter.Mq
import LinuxCourse.ReaderWriter.Rwlock
import LinuxCourse.ReaderWriter.RwlockProgress
import LinuxCourse.ProducerConsumer.HandOff
import LinuxCourse.ProducerConsumer.Progress
import LinuxCourse.ProducerConsumer.TimeOut
import LinuxCourse.ProducerConsumer.Lines
import LinuxCourse.ProducerConsumer.Bound
import LinuxCourse.ProducerConsumer.BusyWait
import LinuxCourse.ProducerConsumer.Bug
import LinuxCourse.Threads.Basic
import LinuxCourse.Threads.Deadlock
import LinuxCourse.Ipc.Vfork
import LinuxCourse.Ipc.VforkCounter
import LinuxCourse.Ipc.VforkParent
import LinuxCourse.Ipc.VforkSystem
import LinuxCourse.MtaCrypt.Evp
import LinuxCourse.MtaCrypt.Crypt
import LinuxCourse.MtaCrypt.RoundTrip
import LinuxCourse.MtaCrypt.Lengths
import LinuxCourse.MtaCrypt.History
import LinuxCourse.MtaCrypt.Atomic
import LinuxCourse.MtaCrypt.Rand
import LinuxCourse.MtaCrypt.RandMemory
import LinuxCourse.MtaCrypt.TestEncrypt
import LinuxCourse.Docker.UtilZip
import LinuxCourse.Docker.UtilZipOwnership
import LinuxCourse.Docker.UtilZipAgain
import LinuxCourse.Docker.Main
import LinuxCourse.Docker.ZipperRuns
