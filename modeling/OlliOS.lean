import OlliOS.Proofs.RunQueue
import OlliOS.Proofs.Reaping
import OlliOS.Proofs.Lifecycle
import OlliOS.Proofs.Boot
import OlliOS.Proofs.DeepClone
import OlliOS.Proofs.Mutex
import OlliOS.Proofs.Semaphore
import OlliOS.Proofs.SchedulerLock
import OlliOS.Proofs.Frames
import OlliOS.Proofs.Initfs
import OlliOS.Proofs.Iso9660
import OlliOS.Proofs.LineEcho
import OlliOS.Proofs.UnorderedMap
import OlliOS.Proofs.SharedPtr
import OlliOS.Proofs.Keyboard
import OlliOS.Proofs.VgaFiles
import OlliOS.Proofs.InputFormatter
import OlliOS.Proofs.PageRanges
import OlliOS.Proofs.PhysicalAccess
import OlliOS.Proofs.FreeLists
import OlliOS.Proofs.Offsets
import OlliOS.Proofs.SharedDescriptors
import OlliOS.Proofs.FileBounds
import OlliOS.Proofs.Views
import OlliOS.Proofs.IsoRecords
import OlliOS.Proofs.Mbr
import OlliOS.Proofs.GotTable
import OlliOS.Proofs.Launch
import OlliOS.Proofs.TokenLists
import OlliOS.Proofs.ShellInput
import OlliOS.Proofs.Hpet
import OlliOS.Proofs.Strings
import OlliOS.Proofs.LinkedList
import OlliOS.Proofs.Vector
import OlliOS.Proofs.String
import OlliOS.Proofs.Ata
