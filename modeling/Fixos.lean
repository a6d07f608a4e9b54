import Fixos.Utils.PoolMemory
import Fixos.Sys.SignalMask
import Fixos.Sys.FileReleases
import Fixos.Sys.DirLinks
import Fixos.Sys.SegmentImage
import Fixos.Sys.TlbCoherence
import Fixos.Sys.PageContents
import Fixos.Sys.StopResume
import Fixos.Sys.AsidLoss
import Fixos.Sys.Clock
import Fixos.Sys.SignalFrames
import Fixos.Sys.ForkFailure
import Fixos.Sys.InodeRefs
import Fixos.Utils.PoolPages
import Fixos.Sys.ProcessTable
import Fixos.Sys.RoundRobin
import Fixos.Fs.Pipe
import Fixos.Arch.Usb
import Fixos.Arch.UsbSend
import Fixos.Bootloader.SmemOpen
import Fixos.Fs.CreateRun
import Fixos.Fs.Listing
import Fixos.Sys.TtyEcho
import Fixos.Sys.TtyProgress
import Fixos.Device.TermScreen
import Fixos.Device.CursorFlush
import Fixos.Arch.Eeprom
import Fixos.Bootloader.ConfigFrame
import Fixos.Bootloader.Menu
import Fixos.Sys.Sbrk
import Fixos.Device.Vram
import Fixos.Fs.SmemTable
import Fixos.Fs.SmemReads
import Fixos.Fs.BelowFile
import Fixos.Bootloader.SmemSeek
import Fixos.Sys.ArgIndices
import Fixos.Loader.Symbols
import Fixos.Loader.ElfLoader
import Fixos.Device.MonoPixels
import Fixos.Device.CursorMoves
import Fixos.Sys.ProcessInfo
import Fixos.Arch.EepromContents
import Fixos.Bootloader.ConfigTags
