import RexOs.Sched.Reaper
import RexOs.Net.TcpReceive
import RexOs.Net.TcpWindow
import RexOs.Net.TcpAccepted
import RexOs.Net.TcpPorts
import RexOs.Net.ArpHistory
import RexOs.Mm.VmmInit
import RexOs.Mm.HeapContents
import RexOs.Fs.ElfImage
import RexOs.Fs.FileCalls
import RexOs.Fs.ShortNames
import RexOs.Fs.FatRollback
import RexOs.User.InflateStream
import RexOs.Arch.UserPointers
import RexOs.Sched.UserHistory
import RexOs.Drivers.XhciAlive
import RexOs.Drivers.ConfigDesc
import RexOs.Drivers.NvmeIo
import RexOs.Drivers.BlockIoRight
import RexOs.Drivers.Mouse
import RexOs.Net.DhcpLease
import RexOs.NetSurf.RelayoutHistory
import RexOs.NetSurf.FetchReuse
import RexOs.NetSurf.FetchPackets
import RexOs.Desktop.Enumerate
import RexOs.Desktop.Clip
import RexOs.User.InflateCapacity
import RexOs.Net.TcpSegments
import RexOs.Net.UdpRoundTrip
import RexOs.Arch.NetConnect
import RexOs.Net.DnsExtract
import RexOs.Fs.TarSafe
import RexOs.Fs.TarListing
import RexOs.Fs.NodeCache
import RexOs.User.Containers
import RexOs.User.ChunkedSafe
import RexOs.User.Dates
import RexOs.User.Memmove
import RexOs.User.Sockets
import RexOs.User.NumericFields
import RexOs.NetSurf.FetchClose
import RexOs.User.MallocHistory
import RexOs.User.RealpathCanonical
import RexOs.User.IconvStream
import RexOs.Desktop.HtmlRight
import RexOs.Desktop.Line
import RexOs.Desktop.Font
import RexOs.Desktop.BrowserHistoryRight
import RexOs.Kernel.PrintfRight
import RexOs.Drivers.E1000
import RexOs.Drivers.Console
import RexOs.Drivers.Keyboard
import RexOs.Desktop.GlyphCache
