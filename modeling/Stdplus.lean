import Stdplus.Base.OutBuffer
import Stdplus.Base.Digits
import Stdplus.Base.Separated
import Stdplus.Base.Bytes
import Stdplus.Numeric.Encode
import Stdplus.Numeric.Decode
import Stdplus.Numeric.Endian
import Stdplus.Net.Addr.In4
import Stdplus.Net.Addr.In6
import Stdplus.Net.Addr.In6Forward
import Stdplus.Net.Addr.In6Parse
import Stdplus.Net.Addr.In6Grammar
import Stdplus.Net.Addr.In6Print
import Stdplus.Net.Addr.Sock
import Stdplus.Net.Addr.SockBuf
import Stdplus.Net.Addr.SockDecode
import Stdplus.Net.Addr.SockUnix
import Stdplus.Net.Addr.SockText
import Stdplus.Base.SwapPop
import Stdplus.Base.Transition
import Stdplus.Base.Fields
import Stdplus.Uring.Ring
import Stdplus.Uring.Ledger
import Stdplus.Uring.Books
import Stdplus.Uring.Handlers
import Stdplus.Uring.Exactly
import Stdplus.Uring.Reuse
import Stdplus.Str.Store
import Stdplus.Str.Buf
import Stdplus.Str.Contents
import Stdplus.Str.Operations
import Stdplus.Str.Pool
import Stdplus.Str.Refines
import Stdplus.Handle.Managed
import Stdplus.Handle.Custody
import Stdplus.Handle.Linear
import Stdplus.Handle.Accounted
import Stdplus.Fd.Ops
import Stdplus.Fd.Line
import Stdplus.Fd.Segments
import Stdplus.Fd.Lines
import Stdplus.Base.Holders
import Stdplus.Base.Tenure
import Stdplus.Fd.Format
import Stdplus.Fd.Formatted
import Stdplus.Fd.Atomic
import Stdplus.Fd.Commit
import Stdplus.Fd.AtomicPool
import Stdplus.Base.Slots
import Stdplus.Uring.Files
import Stdplus.Uring.FileTable
import Stdplus.Uring.FileTraces
import Stdplus.Str.Failed
import Stdplus.Base.Lanes
import Stdplus.Fd.FormatPool
import Stdplus.Fd.FormatStore
import Stdplus.Fd.LinePool
import Stdplus.Handle.CallOnce
import Stdplus.Numeric.IntText
import Stdplus.Numeric.SignedDecode
import Stdplus.Numeric.IntRoom
import Stdplus.Net.Addr.In4Text
import Stdplus.Net.Addr.In6Canonical
import Stdplus.Net.Addr.Subnet
import Stdplus.Handle.Thrown
import Stdplus.Fd.Transfers
import Stdplus.Fd.Device
import Stdplus.Fd.ReadAll
import Stdplus.Fd.ReadAllFixed
import Stdplus.Uring.Nested
import Stdplus.Fd.CrossDevice
import Stdplus.Str.Allocators
import Stdplus.Net.Addr.SubnetText
import Stdplus.Net.Addr.Literals
import Stdplus.Base.Noexcept
import Stdplus.Handle.Noexcept
import Stdplus.Base.Confined
import Stdplus.Numeric.Plain
import Stdplus.Numeric.Stops
import Stdplus.Numeric.Stray
import Stdplus.Net.Addr.Netmask
import Stdplus.Net.Addr.Ether
import Stdplus.Net.Addr.Room
import Stdplus.Net.Addr.StrayIn6
import Stdplus.Net.Addr.StrayText
import Stdplus.Uring.Timeout
import Stdplus.Zstring.Traits
import Stdplus.Zstring.Compare
import Stdplus.Zstring.StringView
import Stdplus.Zstring.View
import Stdplus.Raw.View
import Stdplus.Raw.Packed
import Stdplus.Fd.Table
import Stdplus.Fd.Descriptors
import Stdplus.Fd.References
import Stdplus.Fd.DescriptorRuns
import Stdplus.Fd.Published
import Stdplus.Uring.Events
import Stdplus.Str.Printing
import Stdplus.Base.Cylinders
import Stdplus.Net.Addr.Nesting
import Stdplus.Net.Addr.Classes
import Stdplus.Net.Addr.Printed
import Stdplus.Fd.Channel
import Stdplus.Hash.Multi
import Stdplus.Net.Addr.Hashes
import Stdplus.Fd.Peers
