import ExKernel.Pipe.Bounds
import ExKernel.Pipe.Reopen
import ExKernel.Pipe.Poll
import ExKernel.Pipe.Protocol
import ExKernel.Pipe.WakeUp
import ExKernel.Pipe.Deadlock
import ExKernel.Pipe.Sigio
import ExKernel.Scull.Device
import ExKernel.Scull.Layout
import ExKernel.Scull.Address
import ExKernel.Scull.Calls
import ExKernel.Scull.System
import ExKernel.Scull.Race
import ExKernel.Scull.Store
import ExKernel.Scull.RoundTrip
import ExKernel.Scull.Geometry
import ExKernel.Scull.Twin
import ExKernel.Scull.Account
import ExKernel.Scull.FailedWrite
import ExKernel.Scull.Disclosure
import ExKernel.Scull.Follow
import ExKernel.Scull.ProcFiles
import ExKernel.Scull.StaleHead
import ExKernel.Access.Single
import ExKernel.Access.Uid
import ExKernel.Access.Private
import ExKernel.Access.Isolation
import ExKernel.Access.Trim
import ExKernel.Load.Module
import ExKernel.Load.Use
import ExKernel.Load.Balance
import ExKernel.Scullp.Device
import ExKernel.Scullp.Seek
import ExKernel.Scullp.Growth
import ExKernel.Scullp.Calls
import ExKernel.Scullp.System
import ExKernel.Scullp.Geometry
import ExKernel.Scullp.Pages
import ExKernel.Scullp.Embedding
import ExKernel.Scullp.SameStore
import ExKernel.Scullp.Mapping
import ExKernel.Scullp.ReadFrame
import ExKernel.Scullp.OutOfMemory
import ExKernel.Scullp.Account
import ExKernel.Scullp.Load
import ExKernel.Scullp.ProcMem
import ExKernel.Shared.Async
import ExKernel.Blk.Device
import ExKernel.Blk.Segments
import ExKernel.Blk.Clip
import ExKernel.Blk.Load
import ExKernel.Blk.Whole
import ExKernel.Net.Keyword
import ExKernel.Net.Search
import ExKernel.Ds.List
import ExKernel.Mm.Lru
import ExKernel.Mm.Mmap
import ExKernel.CharDev.Md5
import ExKernel.CharDev.Chardev
import ExKernel.Fs.Counter
import ExKernel.Fs.Readers
import ExKernel.Proc.ListProc
import ExKernel.Proc.Listing
import ExKernel.Proc.Exploit
import ExKernel.Ip.OneByOne
import ExKernel.Ip.Deliver
