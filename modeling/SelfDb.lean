import SelfDb.Binary.LittleEndian
import SelfDb.Binary.Overlay
import SelfDb.Binary.Splice
import SelfDb.Binary.Record
import SelfDb.Paging.Memory
import SelfDb.Paging.Layers
import SelfDb.Paging.Frame
import SelfDb.Paging.Stack
import SelfDb.Binding.Interposition
import SelfDb.Registry.FirstCome
import SelfDb.Registry.Numbering
import SelfDb.Isolation.Interleaving
import SelfDb.Isolation.Atomicity
import SelfDb.Transition.Runs
import SelfDb.Transition.Accounts
import SelfDb.Transition.Termination
import SelfDb.Scanning.Find
import SelfDb.Scanning.CString
import SelfDb.Scanning.Lines
import SelfDb.Json.Grammar
import SelfDb.Growth.Doubling
import SelfDb.Unix.Files
import SelfDb.Elf
import SelfDb.Sqlite
import SelfDb.Sqlite.Number
import SelfDb.Sqlite.Uri
import SelfDb.Database
import SelfDb.Selfconv.Python
import SelfDb.Selfconv.ElfImage
import SelfDb.Selfconv.Convert
import SelfDb.Selfconv.ConvertProofs
import SelfDb.Selfconv.ImageProofs
import SelfDb.Selfconv.RoundTrip
import SelfDb.Selfconv.Normalize
import SelfDb.Selfconv.Lief
import SelfDb.Selfconv.Link
import SelfDb.Selfconv.SymbolIds
import SelfDb.Selfconv.Closure
import SelfDb.Selfconv.ClosureProofs
import SelfDb.Selfconv.Union
import SelfDb.Selfconv.Dangling
import SelfDb.Selfconv.Slices
import SelfDb.Selfconv.Accepts
import SelfDb.Selfconv.Output
import SelfDb.Selfconv.OutputProofs
import SelfDb.Selfconv.LddOutput
import SelfDb.Selfconv.Scan
import SelfDb.Selfconv.ScanProofs
import SelfDb.Selfconv.OneFile
import SelfDb.Loader.Image
import SelfDb.Loader.ImageProofs
import SelfDb.Loader.ImageBytes
import SelfDb.Loader.Authority
import SelfDb.Loader.Fidelity
import SelfDb.Loader.Twin
import SelfDb.Loader.Process
import SelfDb.Loader.Kernel
import SelfDb.Loader.Native
import SelfDb.Loader.Mapping
import SelfDb.Loader.NativeProofs
import SelfDb.Loader.RunNative
import SelfDb.Loader.SelfLd
import SelfDb.Loader.SelfLdProofs
import SelfDb.Loader.Layout
import SelfDb.Loader.Relocation
import SelfDb.Loader.Eager
import SelfDb.Loader.Providers
import SelfDb.Loader.Imports
import SelfDb.Loader.Slots
import SelfDb.Loader.Preload
import SelfDb.Loader.Commits
import SelfDb.Loader.FailStop
import SelfDb.Loader.Strip
import SelfDb.Loader.Blobs
import SelfDb.Loader.Protection
import SelfDb.Loader.Placement
import SelfDb.Loader.Hole
import SelfDb.Loader.Alignment
import SelfDb.Loader.Agreement
import SelfDb.Loader.AtPhdr
import SelfDb.Loader.InitialStack
import SelfDb.Loader.StackProofs
import SelfDb.Loader.NativeStack
import SelfDb.Loader.SelfLdStack
import SelfDb.Loader.Program
import SelfDb.Loader.Residence
import SelfDb.Loader.NativeRun
import SelfDb.Loader.SelfLdRun
import SelfDb.Loader.Contents
import SelfDb.Loader.HandOff
import SelfDb.Loader.NativeReach
import SelfDb.Loader.SelfLdReach
import SelfDb.Loader.SelfExec
import SelfDb.Loader.Audit
import SelfDb.Loader.AuditSession
import SelfDb.Server.Request
import SelfDb.Server.RequestLine
import SelfDb.Server.Segmentation
import SelfDb.Server.Client
import SelfDb.Server.Buffer
import SelfDb.Server.Truncation
import SelfDb.Server.Render
import SelfDb.Server.Response
import SelfDb.Server.Framing
import SelfDb.Server.Endpoints
import SelfDb.Server.Site
import SelfDb.Server.SiteProofs
import SelfDb.Server.Books
import SelfDb.Server.Totals
import SelfDb.Server.Stored
import SelfDb.Server.Supervision
import SelfDb.Server.Pool
import SelfDb.Server.Shutdown
