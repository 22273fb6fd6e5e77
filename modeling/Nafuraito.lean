import Nafuraito.Library.Bitmap
import Nafuraito.Library.BlockStore
import Nafuraito.Library.Chains
import Nafuraito.Library.DownStack
import Nafuraito.Library.Fallible
import Nafuraito.Library.Nesting
import Nafuraito.Library.Labelled
import Nafuraito.Library.Observed
import Nafuraito.Library.Priorities
import Nafuraito.Library.Runs
import Nafuraito.Library.Searches
import Nafuraito.Library.Sharing
import Nafuraito.Library.Slots
import Nafuraito.Library.Spans
import Nafuraito.Library.TableTree
import Nafuraito.Library.Words
import Nafuraito.Library.Writes
import Nafuraito.Memory.MemoryMap
import Nafuraito.Memory.ZoneMemory
import Nafuraito.Memory.PhysicalMemoryManager
import Nafuraito.Memory.FrameEffects
import Nafuraito.Memory.FrameAccounting
import Nafuraito.Memory.Fragmentation
import Nafuraito.Memory.FrameInit
import Nafuraito.Memory.FrameInitExact
import Nafuraito.Memory.FrameInitCount
import Nafuraito.Memory.BitmapPlacement
import Nafuraito.Memory.FrameCalls
import Nafuraito.Memory.UefiMap
import Nafuraito.Memory.FrameOwnership
import Nafuraito.Memory.ZoneAccounting
import Nafuraito.Memory.PageTable
import Nafuraito.Memory.Machine
import Nafuraito.Memory.Paging
import Nafuraito.Memory.PageWalk
import Nafuraito.Memory.PagingModes
import Nafuraito.Memory.BootHierarchy
import Nafuraito.Memory.BootTables
import Nafuraito.Memory.ActiveTables
import Nafuraito.Memory.TableFrames
import Nafuraito.Memory.MapPage
import Nafuraito.Memory.UnmapPage
import Nafuraito.Memory.Tlb
import Nafuraito.Memory.TlbCoherence
import Nafuraito.Memory.AddressAliases
import Nafuraito.Memory.MapFailure
import Nafuraito.Memory.TableOwnership
import Nafuraito.Memory.TableWrites
import Nafuraito.Memory.DemandPaging
import Nafuraito.Memory.Footprint
import Nafuraito.Memory.RegionRegistry
import Nafuraito.Memory.RegionBacking
import Nafuraito.Memory.CopyOnWrite
import Nafuraito.Memory.Refcounts
import Nafuraito.Memory.GuardPages
import Nafuraito.Memory.PageFault
import Nafuraito.Memory.Pages
import Nafuraito.Memory.RangeMapping
import Nafuraito.Memory.CowSharing
import Nafuraito.Memory.EffectiveRights
import Nafuraito.Memory.FaultOffset
import Nafuraito.Memory.CowFailure
import Nafuraito.Memory.CowSteps
import Nafuraito.Memory.CowReadOnly
import Nafuraito.Memory.PageFlags
import Nafuraito.Memory.CowRun
import Nafuraito.Memory.MapUnmap
import Nafuraito.Memory.Heap
import Nafuraito.Memory.HeapInvariant
import Nafuraito.Memory.HeapSteps
import Nafuraito.Memory.HeapCalls
import Nafuraito.Memory.HeapContract
import Nafuraito.Memory.HeapPages
import Nafuraito.Memory.HeapMemory
import Nafuraito.Memory.HeapInvalidFree
import Nafuraito.Memory.KernelAllocator
import Nafuraito.Memory.KernelStacks
import Nafuraito.Memory.EarlyHeap
import Nafuraito.Ext4.Journal
import Nafuraito.Ext4.JournalCommit
import Nafuraito.Ext4.BlockMap
import Nafuraito.Ext4.ExtentTree
import Nafuraito.Ext4.BootBlockMap
import Nafuraito.Ext4.InodeTable
import Nafuraito.Ext4.Mount
import Nafuraito.Ext4.Directory
import Nafuraito.Ext4.ImageLookup
import Nafuraito.Ext4.MountSafety
import Nafuraito.Ext4.ParseBounds
import Nafuraito.Ext4.IndirectBlocks
import Nafuraito.Ext4.PathComponents
import Nafuraito.Ext4.DirectoryListing
import Nafuraito.Ext4.FileRead
import Nafuraito.Ext4.InodeWrites
import Nafuraito.Ext4.CommitWrites
import Nafuraito.Ext4.JournalPlaces
import Nafuraito.Ext4.CrashRecovery
import Nafuraito.Memory.PageRelease
import Nafuraito.Memory.DemandPages
import Nafuraito.Memory.DemandRun
import Nafuraito.Memory.DemandContents
import Nafuraito.Memory.FrameRelease
import Nafuraito.Memory.MunmapEffect
import Nafuraito.Memory.RegionSplits
import Nafuraito.Memory.DemandFailure
import Nafuraito.Ext4.FailedRead
import Nafuraito.Ext4.InodeSlots
import Nafuraito.Ext4.FailedCommit
import Nafuraito.Ata.Transfer
import Nafuraito.Ata.SectorAddresses
import Nafuraito.Ext4.BootLoader
import Nafuraito.Ext4.BootLimits
import Nafuraito.Ext4.ImageFormat
import Nafuraito.Ext4.BootContents
import Nafuraito.Ext4.BootInodes
import Nafuraito.Ext4.BootDirectories
import Nafuraito.Ext4.PathAgreement
import Nafuraito.Pci.Config
import Nafuraito.Pci.Enumeration
import Nafuraito.Pci.Msi
import Nafuraito.Pci.MsiVectors
import Nafuraito.Pci.Bars
import Nafuraito.Pci.Capabilities
import Nafuraito.Pci.EnumeratedOnce
import Nafuraito.Pci.MsixPending
import Nafuraito.Pci.MessagePrograms
import Nafuraito.Pci.MessageSafety
import Nafuraito.Pci.MessageRuns
import Nafuraito.Pci.PinsOrMessages
import Nafuraito.Pci.NarrowWrites
import Nafuraito.Memory.HeapRuns
import Nafuraito.Memory.MemoryMoves
import Nafuraito.Memory.SlabRuns
import Nafuraito.Video.FramebufferBounds
import Nafuraito.Video.TextConsole
import Nafuraito.Video.LineDrawing
import Nafuraito.Interrupts.Descriptors
import Nafuraito.Interrupts.Decoding
import Nafuraito.Interrupts.Stubs
import Nafuraito.Interrupts.Context
import Nafuraito.Interrupts.Handlers
import Nafuraito.Interrupts.PicConfig
import Nafuraito.Interrupts.PicService
import Nafuraito.Interrupts.PicRuns
import Nafuraito.Ata.BlockDevice
