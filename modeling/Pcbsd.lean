import Pcbsd.Proofs.ActiveConsole
import Pcbsd.Proofs.GptEnumeration
import Pcbsd.Proofs.NextbootOnce
import Pcbsd.Proofs.ZfsbootSwitch
import Pcbsd.Proofs.PromptSelection
import Pcbsd.Proofs.VidCursor
import Pcbsd.Proofs.DeviceNames
import Pcbsd.Proofs.LogoConversion
import Pcbsd.Proofs.RelocCopies
import Pcbsd.Proofs.SerialSettings
import Pcbsd.Proofs.FdtPrinting
import Pcbsd.Proofs.UbootInUse
import Pcbsd.Proofs.PoolListing
import Pcbsd.Proofs.DeviceTree
import Pcbsd.Proofs.BootArguments
import Pcbsd.Proofs.FstabRemains
import Pcbsd.Proofs.SymbolChains
import Pcbsd.Proofs.ElfInside
import Pcbsd.Proofs.ModuleSettings
import Pcbsd.Proofs.ObjectLoading
import Pcbsd.Proofs.FreeRows
import Pcbsd.Proofs.SizeSlider
import Pcbsd.Proofs.PoolActions
import Pcbsd.Proofs.ResourceScan
import Pcbsd.Proofs.MemoryNode
import Pcbsd.Proofs.FdtNames
import Pcbsd.Proofs.StructureTable
import Pcbsd.Proofs.UbootSelection
import Pcbsd.Proofs.VideoRegisters
import Pcbsd.Proofs.DatasetNesting
import Pcbsd.Proofs.HashWidth
import Pcbsd.Proofs.BackslashMemory
import Pcbsd.Proofs.BcacheOnce
import Pcbsd.Proofs.PoolFeasible
import Pcbsd.Proofs.TopologyAccess
import Pcbsd.Proofs.HandOff
import Pcbsd.Proofs.TempBalance
import Pcbsd.Proofs.MemorySizes
import Pcbsd.Proofs.ElfImage
import Pcbsd.Proofs.DirListing
import Pcbsd.Proofs.PathLookup
import Pcbsd.Proofs.NvlistNames
import Pcbsd.Proofs.NvlistBounds
import Pcbsd.Proofs.ExtendedPartitions
import Pcbsd.Proofs.GptFrame
import Pcbsd.Proofs.GptBounds
import Pcbsd.Proofs.ListedNames
import Pcbsd.Proofs.CdReads
import Pcbsd.Proofs.DiskTransfers
import Pcbsd.Proofs.DirScanning
import Pcbsd.Proofs.KernelLoading
import Pcbsd.Proofs.UfsLookup
import Pcbsd.Proofs.BootFiles
import Pcbsd.Proofs.DriveOffers
import Pcbsd.Proofs.ModuleOrder
import Pcbsd.Proofs.HintSelection
import Pcbsd.Proofs.ParseLimits
import Pcbsd.Proofs.ConfGrammar
import Pcbsd.Proofs.ConfOrder
import Pcbsd.Proofs.FiclRun
import Pcbsd.Proofs.RejectedCommands
import Pcbsd.Proofs.TftpDownload
import Pcbsd.Proofs.XmodemReceive
