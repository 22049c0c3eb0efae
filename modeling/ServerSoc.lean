import ServerSoc.Acpi.Capacity
import ServerSoc.Hart.Faithful
import ServerSoc.Hart.IndexBounds
import ServerSoc.Iic.Imsic
import ServerSoc.Infra.Aggregation
import ServerSoc.Infra.OptionLists
import ServerSoc.Infra.Timeouts
import ServerSoc.Iommu.Faithful
import ServerSoc.Iovirt.ItsInfo
import ServerSoc.Iovirt.OverlapFlags
import ServerSoc.Iovirt.SmmuIndex
import ServerSoc.Its.LpiMaps
import ServerSoc.Pcie.BdfCapacity
import ServerSoc.Pcie.BdfOrder
import ServerSoc.Pcie.EcamLookup
import ServerSoc.Pcie.MmioBar
import ServerSoc.Pcie.Parent
import ServerSoc.PcieEnum.Coverage
import ServerSoc.Pgt.Accesses
import ServerSoc.Pgt.Destroy
import ServerSoc.Pgt.ErrorPath
import ServerSoc.Pgt.Regions
import ServerSoc.Smmu.History
import ServerSoc.Smmu.Isolation
import ServerSoc.Smmu.QueueSafety
import ServerSoc.Smmu.StreamTable
import ServerSoc.Smmu.Substreams
import ServerSoc.Tests.Iom004
import ServerSoc.Tests.Iom005
import ServerSoc.Tests.Iom019
import ServerSoc.Tests.Iom026
import ServerSoc.Tests.NfChoice
import ServerSoc.Tests.P002
import ServerSoc.Tests.P006
import ServerSoc.Tests.PortsKept
import ServerSoc.Smmu.Sizes
import ServerSoc.Its.Targets
import ServerSoc.Pcie.Baremetal
import ServerSoc.Pcie.CapWalks
import ServerSoc.Gic.Interrupts
import ServerSoc.Its.Redistributors
import ServerSoc.Pal.Misc
import ServerSoc.Val.Timer
import ServerSoc.Val.MemoryTable
