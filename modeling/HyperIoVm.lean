import HyperIoVm.Effects.Program
import HyperIoVm.Effects.Contract
import HyperIoVm.Effects.Routine
import HyperIoVm.Effects.Handles
import HyperIoVm.Effects.Handler
import HyperIoVm.Effects.Points
import HyperIoVm.Effects.Issues
import HyperIoVm.Effects.Layered
import HyperIoVm.Effects.Product
import HyperIoVm.Wire
import HyperIoVm.Layout
import HyperIoVm.Session
import HyperIoVm.Sys
import HyperIoVm.Backend
import HyperIoVm.BlockPolicy
import HyperIoVm.BlockTarget
import HyperIoVm.Vhost
import HyperIoVm.Network
import HyperIoVm.Memory
import HyperIoVm.Block
import HyperIoVm.Service
import HyperIoVm.Setup
import HyperIoVm.Outside
import HyperIoVm.Custody
import HyperIoVm.Retire
import HyperIoVm.Acquire
import HyperIoVm.Upkeep
import HyperIoVm.Runs
import HyperIoVm.Rounds
import HyperIoVm.Order
import HyperIoVm.Independence
import HyperIoVm.Frame
import HyperIoVm.Confinement
import HyperIoVm.Takeover
import HyperIoVm.Retirement
import HyperIoVm.Bridge
import HyperIoVm.Ledger
import HyperIoVm.Data.Tiling
import HyperIoVm.Extents
import HyperIoVm.GuestMemory
import HyperIoVm.MemoryDevice
import HyperIoVm.MemoryService
import HyperIoVm.DeviceCalls
import HyperIoVm.GrantMapping
import HyperIoVm.GrantTranslation
import HyperIoVm.Preparation
import HyperIoVm.Lifetime
import HyperIoVm.Granules
import HyperIoVm.GranuleCalls
import HyperIoVm.GranuleOwners
import HyperIoVm.GranuleWorkers
import HyperIoVm.GranulePuts
import HyperIoVm.GranuleRuns
import HyperIoVm.GranuleSafety
import HyperIoVm.GranuleQueue
import HyperIoVm.GranuleProgress
import HyperIoVm.Teardown
import HyperIoVm.MemoryProbe
import HyperIoVm.PoolReferences
import HyperIoVm.PoolLifetime
import HyperIoVm.PoolMappings
import HyperIoVm.Purpose
import HyperIoVm.Roles
import HyperIoVm.OwnerMemory
import HyperIoVm.RoleConfinement
import HyperIoVm.Descriptors
import HyperIoVm.Attachments
import HyperIoVm.Activation
import HyperIoVm.AllOrNothing
import HyperIoVm.Regularity
import HyperIoVm.Rollback
import HyperIoVm.Data.Span
import HyperIoVm.Rings
import HyperIoVm.Installation
import HyperIoVm.Inventory
import HyperIoVm.Identifiers
import HyperIoVm.BlockReads
import HyperIoVm.Exports
import HyperIoVm.LunPublication
import HyperIoVm.Isolation
import HyperIoVm.Framing
import HyperIoVm.Data.Words
import HyperIoVm.Data.Text
import HyperIoVm.Data.Python
import HyperIoVm.Data.Steps
import HyperIoVm.Resources
import HyperIoVm.ResourceNumber
import HyperIoVm.ScsiFile
import HyperIoVm.ClientConfig
import HyperIoVm.ClientTable
import HyperIoVm.NetworkConfig
import HyperIoVm.NetworkTable
import HyperIoVm.ConfigLines
import HyperIoVm.Arguments
import HyperIoVm.Newc
import HyperIoVm.NewcForm
import HyperIoVm.NewcRounds
import HyperIoVm.NewcFormat
import HyperIoVm.NewcCuts
import HyperIoVm.Data.FileTree
import HyperIoVm.Assemble
import HyperIoVm.Overlay
import HyperIoVm.Assembled
import HyperIoVm.Extraction
import HyperIoVm.VerifySources
import HyperIoVm.Publish
import HyperIoVm.Publication
import HyperIoVm.Supervisor
import HyperIoVm.StopRequests
import HyperIoVm.Mailbox
import HyperIoVm.MailboxWaits
import HyperIoVm.Bindings
import HyperIoVm.BridgeRuns
import HyperIoVm.Effects.Beside
import HyperIoVm.Control
import HyperIoVm.ControlExchange
import HyperIoVm.ControlService
import HyperIoVm.NetworkLinks
