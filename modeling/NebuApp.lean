import NebuApp.VM.Reconciliation
import NebuApp.VM.Announcements
import NebuApp.VM.Identity
import NebuApp.Topology.Queries
import NebuApp.Topology.Writer
import NebuApp.Daemon.Collection
import NebuApp.Config.Arguments
import NebuApp.VM.Isolation
import NebuApp.Topology.Format
import NebuApp.Config.Integers
import NebuApp.Config.Histories
import NebuApp.VM.Phases
import NebuApp.Application.Model
import NebuApp.Application.Rounds
import NebuApp.Application.Interval
import NebuApp.VM.Callbacks
import NebuApp.VM.Exceptions
import NebuApp.VM.Influence
import NebuApp.VM.Precedence
import NebuApp.VM.Records
import NebuApp.Application.Exceptions
import NebuApp.Application.Managers
import NebuApp.Application.Settling
import NebuApp.Application.TopologyFile
import NebuApp.Lib.Lazy
import NebuApp.Main.Hooks
import NebuApp.Main.Interval
import NebuApp.Main.Told
import NebuApp.Daemon.HostVM
import NebuApp.VM.Registrations
import NebuApp.Lib.Lockstep
import NebuApp.Main.Alone
import NebuApp.Main.Order
