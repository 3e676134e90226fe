import Rustd.Dbus.Environment
import Rustd.Dbus.UnitPaths
import Rustd.Hwdb
import Rustd.Ipc
import Rustd.Journal.Catalog
import Rustd.Journal.Export
import Rustd.Journal.Follow
import Rustd.Journal.Matches
import Rustd.Journal.Rotation
import Rustd.Journal.Sink
import Rustd.JournalFile.Create
import Rustd.Logind.Inhibitors
import Rustd.Logind.Records
import Rustd.Manager.FailedStarts
import Rustd.Manager.Gating
import Rustd.Manager.Isolation
import Rustd.Manager.RestartHandoff
import Rustd.Manager.Shutdown
import Rustd.Manager.StartOrder
import Rustd.Manager.StopSignals
import Rustd.Manager.StuckTargets
import Rustd.Manager.TimerEvents
import Rustd.Manager.TimerExpiry
import Rustd.Manager.TriggerSources
import Rustd.Manager.WatchdogPoll
import Rustd.Repart
import Rustd.Seccomp
import Rustd.Service.NotifyRelease
import Rustd.Service.StartLimit
import Rustd.Sysusers.Apply
import Rustd.Udev.RuleLines
import Rustd.Unit.CommandLine
import Rustd.Unit.CompoundDurations
import Rustd.Unit.EscapeTool
import Rustd.Unit.Ini
import Rustd.Unit.Lookup
import Rustd.Unit.Slice
import Rustd.Unit.Specifier
import Rustd.Unit.TasksMax
import Rustd.Unit.Version
