import HostReach.Channel.Local
import HostReach.Channel.Namespaced
import HostReach.Channel.Scripted
import HostReach.Config.File
import HostReach.Proofs.Config.HelperPath
import HostReach.Proofs.Context.Timeout
import HostReach.Proofs.Channel.Confinement
import HostReach.Proofs.Channel.Dialect
import HostReach.Proofs.Channel.HostDialect
import HostReach.Proofs.Channel.Independence
import HostReach.Proofs.Channel.Installed
import HostReach.Proofs.Channel.TargetDialect
import HostReach.Proofs.Command.Classification
import HostReach.Proofs.Command.Display
import HostReach.Proofs.Command.PlainOutput
import HostReach.Proofs.Command.Relay
import HostReach.Proofs.Lookup.BlankWord
import HostReach.Proofs.Lookup.LeadingDash
import HostReach.Proofs.Lookup.NameAgreement
import HostReach.Proofs.Lookup.Rules
import HostReach.Proofs.Lookup.Selection
import HostReach.Proofs.Pid.Liveness
import HostReach.Proofs.Response.Stability
import HostReach.Proofs.Channel.InTurn
import HostReach.Proofs.Channel.Ports
import HostReach.Proofs.Channel.Availability
import HostReach.Proofs.Channel.Limit
import HostReach.Proofs.Channel.WithoutTarget
import HostReach.Proofs.Channel.LockStep
import HostReach.Proofs.Channel.PipelineLookup
import HostReach.Proofs.Channel.ScriptWord
import HostReach.Proofs.Channel.Success
import HostReach.Proofs.Config.FailedSave
import HostReach.Proofs.Config.Saved
import HostReach.Proofs.Response.Readers
import HostReach.Proofs.Response.Places
import HostReach.Proofs.Socket.Table
