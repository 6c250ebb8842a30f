import Firestone.Oci.Layers
import Firestone.Oci.Overlay
import Firestone.Lib.Runs
import Firestone.Lib.Services
import Firestone.Lib.Origins
import Firestone.Ui.Gate
import Firestone.Render.Sanitizer
import Firestone.Machine.Lock
import Firestone.Machine.Runtime
import Firestone.Machine.StateWriters
import Firestone.Lib.Json
import Firestone.Vmm.Config
import Firestone.Vmm.Resize
import Firestone.Image.References
import Firestone.Lib.Crash
import Firestone.Machine.Restore
import Firestone.Image.Generations
import Firestone.Image.FileNames
import Firestone.Image.Recovery
import Firestone.Lib.Talk
import Firestone.Lib.Text
import Firestone.Oci.Auth
import Firestone.Oci.Registry
import Firestone.Spec
import Firestone.Atomic
import Firestone.Machine.SpecWriters
import Firestone.Lib.Tree
import Firestone.Paths
import Firestone.Machine.SpecFiles
import Firestone.Machine.Creation
import Firestone.Lib.Decimal
import Firestone.Oci.Tar
import Firestone.Oci.Merge
import Firestone.Oci.TarReading
import Firestone.Oci.Plan
import Firestone.Oci.Repair
import Firestone.Oci.Emissions
import Firestone.Oci.Survivors
import Firestone.Oci.Stream
import Firestone.Oci.Ustar
import Firestone.Oci.Shape
import Firestone.Oci.Extraction
import Firestone.Lib.Words
import Firestone.Boot.ConfigDisk
import Firestone.Vmm.Overlay
import Firestone.Lib.Records
import Firestone.Machine.StateFile
import Firestone.Oci.References
import Firestone.Oci.PlainHttp
import Firestone.Lib.IpText
import Firestone.Lib.Pipes
import Firestone.Lib.Links
import Firestone.Lib.Multipart
import Firestone.Spec.Values
import Firestone.Lib.Toml
import Firestone.Spec.Document
import Firestone.Console.Broker
import Firestone.Console.Integrity
import Firestone.Boot.CloudInit
import Firestone.Oci.Injection
import Firestone.Oci.Pax
import Firestone.Lib.Budget
import Firestone.Oci.Caps
import Firestone.Oci.Cursors
import Firestone.Image.ChecksumManifest
import Firestone.Spec.Patches
import Firestone.Spec.PortForwards
import Firestone.Spec.ForwardSets
import Firestone.Image.Catalogs
import Firestone.Lib.OsPath
import Firestone.Image.Sources
import Firestone.Vmm.Mounts
import Firestone.Lib.JsonOrder
import Firestone.Vmm.MergePatch
import Firestone.Lib.SparseFile
import Firestone.Machine.SparseCopy
import Firestone.Lib.Lines
import Firestone.Machine.LogTail
import Firestone.Lib.LossyText
import Firestone.Machine.LogFollow
import Firestone.Lib.TextLines
import Firestone.Ui.CreateForm
import Firestone.Lib.FileLocks
import Firestone.Machine.PruneRuns
import Firestone.Machine.PruneSafety
import Firestone.Rest.Dispatch
import Firestone.Image.CatalogNames
import Firestone.Process.Capture
import Firestone.Lib.IndexLoop
import Firestone.Oci.Challenges
import Firestone.Boot.Environment
import Firestone.Guest.DhcpReply
import Firestone.Guest.Datagram
import Firestone.Lib.ShellWords
import Firestone.Ssh.ProxyCommand
import Firestone.Lib.CopyArguments
import Firestone.Ssh.Copies
import Firestone.Console.Relay
import Firestone.Lib.Patterns
import Firestone.Oci.Components
import Firestone.Oci.Credentials
import Firestone.Spec.ValueGrammar
import Firestone.Lib.Utf8
import Firestone.Lib.Reads
import Firestone.Vmm.Response
import Firestone.Spec.RealHost
import Firestone.Spec.Validation
import Firestone.Spec.Reload
import Firestone.Boot.Seed
import Firestone.Lib.Programs
import Firestone.Shim.World
import Firestone.Shim.Children
import Firestone.Shim.Launch
import Firestone.Shim.Supervisor
import Firestone.Shim.Invariant
import Firestone.Shim.Quiet
import Firestone.Shim.Stops
import Firestone.Shim.Loop
import Firestone.Shim.LaunchRun
import Firestone.Shim.Survivors
import Firestone.Shim.Adoption
import Firestone.Shim.Start
import Firestone.Shim.Lives
import Firestone.Machine.ConsoleLog
import Firestone.Rest.ServeSocket
