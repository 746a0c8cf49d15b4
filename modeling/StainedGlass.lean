import StainedGlass.Broker.Accounts
import StainedGlass.Broker.Monitor
import StainedGlass.Lib.Bytes
import StainedGlass.Lib.Process
import StainedGlass.Lib.StableSort
import StainedGlass.Rdp.Planar
import StainedGlass.Rdp.PlanarStream
import StainedGlass.Rdp.PlanarLaws
import StainedGlass.Lib.Batches
import StainedGlass.Rdp.Frames
import StainedGlass.Rdp.PlanarBounds
import StainedGlass.Rdp.FramesLaws
import StainedGlass.Rdp.Input
import StainedGlass.Rdp.InputLaws
import StainedGlass.Snapshot.Prune
import StainedGlass.Snapshot.PruneLaws
import StainedGlass.Broker.MonitorLaws
import StainedGlass.Broker.Consent
import StainedGlass.Broker.ConsentLaws
import StainedGlass.Lib.Number
import StainedGlass.Broker.Tickets
import StainedGlass.Broker.TicketsLaws
import StainedGlass.Broker.Launch
import StainedGlass.Broker.LaunchLaws
import StainedGlass.Greeter.Lockd
import StainedGlass.Greeter.LockdLaws
import StainedGlass.Firewall.Config
import StainedGlass.Lib.Intervals
import StainedGlass.Lib.Nft
import StainedGlass.Firewall.Ruleset
import StainedGlass.Firewall.RulesetLaws
import StainedGlass.Firewall.RulesetText
import StainedGlass.Firewall.ConfigLaws
import StainedGlass.Firewall.Commands
import StainedGlass.Firewall.CommandsLaws
import StainedGlass.Firewall.Daemon
import StainedGlass.Firewall.DaemonLaws
import StainedGlass.Firewall.DaemonRuns
import StainedGlass.Power.ScreenSaver
import StainedGlass.Power.ScreenSaverLaws
import StainedGlass.Lib.Action
import StainedGlass.Snapshot.Changes
import StainedGlass.Snapshot.ChangesLaws
import StainedGlass.Snapshot.System
import StainedGlass.Snapshot.SystemLaws
import StainedGlass.Snapshot.Hook
import StainedGlass.Snapshot.HookLaws
import StainedGlass.Snapshot.Rollback
import StainedGlass.Snapshot.RollbackLaws
import StainedGlass.Snapshot.HistoryLaws
import StainedGlass.Snapshot.GrowthLaws
import StainedGlass.Snapshot.LedgerLaws
import StainedGlass.Snapshot.Starts
import StainedGlass.Snapshot.StartsLaws
import StainedGlass.Pdf.DictText
import StainedGlass.Pdf.Objects
import StainedGlass.Pdf.SkipLaws
import StainedGlass.Pdf.TimelineLaws
import StainedGlass.Pdf.DictTextLaws
import StainedGlass.Lib.Records
import StainedGlass.Setup.Bridge
import StainedGlass.Setup.BridgeLaws
import StainedGlass.Lib.Segments
import StainedGlass.Speech.Segmenter
import StainedGlass.Speech.SegmenterLaws
import StainedGlass.Firewall.BlockLaws
import StainedGlass.Firewall.EvaluateLaws
import StainedGlass.Lib.Utf8
import StainedGlass.Lib.Json
import StainedGlass.Greeter.GreetBridge
import StainedGlass.Greeter.GreetBridgeLaws
import StainedGlass.Lib.RegFile
import StainedGlass.Greeter.PolImport
import StainedGlass.Greeter.PolImportLaws
import StainedGlass.Lib.Words
import StainedGlass.Snapshot.Convert
import StainedGlass.Snapshot.ConvertLaws
import StainedGlass.Net.Wifi
import StainedGlass.Net.WifiLaws
import StainedGlass.Lib.KeyFile
import StainedGlass.Net.ProfileLaws
import StainedGlass.Lib.FileTree
import StainedGlass.Domain.NetMount
import StainedGlass.Domain.NetMountLaws
import StainedGlass.Setup.Install
import StainedGlass.Setup.InstallLaws
import StainedGlass.Volumes.Layout
import StainedGlass.Volumes.Commands
import StainedGlass.Volumes.LayoutLaws
import StainedGlass.Volumes.AskedLaws
import StainedGlass.Volumes.RefusalLaws
import StainedGlass.Lib.Assoc
import StainedGlass.Lib.Watches
import StainedGlass.Defender.Watcher
import StainedGlass.Defender.WatcherLaws
import StainedGlass.Pdf.Engine
import StainedGlass.Pdf.SecurityLaws
import StainedGlass.Pdf.Edits
import StainedGlass.Pdf.RefusedLaws
import StainedGlass.Pdf.SignObjects
import StainedGlass.Pdf.ArrayTextLaws
import StainedGlass.Pdf.SignObjectsLaws
import StainedGlass.Broker.RateLaws
import StainedGlass.Greeter.ScreenLaws
import StainedGlass.Broker.Polkit
import StainedGlass.Broker.PolkitLaws
import StainedGlass.Setup.FreeSpace
import StainedGlass.Setup.FreeSpaceLaws
import StainedGlass.Domain.GpoMachine
import StainedGlass.Domain.GpoMachineLaws
import StainedGlass.Lib.Replace
import StainedGlass.Lib.RegText
import StainedGlass.Firewall.Registry
import StainedGlass.Firewall.RegistryLaws
import StainedGlass.Firewall.Jobs
import StainedGlass.Firewall.JobsLaws
import StainedGlass.Firewall.ResetLaws
import StainedGlass.Firewall.RuleAddLaws
import StainedGlass.Firewall.MigrateLaws
import StainedGlass.Firewall.Pushed
import StainedGlass.Firewall.PushedLaws
import StainedGlass.Snapshot.Kernels
import StainedGlass.Snapshot.KernelNames
import StainedGlass.Snapshot.KernelMoves
import StainedGlass.Snapshot.KernelsLaws
import StainedGlass.Lib.JsonText
import StainedGlass.Greeter.GreetReply
import StainedGlass.Greeter.GreetReplyLaws
import StainedGlass.Pdf.Formula
import StainedGlass.Pdf.FormulaLaws
import StainedGlass.Pdf.Redact
import StainedGlass.Pdf.RedactLaws
import StainedGlass.Pdf.Pages
import StainedGlass.Pdf.PagesLaws
import StainedGlass.Lib.Cpio
import StainedGlass.Boot.Firmware
import StainedGlass.Boot.FirmwareLaws
import StainedGlass.Domain.MapLaws
import StainedGlass.Settings.Ini
import StainedGlass.Settings.IniLaws
