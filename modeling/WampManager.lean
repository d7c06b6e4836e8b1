import WampManager.Lib.Text
import WampManager.Lib.Loose
import WampManager.Lib.Sha1
import WampManager.Lib.Url
import WampManager.Lib.Captures
import WampManager.Lib.Json
import WampManager.Lib.FilePath
import WampManager.Lib.Glob
import WampManager.Lib.Transition
import WampManager.Lib.Table
import WampManager.Lib.FileTree
import WampManager.Lib.Drive
import WampManager.Lib.Course
import WampManager.Lib.Transducer
import WampManager.Lib.NginxConf
import WampManager.Lib.ApacheConf
import WampManager.Database
import WampManager.Hosts
import WampManager.HostsLines
import WampManager.HostsEdits
import WampManager.Instance
import WampManager.Site
import WampManager.SiteSteps
import WampManager.SiteOutcomes
import WampManager.SiteController
import WampManager.SitePaths
import WampManager.HostsMirror
import WampManager.SiteFrame
import WampManager.VhostMirror
import WampManager.SiteEffects
import WampManager.MissingSite
import WampManager.SiteAtomic
import WampManager.SiteRoots
import WampManager.VhostNames
import WampManager.SiteNames
import WampManager.ApacheReads
import WampManager.NginxReads
import WampManager.VhostReads
import WampManager.Download
import WampManager.StaticFiles
import WampManager.AppInstall
import WampManager.UnzipMe
import WampManager.UnzipPaths
import WampManager.StoreSync
import WampManager.StoreAtomic
import WampManager.Machine
import WampManager.Uninstall
import WampManager.Install
import WampManager.WholeInstances
import WampManager.Verify
import WampManager.SiteReferences
import WampManager.Settings
import WampManager.Wizard
import WampManager.Endpoints
import WampManager.Ports
import WampManager.Connections
import WampManager.Addresses
import WampManager.StoreInstances
import WampManager.HostsLocal
import WampManager.WizardPage
import WampManager.Mail
import WampManager.Placeholders
import WampManager.SiteAliases
import WampManager.FreePorts
import WampManager.EndpointOverlap
import WampManager.HostsBatch
import WampManager.ServiceStatus
import WampManager.WordpressSecrets
import WampManager.AppConfigs
import WampManager.PhpLimits
import WampManager.PhpModules
import WampManager.HostsLiteral
import WampManager.PathSet
import WampManager.SystemPath
import WampManager.Conf
import WampManager.Lib.PcreWords
import WampManager.IpAddress
import WampManager.Lib.SqlLiteral
import WampManager.RootPassword
import WampManager.Lib.Listing
import WampManager.EmptyDirectory
import WampManager.Lib.CmdLine
import WampManager.Deltree
import WampManager.Lib.SqlName
import WampManager.AppDatabase
import WampManager.Lib.LooseOrder
import WampManager.Lib.Sorter
import WampManager.PackageList
import WampManager.Lib.Base64
import WampManager.MailActions
import WampManager.Router
import WampManager.Lib.JsonText
import WampManager.Lib.Script
import WampManager.WizardBoard
import WampManager.FormErrors
import WampManager.Lib.Argv
import WampManager.Benchmark
import WampManager.BenchmarkRuns
import WampManager.Mailbox
import WampManager.Lib.LastComponent
import WampManager.PublicFolder
import WampManager.Lib.Volume
import WampManager.DirectorySize
import WampManager.SiteForm
import WampManager.Lib.VirtualHost
import WampManager.SiteLinks
