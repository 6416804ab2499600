import Secureblue.Py.Dict
import Secureblue.Py.Text
import Secureblue.Py.Bytes
import Secureblue.Py.FileSystem
import Secureblue.Efi.SignatureList
import Secureblue.Efi.EnrollMok
import Secureblue.Trace
import Secureblue.Auditor.Report
import Secureblue.Auditor.Runner
import Secureblue.Flatpak.Permissions
import Secureblue.Flatpak.Checks
import Secureblue.Flatpak.ForeignSections
import Secureblue.Kargs.Cmdline
import Secureblue.Kargs.Hardening
import Secureblue.Kargs.UkiAddons
import Secureblue.Flatpak.Monotone
import Secureblue.Flatpak.RoundTrip
import Secureblue.Containers.Policy
import Secureblue.Flatpak.Harden
import Secureblue.Py.Regex
import Secureblue.Dns.Worker
import Secureblue.Dns.Consistency
import Secureblue.Py.Json
import Secureblue.Py.Script
import Secureblue.Py.ConfigParser
import Secureblue.Py.IpAddress
import Secureblue.Dns.GlobalDns
import Secureblue.Dns.Selector
import Secureblue.Dns.Status
import Secureblue.Kargs.Confinement
import Secureblue.KeyFile
import Secureblue.Flatpak.Overrides
import Secureblue.Shell
import Secureblue.Image.Reference
import Secureblue.Image.Provenance
import Secureblue.Run
import Secureblue.Luks.Crypttab
import Secureblue.PrefixTable
import Secureblue.Flatpak.Filesystem
import Secureblue.Py.Int
import Secureblue.Auditor.Sysctl
import Secureblue.Auditor.Recommendations
import Secureblue.Auditor.Modprobe
import Secureblue.Containers.Malformed
import Secureblue.Interrupt
import Secureblue.Efi.SystemdBoot
import Secureblue.Py.DataClass
import Secureblue.Efi.Request
import Secureblue.While
import Secureblue.Flatpak.RemoveOverrides
import Secureblue.Pointwise
import Secureblue.Pipeline
import Secureblue.Luks.Tpm2
import Secureblue.Dns.Detect
import Secureblue.Dns.AskOption
import Secureblue.Occurs
import Secureblue.Dns.Vpn
import Secureblue.Update.Notification
import Secureblue.Update.UpgradeOnBoot
import Secureblue.Bash.Lockdown
import Secureblue.Tools.RepoKeys
import Secureblue.Py.Index
import Secureblue.Tools.SyncEndpoints
import Secureblue.Register
import Secureblue.Selinux.Booleans
import Secureblue.Selinux.Ptrace
import Secureblue.Toggle
import Secureblue.Selinux.Userns
import Secureblue.SignedRules
import Secureblue.Sandbox
import Secureblue.Selinux.Dangerzone
import Secureblue.Efi.EnrollKeys
import Secureblue.Kargs.Runs
import Secureblue.Py.JsonText
import Secureblue.Dns.Menu
import Secureblue.Dns.EndToEnd
import Secureblue.Requests
import Secureblue.Precedence
import Secureblue.Modprobe.Overrides
import Secureblue.Efi.MokRuns
