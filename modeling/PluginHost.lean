import PluginHost.Main
import PluginHost.Loader.Stock
import PluginHost.Proofs.Extension.Set
import PluginHost.Proofs.Extension.Resolution
import PluginHost.Proofs.Extension.Validation
import PluginHost.Proofs.Discovery.History
import PluginHost.Proofs.Discovery.Soundness
import PluginHost.Proofs.Manager
import PluginHost.Proofs.Deployment
import PluginHost.Proofs.FileSystem.Leads
import PluginHost.Proofs.LoadingContext
import PluginHost.Proofs.Discovery.Prefix
import PluginHost.Proofs.Discovery.Failure
import PluginHost.Proofs.Discovery.Redescription
import PluginHost.Proofs.Discovery.Order
import PluginHost.Proofs.Discovery.Omission
import PluginHost.Proofs.Manager.Ranking
import PluginHost.Proofs.Repository.InPlace
import PluginHost.Proofs.Repository.Batch
import PluginHost.Proofs.Repository.Calls
import PluginHost.Proofs.Json.Reading
import PluginHost.Proofs.Documents
import PluginHost.Proofs.Path.Order
import PluginHost.Proofs.Except
import PluginHost.Proofs.FileSystem.Listing
import PluginHost.Proofs.FileSystem.Alike
import PluginHost.Proofs.Library.Contribution
import PluginHost.Proofs.Library.Targets
import PluginHost.Proofs.Library.Scan
import PluginHost.Proofs.Library.Linker
import PluginHost.Proofs.Library.Rescan
import PluginHost.Proofs.Library.Alike
import PluginHost.Proofs.Discovery.Alike
import PluginHost.Proofs.Program
import PluginHost.Proofs.Program.Alike
import PluginHost.Proofs.Extension.Codec
import PluginHost.Proofs.Extension.Fingerprint
import PluginHost.Proofs.Extension.Ownership
import PluginHost.Proofs.Library.InPlace
import PluginHost.Proofs.Library.Spelling
import PluginHost.Proofs.LoadingContext.Root
import PluginHost.Proofs.Json.Access
import PluginHost.Proofs.Json.Proper
import PluginHost.Proofs.Json.Extent
import PluginHost.Proofs.Extension.Form
import PluginHost.Proofs.Manifest
import PluginHost.Proofs.Attribute
import PluginHost.Proofs.Text.Decoding
import PluginHost.Proofs.Loader.Types
import PluginHost.Proofs.Loader.Native
import PluginHost.Proofs.FileSystem.Names
import PluginHost.Proofs.Text.Bytes
import PluginHost.Proofs.Version.Reading
import PluginHost.Proofs.Version.Canonical
import PluginHost.Proofs.Loader.Declaration
import PluginHost.Proofs.Path.Slashes
import PluginHost.Proofs.LoadingContext.Slashes
import PluginHost.Proofs.Plugin
