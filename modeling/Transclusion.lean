import Transclusion.Disk.Tree
import Transclusion.Main
import Transclusion.Memory
import Transclusion.Walk.Copy
import Transclusion.Walk.InPlace
import Transclusion.Walk.Lazy
import Transclusion.Proofs.Values.Keys
import Transclusion.Proofs.Runs
import Transclusion.Proofs.Values.Reading
import Transclusion.Proofs.Values.Document
import Transclusion.Proofs.Directives.Payload
import Transclusion.Proofs.Directives.RoundTrip
import Transclusion.Proofs.Directives.Grammar
import Transclusion.Proofs.Directives.Entries
import Transclusion.Proofs.Directives.Depths
import Transclusion.Proofs.Resolution
import Transclusion.Proofs.Includes.Defaults
import Transclusion.Proofs.Includes.Calls
import Transclusion.Proofs.Includes.Faults
import Transclusion.Proofs.Includes.Nesting
import Transclusion.Proofs.Walks.Copy
import Transclusion.Proofs.Walks.InPlace
import Transclusion.Proofs.Walks.Deferred
import Transclusion.Proofs.Values.Places
import Transclusion.Proofs.Walks.Lazy
import Transclusion.Proofs.Walks.Reemission
import Transclusion.Proofs.Walks.Later
import Transclusion.Proofs.Walks.EveryLevel
import Transclusion.Proofs.Listings.Bytes
import Transclusion.Proofs.Listings.Files
import Transclusion.Proofs.Listings.Reach
import Transclusion.Proofs.Listings.Local
import Transclusion.Proofs.Listings.Directories
import Transclusion.Proofs.Listings.Links
import Transclusion.Proofs.Listings.Pages
import Transclusion.Proofs.Listings.Mirror
import Transclusion.Proofs.Listings.Worklist
import Transclusion.Proofs.Listings.Requests
import Transclusion.Proofs.Listings.Hosted
import Transclusion.Proofs.Listings.Ways
import Transclusion.Proofs.Listings.Opening
import Transclusion.Proofs.Walks.Leftover
import Transclusion.Proofs.Walks.Restarts
import Transclusion.Proofs.Walks.Sites
import Transclusion.Proofs.Walks.Visits
import Transclusion.Proofs.Includes.Assembly
import Transclusion.Proofs.Targets.Parts
import Transclusion.Proofs.Targets.Routes
import Transclusion.Proofs.Includes.FileUrls
import Transclusion.Proofs.Listings.Spelling
import Transclusion.Proofs.Openings.Options
import Transclusion.Proofs.Ini.Meaning
import Transclusion.Proofs.Ini.Repeated
import Transclusion.Proofs.Ini.Continuations
import Transclusion.Proofs.Settings.Layers
import Transclusion.Proofs.Settings.Directory
import Transclusion.Proofs.Includes.Mappings
import Transclusion.Proofs.Settings.Rebuilding
import Transclusion.Proofs.Openings.Timeouts
import Transclusion.Proofs.Listings.InMemory
import Transclusion.Proofs.Patterns.Rows
