import Biei.Theorems.RenderCache
import Biei.Theorems.Waiting
import Biei.Theorems.Overlay
import Biei.Theorems.Worker
import Biei.Theorems.Gossip
import Biei.Theorems.Bootstrap
import Biei.Theorems.Delivery
import Biei.Theorems.Scheduler
import Biei.Theorems.Filesource
import Biei.Theorems.Singleflight
import Biei.Theorems.Profile
import Biei.Theorems.ReaderLoads
import Biei.Theorems.Contours
import Biei.Theorems.Namespace
import Biei.Theorems.Supervisor
import Biei.Theorems.SnapshotCaches
import Biei.Theorems.Drain
import Biei.Theorems.Directory
import Biei.Theorems.Planning
import Biei.Theorems.Requests
import Biei.Theorems.Speckles
import Biei.Theorems.Rings
import Biei.Theorems.Collinear
import Biei.Theorems.UrlPolicy
import Biei.Theorems.CacheControl
import Biei.Theorems.Accept
import Biei.Theorems.Conditional
import Biei.Theorems.StyleRewrite
import Biei.Theorems.ProviderConfig
import Biei.Theorems.StyleCatalog
import Biei.Theorems.TileId
import Biei.Theorems.PathOverlay
import Biei.Theorems.Mlt
import Biei.Theorems.Metadata
import Biei.Theorems.Internal
import Biei.Theorems.Features
import Biei.Theorems.AddLayer
