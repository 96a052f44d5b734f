import Coaptic.Storage.Classic
import Coaptic.Oscore.Binding
import Coaptic.App.History
import Coaptic.Client.Collection
import Coaptic.Client.Cooldown
import Coaptic.Client.Owner
import Coaptic.App.Deferred
import Coaptic.App.Associations
import Coaptic.Receipts.Durability
import Coaptic.Storage.Replacement
import Coaptic.Provisioning.AuthorityRuns
import Coaptic.Provisioning.LocalPairing
import Coaptic.Provisioning.CommissioningFrames
import Coaptic.Provisioning.CloudFairness
import Coaptic.Provisioning.CloudReservations
import Coaptic.Provisioning.CloudBudget
import Coaptic.Message.MissingBlocks
import Coaptic.Storage.DedupPaths
import Coaptic.App.Identity
import Coaptic.Storage.DedupExpiry
import Coaptic.Oscore.Paths
import Coaptic.App.Selection
import Coaptic.Storage.OccupancyRuns
import Coaptic.Storage.RequestBinding
import Coaptic.Storage.ObserveResource
