import SumoProvision.Foundations.OrderedMap
import SumoProvision.Foundations.Json
import SumoProvision.Foundations.Text
import SumoProvision.Foundations.Quoting
import SumoProvision.Foundations.Rfc4514
import SumoProvision.Foundations.Canonical
import SumoProvision.Foundations.Result
import SumoProvision.Foundations.Prog
import SumoProvision.Foundations.Files
import SumoProvision.Foundations.Ownership
import SumoProvision.Foundations.Worklist
import SumoProvision.Foundations.Table
import SumoProvision.Wire.ContentHash
import SumoProvision.Wire.Tree
import SumoProvision.Wire.Serde
import SumoProvision.Wire.Assessment
import SumoProvision.Wire.ExactDiff
import SumoProvision.Wire.FlashPlan
import SumoProvision.Wire.Suit
import SumoProvision.SoftwareTower.Partition
import SumoProvision.SoftwareTower.Agreement
import SumoProvision.SoftwareTower.Identity
import SumoProvision.SoftwareTower.TreeHash
import SumoProvision.SoftwareTower.Database
import SumoProvision.SoftwareTower.Releases
import SumoProvision.SoftwareTower.ComponentReleases
import SumoProvision.SoftwareTower.VehicleReleases
import SumoProvision.SoftwareTower.ConcurrentCreation
import SumoProvision.SoftwareTower.Catalog
import SumoProvision.SoftwareTower.Channels
import SumoProvision.SoftwareTower.Immutability
import SumoProvision.SoftwareTower.LosslessResolution
import SumoProvision.SoftwareTower.PinnedTargets
import SumoProvision.SoftwareTower.ChannelSelectors
import SumoProvision.SoftwareTower.History
import SumoProvision.SoftwareTower.ChannelState
import SumoProvision.SoftwareTower.Content
import SumoProvision.SoftwareTower.ContentIntegrity
import SumoProvision.SoftwareTower.PublishedRefs
import SumoProvision.SoftwareTower.PublishRoundTrip
import SumoProvision.SoftwareTower.Campaign
import SumoProvision.IdentityTower.Devices
import SumoProvision.IdentityTower.Leaves
import SumoProvision.IdentityTower.Recorded
import SumoProvision.IdentityTower.Roster
import SumoProvision.IdentityTower.Keystore
import SumoProvision.IdentityTower.Roots
import SumoProvision.IdentityTower.Deployment
import SumoProvision.Orchestrator.Dispatch
import SumoProvision.Orchestrator.StrictFanout
import SumoProvision.Orchestrator.RigState
import SumoProvision.Orchestrator.CampaignSteps
import SumoProvision.Orchestrator.ApplyPlan
import SumoProvision.Orchestrator.EndToEnd
import SumoProvision.Orchestrator.Isolation
import SumoProvision.Orchestrator.VehicleState
import SumoProvision.Orchestrator.L1Plan
import SumoProvision.Orchestrator.Preview
import SumoProvision.Orchestrator.Convergence
import SumoProvision.Orchestrator.PushedContent
import SumoProvision.Orchestrator.FlashBundle
import SumoProvision.Orchestrator.RigToken
import SumoProvision.Cli.CampaignGate
import SumoProvision.Cli.CampaignRun
import SumoProvision.Cli.Provisioning
import SumoProvision.Cli.Vhsm
