import MirageNode.EpochGrid
import MirageNode.ClaimLedger
import MirageNode.CanonPy
import MirageNode.EnvelopeReplay
import MirageNode.AnteRouter
import MirageNode.MintSplit
import MirageNode.DifficultyGrace
import MirageNode.DeletionFinal
import MirageNode.SubscriptionFee
import MirageNode.Usernames
import MirageNode.GenesisExport
import MirageNode.ChainInvariants
import MirageNode.SubscriberRuns
import MirageNode.TeamOwners
import MirageNode.CommunityGlob
import MirageNode.Pagination
import MirageNode.FollowBlock
import MirageNode.ParamUpdates
import MirageNode.NetworkClass
import MirageNode.HistoryGaps
import MirageNode.FeedFilter
