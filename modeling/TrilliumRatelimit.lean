import TrilliumRatelimit.BucketConformance
import TrilliumRatelimit.CapacityEviction
import TrilliumRatelimit.ConcurrentConsume
import TrilliumRatelimit.IdleExpiry
import TrilliumRatelimit.ThrottleBackOff
import TrilliumRatelimit.ThrottleDual
import TrilliumRatelimit.ThrottlePace
import TrilliumRatelimit.ThrottleSlowdown
import TrilliumRatelimit.HeaderComposition
import TrilliumRatelimit.HeaderErrors
import TrilliumRatelimit.HeaderRoundTrip
import TrilliumRatelimit.ServerBackoff
import TrilliumRatelimit.ThrottleSpacing
import TrilliumRatelimit.RepeatedParameters
import TrilliumRatelimit.Partitions
import TrilliumRatelimit.AdvertisedWaits
import TrilliumRatelimit.ZeroWaits
import TrilliumRatelimit.Cooperation
import TrilliumRatelimit.LimiterStack
import TrilliumRatelimit.StackRoundTrip
import TrilliumRatelimit.DeniedCalls
import TrilliumRatelimit.NetworkKey
import TrilliumRatelimit.TightWaits
import TrilliumRatelimit.DurationRange
import TrilliumRatelimit.RemainingTokens
import TrilliumRatelimit.ThrottledClients
import TrilliumRatelimit.StoreBudget
import TrilliumRatelimit.ExtraRequests
import TrilliumRatelimit.Journal
import TrilliumRatelimit.ThrottleEarliest
import TrilliumRatelimit.ThrottleScopes
import TrilliumRatelimit.GreedyLevel
import TrilliumRatelimit.GreedyStore
import TrilliumRatelimit.ReadableLimiter
import TrilliumRatelimit.StackConversation
import TrilliumRatelimit.StackStores
import TrilliumRatelimit.StackTraffic
import TrilliumRatelimit.StackAdmission
import TrilliumRatelimit.SlowedRuns
