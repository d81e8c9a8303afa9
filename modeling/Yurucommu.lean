import Yurucommu.DeliveryFence
import Yurucommu.InboxOnce
import Yurucommu.GlareConverge
import Yurucommu.FanoutComplete
import Yurucommu.BulkheadLimits
import Yurucommu.ResolutionBackoff
import Yurucommu.DefederationSafe
import Yurucommu.TalkReadsExact
import Yurucommu.InteractionsConverge
import Yurucommu.PushersSafe
import Yurucommu.PushJobLease
import Yurucommu.ReactionsExact
import Yurucommu.MembershipsOwned
import Yurucommu.DeletionsFenced
import Yurucommu.PublicOriginOne
import Yurucommu.RealtimeStreamLossless
import Yurucommu.FollowDecisionsOnce
import Yurucommu.LoginsOwner
import Yurucommu.ObjectCountsRuns
import Yurucommu.StoryGates
import Yurucommu.PostEdits
import Yurucommu.CallRelayOnce
import Yurucommu.RequestRejectsExact
import Yurucommu.TalkSurfacesRuns
import Yurucommu.ResponseCacheRight
import Yurucommu.TombstoneReaperDrained
import Yurucommu.InvitesSingleUse
import Yurucommu.ReadGatesAgree
import Yurucommu.FeedCursorLossless
import Yurucommu.OAuthLoginOnce
import Yurucommu.DmMutationsGuarded
import Yurucommu.FetchLedgerFenced
import Yurucommu.PushSettledOnce
import Yurucommu.CallSessions
import Yurucommu.CallIce
import Yurucommu.CallConnected
import Yurucommu.NoteUpdateReach
import Yurucommu.CallDispatcherCounts
import Yurucommu.ActorKeys
import Yurucommu.AdmissionWindow
import Yurucommu.RtcIngress
import Yurucommu.NotePatchDecoded
import Yurucommu.MoveGraphResumed
import Yurucommu.DeliveryPlannerParts
import Yurucommu.DeliveryCircuitContract
import Yurucommu.BodyLimit
import Yurucommu.OneTimeTicketsHold
import Yurucommu.StripImageExact
import Yurucommu.StripImageScans
import Yurucommu.CallWritesTracked
import Yurucommu.LocalQueueKept
import Yurucommu.FederationBodyCapped
import Yurucommu.D1WriteChunks
import Yurucommu.ConditionalRequestScan
import Yurucommu.S3FetchPaths
import Yurucommu.ClientIpKeyed
import Yurucommu.CallActorStorageHolds
import Yurucommu.AuthLockoutOverlap
import Yurucommu.HashtagSearchAgree
import Yurucommu.WebfingerNamed
import Yurucommu.TimelinesShown
import Yurucommu.DeclarativePushFits
import Yurucommu.RateLimit
