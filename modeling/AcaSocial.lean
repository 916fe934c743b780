import AcaSocial.Base.Table
import AcaSocial.Base.Guard
import AcaSocial.Base.Run
import AcaSocial.Discussion.Entities
import AcaSocial.Discussion.ContentPolicy
import AcaSocial.Discussion.RoomsService
import AcaSocial.Base.Text
import AcaSocial.Base.TwoRuns
import AcaSocial.Discussion.ContentPresenter
import AcaSocial.Discussion.DiscussionsService
import AcaSocial.Discussion.AnswersService
import AcaSocial.Discussion.CommentsService
import AcaSocial.Discussion.ModerationService
import AcaSocial.Discussion.Service
import AcaSocial.Discussion.Thread
import AcaSocial.Discussion.ThreadStep
import AcaSocial.Discussion.ThreadRefinement
import AcaSocial.Discussion.Frames
import AcaSocial.Discussion.AcceptedPointers
import AcaSocial.Discussion.AcceptanceLedger
import AcaSocial.Discussion.Publication
import AcaSocial.Discussion.ClosedPosts
import AcaSocial.Base.Counters
import AcaSocial.Discussion.TagUsage
import AcaSocial.Discussion.TagUsageRuns
import AcaSocial.Discussion.Alike
import AcaSocial.Discussion.AlikeResponses
import AcaSocial.Discussion.AlikeSteps
import AcaSocial.Discussion.AlikeChildren
import AcaSocial.Discussion.HiddenText
import AcaSocial.Discussion.AnonymousResponses
import AcaSocial.Base.LastWrite
import AcaSocial.Discussion.Votes
import AcaSocial.Discussion.ChildCounts
import AcaSocial.Base.Versions
import AcaSocial.Discussion.Revisions
import AcaSocial.Discussion.RoomStep
import AcaSocial.Discussion.RoomOwners
import AcaSocial.Base.Keyspace
import AcaSocial.Base.Tasks
import AcaSocial.Identity.Entities
import AcaSocial.Identity.OtpService
import AcaSocial.Identity.Task
import AcaSocial.Identity.AuthService
import AcaSocial.Identity.UsersService
import AcaSocial.Identity.Service
import AcaSocial.Identity.Statements
import AcaSocial.Identity.Sessions
import AcaSocial.Identity.TokenChains
import AcaSocial.Identity.RefreshRotation
import AcaSocial.Identity.SessionRevocation
import AcaSocial.Identity.UserRows
import AcaSocial.Identity.SelfEdits
import AcaSocial.Base.Header
import AcaSocial.Base.Layers
import AcaSocial.Gateway.Exchange
import AcaSocial.Gateway.Strings
import AcaSocial.Gateway.RealIP
import AcaSocial.Gateway.Middleware
import AcaSocial.Gateway.RouteMiddleware
import AcaSocial.Gateway.ReverseProxy
import AcaSocial.Gateway.Router
import AcaSocial.Academic.AcademicService
import AcaSocial.Academic.ActiveCurricula
import AcaSocial.Identity.Administrators
import AcaSocial.Base.RowLocks
import AcaSocial.Identity.RoleTransactions
import AcaSocial.Discussion.RoomTasks
import AcaSocial.Discussion.RoomStatements
import AcaSocial.Discussion.MembershipDecisions
import AcaSocial.Discussion.RoomPolicies
import AcaSocial.Discussion.CanonicalRooms
import AcaSocial.Discussion.Feed
import AcaSocial.Discussion.PostPermissions
import AcaSocial.Discussion.CapabilityFlags
import AcaSocial.Discussion.SilencedMembers
import AcaSocial.Gateway.Forwarding
import AcaSocial.Gateway.IdentityHeaders
import AcaSocial.Base.Forest
import AcaSocial.Academic.TopicForest
import AcaSocial.Discussion.AcceptedComments
import AcaSocial.Discussion.ReviewRecords
import AcaSocial.Discussion.AcceptedVersions
import AcaSocial.Discussion.TagMerges
import AcaSocial.Discussion.Registers
import AcaSocial.Discussion.AcademicRooms
import AcaSocial.Base.LockOrder
import AcaSocial.Base.Interference
import AcaSocial.Discussion.TagTransactions
import AcaSocial.Discussion.TagLocks
import AcaSocial.Discussion.MergeWindows
import AcaSocial.Discussion.UsageBooks
import AcaSocial.Discussion.UsageCounts
import AcaSocial.Base.SlidingWindow
import AcaSocial.Gateway.RateLimit
import AcaSocial.Gateway.VisitorTasks
import AcaSocial.Identity.OtpTasks
import AcaSocial.Identity.OtpLifetimes
import AcaSocial.Discussion.EditOverlays
import AcaSocial.Discussion.TagPaths
import AcaSocial.Discussion.FailedCreations
import AcaSocial.Base.Alone
import AcaSocial.Identity.LoneRequests
import AcaSocial.Identity.TokenLedger
import AcaSocial.Identity.TokenLiveness
import AcaSocial.Identity.EmailChanges
import AcaSocial.Media.MediaService
import AcaSocial.Media.UploadedFiles
import AcaSocial.Discussion.CommentTrees
import AcaSocial.Discussion.ReplyCounts
import AcaSocial.Frontend.ApiClient
import AcaSocial.Frontend.TokenRefresh
import AcaSocial.Frontend.VotePill
import AcaSocial.Gateway.ClientAddress
import AcaSocial.Gateway.CacheLayer
import AcaSocial.Gateway.ResponseCache
import AcaSocial.Base.Fields
import AcaSocial.Gateway.EscapedPaths
import AcaSocial.Gateway.ForwardedPaths
import AcaSocial.Gateway.Sanitizer
import AcaSocial.Base.Chunks
import AcaSocial.Frontend.NotificationStream
import AcaSocial.Base.Newest
import AcaSocial.Base.Timestamps
import AcaSocial.Frontend.Notifications
import AcaSocial.Base.LengthPrefix
import AcaSocial.Media.VirusScanner
import AcaSocial.Base.Words
import AcaSocial.Discussion.TagSlugs
import AcaSocial.Base.Patterns
import AcaSocial.Discussion.TitleSearch
import AcaSocial.Discussion.RoomLookup
import AcaSocial.Frontend.LinkDecoding
import AcaSocial.Frontend.LinkCandidates
import AcaSocial.Frontend.LinkSafety
import AcaSocial.Base.Relay
import AcaSocial.Notifications.NotificationsService
import AcaSocial.Discussion.OutboxEvents
import AcaSocial.Notifications.Delivery
import AcaSocial.Notifications.DeliveryStep
import AcaSocial.Notifications.ExactlyOnce
import AcaSocial.Notifications.OutboxWorker
import AcaSocial.Notifications.Recovery
import AcaSocial.Notifications.Authors
import AcaSocial.Notifications.Reading
import AcaSocial.Gateway.SharedTokens
import AcaSocial.Discussion.AttachmentChecks
import AcaSocial.Media.Attachments
import AcaSocial.Base.Trails
import AcaSocial.Identity.RoleAudits
import AcaSocial.Base.Successions
import AcaSocial.Discussion.RoomRules
import AcaSocial.Base.References
import AcaSocial.Academic.Catalogue
import AcaSocial.Academic.CatalogueStep
import AcaSocial.Academic.Contexts
import AcaSocial.Discussion.AcademicReferences
import AcaSocial.Base.Stamps
import AcaSocial.Discussion.ModerationQueue
import AcaSocial.Notifications.Panel
import AcaSocial.Frontend.TokenQueue
import AcaSocial.Base.Stutters
import AcaSocial.Discussion.TagKeys
import AcaSocial.Discussion.EditWays
