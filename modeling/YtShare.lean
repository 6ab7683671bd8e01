import YtShare.Lib.Machine
import YtShare.Lib.Chan
import YtShare.Lib.Feed
import YtShare.Core.UUID
import YtShare.Notifications.Event
import YtShare.Notifications.Hub
import YtShare.Notifications.HubSafety
import YtShare.Notifications.HubLedger
import YtShare.Notifications.HubDelivery
import YtShare.Core.Http
import YtShare.Core.Strconv
import YtShare.Lib.Log
import YtShare.Notifications.Stream
import YtShare.Notifications.Replay
import YtShare.Notifications.Handler
import YtShare.Notifications.Publisher
import YtShare.Notifications.Confidentiality
import YtShare.Notifications.Subscriber
import YtShare.Frontend.AuthStore
import YtShare.Frontend.HttpClient
import YtShare.Core.Strings
import YtShare.Videos.Model
import YtShare.Videos.Repository
import YtShare.Videos.Service
import YtShare.Videos.ListCache
import YtShare.Videos.Calls
import YtShare.Videos.OneWinner
import YtShare.Videos.Invalidation
import YtShare.Frontend.NotificationsSocket
import YtShare.Lib.InOrder
import YtShare.Notifications.Pipe
import YtShare.Notifications.Site
import YtShare.Notifications.Coverage
import YtShare.Notifications.Connection
import YtShare.Notifications.NoGap
import YtShare.Auth.Jwt
import YtShare.Users.Repository
import YtShare.Auth.Service
import YtShare.Middleware.Auth
import YtShare.Auth.Soundness
import YtShare.Auth.OneAccount
import YtShare.Notifications.Service
import YtShare.Notifications.SeenMarker
import YtShare.Notifications.NoEscape
import YtShare.Notifications.Apart
import YtShare.Jobs.Drain
import YtShare.Main.Run
import YtShare.Main.Announced
import YtShare.Main.Shutdown
import YtShare.Frontend.Interceptors
import YtShare.Frontend.SingleFlight
import YtShare.Frontend.Author
import YtShare.Frontend.Reconciled
import YtShare.Core.UUIDText
import YtShare.Notifications.TwoPublishers
import YtShare.Core.Unicode
import YtShare.Lib.Cut
import YtShare.Lib.Strip
import YtShare.Core.Bytes
import YtShare.Net.Escape
import YtShare.Net.URL
import YtShare.Videos.YouTube
import YtShare.Net.Query
import YtShare.Videos.Documented
import YtShare.Videos.Spellings
import YtShare.Core.LetterCase
import YtShare.Net.HostCase
import YtShare.Videos.HostCase
import YtShare.Videos.ShareOutcome
import YtShare.Auth.Credentials
import YtShare.Auth.Outages
import YtShare.Frontend.Outage
import YtShare.Frontend.NotificationsFeed
import YtShare.Config.DatabaseURL
import YtShare.Config.DSN
import YtShare.Config.Override
import YtShare.Config.Lifetimes
import YtShare.Frontend.SeenEvents
import YtShare.Frontend.SocketHook
import YtShare.Frontend.OneSocket
import YtShare.Frontend.DeadToken
import YtShare.Middleware.Cors
import YtShare.Notifications.Origins
import YtShare.Migrate.Cli
import YtShare.Migrate.Documented
import YtShare.Lib.Json
import YtShare.Lib.JsonRoundTrip
import YtShare.Frontend.SessionStorage
import YtShare.Lib.Carried
import YtShare.Notifications.Fleet
import YtShare.Notifications.Agreement
import YtShare.Main.Truthful
import YtShare.Api.Requests
import YtShare.Api.Server
import YtShare.Api.Journal
import YtShare.Api.Schema
import YtShare.Frontend.SocketUrl
import YtShare.Lib.Expiring
import YtShare.Cache.Memory
import YtShare.Notifications.Lifecycle
import YtShare.Lib.Utf16
import YtShare.Lib.JsonReads
import YtShare.Notifications.Frame
import YtShare.Frontend.MessageHook
import YtShare.Frontend.Toasts
