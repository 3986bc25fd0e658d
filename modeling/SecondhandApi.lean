import SecondhandApi.OrdersService
import SecondhandApi.Integrity
import SecondhandApi.Auth
import SecondhandApi.Operations
import SecondhandApi.Calls
import SecondhandApi.Effects
import SecondhandApi.LiveOrders
import SecondhandApi.Listing
import SecondhandApi.SellerEdits
import SecondhandApi.Interleaving.Paths
import SecondhandApi.Lifecycle
import SecondhandApi.TwoPaths
import SecondhandApi.FaultyCalls
import SecondhandApi.Obligations
import SecondhandApi.LostUpdates
import SecondhandApi.Purchases
import SecondhandApi.Timestamps
import SecondhandApi.WithdrawalRace
import SecondhandApi.Sessions
import SecondhandApi.Withdrawal
import SecondhandApi.OrderCalls
import SecondhandApi.Pricing
import SecondhandApi.Interleaving.Sum
import SecondhandApi.ReviewsService
import SecondhandApi.Interleaving.Debts
import SecondhandApi.ReviewCalls
import SecondhandApi.ReviewScores
import SecondhandApi.ReviewCascade
import SecondhandApi.ReviewParties
import SecondhandApi.Forest
import SecondhandApi.CategoriesService
import SecondhandApi.CategoryTree
import SecondhandApi.Mongo
import SecondhandApi.Pagination
import SecondhandApi.Events
import SecondhandApi.ChatService
import SecondhandApi.ChatCalls
import SecondhandApi.ChatRequests
import SecondhandApi.ChatMembers
import SecondhandApi.ChatOrphans
import SecondhandApi.ChatRooms
import SecondhandApi.LastMessage
import SecondhandApi.Paging
import SecondhandApi.MessageHistory
import SecondhandApi.AccountRemoval
import SecondhandApi.MessagesService
import SecondhandApi.MessagesEffects
import SecondhandApi.MessagesRooms
import SecondhandApi.MessagesUnread
import SecondhandApi.Interleaving.Phases
import SecondhandApi.MessagesLists
import SecondhandApi.MessagesLeaves
import SecondhandApi.MessagesTables
import SecondhandApi.Leases
import SecondhandApi.RabbitMQConnection
import SecondhandApi.ChannelPool
import SecondhandApi.ChannelRetries
import SecondhandApi.Binary64
import SecondhandApi.JavaScript
import SecondhandApi.PageQuery
import SecondhandApi.ProductLists
import SecondhandApi.ProductSearch
import SecondhandApi.Json.Numerals
import SecondhandApi.Json.Values
import SecondhandApi.Json.RoundTrip
import SecondhandApi.Json.Bounds
import SecondhandApi.Redis
import SecondhandApi.RedisService
import SecondhandApi.HandlerRetries
import SecondhandApi.SoftDeleteRetries
import SecondhandApi.CategoryWalks
import SecondhandApi.CategoryForest
import SecondhandApi.LocationPages
import SecondhandApi.Coordinates
import SecondhandApi.ChatRoomLists
import SecondhandApi.ChatPairs
import SecondhandApi.TrustScores
import SecondhandApi.PageLinks
import SecondhandApi.Walks
import SecondhandApi.CursorPages
import SecondhandApi.PageRange
import SecondhandApi.NotificationsService
import SecondhandApi.OrderNumbers
import SecondhandApi.Utf8
import SecondhandApi.CryptoUtil
import SecondhandApi.Ciphertexts
import SecondhandApi.Retries
import SecondhandApi.PublishRetries
import SecondhandApi.Amqp.Clients
import SecondhandApi.EventTopology
import SecondhandApi.EventDelivery
import SecondhandApi.Favorites
import SecondhandApi.LoggerSecrets
import SecondhandApi.ChatUnread
import SecondhandApi.Tokens
import SecondhandApi.OrderLists
import SecondhandApi.RedisCache
import SecondhandApi.ChatPrivacy
import SecondhandApi.ChannelShutdown
import SecondhandApi.MessagesPrivacy
