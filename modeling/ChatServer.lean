import ChatServer.Auth.Session
import ChatServer.Auth.Password
import ChatServer.Common.ThreadPool
import ChatServer.Db.Integrity
import ChatServer.Db.MysqlPool
import ChatServer.Db.Undelivered
import ChatServer.Net.Connection
import ChatServer.Net.Framing
import ChatServer.Net.Reactor
import ChatServer.Net.Reader
import ChatServer.Net.Teardown
import ChatServer.Net.Writer
import ChatServer.Server.Delivery
import ChatServer.Server.Mirror
import ChatServer.Server.Closing
import ChatServer.Server.Evidence
import ChatServer.Server.ReplayOrder
import ChatServer.Server.SendOrder
import ChatServer.Server.ShownOrder
import ChatServer.Server.Sessions
import ChatServer.Server.RoomCache
import ChatServer.Server.Database
import ChatServer.Server.FanOut
import ChatServer.Server.Routed
import ChatServer.Server.Copies
import ChatServer.Server.CreateRoom
import ChatServer.Server.Status
import ChatServer.Server.RoomFaults
import ChatServer.Server.Reported
import ChatServer.Server.Replies
import ChatServer.Server.Clearance
import ChatServer.Server.Confidential
import ChatServer.Server.Known
import ChatServer.Server.OfflineDelivery
import ChatServer.Server.Stranded
import ChatServer.Server.Tickets
import ChatServer.Server.Unauthenticated
import ChatServer.Server.History
import ChatServer.Server.Presence
import ChatServer.Server.EventSize
import ChatServer.Common.Config
import ChatServer.Client.Cli
import ChatServer.Db.Timestamp
import ChatServer.Net.Drain
import ChatServer.Server.Requests
import ChatServer.Client.Wire
import ChatServer.Client.Screen
import ChatServer.Net.Descriptors
import ChatServer.Lib.Receipts
import ChatServer.Server.Acknowledged
import ChatServer.Server.Accounts
import ChatServer.Lib.Lockstep
import ChatServer.Server.CacheFree
