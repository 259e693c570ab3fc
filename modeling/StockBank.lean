import StockBank.Lib.Code
import StockBank.Lib.Triple
import StockBank.Lib.Serial
import StockBank.Lib.Run
import StockBank.Lib.Linearize
import StockBank.Lib.Threads
import StockBank.Lib.Dict
import StockBank.Lib.Wire
import StockBank.Lib.Bytes
import StockBank.Lib.Binary64
import StockBank.Lib.Records
import StockBank.Lib.Search
import StockBank.Lib.Framing
import StockBank.Java.Strings
import StockBank.Java.Doubles
import StockBank.Ice
import StockBank.Ice.Stream
import StockBank.Ice.Proxy
import StockBank.Ice.Incoming
import StockBank.Ice.Connection
import StockBank.Demo.Marshal
import StockBank.Demo.Dispatch
import StockBank.Demo.Stubs
import StockBank.Stock.Proto
import StockBank.Stock.Messages
import StockBank.Stock.Merging
import StockBank.Stock.Simulator
import StockBank.Stock.Workers
import StockBank.Server.Account
import StockBank.Server.AccountsCreator
import StockBank.Server.Registry
import StockBank.Server.Incoming
import StockBank.Server.Remote
import StockBank.Server.Connections
import StockBank.Server.ThreadPool
import StockBank.Server.StockExchange
import StockBank.Server.PollThread
import StockBank.Server.Replica
import StockBank.Server.Loan
import StockBank.Server.PollOrder
import StockBank.Server.Deployment
import StockBank.Client
import StockBank.Client.Menu
import StockBank.Client.Session
import StockBank.Client.Atomic
