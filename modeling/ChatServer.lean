import ChatServer.Lib.Bytes
import ChatServer.Lib.Except
import ChatServer.Lib.Framing
import ChatServer.Lib.Loop
import ChatServer.Lib.Path
import ChatServer.Lib.Sys
import ChatServer.Lib.Potential
import ChatServer.Lib.Pool
import ChatServer.Lib.Room
import ChatServer.Lib.Board
import ChatServer.Url
import ChatServer.UrlEncoding
import ChatServer.UrlLoop
import ChatServer.Session
import ChatServer.Server
import ChatServer.Pump
import ChatServer.Object
import ChatServer.Effect
import ChatServer.Safety
import ChatServer.Ledger
import ChatServer.Complete
import ChatServer.Refinement
import ChatServer.Takeover
import ChatServer.Order
import ChatServer.Auth
import ChatServer.Delivery
import ChatServer.Quiescence
import ChatServer.TextFrames
import ChatServer.Query
import ChatServer.Http.Message
import ChatServer.Http.Handler
import ChatServer.Http.Mime
import ChatServer.Http.Files
import ChatServer.Http.Session
import ChatServer.Http.Framing
import ChatServer.Listener
import ChatServer.Jwt.Base64
import ChatServer.Jwt.Token
import ChatServer.Jwt.Minted
import ChatServer.Lib.Couple
import ChatServer.Program
import ChatServer.Lib.Bits
import ChatServer.Jwt.Texts
import ChatServer.Jwt.Verify
import ChatServer.Http.Conversation
import ChatServer.Lifecycle
import ChatServer.Socket
import ChatServer.Admission
