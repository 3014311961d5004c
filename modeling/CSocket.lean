import CSocket.ThreadPool.Growth
import CSocket.ThreadPool.Truth
import CSocket.SocketUtil.Delivery
import CSocket.SocketUtil.Decoder
import CSocket.TcpSocket.Receive
import CSocket.PoolSocket.Rejected
import CSocket.PoolSocket.Waiting
import CSocket.EpollLoop.Echo
import CSocket.EpollLoop.Descriptors
import CSocket.EpollLoop.Sweep
import CSocket.EpollLoop.Buffers
import CSocket.Reactor.Listening
import CSocket.EpollPool.Races
import CSocket.TaskPool.Wakeup
import CSocket.TaskPool.Teardown
import CSocket.TaskPool.Positions
import CSocket.TaskPool.Sleepers
import CSocket.Wrap.Lines
import CSocket.Wrap.Separate
import CSocket.Wrap.Count
import CSocket.Wrap.Readn
import CSocket.SelectServer.Passes
import CSocket.PollServer.Passes
import CSocket.SocketUtil.Accept
import CSocket.SocketUtil.Connect
import CSocket.SocketUtil.Timeouts
import CSocket.SocketUtil.Encoder
import CSocket.SocketUtil.Buffers
import CSocket.EpollEcho.Echo
import CSocket.ThreadServer.Isolation
import CSocket.Conversation.Duplex
import CSocket.Locks
import CSocket.TaskPool.Served
import CSocket.Multiplex
import CSocket.Reactor.Echo
import CSocket.Wrap.Writen
import CSocket.TcpSocket.Connection
import CSocket.ThreadPool.Shutdown
import CSocket.EpollPool.Wakeful
