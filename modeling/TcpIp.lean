import TcpIp.Epoll.Accounting
import TcpIp.Epoll.Echo
import TcpIp.Epoll.Close
import TcpIp.Epoll.Readiness
import TcpIp.Readline.Variants
import TcpIp.Readline.Count
import TcpIp.Select.Isolation
import TcpIp.Select.Client
import TcpIp.Select.FdSetsize
import TcpIp.Select.PollTable
import TcpIp.Advio.StrCliPoll
import TcpIp.Gai.Clone
import TcpIp.Gai.Heap
import TcpIp.Gai.NumericService
import TcpIp.Free.Getaddrinfo
import TcpIp.Icmp.Deliver
import TcpIp.Icmp.Reads
import TcpIp.Ifi.Entries
import TcpIp.Inet.Resolver
import TcpIp.Ipopts.SourceRoute
import TcpIp.Ipopts.Reads
import TcpIp.Key.Walk
import TcpIp.Mysdr.Loop
import TcpIp.Nonblock.HalfClose
import TcpIp.Nonblock.Web
import TcpIp.Ntop.SockNtop
import TcpIp.Oob.Heartbeat
import TcpIp.Ping.Send
import TcpIp.Route.NameIndex
import TcpIp.Route.Attribution
import TcpIp.Route.NameBlock
import TcpIp.Rtt.Line
import TcpIp.Rtt.Bounds
import TcpIp.Sctp.Pdapi
import TcpIp.Sigio.Overflow
import TcpIp.Tcpcliserv.Echo
import TcpIp.Tcpcliserv.Reap
import TcpIp.Threads.BoundedBuffer
import TcpIp.Threads.Web03
import TcpIp.Server.Prefork
import TcpIp.Server.WebChild
import TcpIp.Server.Serv05
import TcpIp.Server.Serv08
import TcpIp.Sock.ServOpen
import TcpIp.Sock.Writen
import TcpIp.Sock.LoopUdp
import TcpIp.Sock.SourceRoute
import TcpIp.Ssntp.Proc
import TcpIp.Udpcksum.Read
import TcpIp.Udpcksum.Write
