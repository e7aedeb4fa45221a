import Gzv2ray.Buf.Algebra
import Gzv2ray.Buf.BufferedReader
import Gzv2ray.Buf.BufferedWriter
import Gzv2ray.Buf.Compact
import Gzv2ray.Buf.CopyErrors
import Gzv2ray.Buf.Reader
import Gzv2ray.Bytespool.Pool
import Gzv2ray.Cache.LruRun
import Gzv2ray.Conf.PortText
import Gzv2ray.Core.Resolution
import Gzv2ray.Crypto.ChaCha20
import Gzv2ray.Crypto.Integrity
import Gzv2ray.Dispatcher.CachedReader
import Gzv2ray.Dns.Attribution
import Gzv2ray.Dns.Bijection
import Gzv2ray.Dns.ClientOrder
import Gzv2ray.Dns.Lookup
import Gzv2ray.Dns.QueryIP
import Gzv2ray.Dns.StaticHosts
import Gzv2ray.Http.HeaderReader
import Gzv2ray.Http.SniffHost
import Gzv2ray.Inbound.PortAllocation
import Gzv2ray.Inbound.UdpWorker
import Gzv2ray.Json.Comments
import Gzv2ray.Kcp.AckTimestamp
import Gzv2ray.Kcp.DatagramSize
import Gzv2ray.Kcp.Datagrams
import Gzv2ray.Kcp.GracefulClose
import Gzv2ray.Kcp.InFlight
import Gzv2ray.Kcp.RoundTrip
import Gzv2ray.Kcp.StateOrder
import Gzv2ray.Kcp.Updater
import Gzv2ray.Kcp.WindowSize
import Gzv2ray.Kcp.Wraparound
import Gzv2ray.Lib.BigEndian
import Gzv2ray.Lib.Hex
import Gzv2ray.Lib.Lines
import Gzv2ray.Lib.RoundRobin
import Gzv2ray.Lib.Token
import Gzv2ray.Lib.Transition
import Gzv2ray.Mux.Dispatch
import Gzv2ray.Mux.Multiplex
import Gzv2ray.Mux.Picker
import Gzv2ray.Mux.SessionIds
import Gzv2ray.Mux.Sync
import Gzv2ray.Net.AddressDecoder
import Gzv2ray.Net.HostPort
import Gzv2ray.Outbound.Manager
import Gzv2ray.Protocol.ServerPicker
import Gzv2ray.Protocol.Uuid
import Gzv2ray.Reverse.Portal
import Gzv2ray.Router.Condition
import Gzv2ray.Router.ConfigRoute
import Gzv2ray.Router.DomainMatcher
import Gzv2ray.Router.GeoIPSearch
import Gzv2ray.Router.PickRoute
import Gzv2ray.Shadowsocks.Drain
import Gzv2ray.Shadowsocks.Nonces
import Gzv2ray.Shadowsocks.RoundTrip
import Gzv2ray.Shadowsocks.SessionRoundTrip
import Gzv2ray.Signal.Inactivity
import Gzv2ray.Smux.Alloc
import Gzv2ray.Smux.Network
import Gzv2ray.Smux.Tokens
import Gzv2ray.Socks.Agreement
import Gzv2ray.Socks.Udp
import Gzv2ray.Stats.ChannelSafety
import Gzv2ray.Strmatcher.ACAutomatonMatch
import Gzv2ray.Strmatcher.MatcherGroup
import Gzv2ray.Strmatcher.MphLookup
import Gzv2ray.Task.Periodic
import Gzv2ray.Task.Run
import Gzv2ray.Tls.Sniff
import Gzv2ray.Transport.PipeOrder
import Gzv2ray.Trojan.ConnectionRoundTrip
import Gzv2ray.Trojan.Validator
import Gzv2ray.Udp.Dispatcher
import Gzv2ray.Vmess.BodyRoundTrip
import Gzv2ray.Vmess.Coverage
import Gzv2ray.Vmess.Drain
import Gzv2ray.Vmess.RequestFields
import Gzv2ray.Vmess.RequestHeader
import Gzv2ray.Vmess.SessionHistory
import Gzv2ray.Vmess.Taint
