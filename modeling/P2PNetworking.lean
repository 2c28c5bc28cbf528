import P2PNetworking.Lib.Machine
import P2PNetworking.Lib.Ledger
import P2PNetworking.Common.Packet
import P2PNetworking.Lib.Codec
import P2PNetworking.Common.Codec
import P2PNetworking.Lib.Table
import P2PNetworking.Common.SingleConnection
import P2PNetworking.Common.Link
import P2PNetworking.Common.ReceiveInvariant
import P2PNetworking.Common.SenderInvariant
import P2PNetworking.Lib.FifoChannel
import P2PNetworking.Common.LinkInvariant
import P2PNetworking.Common.Delivery
import P2PNetworking.Common.Retransmission
import P2PNetworking.Common.Pacing
import P2PNetworking.Common.NothingLost
import P2PNetworking.Common.Progress
import P2PNetworking.Common.Acks
import P2PNetworking.Common.AckTraffic
import P2PNetworking.Common.Receiving
import P2PNetworking.Common.Answers
import P2PNetworking.Common.Transit
import P2PNetworking.Common.SequenceNumbers
import P2PNetworking.TurnServer.Session
import P2PNetworking.TurnServer.Relay
import P2PNetworking.TurnServer.Knowledge
import P2PNetworking.TurnServer.Routing
import P2PNetworking.Lib.Ring
import P2PNetworking.Lib.Turns
import P2PNetworking.TurnServer.BufferPool
import P2PNetworking.Lib.Bytes
import P2PNetworking.TurnServer.Sockaddr
import P2PNetworking.TurnServer.EventLoop
import P2PNetworking.TurnServer.Sends
import P2PNetworking.TurnServer.Ownership
import P2PNetworking.TurnServer.Backpressure
import P2PNetworking.TurnServer.SingleOwner
import P2PNetworking.TurnServer.Submissions
import P2PNetworking.TurnServer.Idle
import P2PNetworking.TurnServer.Panics
import P2PNetworking.TurnServer.Deaf
import P2PNetworking.TurnServer.Drain
import P2PNetworking.TurnServer.Partners
import P2PNetworking.TurnServer.Registration
import P2PNetworking.TurnServer.Pairing
import P2PNetworking.TurnServer.ClientOrder
import P2PNetworking.TurnServer.Transparency
import P2PNetworking.Lib.Reader
import P2PNetworking.Net.AddrText
import P2PNetworking.Lib.Purge
import P2PNetworking.Peer.Discovery
import P2PNetworking.Peer.Strangers
import P2PNetworking.Peer.Survival
import P2PNetworking.Peer.Chat
import P2PNetworking.Peer.Transcript
import P2PNetworking.Peer.Stack
import P2PNetworking.Peer.EndToEnd
import P2PNetworking.Peer.Progress
import P2PNetworking.Peer.Arrival
import P2PNetworking.Peer.Meeting
import P2PNetworking.Rendezvous.UdpHandler
import P2PNetworking.Rendezvous.RelayManager
import P2PNetworking.Rendezvous.Lobbies
import P2PNetworking.Rendezvous.Exchange
import P2PNetworking.Rendezvous.Agreement
import P2PNetworking.Rendezvous.Service
import P2PNetworking.Rendezvous.KeepAlive
import P2PNetworking.Rendezvous.Introduction
import P2PNetworking.Rendezvous.Listening
import P2PNetworking.TurnServer.FirstImpl.EventLoop
import P2PNetworking.TurnServer.FirstImpl.Books
import P2PNetworking.TurnServer.FirstImpl.Running
import P2PNetworking.TurnServer.FirstImpl.Submissions
import P2PNetworking.TurnServer.FirstImpl.Stranded
import P2PNetworking.TurnServer.FirstImpl.Order
