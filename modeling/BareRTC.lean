import BareRTC.Dns.Proof.Client
import BareRTC.Dns.Proof.Dname
import BareRTC.Ice.Proof.Once
import BareRTC.Ice.Proof.Prio
import BareRTC.Ice.Proof.Roles
import BareRTC.Ice.Proof.Valid
import BareRTC.Jbuf.Proof.Order
import BareRTC.Menc.Proof.Dtls
import BareRTC.Menc.Proof.Sdes
import BareRTC.Peer.Proof.Server
import BareRTC.Re.Proof.Base64
import BareRTC.Re.Proof.Odict
import BareRTC.Re.Proof.Tcp
import BareRTC.Re.Proof.Telev
import BareRTC.Re.Proof.Uric
import BareRTC.Rem.Proof.Aubuf
import BareRTC.Restund.Proof.Auth
import BareRTC.Rtp.Proof.Boundary
import BareRTC.Rtp.Proof.Sess
import BareRTC.Signal.Proof.Copies
import BareRTC.Signal.Proof.Handles
import BareRTC.Signal.Proof.Keepalive
import BareRTC.Signal.Proof.Subscribe
import BareRTC.Signal.Proof.Websocket
import BareRTC.Sip.Proof.Ctrans
import BareRTC.Sip.Proof.Reg
import BareRTC.Srtp.Proof.RoundTrip
import BareRTC.Stun.Proof.Bounds
import BareRTC.Turn.Proof.Alloc
import BareRTC.Turn.Proof.Chan
import BareRTC.Turn.Proof.Client
import BareRTC.Video.Proof.H264
import BareRTC.Video.Proof.Vp8
import BareRTC.Websock.Proof.Stream
import BareRTC.Restund.Proof.Unique
