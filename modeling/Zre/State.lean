import Zre.Codec

/-!
# Peers, groups and the node

The data that `node.py` keeps while its run loop is alive. `Peer` objects are mutable and shared: the
same object can be reached through `_peers`, `_pending` and the peer table of several groups. So they
live in a heap, and the tables hold references.

A handler reads its surroundings (clock, sockets, addresses) from an `Env`. What it hands to its
DEALER sockets and to `_emit` is appended to the node's `outbox` and `events`.
-/

namespace Zre

/-- The number of a `Peer` object. -/
abbrev Ref := Nat

/-- What `send_multipart(..., NOBLOCK)` does with a frame. -/
inductive SendOutcome where
  | sent
  /-- `zmq.Again`: the queue is full. -/
  | again
  /-- Any other `zmq.ZMQError`. -/
  | failed
  deriving DecidableEq, Repr

/-- A DEALER socket, with the options that `Peer.connect` gives it. -/
structure Dealer where
  /-- The number of the socket among those the node opened. -/
  sock : Nat
  /-- `zmq.IDENTITY` -/
  identity : Bytes
  /-- The host and port of the `connect` call. -/
  addr : Str
  port : Int
  /-- `CURVE_SERVERKEY`, `CURVE_PUBLICKEY` and `CURVE_SECRETKEY`. -/
  curve : Option (Bytes × Bytes × Bytes)
  deriving DecidableEq

/-- A frame list handed to a socket. -/
structure Handed where
  dealer : Dealer
  frames : List Bytes
  outcome : SendOutcome
  deriving DecidableEq

/-- `Peer` -/
structure Peer where
  uuidHex : Str
  addr : Str
  port : Int
  endpointStr : Str
  name : Option Bytes
  headers : Dict Bytes Bytes
  /-- A set; the order is not used. -/
  groups : List Bytes
  status : Nat
  connected : Bool
  ready : Bool
  dealer : Option Dealer
  sentSeq : Nat
  wantSeq : Nat
  /-- In nanoseconds, as every time below; 0 is "not set". -/
  evasiveAt : Int
  expiredAt : Int

/-- `Peer.__init__` -/
def Peer.new (uuidHex addr : Str) (port : Int) : Peer :=
  { uuidHex, addr, port
    endpointStr := tcpAddress addr port
    name := none
    headers := Dict.empty
    groups := []
    status := 0
    connected := false
    ready := false
    dealer := none
    sentSeq := 0
    wantSeq := 0
    evasiveAt := 0
    expiredAt := 0 }

/-- `Peer.disconnect` -/
def Peer.disconnect (p : Peer) : Peer :=
  { p with dealer := none, connected := false, ready := false }

/-- Milliseconds as nanoseconds. -/
def msec (ms : Int) : Int := ms * 1000000

/-- `Peer.refresh` -/
def Peer.refresh (p : Peer) (now evMs exMs : Int) : Peer :=
  { p with evasiveAt := now + msec evMs, expiredAt := now + msec exMs }

/-- The counter update of `Peer.check_seq`. -/
def Peer.countSeq (p : Peer) (cmd : UInt8) : Peer :=
  { p with wantSeq := if cmd = Cmd.hello then 1 else p.wantSeq + 1 }

/-- Copy the fields of a HELLO into the peer record. -/
def Peer.announce (p : Peer) (h : HelloFields) : Peer :=
  { p with name := some h.name, headers := h.headers, status := h.status }

/-- `_pname` -/
def pname (p : Peer) : Str :=
  match p.name with
  | some name => bdec name
  | none => "unknown".toList

/-- The `election` dictionary of a group. -/
structure Election where
  /-- The candidate that this node supports. -/
  caw : Str
  /-- The peer from which the candidate was learned; none for the node's own wave. -/
  father : Option Str
  erec : Nat
  lrec : Nat
  leader : Option Str
  startedAt : Int
  resentAt : Int
  deriving DecidableEq

/-- `Group` -/
structure Group where
  name : Bytes
  peers : Dict Str Ref
  contest : Bool
  election : Option Election
  leader : Option Str

/-- `Group.__init__` -/
def Group.new (name : Bytes) : Group :=
  { name, peers := Dict.empty, contest := false, election := none, leader := none }

/-- The event dictionaries. -/
inductive Event where
  | enter (peerId peerName address : Str)
  | exit (peerId peerName : Str)
  | join (peerId peerName group : Str)
  | leave (peerId peerName group : Str)
  | whisper (peerId peerName : Str) (payload : Bytes)
  | shout (peerId peerName group : Str) (payload : Bytes)
  | leader (peerId peerName group : Str)
  | evasive (peerId peerName : Str)
  | collision (detail : Str)
  deriving DecidableEq

/-- What a node is configured with before `start()`, and its inbox port after it. None of this changes
while the run loop is alive. -/
structure Config where
  rt : Runtime
  /-- `self.name`, which passed `_wire_string`. -/
  name : WireString
  peerId : Bytes
  /-- `uuid4()` and `set_uuid` both give 16 bytes. -/
  peerId_length : peerId.length = 16
  evTimeout : Int
  exTimeout : Int
  evasiveEmitInterval : Int
  beaconPort : Nat
  beaconVersion : UInt8
  interface : Option Str
  /-- `_advertised_endpoint`, which passed `_wire_string`. -/
  advertisedEndpoint : Option WireString
  curvePublic : Option Bytes
  curveSecret : Option Bytes
  inboxPort : Nat

/-- `peer_id_hex` -/
def Config.peerIdHex (c : Config) : Str := hex c.peerId

/-- The configuration that `ZreNode.__init__` gives, for an id, a name and a port. -/
def Config.plain (peerId : Bytes) (h : peerId.length = 16) (name : WireString) (inboxPort : Nat) :
    Config :=
  { rt := Runtime.ascii
    name
    peerId
    peerId_length := h
    evTimeout := 5000
    exTimeout := 30000
    evasiveEmitInterval := 20000000000
    beaconPort := 5670
    beaconVersion := 1
    interface := none
    advertisedEndpoint := none
    curvePublic := none
    curveSecret := none
    inboxPort }

/-- The state of a `ZreNode`. -/
structure Node where
  cfg : Config
  running : Bool
  headers : Dict Bytes Bytes
  groups : Dict Bytes Group
  ownGroups : List Bytes
  contestGroups : List Bytes
  peers : Dict Str Ref
  pending : Dict Str Ref
  /-- The heap of `Peer` objects. -/
  obj : Ref → Peer
  /-- The next unused reference. -/
  nextRef : Ref
  /-- The number of DEALER sockets opened so far. -/
  sockets : Nat
  status : Nat
  evasiveEmitAt : Dict Str Int
  peerServerKeys : Dict Str Bytes
  /-- What was handed to the sockets and not yet taken by the network. -/
  outbox : List Handed
  /-- Everything passed to `_emit`. -/
  events : List Event
  /-- The event queue, which the application drains. -/
  queue : List Event

/-- The surroundings of one handler call. -/
structure Env where
  /-- `loop.time()` -/
  now : Int
  /-- The outcome of the send that is the `n`-th in the outbox. -/
  send : Nat → SendOutcome
  /-- Whether `connect` of the `n`-th socket succeeds; `false` is a `ZMQError`. -/
  connect : Nat → Bool
  /-- The order in which a set of groups is iterated. -/
  order : List Bytes → List Bytes
  order_perm : ∀ l, (order l).Perm l
  /-- `socket.inet_aton` accepts the text. -/
  inetAton : Str → Bool
  /-- `socket.socket(AF_INET6 or AF_INET, SOCK_DGRAM)` returns; otherwise it raises `OSError`. -/
  udpSocket : Bool → Bool
  /-- The `SIOCGIFADDR` lookup. -/
  interfaceAddress : Str → Option Str
  /-- `socket.gethostbyname` -/
  hostByName : Str → Option Str
  /-- `connect` and `getsockname` of a datagram socket towards a host; `none` is an `OSError`. -/
  localAddress : Str → Option Str

/-- Surroundings in which nothing fails. -/
def Env.calm (now : Int) : Env :=
  { now
    send := fun _ => .sent
    connect := fun _ => true
    order := id
    order_perm := List.Perm.refl
    inetAton := fun _ => false
    udpSocket := fun _ => true
    interfaceAddress := fun _ => none
    hostByName := fun _ => none
    localAddress := fun _ => some "127.0.0.1".toList }

namespace Node

/-- `_event_queue`'s `maxsize` -/
def queueSize : Nat := 1000

/-- A started node that has not met anybody. -/
def init (cfg : Config) : Node :=
  { cfg
    running := true
    headers := Dict.empty
    groups := Dict.empty
    ownGroups := []
    contestGroups := []
    peers := Dict.empty
    pending := Dict.empty
    obj := fun _ => Peer.new [] [] 0
    nextRef := 0
    sockets := 0
    status := 0
    evasiveEmitAt := Dict.empty
    peerServerKeys := Dict.empty
    outbox := []
    events := []
    queue := [] }

/-- Write a `Peer` object. -/
def setObj (n : Node) (r : Ref) (p : Peer) : Node :=
  { n with obj := Function.update n.obj r p }

/-- Store a `Group` object. -/
def setGroup (n : Node) (g : Bytes) (group : Group) : Node :=
  { n with groups := n.groups.set g group }

/-- The `Group` object of a name that is known to be in the table. -/
def group (n : Node) (g : Bytes) : Group := (n.groups.get g).getD (Group.new g)

/-- `_emit` -/
def emit (n : Node) (event : Event) : Node :=
  { n with
    events := n.events ++ [event]
    queue := if n.queue.length < queueSize then n.queue ++ [event] else n.queue }

/-- `_wire_id` -/
def wireId (n : Node) (uuidHex : Str) : Str := n.cfg.rt.upper uuidHex

/-- The node's own id on the wire. -/
def ownWireId (n : Node) : Str := n.wireId n.cfg.peerIdHex

/-- Create a group that is not in the table yet. -/
def openGroup (n : Node) (g : Bytes) : Node :=
  match n.groups.get g with
  | none => n.setGroup g (Group.new g)
  | some _ => n

/-- `_require_group`; the group is afterwards `n.group g`. -/
def requireGroup (n : Node) (g : Bytes) : Node :=
  let n := n.openGroup g
  if g ∈ n.contestGroups then n.setGroup g { n.group g with contest := true } else n

/-- The object under `g` in the peer table of a group. -/
def member (n : Node) (g : Bytes) (p : Str) : Option Ref :=
  (n.groups.get g).bind fun group => group.peers.get p

/-- `Group.join` -/
def joinTable (n : Node) (g : Bytes) (r : Ref) : Node :=
  n.setGroup g { n.group g with peers := (n.group g).peers.set (n.obj r).uuidHex r }

/-- `Group.leave`, on a group that need not exist. -/
def leaveTable (n : Node) (g : Bytes) (r : Ref) : Node :=
  match n.groups.get g with
  | none => n
  | some group => n.setGroup g { group with peers := group.peers.pop (n.obj r).uuidHex }

end Node

end Zre
