import Zre.Run

/-!
# Gossip discovery

The ZGS.1 codec and the hub of `gossip.py`, and the gossip half of `node.py`: the tuples that a node
caches, the links to its hubs, and what it does with a frame from a hub.
-/

namespace Zre

/-! ## The codec -/

namespace Zgs

/-- `ZGS_SIGNATURE` -/
def signature : Bytes := [0xAA, 0xA0]

/-- `ZGS_VERSION` -/
def version : UInt8 := 1

/-- `MAX_LONGSTR_BYTES` -/
def maxLongstrBytes : Nat := 65535

/-- A decoded message; the command numbers are those of `Message.command`. -/
inductive Message where
  | hello
  | publish (key value : Bytes) (ttl : Nat)
  | ping
  | pong
  | invalid
  deriving DecidableEq

/-- `ZGS_HELLO` to `ZGS_INVALID` -/
def Message.command : Message → UInt8
  | hello => 1
  | publish _ _ _ => 2
  | ping => 3
  | pong => 4
  | invalid => 5

/-- `zgs_encode` -/
def encode (message : Message) : Except PyError Bytes := do
  let body := signature ++ [message.command, version]
  match message with
  | .publish key value ttl =>
    if key.length < 1 ∨ maxStringBytes < key.length then throw .valueError
    if maxLongstrBytes < value.length then throw .valueError
    let v ← packI value.length
    let t ← packI ttl
    return body ++ UInt8.ofNat key.length :: key ++ v ++ value ++ t
  | _ => return body

/-- The part of `zgs_decode` that reads the fields of a PUBLISH. The length of the key is read without a
length check. -/
def decodePublish (body : Bytes) : Except PyError (Option Message) := do
  let keyLen ← byteAt body 4
  let key := slice body 5 (5 + keyLen.toNat)
  if key.length ≠ keyLen.toNat then return none
  let offset := 5 + keyLen.toNat
  if body.length < offset + 4 then return none
  let valueLen ← unpackI (slice body offset (offset + 4))
  let offset := offset + 4
  let value := slice body offset (offset + valueLen)
  if value.length ≠ valueLen then return none
  let offset := offset + valueLen
  if body.length < offset + 4 then return none
  let ttl ← unpackI (slice body offset (offset + 4))
  return some (.publish key value ttl)

/-- `zgs_decode` -/
def decode (body : Bytes) : Except PyError (Option Message) :=
  match body with
  | a :: b :: command :: ver :: _ =>
    if [a, b] ≠ signature ∨ ver ≠ version then .ok none
    else if command = 2 then decodePublish body
    else if command = 1 then .ok (some .hello)
    else if command = 3 then .ok (some .ping)
    else if command = 4 then .ok (some .pong)
    else if command = 5 then .ok (some .invalid)
    else .ok none
  | _ => .ok none

end Zgs

/-! ## The hub -/

/-- `GossipHub`, once it is bound. -/
structure Hub where
  /-- The value of a key and its expiry in nanoseconds; 0 is "never". -/
  tuples : Dict Bytes (Bytes × Int)
  /-- The tuples accepted since the last `deliveries()`. -/
  pending : List (Bytes × Bytes)
  /-- The routing ids that were seen; a set. -/
  clients : List Bytes
  /-- What was handed to the ROUTER socket: a routing id and a body. -/
  outbox : List (Bytes × Bytes)

namespace Hub

/-- A hub that has just been bound. -/
def init : Hub := ⟨Dict.empty, [], [], []⟩

/-- `GossipHub._send`. A failed send is dropped silently. -/
def send (h : Hub) (routingId body : Bytes) : Hub :=
  { h with outbox := h.outbox ++ [(routingId, body)] }

/-- Send one message to each of `ids`; it is encoded anew every time. -/
def sendEach (message : Zgs.Message) (h : Hub) (ids : List Bytes) : Except PyError Hub :=
  ids.foldlM (fun h id => do return h.send id (← Zgs.encode message)) h

/-- When a tuple with this ttl expires. -/
def expiry (now : Int) (ttl : Nat) : Int := if 0 < ttl then now + msec ttl else 0

/-- `GossipHub._accept`. The tuple is stored before it is encoded for the clients. -/
def accept (env : Env) (h : Hub) (key value : Bytes) (ttl : Nat) : Except PyError Hub :=
  if (h.tuples.get key).map Prod.fst = some value then .ok h
  else
    { h with
      tuples := h.tuples.set key (value, expiry env.now ttl)
      pending := h.pending ++ [(key, value)] }.sendEach (.publish key value ttl) (env.order h.clients)

/-- A tuple has run out. -/
def expired (now : Int) (e : Bytes × Bytes × Int) : Bool := e.2.2 ≠ 0 ∧ e.2.2 < now

/-- `GossipHub._reap` -/
def reap (env : Env) (h : Hub) : Hub :=
  { h with tuples :=
      ((h.tuples.entries.filter (expired env.now)).map Prod.fst).foldl Dict.pop h.tuples }

/-- `self._clients.add` -/
def addClient (h : Hub) (routingId : Bytes) : Hub :=
  { h with clients := if routingId ∈ h.clients then h.clients else h.clients ++ [routingId] }

/-- The answer to a HELLO: one PUBLISH for each stored tuple, without its ttl. -/
def snapshot (h : Hub) (routingId : Bytes) : Except PyError Hub :=
  h.tuples.entries.foldlM
    (fun h e => do return h.send routingId (← Zgs.encode (.publish e.1 e.2.1 0))) h

/-- One inbound message of `handle_socket`. -/
def handleMessage (env : Env) (h : Hub) (frames : List Bytes) : Except PyError Hub :=
  match frames with
  | [routingId, body] => do
    let h := h.addClient routingId
    match ← Zgs.decode body with
    | some .hello => h.snapshot routingId
    | some (.publish key value ttl) => h.accept env key value ttl
    | some .ping => h.sendEach .pong [routingId]
    | some .invalid => h.sendEach .invalid [routingId]
    | _ => return h
  | _ => .ok h

/-- `GossipHub.handle_socket`, with the messages that it drains. -/
def handleSocket (env : Env) (h : Hub) (messages : List (List Bytes)) :
    Except PyError (List (Bytes × Bytes) × Hub) := do
  let h ← messages.foldlM (fun h frames => h.handleMessage env frames) (h.reap env)
  return (h.pending, { h with pending := [] })

/-- `GossipHub.publish` -/
def publish (env : Env) (h : Hub) (key value : Bytes) (ttl : Nat) : Except PyError Hub :=
  h.accept env key value ttl

/-- `GossipHub.unpublish` -/
def unpublish (h : Hub) (key : Bytes) : Hub := { h with tuples := h.tuples.pop key }

/-- `GossipHub.deliveries` -/
def deliveries (h : Hub) : List (Bytes × Bytes) × Hub := (h.pending, { h with pending := [] })

/-- Tuples as text. Of two keys that are decoded to the same text, the later one is kept. -/
def decodeTuples (es : List (Bytes × Bytes)) : Dict Str Str :=
  es.foldl (fun d e => d.set (bdec e.1) (bdec e.2)) Dict.empty

/-- The stored tuples, oldest key first. -/
def listing (h : Hub) : List (Bytes × Bytes) := h.tuples.entries.map fun e => (e.1, e.2.1)

/-- `GossipHub.tuples` -/
def decodedTuples (h : Hub) : Dict Str Str := decodeTuples h.listing

end Hub

/-! ## The client -/

/-- A value in `_gossip_tuples`. The node's own announcement is a `str`, what a hub delivers is `bytes`;
the two never compare equal. -/
inductive TupleValue where
  | text (raw : Bytes)
  | bytes (raw : Bytes)
  deriving DecidableEq

/-- The value as `zgs_encode` puts it on the wire. -/
def TupleValue.raw : TupleValue → Bytes
  | text raw => raw
  | bytes raw => raw

/-- A body handed to a hub link. -/
structure LinkSend where
  link : Nat
  body : Bytes
  /-- `false` is a `ZMQError`. -/
  sent : Bool
  deriving DecidableEq

/-- A node in gossip mode, with its links to hubs. -/
structure Client where
  node : Node
  /-- `_gossip_tuples` -/
  tuples : Dict Bytes (TupleValue × Nat)
  /-- `_gossip_socks` -/
  links : List Nat
  /-- The number of the next link. -/
  nextLink : Nat
  lastRx : Dict Nat Int
  nextPing : Int
  /-- What was handed to the hub links. -/
  outbox : List LinkSend

/-- The surroundings of a gossip node. -/
structure GossipEnv extends Env where
  /-- Whether the `n`-th send on a hub link succeeds. -/
  linkSend : Nat → Bool

/-- Surroundings in which nothing fails. -/
def GossipEnv.calm (now : Int) : GossipEnv := { Env.calm now with linkSend := fun _ => true }

namespace Client

/-- Send a body on a hub link; the result tells whether it went out. -/
def sendLink (env : GossipEnv) (c : Client) (link : Nat) (body : Bytes) : Bool × Client :=
  let sent := env.linkSend c.outbox.length
  (sent, { c with outbox := c.outbox ++ [⟨link, body, sent⟩] })

/-- The loop of `_gossip_announce`; the first failed send ends it. -/
def sendTuples (env : GossipEnv) (link : Nat) (c : Client) :
    List (Bytes × TupleValue × Nat) → Except PyError Client
  | [] => .ok c
  | (key, value, ttl) :: rest => do
    let (sent, c) := c.sendLink env link (← Zgs.encode (.publish key value.raw ttl))
    if sent then sendTuples env link c rest else return c

/-- `_gossip_announce` -/
def announce (env : GossipEnv) (c : Client) (link : Nat) : Except PyError Client := do
  let (sent, c) := c.sendLink env link (← Zgs.encode .hello)
  if sent then sendTuples env link c c.tuples.entries else return c

/-- A tuple that the cache does not hold yet. -/
def isNews (c : Client) (key value : Bytes) : Bool :=
  (c.tuples.get key).map Prod.fst ≠ some (.bytes value)

/-- One round of `_handle_gossip_client`: a body from a hub link. -/
def receive (env : GossipEnv) (c : Client) (link : Nat) (body : Bytes) : Except PyError Client := do
  let c := { c with lastRx := c.lastRx.set link env.now }
  match ← Zgs.decode body with
  | some (.publish key value ttl) =>
    if c.isNews key value then
      let c := { c with tuples := c.tuples.set key (.bytes value, ttl) }
      return { c with node := ← c.node.gossipRequire env.toEnv (bdec key) (bdec value) }
    else return c
  | some .invalid => c.announce env link
  | _ => return c

/-- Open a link to a hub. -/
def openLink (now : Int) (c : Client) : Client :=
  { c with
    links := c.links ++ [c.nextLink]
    nextLink := c.nextLink + 1
    lastRx := c.lastRx.set c.nextLink now }

/-- `_gossip_redial` -/
def redial (env : GossipEnv) (c : Client) (link : Nat) : Except PyError Client :=
  let c := { c with links := c.links.erase link, lastRx := c.lastRx.pop link }
  (c.openLink env.now).announce env c.nextLink

/-- One second, the time between two PINGs. -/
def pingInterval : Int := 1000000000

/-- Five seconds, after which a silent link is dialled again. -/
def linkTimeout : Int := 5000000000

/-- The PINGs of `_gossip_maintain`, when they are due. -/
def pingLinks (env : GossipEnv) (c : Client) : Except PyError Client :=
  if env.now < c.nextPing then .ok c
  else do
    let body ← Zgs.encode .ping
    return c.links.foldl (fun c link => (c.sendLink env link body).2)
      { c with nextPing := env.now + pingInterval }

/-- `_gossip_maintain` -/
def maintain (env : GossipEnv) (c : Client) : Except PyError Client :=
  if c.links = [] then .ok c
  else do
    let c ← c.pingLinks env
    c.links.foldlM (fun c link =>
      if linkTimeout < env.now - (c.lastRx.get link).getD env.now then c.redial env link else .ok c) c

/-- The gossip part of `start`: the own tuple is cached, and each hub link is opened with an
announcement. -/
def start (env : GossipEnv) (cfg : Config) (endpoint : Bytes) (hubs : Nat) : Except PyError Client :=
  (List.range hubs).foldlM (fun c _ => (c.openLink env.now).announce env c.nextLink)
    { node := Node.init cfg
      tuples := Dict.empty.set (encodeStr cfg.peerIdHex) (.text endpoint, 0)
      links := []
      nextLink := 0
      lastRx := Dict.empty
      nextPing := 0
      outbox := [] }

/-- `gossip_unpublish` on a node without a hub of its own. -/
def unpublish (c : Client) (key : Bytes) : Client := { c with tuples := c.tuples.pop key }

/-- What can happen to a gossip node. -/
inductive Event where
  /-- What can happen to any node. -/
  | node (input : Input)
  /-- A body arrives on a hub link. -/
  | hub (link : Nat) (body : Bytes)
  | unpublish (key : Bytes)

/-- One event. The reaper looks after the hub links first. -/
def step (env : GossipEnv) (c : Client) : Client.Event → Except PyError Client
  | .node .reap => do
    let c ← c.maintain env
    return { c with node := ← c.node.reap env.toEnv }
  | .node input => do return { c with node := ← c.node.step env.toEnv input }
  | .hub link body => c.receive env link body
  | .unpublish key => .ok (c.unpublish key)

/-- The state after an event; a handler that raises is not followed. -/
def after (c : Client) (env : GossipEnv) (event : Client.Event) : Client :=
  match c.step env event with
  | .ok c' => c'
  | .error _ => c

/-- The states that a gossip node can reach when each of its events satisfies `P`. The own endpoint is an
address, with a key of 40 characters when Curve is on, so it always fits into a tuple. -/
inductive ReachableBy (P : Client → GossipEnv → Client.Event → Prop) : Client → Prop where
  | start {c : Client} (env : GossipEnv) (cfg : Config) (endpoint : Bytes) (hubs : Nat)
      (hlen : endpoint.length ≤ Zgs.maxLongstrBytes)
      (h : Client.start env cfg endpoint hubs = .ok c) : ReachableBy P c
  | step {c c' : Client} (env : GossipEnv) (event : Client.Event) (hc : ReachableBy P c)
      (hp : P c env event) (h : c.step env event = .ok c') : ReachableBy P c'

/-- The states that a gossip node can reach. -/
def Reachable : Client → Prop := ReachableBy fun _ _ _ => True

end Client

end Zre
