import Mathlib.Logic.Function.Basic
import Zre.Gossip

/-!
# A gossip cluster

One hub, the node that hosts it, and the nodes that are linked to it. A link is FIFO and loses nothing while it is
open. The ROUTER socket of the hub tells the links apart by their routing ids.
-/

namespace Zre

/-- The routing id that the hub's socket gives to each link of each client. -/
structure Routes (ι : Type) where
  id : ι → Nat → Bytes
  inj : ∀ i l j m, id i l = id j m → i = j ∧ l = m

/-- A hub and its clients. What was handed to a socket stays in its outbox, so it is enough to count what the
other end has taken from each link. -/
structure Cluster (ι : Type) where
  hub : Hub
  /-- The node that hosts the hub; a hub that runs by itself has none. -/
  host : Option Node
  client : ι → Client
  /-- The number of frames that the hub has taken from a link. -/
  heard : ι → Nat → Nat
  /-- The number of frames that a client has taken from its link. -/
  read : ι → Nat → Nat

/-- What went out on a link. -/
def Client.spoken (c : Client) (link : Nat) : List Bytes :=
  (c.outbox.filter fun s => s.link = link && s.sent).map LinkSend.body

/-- What the hub sent to a routing id. -/
def Hub.posted (h : Hub) (id : Bytes) : List (Bytes × Bytes) := h.outbox.filter fun s => s.1 = id

namespace Cluster

variable {ι : Type}

/-- What can happen in a cluster. -/
inductive Event (ι : Type) where
  /-- What can happen to any node, at one of the clients. -/
  | node (i : ι) (input : Input)
  /-- What can happen to any node, at the host. -/
  | host (input : Input)
  /-- The hub takes the next frame of a link. -/
  | hear (i : ι) (link : Nat)
  /-- A client takes the next frame from its link. -/
  | take (i : ι) (link : Nat)
  /-- A frame on a closed link is lost. -/
  | lose (i : ι) (link : Nat)
  /-- A message of a client that is not among the nodes. -/
  | stranger (frames : List Bytes)
  /-- A pass of the hub's reaper. -/
  | reap
  /-- The host takes what the hub has accepted. -/
  | collect
  | publish (key value : Bytes) (ttl : Nat)
  | unpublish (key : Bytes)

/-- What the hub has not taken yet from a link. -/
def up (c : Cluster ι) (i : ι) (link : Nat) : List Bytes := ((c.client i).spoken link).drop (c.heard i link)

/-- What a client has not taken yet from its link. -/
def down (routes : Routes ι) (c : Cluster ι) (i : ι) (link : Nat) : List (Bytes × Bytes) :=
  (c.hub.posted (routes.id i link)).drop (c.read i link)

variable [DecidableEq ι]

/-- Count one more. -/
def bump (n : ι → Nat → Nat) (i : ι) (link : Nat) : ι → Nat → Nat :=
  Function.update n i (Function.update (n i) link (n i link + 1))

/-- Each accepted tuple wakes the host. -/
def require (env : Env) (n : Node) (ds : List (Bytes × Bytes)) : Except PyError Node :=
  ds.foldlM (fun n d => n.gossipRequire env (bdec d.1) (bdec d.2)) n

/-- One event. -/
def step (routes : Routes ι) (env : GossipEnv) (c : Cluster ι) : Event ι → Except PyError (Cluster ι)
  | .node i input => do
    return { c with client := Function.update c.client i (← (c.client i).step env (.node input)) }
  | .host input =>
    match c.host with
    | none => .ok c
    | some n => do return { c with host := some (← n.step env.toEnv input) }
  | .hear i link =>
    match c.up i link with
    | [] => .ok c
    | body :: _ => do
      return { c with
        hub := ← c.hub.handleMessage env.toEnv [routes.id i link, body]
        heard := bump c.heard i link }
  | .take i link =>
    match c.down routes i link with
    | [] => .ok c
    | s :: _ =>
      if link ∈ (c.client i).links then do
        return { c with
          client := Function.update c.client i (← (c.client i).step env (.hub link s.2))
          read := bump c.read i link }
      else .ok c
  | .lose i link =>
    if link ∈ (c.client i).links ∨ c.up i link = [] then .ok c else .ok { c with heard := bump c.heard i link }
  | .stranger frames => do return { c with hub := ← c.hub.handleMessage env.toEnv frames }
  | .reap => .ok { c with hub := c.hub.reap env.toEnv }
  | .collect => do
    let (ds, hub) := c.hub.deliveries
    match c.host with
    | none => return { c with hub := hub }
    | some n => return { c with hub := hub, host := some (← require env.toEnv n ds) }
  | .publish key value ttl => do return { c with hub := ← c.hub.publish env.toEnv key value ttl }
  | .unpublish key => .ok { c with hub := c.hub.unpublish key }

/-- The nodes of a cluster with the endpoints that they announce: the clients, and the host of the hub, if there
is one. -/
structure Members (ι : Type) where
  cfg : ι → Config
  endpoint : ι → Bytes
  host : Option (Config × Bytes)

/-- The key of a client. -/
def Members.key (members : Members ι) (i : ι) : Bytes := encodeStr (members.cfg i).peerIdHex

/-- The hub as its host starts it: the own tuple goes straight into the table. -/
def openHub (env : Env) : Option (Config × Bytes) → Except PyError (Hub × Option Node)
  | none => .ok (Hub.init, none)
  | some (cfg, endpoint) => do
    return (← Hub.init.publish env (encodeStr cfg.peerIdHex) endpoint 0, some (Node.init cfg))

/-- The clusters that come about when the hub is bound, each of the nodes is started with one link to it, in
surroundings that satisfy `S`, and then events happen that satisfy `P`. -/
inductive RunBy (S : GossipEnv → Prop) (P : Cluster ι → GossipEnv → Event ι → Prop) (routes : Routes ι)
    (members : Members ι) : Cluster ι → Prop where
  | start {hub : Hub} {host : Option Node} {client : ι → Client} (env : GossipEnv) (envs : ι → GossipEnv)
      (hhost : ∀ o, members.host = some o → o.2.length ≤ Zgs.maxLongstrBytes)
      (hhub : openHub env.toEnv members.host = .ok (hub, host))
      (hlen : ∀ i, (members.endpoint i).length ≤ Zgs.maxLongstrBytes)
      (hs : ∀ i, S (envs i))
      (h : ∀ i, Client.start (envs i) (members.cfg i) (members.endpoint i) 1 = .ok (client i)) :
      RunBy S P routes members ⟨hub, host, client, fun _ _ => 0, fun _ _ => 0⟩
  | step {c c' : Cluster ι} (env : GossipEnv) (event : Event ι) (hc : RunBy S P routes members c)
      (hp : P c env event) (h : c.step routes env event = .ok c') : RunBy S P routes members c'

end Cluster

end Zre
