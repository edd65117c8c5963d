import Zre.Gossip

/-!
# Hub links

What `start` and `_gossip_redial` do with the sockets of the hub links: the address that each one is
connected to, and the three tables that are keyed by socket. `Client` has two of them, `_gossip_socks` and
`_gossip_last_rx`; the third one and the addresses are added here.
-/

namespace Zre

/-- `_split_hub_endpoint` -/
def splitHubEndpoint (rt : Runtime) (endpoint : Str) : Except PyError (Str × Int) := do
  let withoutScheme := (afterScheme endpoint).getD endpoint
  let (host, port) := rpartition ':' withoutScheme
  let port ← pyInt rt port
  let host := stripBrackets host
  return (if host = [] then "127.0.0.1".toList else host, port)

/-- The exceptions of a dial. -/
inductive LinkError where
  | python (e : PyError)
  /-- A `ZMQError` of `connect`. -/
  | zmq
  deriving DecidableEq

/-- The surroundings of a gossip node that dials its hubs. -/
structure HubEnv extends GossipEnv where
  /-- Whether `connect` takes the endpoint. -/
  linkConnect : Str → Bool

/-- Surroundings in which nothing fails. -/
def HubEnv.calm (now : Int) : HubEnv := { GossipEnv.calm now with linkConnect := fun _ => true }

/-- A gossip node with all that it keeps about its hub links. -/
structure HubLinks where
  client : Client
  /-- `_gossip_targets` -/
  targets : Dict Nat (Str × Int)
  /-- The argument of the `connect` call of each link. -/
  dialled : Dict Nat Str

namespace HubLinks

/-- The node before it opens its first link. -/
def init (cfg : Config) (endpoint : Bytes) : HubLinks where
  client :=
    { node := Node.init cfg
      tuples := Dict.empty.set (encodeStr cfg.peerIdHex) (.text endpoint, 0)
      links := []
      nextLink := 0
      lastRx := Dict.empty
      nextPing := 0
      outbox := [] }
  targets := Dict.empty
  dialled := Dict.empty

/-- Connect a new socket, enter it into the tables, and announce. `start` and `_gossip_redial` share these
lines. -/
def dial (env : HubEnv) (h : HubLinks) (text : Str) (target : Str × Int) : Except LinkError HubLinks :=
  if env.linkConnect text then
    let link := h.client.nextLink
    match (h.client.openLink env.now).announce env.toGossipEnv link with
    | .error e => .error (.python e)
    | .ok c =>
      .ok { client := c, targets := h.targets.set link target, dialled := h.dialled.set link text }
  else .error .zmq

/-- One round of the loop of `start` over `_gossip_connects`. -/
def openHub (env : HubEnv) (h : HubLinks) (endpoint : Str) : Except LinkError HubLinks :=
  match splitHubEndpoint h.client.node.cfg.rt endpoint with
  | .error e => .error (.python e)
  | .ok target => h.dial env endpoint target

/-- The gossip part of `start`, for a node without a hub of its own. -/
def start (env : HubEnv) (cfg : Config) (endpoint : Bytes) (connects : List Str) :
    Except LinkError HubLinks :=
  connects.foldlM (fun h e => h.openHub env e) (init cfg endpoint)

/-- `f"tcp://{host}:{port}"` -/
def tcpText (target : Str × Int) : Str := "tcp://".toList ++ target.1 ++ ':' :: intStr target.2

/-- `_gossip_redial`. The old socket is taken out of two of the three tables; a socket that is not in
`_gossip_socks` any more makes `remove` raise. -/
def redial (env : HubEnv) (h : HubLinks) (link : Nat) : Except LinkError HubLinks :=
  match h.targets.get link with
  | none => .ok h
  | some target =>
    if link ∈ h.client.links then
      let c := { h.client with
        links := h.client.links.erase link
        lastRx := h.client.lastRx.pop link }
      { h with client := c }.dial env (tcpText target) target
    else .error (.python .valueError)

end HubLinks

end Zre
