import Zre.Cluster

/-!
# A cluster with a log

Clients do not all connect at once, and a node that is started again comes back under its key with another endpoint.
The log holds what the clients have handed to their links, so it tells what the node of a key has said last. A node
that has stopped is a client at which nothing happens any more but that frames come.
-/

namespace Zre

/-- Every send on a hub link succeeds. -/
def GossipEnv.Sends (env : GossipEnv) : Prop := ∀ n, env.linkSend n = true

namespace Zgs

/-- The tuple of a PUBLISH. -/
def published (body : Bytes) : Option (Bytes × Bytes) :=
  match decode body with
  | .ok (some (.publish key value _)) => some (key, value)
  | _ => none

end Zgs

namespace Cluster

variable {ι : Type}

/-- A cluster, those of its clients that have connected, and what these have handed to their links, in order. -/
structure Annals (ι : Type) where
  cluster : Cluster ι
  online : ι → Bool
  log : List (ι × LinkSend)

/-- What can happen: a client connects, or something happens among those that have connected. -/
inductive Move (ι : Type) where
  | connect (i : ι)
  | event (env : GossipEnv) (event : Event ι)

/-- The client at which something happens. -/
def Event.client : Event ι → Option ι
  | .node i _ => some i
  | .hear i _ => some i
  | .take i _ => some i
  | .lose i _ => some i
  | _ => none

/-- Only nodes and their hub are at work. -/
def Event.native : Event ι → Bool
  | .stranger _ => false
  | .publish _ _ _ => false
  | .unpublish _ => false
  | _ => true

namespace Annals

/-- What client `i` has handed to its links since. -/
def news (a : Annals ι) (c : Cluster ι) (i : ι) : List (ι × LinkSend) :=
  ((c.client i).outbox.drop (a.cluster.client i).outbox.length).map fun s => (i, s)

/-- What goes into the log. -/
def entries (a : Annals ι) (c : Cluster ι) : Option ι → List (ι × LinkSend)
  | some i => a.news c i
  | none => []

/-- One move. A client has its own tuple to announce, whenever it is started, so it was started beforehand, and what
it said then goes into the log when it connects. -/
def move [DecidableEq ι] (routes : Routes ι) (a : Annals ι) : Move ι → Except PyError (Annals ι)
  | .connect i =>
    .ok { a with
      online := Function.update a.online i true
      log := a.log ++ (a.cluster.client i).outbox.map fun s => (i, s) }
  | .event env event => do
    let c ← a.cluster.step routes env event
    return { a with cluster := c, log := a.log ++ a.entries c event.client }

/-- A client connects once, and nothing happens at it before; no send on a hub link fails. -/
def Permits (a : Annals ι) : Move ι → Prop
  | .connect i => a.online i = false
  | .event env event => env.Sends ∧ event.native = true ∧ ∀ i, event.client = some i → a.online i = true

/-- A frame waits on the link. -/
def Waits (a : Annals ι) (i : ι) (link : Nat) (key value : Bytes) : Prop :=
  ∃ body ∈ a.cluster.up i link, Zgs.published body = some (key, value)

/-- The tuple is on the way to the hub, on an open link or on a closed one. -/
def OnWay (a : Annals ι) (key value : Bytes) : Prop :=
  ∃ i link, a.online i = true ∧ a.Waits i link key value

/-- The tuple is on the way over an open link. -/
def Due (a : Annals ι) (key value : Bytes) : Prop :=
  ∃ i link, a.online i = true ∧ link ∈ (a.cluster.client i).links ∧ a.Waits i link key value

end Annals

/-- The value that the frame gives to the key, when it went out and comes from the key's own node. -/
def Members.word (members : Members ι) (key : Bytes) (s : ι × LinkSend) : Option Bytes :=
  match Zgs.published s.2.body with
  | some (k, value) => if s.2.sent = true ∧ k = key ∧ members.key s.1 = key then some value else none
  | none => none

/-- What the host of the hub has put into the table under its key. -/
def Members.hosted (members : Members ι) (key : Bytes) : Option Bytes :=
  match members.host with
  | some (cfg, endpoint) => if encodeStr cfg.peerIdHex = key then some endpoint else none
  | none => none

/-- The value with which the key's own node has announced itself last. -/
def Members.lastSaid (members : Members ι) (log : List (ι × LinkSend)) (key : Bytes) : Option Bytes :=
  (log.filterMap (members.word key)).getLast?.or (members.hosted key)

/-- A client publishes what the key's own node has said last; a node may announce itself with another value when
nothing is on the way under its key. -/
def Members.Current (members : Members ι) (a : Annals ι) (s : ι × LinkSend) : Prop :=
  ∀ key value, Zgs.published s.2.body = some (key, value) →
    members.lastSaid a.log key = some value ∨ members.key s.1 = key ∧ ∀ v, ¬ a.OnWay key v

end Cluster

end Zre
