import Zre.Duo
import Zre.Lib.Replica

/-!
# Two nodes that tell each other their groups

Two nodes as before, which may see each other under any number of addresses, and what their frames say about
the groups that they are in.
-/

namespace Zre

/-- What a frame says about the groups of its sender, with the status byte that it carries. -/
inductive News where
  | hello (groups : List Bytes) (status : Nat)
  | join (group : Bytes) (status : Nat)
  | leave (group : Bytes) (status : Nat)

namespace News

def status : News → Nat
  | hello _ status | join _ status | leave _ status => status

/-- A JOIN or a LEAVE. -/
def Changes : News → Prop
  | hello _ _ => False
  | join _ _ | leave _ _ => True

/-- The names in it that may be added or dropped. -/
def Named : News → Prop
  | hello _ _ => True
  | join group _ | leave group _ => group ≠ []

/-- The news as a note about the set of the groups. -/
def note : News → Replica.Note Bytes
  | hello groups _ => .all {g | g ∈ groups}
  | join group _ => .add group
  | leave group _ => .drop group

end News

def Msg.news (msg : Msg) : Option News :=
  match msg.fields with
  | .hello h => some (.hello h.groups h.status)
  | .groupStatus g status => some (if msg.cmd = Cmd.join then .join g status else .leave g status)
  | _ => none

namespace Handed

/-- The message that a frame is decoded to. -/
def msg (h : Handed) : Option Msg := h.frames.head?.bind fun data => (Codec.decode data).toOption.join

def news (h : Handed) : Option News := h.msg.bind Msg.news

end Handed

namespace Node

/-- The groups that the node records for the peer `x`, if it holds it as ready. -/
def groupsOf (n : Node) (x : Str) : Option (List Bytes) :=
  (n.peers.get x).bind fun r => if (n.obj r).ready then some (n.obj r).groups else none

/-- A change of the group `g` can be told to `x`: it is in the peer table and `g` has a name, or it was never dialled
nor seen, so that its HELLO is still to come. -/
def CanTell (x : Str) (g : Bytes) (n : Node) : Prop :=
  match n.peers.get x with
  | some _ => g ≠ []
  | none => ∀ k, n.pending.get k = none

end Node

namespace Duo

/-- What can happen to one of two nodes that are not restarted and forget nobody. -/
inductive Deed where
  /-- `s` handles a beacon of the other node, which comes from `host`. -/
  | beacon (s : Bool) (host : Str)
  /-- `s` receives the next frame of the other node. -/
  | deliver (s : Bool)
  /-- `s` takes a command from its API queue. -/
  | command (s : Bool) (c : Node.Command)

def deed (net : Net) (env : Env) (d : Duo) : Deed → Except PyError Duo
  | .beacon s host => do
    let data ← (d.node !s).buildBeacon (d.port !s)
    d.feed net env s (.beacon data host)
  | .deliver s => d.act net env (.deliver s)
  | .command s c => d.feed net env s (.command c)

/-- A run of deeds that satisfy `P`, with the states that they were done in. It ends with the first deed whose
handler raises. -/
inductive Deeds (net : Net) (P : Duo → Env → Deed → Prop) (d : Duo) : List (Duo × Deed) → Duo → Prop where
  | start : Deeds net P d [] d
  | step {past : List (Duo × Deed)} {d1 d2 : Duo} {env : Env} {a : Deed} (h : Deeds net P d past d1)
      (hp : P d1 env a) (hs : d1.deed net env a = .ok d2) : Deeds net P d (past ++ [(d1, a)]) d2

/-- What `s` has told the other node about its groups since the state `d₀`. -/
def told (net : Net) (d d₀ : Duo) (s : Bool) : List News :=
  (((d.node s).outbox.drop (d₀.node s).outbox.length).filter (carried net s)).filterMap Handed.news

/-- The id of the other node. -/
def across (d : Duo) (s : Bool) : Str := hex (d.node !s).cfg.peerId

/-- What the other node records of the groups of `s`. -/
def record (d : Duo) (s : Bool) : Option (List Bytes) := (d.node !s).groupsOf (d.across !s)

/-- The address that the next frame for `s` names, if it is a HELLO. -/
def nextAddress (d : Duo) (s : Bool) : Option (Str × Int) := do
  let frame ← (d.link !s).head?
  let msg ← frame.msg
  match msg.fields with
  | .hello h =>
    let (addr, port) ← (splitEndpoint (d.node s).cfg.rt (Node.endpointText h.endpoint)).toOption
    return (Node.dialHost addr, port)
  | _ => none

/-- Sends succeed, and an address at which a node sees the other one leads to it. -/
def Connects (net : Net) (d : Duo) (env : Env) (a : Deed) : Prop :=
  (∀ i, env.send i = .sent) ∧ match a with
    | .beacon s host => net.leads s host (d.port !s) = true
    | .command s (.connect host port) => net.leads s host port = true
    | .command _ _ => True
    | .deliver s => ∀ address, d.nextAddress s = some address → net.leads s address.1 address.2 = true

/-- Two different nodes with a port of their own, of which neither has an entry for the other one or for an
address that leads to it, and neither waits for the answer to a dial. -/
structure Unmet (net : Net) (d : Duo) : Prop where
  reachable : ∀ s, (d.node s).Reachable
  apart : (d.node true).cfg.peerId ≠ (d.node false).cfg.peerId
  port : ∀ s, 0 < d.port s
  unknown : ∀ s, (d.node s).peers.get (d.across s) = none
  elsewhere : ∀ s k r, (d.node s).peers.get k = some r →
    net.leads s ((d.node s).obj r).addr ((d.node s).obj r).port = false
  undialled : ∀ s k, (d.node s).pending.get k = none
  silent : ∀ s, d.link s = []

/-- What the other node records of the groups of `s` is right once nothing is on the way, and each JOIN and
LEAVE on their link carries the status after the one that was told before it. -/
structure Replicates (net : Net) (d₀ d : Duo) (s : Bool) : Prop where
  groups : d.link s = [] → ∀ gs, d.record s = some gs → ∀ g, g ∈ gs ↔ g ∈ (d.node s).ownGroups
  status : Replica.Counted 256 News.Changes News.status (d.told net d₀ s)

/-- A node changes the groups in `K` only when it can tell the other one. -/
def TellsOf (K : Set Bytes) (d : Duo) (s : Bool) (a : Deed) : Prop :=
  ∀ g, g.raw ∈ K → (a = .command s (.join g) ∧ g.raw ∉ (d.node s).ownGroups ∨
      a = .command s (.leave g) ∧ g.raw ∈ (d.node s).ownGroups) →
    (d.node s).CanTell (d.across s) g.raw

/-- A node changes its groups only when it can tell the other one. -/
def Tells (d : Duo) (s : Bool) (a : Deed) : Prop :=
  ∀ g, (a = .command s (.join g) ∧ g.raw ∉ (d.node s).ownGroups ∨
      a = .command s (.leave g) ∧ g.raw ∈ (d.node s).ownGroups) →
    (d.node s).CanTell (d.across s) g.raw

end Duo

end Zre
