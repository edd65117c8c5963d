import Zre.State

/-!
# What the application can ask

The queries that read the tables of a node. A name that the application gives as text is encoded before it comes here.
-/

namespace Zre

/-- The entry of a peer in `dump`. -/
structure PeerDump where
  name : Str
  address : Str
  groups : List Str
  deriving DecidableEq

/-- What `dump` returns. -/
structure Dump where
  name : Str
  uuid : Str
  peers : List (Str × PeerDump)
  ownGroups : List Str

namespace Query

/-- `sorted` -/
def sorted {α : Type} [LT α] [DecidableLT α] (l : List α) : List α := l.mergeSort fun a b => !decide (b < a)

/-- `peers` -/
def peers (n : Node) : List Str := n.peers.keys

/-- `own_groups` -/
def ownGroups (n : Node) : List Bytes := n.ownGroups

/-- `peers_by_group` -/
def peersByGroup (n : Node) (g : Bytes) : List Str :=
  match n.groups.get g with
  | none => []
  | some group => group.peers.keys

/-- `peer_groups` -/
def peerGroups (n : Node) : List Bytes :=
  sorted (ownGroups n ++ n.peers.values.flatMap fun r => (n.obj r).groups).dedup

/-- The record of a peer in `dump`. -/
def peerDump (p : Peer) : PeerDump :=
  { name := pname p, address := p.endpointStr, groups := sorted (p.groups.map bdec) }

/-- `dump` -/
def dump (n : Node) : Dump :=
  { name := bdec n.cfg.name.raw
    uuid := n.cfg.peerIdHex
    peers := n.peers.entries.map fun e => (e.1, peerDump (n.obj e.2))
    ownGroups := (ownGroups n).map bdec }

end Query

end Zre
