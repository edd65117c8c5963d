import Zre.Collision

/-!
# Stopping a node

What `stop` does with the connections of a node: the groups that it leaves, the GOODBYEs of a node in gossip mode,
and the sockets that it closes. Some of its statements run under `contextlib.suppress`. They are written here
without it, so that `stop` returns exactly when there is nothing to suppress.
-/

namespace Zre

namespace Node

/-- The GOODBYEs. They are a departure signal in gossip mode only. -/
def goodbyes (env : Env) (gossip : Bool) (n : Node) : Except PyError Node :=
  if gossip then n.sendToPeers env Cmd.goodbye none none else .ok n

/-- `_leave_group` for each of the node's own groups. -/
def leaveGroups (env : Env) (n : Node) : Except PyError Node :=
  n.ownGroups.foldlM (fun n g => n.leaveGroup env g) n

/-- What a node says before it stops, if it was running. -/
def takeLeave (env : Env) (gossip : Bool) (n : Node) : Except PyError Node :=
  if n.running then do
    let n ← { n with running := false }.goodbyes env gossip
    n.leaveGroups env
  else .ok n

/-- `peer.disconnect()` for each of `refs`. -/
def disconnects (n : Node) (refs : List Ref) : Node :=
  refs.foldl (fun n r => n.setObj r (n.obj r).disconnect) n

/-- Close the connections of a table after the other, and clear it. -/
def closeAll (n : Node) : Node :=
  let n := { n.disconnects n.peers.values with peers := Dict.empty }
  { n.disconnects n.pending.values with pending := Dict.empty }

/-- `stop`, without the beacon for port 0 and the sockets that all peers share. -/
def stop (env : Env) (gossip : Bool) (n : Node) : Except PyError Node := do
  let n ← n.takeLeave env gossip
  return n.closeAll

end Node

end Zre
