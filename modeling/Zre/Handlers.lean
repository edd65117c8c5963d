import Zre.Handshake

/-!
# The handlers of the run loop

Inbound ZRE messages, beacons and gossip tuples, the queued API commands, and the reaper.
-/

namespace Zre

namespace Node

/-! ## Departures -/

/-- Take the object `r` out of the peer tables of `gs`. -/
def leaveTables (n : Node) (r : Ref) (gs : List Bytes) : Node :=
  gs.foldl (fun n g => n.leaveTable g r) n

/-- `_restart_election_if_needed` for each of `gs`. -/
def restartElections (env : Env) (n : Node) (gs : List Bytes) : Except PyError Node :=
  gs.foldlM (fun n g => n.restartElectionIfNeeded env g) n

/-- `_remove_peer` -/
def removePeer (env : Env) (n : Node) (r : Ref) : Except PyError Node :=
  let gone := env.order (n.obj r).groups
  let n := n.leaveTables r gone
  let n := n.setObj r (n.obj r).disconnect
  let id := (n.obj r).uuidHex
  let n := { n with peers := n.peers.pop id, evasiveEmitAt := n.evasiveEmitAt.pop id }
  let n := n.emit (.exit id (pname (n.obj r)))
  n.restartElections env gone

/-- The departure branch of `_handle_beacon`: here the table entry goes first. -/
def beaconExit (env : Env) (n : Node) (rhex : Str) : Except PyError Node :=
  match n.peers.get rhex with
  | none => .ok n
  | some r =>
    let gone := env.order (n.obj r).groups
    let n := { n with peers := n.peers.pop rhex }
    let n := n.leaveTables r gone
    let n := n.setObj r (n.obj r).disconnect
    let n := { n with evasiveEmitAt := n.evasiveEmitAt.pop rhex }
    let n := n.emit (.exit rhex (pname (n.obj r)))
    n.restartElections env gone

/-! ## Inbound messages -/

/-- `seq` bookkeeping of `_handle_peer_msg`: a mismatch resynchronises the counter. -/
def checkSeq (n : Node) (r : Ref) (cmd : UInt8) (seq : Nat) : Node :=
  let n := n.setObj r ((n.obj r).countSeq cmd)
  if (n.obj r).wantSeq ≠ seq then n.setObj r { n.obj r with wantSeq := seq } else n

/-- The JOIN branch. An empty group name is ignored. -/
def handleJoin (env : Env) (n : Node) (rhex : Str) (r : Ref) (g : Bytes) : Except PyError Node :=
  if g = [] then .ok n
  else
    let n := n.setObj r { n.obj r with groups := addGroup (n.obj r).groups g }
    let n := n.requireGroup g
    let n := n.joinTable g r
    let n := n.emit (.join rhex (pname (n.obj r)) (bdec g))
    n.startElection env g

/-- `peer.groups.discard` -/
def discardGroup (groups : List Bytes) (g : Bytes) : List Bytes := groups.filter (· ≠ g)

/-- The LEAVE branch. An empty group name is ignored. -/
def handleLeave (env : Env) (n : Node) (rhex : Str) (r : Ref) (g : Bytes) : Except PyError Node :=
  if g = [] then .ok n
  else
    let n := n.setObj r { n.obj r with groups := discardGroup (n.obj r).groups g }
    let n := n.leaveTable g r
    let n := n.emit (.leave rhex (pname (n.obj r)) (bdec g))
    n.restartElectionIfNeeded env g

/-- The branches of `_handle_peer_msg` on the command, for a ready peer. -/
def dispatch (env : Env) (n : Node) (rhex : Str) (r : Ref) (msg : Msg) (extra : List Bytes) :
    Except PyError Node :=
  let payload := extra.headD []
  let name := pname (n.obj r)
  if msg.cmd = Cmd.whisper then .ok (n.emit (.whisper rhex name payload))
  else if msg.cmd = Cmd.goodbye then n.removePeer env r
  else if msg.cmd = Cmd.ping then n.sendCmd env r Cmd.pingOk none none []
  else if msg.cmd = Cmd.pingOk then .ok (n.refreshPeer env r)
  else match msg.fields with
    | .group g =>
      if msg.cmd = Cmd.shout then .ok (n.emit (.shout rhex name (bdec g) payload)) else .ok n
    | .groupStatus g _ =>
      if msg.cmd = Cmd.join then n.handleJoin env rhex r g
      else if msg.cmd = Cmd.leave then n.handleLeave env rhex r g
      else .ok n
    | .election g id =>
      if msg.cmd = Cmd.elect then n.handleElect env r g id
      else if msg.cmd = Cmd.leader then n.handleLeader env g id
      else .ok n
    | _ => .ok n

/-- The commands that re-arm the EVASIVE throttle. -/
def isTraffic (cmd : UInt8) : Bool :=
  cmd = Cmd.whisper || cmd = Cmd.shout || cmd = Cmd.join || cmd = Cmd.leave || cmd = Cmd.elect ||
    cmd = Cmd.leader

/-- `_handle_peer_msg` after the HELLO branch. -/
def handleTraffic (env : Env) (n : Node) (rhex : Str) (r : Ref) (msg : Msg) (extra : List Bytes) :
    Except PyError Node :=
  let n := if isTraffic msg.cmd then { n with evasiveEmitAt := n.evasiveEmitAt.pop rhex } else n
  let n := n.checkSeq r msg.cmd msg.seq
  let n := n.refreshPeer env r
  n.dispatch env rhex r msg extra

/-- The sender that a routing id names: `0x01` and the 16 bytes of a uuid. -/
def routingUuid (routingId : Bytes) : Option Bytes :=
  if routingId.length ≠ 17 then none
  else match routingId with
    | b :: uuid => if b = 1 then some uuid else none
    | [] => none

/-- `_handle_peer_msg` -/
def handlePeerMsg (env : Env) (n : Node) (frames : List Bytes) : Except PyError Node :=
  match frames with
  | routingId :: data :: extra =>
    match routingUuid routingId with
    | none => .ok n
    | some uuid => do
      let rhex := hex uuid
      match ← Codec.decode data with
      | none => return n
      | some msg =>
        let peer := n.peers.get rhex
        match msg.fields with
        | .hello h =>
          let n := match peer with
            | some r => n.setObj r { n.obj r with wantSeq := 1 }
            | none => n
          n.handleHello env rhex h peer
        | _ =>
          match peer with
          | none => return n
          | some r =>
            if !(n.obj r).ready then return n
            else n.handleTraffic env rhex r msg extra
  | _ => .ok n

/-! ## Beacons -/

def beaconVersionV1 : UInt8 := 1

def beaconVersionV3 : UInt8 := 3

/-- The length of a beacon of a version. -/
def beaconSize (version : UInt8) : Option Nat :=
  if version = beaconVersionV3 then some 54 else if version = beaconVersionV1 then some 22 else none

/-- The magic bytes `ZRE`. -/
def beaconMagic : Bytes := [0x5A, 0x52, 0x45]

/-- `_build_beacon` -/
def buildBeacon (n : Node) (port : Nat) : Except PyError Bytes := do
  let p ← packH port
  if n.cfg.beaconVersion = beaconVersionV3 then
    match n.cfg.curvePublic with
    | some key => return beaconMagic ++ [beaconVersionV3] ++ n.cfg.peerId ++ p ++ key
    | none => throw .typeError
  else return beaconMagic ++ [beaconVersionV1] ++ n.cfg.peerId ++ p

/-- The two entries under which a beacon's key is remembered. -/
def learnBeaconKey (n : Node) (rhex host : Str) (port : Int) (key : Option Bytes) : Node :=
  match key with
  | some key =>
    { n with peerServerKeys := (n.peerServerKeys.set rhex key).set (hostPort host port) key }
  | none => n

/-- What a beacon that passed the format checks does. -/
def acceptBeacon (env : Env) (n : Node) (uuid : Bytes) (port : Nat) (key : Option Bytes)
    (host : Str) : Except PyError Node :=
  if uuid = n.cfg.peerId then
    if port ≠ 0 ∧ port ≠ n.cfg.inboxPort then .error (.uuidCollisionBeacon host port) else .ok n
  else
    let rhex := hex uuid
    let n := n.learnBeaconKey rhex host port key
    if port = 0 then n.beaconExit env rhex
    else match n.peers.get rhex with
      | some r => .ok (n.refreshPeer env r)
      | none => n.meetPeer env rhex host port

/-- `_handle_beacon`, with the sender's host. The version byte is read without a length check. -/
def handleBeacon (env : Env) (n : Node) (data : Bytes) (host : Str) : Except PyError Node :=
  if !n.running then .ok n
  else if data.take 3 ≠ beaconMagic then .ok n
  else do
    let version ← byteAt data 3
    if beaconSize version ≠ some data.length then return n
    if version ≠ n.cfg.beaconVersion then return n
    let port ← unpackH (slice data 20 22)
    let key := if version = beaconVersionV3 then some (slice data 22 54) else none
    n.acceptBeacon env (slice data 4 20) port key host

/-! ## Gossip tuples -/

/-- `_gossip_require`. Only a `ValueError` of the endpoint is caught. -/
def gossipRequire (env : Env) (n : Node) (uuidHex endpoint : Str) : Except PyError Node :=
  let uuidHex := n.cfg.rt.lower uuidHex
  if !n.running then .ok n
  else if uuidHex = n.cfg.peerIdHex then .ok n
  else
    let n := if '|' ∈ endpoint then n.learnKey uuidHex (encodeStr (partition '|' endpoint).2) else n
    match splitEndpoint n.cfg.rt (partition '|' endpoint).1 with
    | .error .valueError => .ok n
    | .error e => .error e
    | .ok (addr, port) =>
      match n.peers.get uuidHex with
      | some r => .ok (n.refreshPeer env r)
      | none => n.meetPeer env uuidHex addr port

/-! ## API commands -/

/-- A queued API call. Group names passed `_wire_string` when they were queued. -/
inductive Command where
  | join (group : WireString)
  | leave (group : WireString)
  | whisper (peerHex payload : Bytes)
  | shout (group : WireString) (payload : Bytes)
  | connect (host : Str) (port : Int)

/-- Send one command to every peer in the table. -/
def sendToPeers (env : Env) (n : Node) (cmd : UInt8) (group : Option Bytes) (status : Option Nat) :
    Except PyError Node :=
  n.peers.values.foldlM (fun n r => n.sendCmd env r cmd group status []) n

/-- `_join_group`. No election is started here: the receivers of the JOIN start one. -/
def joinGroup (env : Env) (n : Node) (g : Bytes) : Except PyError Node :=
  if g ∈ n.ownGroups then .ok n
  else
    let n := { n with ownGroups := n.ownGroups ++ [g], status := (n.status + 1) % 256 }
    let n := n.requireGroup g
    n.sendToPeers env Cmd.join (some g) (some n.status)

/-- `_leave_group` -/
def leaveGroup (env : Env) (n : Node) (g : Bytes) : Except PyError Node :=
  if g ∉ n.ownGroups then .ok n
  else
    let n := { n with ownGroups := n.ownGroups.erase g, status := (n.status + 1) % 256 }
    n.sendToPeers env Cmd.leave (some g) (some n.status)

/-- `_do_whisper` -/
def doWhisper (env : Env) (n : Node) (peerHex payload : Bytes) : Except PyError Node := do
  let peerId ← decodeStrict peerHex
  match n.peers.get peerId with
  | some r =>
    if (n.obj r).connected then n.sendCmd env r Cmd.whisper none none [payload] else return n
  | none => return n

/-- `_do_shout` -/
def doShout (env : Env) (n : Node) (g payload : Bytes) : Except PyError Node :=
  match n.groups.get g with
  | some _ => n.groupSend env g (fun seq => Codec.encodeSimple Cmd.shout seq (some g) none) [payload]
  | none => .ok n

/-- One command taken from the API queue. -/
def runCommand (env : Env) (n : Node) : Command → Except PyError Node
  | .join g => n.joinGroup env g.raw
  | .leave g => n.leaveGroup env g.raw
  | .whisper peerHex payload => n.doWhisper env peerHex payload
  | .shout g payload => n.doShout env g.raw payload
  | .connect host port => n.doConnect env host port

/-- `set_contest_in_group` -/
def setContestInGroup (n : Node) (g : WireString) : Node :=
  let n := { n with contestGroups := addGroup n.contestGroups g.raw }
  match n.groups.get g.raw with
  | some group => n.setGroup g.raw { group with contest := true }
  | none => n

/-- `set_header` -/
def setHeader (n : Node) (key value : WireString) : Node :=
  { n with headers := n.headers.set key.raw value.raw }

/-- The part of `connect_peer` that runs at once: the key of the address is recorded. -/
def pinKey (n : Node) (host : Str) (port : Int) (publicKey : Bytes) : Node :=
  n.learnKey (hostPort host port) publicKey

/-! ## The reaper -/

/-- Drop a pending dial that was not answered in time. -/
def reapPending (env : Env) (n : Node) (e : Str × Ref) : Node :=
  let p := n.obj e.2
  if p.expiredAt ≠ 0 ∧ p.expiredAt < env.now then
    { n.setObj e.2 p.disconnect with pending := n.pending.pop e.1 }
  else n

/-- One round of `_reap` over the peer table: expire, or probe a quiet peer. -/
def reapPeer (env : Env) (n : Node) (r : Ref) : Except PyError Node :=
  let p := n.obj r
  if p.expiredAt ≠ 0 ∧ p.expiredAt < env.now then n.removePeer env r
  else if p.evasiveAt ≠ 0 ∧ p.evasiveAt < env.now then do
    let last := (n.evasiveEmitAt.get p.uuidHex).getD 0
    let n :=
      if n.cfg.evasiveEmitInterval ≤ env.now - last then
        { n with evasiveEmitAt := n.evasiveEmitAt.set p.uuidHex env.now }.emit
          (.evasive p.uuidHex (pname p))
      else n
    let n ← n.sendCmd env r Cmd.ping none none []
    return n.setObj r { n.obj r with evasiveAt := env.now + msec n.cfg.evTimeout }
  else .ok n

/-- `_reap` without the gossip heartbeat, which only touches the hub links. -/
def reap (env : Env) (n : Node) : Except PyError Node := do
  let n := n.pending.entries.foldl (fun n e => n.reapPending env e) n
  let n ← n.maintainElections env
  n.peers.values.foldlM (fun n r => n.reapPeer env r) n

end Node

end Zre
