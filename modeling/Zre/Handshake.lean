import Zre.Elections

/-!
# Discovery and handshake

How a node comes to hold a peer: direct dials, beacons, gossip tuples and HELLOs. All four end in the
same two moves, adopting a pending dial or opening a new connection.
-/

namespace Zre

namespace Node

/-! ## Keys -/

/-- `_curve_key_raw`; `none` is a `ValueError`. -/
def curveKeyRaw (rt : Runtime) (value : Bytes) : Option Bytes :=
  if value.length = 32 then some value
  else if value.length = 40 then rt.z85Decode value
  else none

/-- The text `f"{addr}:{port}"`. -/
def hostPort (addr : Str) (port : Int) : Str := addr ++ ':' :: intStr port

/-- The server key that `_curve_client_args` finds. -/
def serverKeyFor (n : Node) (addr : Str) (port : Int) (rhex : Option Str) : Option Bytes :=
  match rhex.bind n.peerServerKeys.get with
  | some key => some key
  | none => n.peerServerKeys.get (hostPort addr port)

/-- `_curve_client_args` -/
def curveClientArgs (n : Node) (addr : Str) (port : Int) (rhex : Option Str) :
    Option Bytes × Option Bytes × Option Bytes :=
  match n.cfg.curveSecret with
  | none => (none, none, none)
  | some secret =>
    match n.serverKeyFor addr port rhex with
    | none => (none, none, none)
    | some key => (some key, n.cfg.curvePublic, some secret)

/-- Remember a peer's public key, when the announced value is one. -/
def learnKey (n : Node) (k : Str) (value : Bytes) : Node :=
  match curveKeyRaw n.cfg.rt value with
  | some key => { n with peerServerKeys := n.peerServerKeys.set k key }
  | none => n

/-! ## New connections -/

/-- Create a `Peer` object. -/
def alloc (n : Node) (p : Peer) : Node :=
  { n.setObj n.nextRef p with nextRef := n.nextRef + 1 }

/-- Create a peer and connect it, unless Curve is on and no key is known. The reference is that of a
connected peer. -/
def openPeer (env : Env) (n : Node) (uuidHex addr : Str) (port : Int) (rhex : Option Str) :
    Option Ref × Node :=
  let (serverKey, publicKey, secretKey) := n.curveClientArgs addr port rhex
  if n.cfg.curveSecret.isSome ∧ serverKey = none then (none, n)
  else
    let r := n.nextRef
    let (ok, n) := (n.alloc (Peer.new uuidHex addr port)).connect env r serverKey publicKey secretKey
    if ok then
      (some r, n.setObj r ((n.obj r).refresh env.now n.cfg.evTimeout n.cfg.exTimeout))
    else (none, n)

/-- Dial a peer that announced itself, and file it under its id. The three announcement handlers share
these lines. -/
def dialPeer (env : Env) (n : Node) (rhex addr : Str) (port : Int) : Option Ref × Node :=
  match n.openPeer env rhex addr port (some rhex) with
  | (some r, n) => (some r, { n with peers := n.peers.set rhex r })
  | (none, n) => (none, n)

/-- The key of a dial that waits for its answer. -/
def pendingKey (host : Str) (port : Int) : Str := "pending-".toList ++ hostPort host port

/-- `_do_connect` -/
def doConnect (env : Env) (n : Node) (host : Str) (port : Int) : Except PyError Node :=
  if !n.running then .ok n
  else if n.peers.values.any (fun r =>
      (n.obj r).addr = host ∧ (n.obj r).port = port ∧ (n.obj r).connected) then .ok n
  else
    let key := pendingKey host port
    if n.pending.contains key then .ok n
    else match n.openPeer env key host port none with
      | (none, n) => .ok n
      | (some r, n) => { n with pending := n.pending.set key r }.sendHello env r

/-- Move the pending peer `r` under the id `rhex`. -/
def adoptUnder (env : Env) (n : Node) (key : Str) (r : Ref) (rhex : Str) : Node :=
  let p := { n.obj r with uuidHex := rhex }
  { n.setObj r (p.refresh env.now n.cfg.evTimeout n.cfg.exTimeout) with
    pending := n.pending.pop key
    peers := n.peers.set rhex r }

/-- The pending dial that `_adopt_pending` takes: the first with this host and port, else the first with
this port. -/
def pendingMatch (n : Node) (addr : Str) (port : Int) (rhex : Str) : Option (Str × Ref) :=
  match n.pending.entries.find? (fun e => (n.obj e.2).addr = addr ∧ (n.obj e.2).port = port) with
  | some e => some e
  | none => n.pending.entries.find? (fun e => (n.obj e.2).port = port ∧ !n.peers.contains rhex)

/-- `_adopt_pending` -/
def adoptPending (env : Env) (n : Node) (addr : Str) (port : Int) (rhex : Str) : Option Ref × Node :=
  match n.pendingMatch addr port rhex with
  | some (key, r) => (some r, n.adoptUnder env key r rhex)
  | none => (none, n)

/-- What beacons and gossip tuples do with a peer that is not in the table: adopt or dial, then greet. -/
def meetPeer (env : Env) (n : Node) (rhex addr : Str) (port : Int) : Except PyError Node :=
  match n.adoptPending env addr port rhex with
  | (some r, n) => n.sendHello env r
  | (none, n) =>
    match n.dialPeer env rhex addr port with
    | (some r, n) => n.sendHello env r
    | (none, n) => .ok n

/-- Refresh the entry of a known peer. -/
def refreshPeer (env : Env) (n : Node) (r : Ref) : Node :=
  n.setObj r ((n.obj r).refresh env.now n.cfg.evTimeout n.cfg.exTimeout)

/-! ## HELLO -/

/-- `peer.groups.add` -/
def addGroup (groups : List Bytes) (g : Bytes) : List Bytes :=
  if g ∈ groups then groups else groups ++ [g]

/-- One round of the group loop of `_handle_hello`: the group is created without its contest flag. -/
def enterGroup (n : Node) (r : Ref) (g : Bytes) : Node :=
  let n := (n.openGroup g).joinTable g r
  n.setObj r { n.obj r with groups := addGroup (n.obj r).groups g }

/-- The answer to a HELLO, where one is due. -/
def replyHello (env : Env) (n : Node) (r : Ref) (helloReply : Bool) : Except PyError Node :=
  if helloReply then n.sendHello env r else .ok n

/-- The end of `_handle_hello`: the peer becomes ready, is told about, and its groups are entered. -/
def enterPeer (env : Env) (n : Node) (rhex : Str) (r : Ref) (h : HelloFields) (epStr : Str)
    (helloReply : Bool) : Except PyError Node := do
  let n := n.setObj r { (n.obj r).announce h with ready := true, endpointStr := epStr }
  let n ← n.replyHello env r helloReply
  let n := h.groups.foldl (fun n g => n.enterGroup r g) n
  let name := pname (n.obj r)
  let n := n.emit (.enter rhex name epStr)
  let n := h.groups.foldl (fun n g => n.emit (.join rhex name (bdec g))) n
  h.groups.foldlM (fun n g => n.startElection env g) n

/-- `PUBLIC_KEY_HEADER` -/
def publicKeyHeader : Bytes := encodeStr "X-PUBLICKEY".toList

/-- The endpoint text without its `|key` suffix. -/
def endpointText (endpoint : Bytes) : Str := (partition '|' (bdec endpoint)).1

/-- The two places from which a HELLO's key is learned: the `X-PUBLICKEY` header and the endpoint
suffix. -/
def learnHelloKeys (n : Node) (rhex : Str) (h : HelloFields) : Node :=
  let n := match h.headers.get publicKeyHeader with
    | some advertised => n.learnKey rhex advertised
    | none => n
  if '|' ∈ bdec h.endpoint then
    n.learnKey rhex (encodeStr (partition '|' (bdec h.endpoint)).2)
  else n

/-- The address to dial for an announced host. -/
def dialHost (addr : Str) : Str :=
  if addr = "0.0.0.0".toList ∨ addr = "*".toList then "127.0.0.1".toList else addr

/-- The `is_new` branch of `_handle_hello`. -/
def helloFromNew (env : Env) (n : Node) (rhex : Str) (h : HelloFields) : Except PyError Node :=
  let n := n.learnHelloKeys rhex h
  let epStr := endpointText h.endpoint
  match splitEndpoint n.cfg.rt epStr with
  | .error _ => .ok n
  | .ok (addr, port) =>
    match n.adoptPending env (dialHost addr) port rhex with
    | (some r, n) => n.enterPeer env rhex r h epStr false
    | (none, n) =>
      match n.dialPeer env rhex (dialHost addr) port with
      | (some r, n) => n.enterPeer env rhex r h epStr true
      | (none, n) => .ok n

/-- The duplicate HELLO of a live peer: refresh in place. -/
def helloFromLive (env : Env) (n : Node) (r : Ref) (h : HelloFields) : Node :=
  let n := n.refreshPeer env r
  n.setObj r ((n.obj r).announce h)

/-- The port of an own-uuid HELLO, when its endpoint can be read. -/
def helloPort (n : Node) (endpoint : Bytes) : Option Int :=
  if endpoint = [] then none
  else match splitEndpoint n.cfg.rt (bdec endpoint) with
    | .ok (_, port) => some port
    | .error _ => none

/-- `_handle_hello` -/
def handleHello (env : Env) (n : Node) (rhex : Str) (h : HelloFields) (existing : Option Ref) :
    Except PyError Node :=
  if !n.running then .ok n
  else if rhex = n.cfg.peerIdHex then
    if n.helloPort h.endpoint = some (n.cfg.inboxPort : Int) then .ok n
    else .error (.uuidCollisionHello h.endpoint)
  else if h.endpoint = [] then .ok n
  else
    let n := { n with evasiveEmitAt := n.evasiveEmitAt.pop rhex }
    let live := match existing with
      | some r => (n.obj r).ready
      | none => false
    match existing, live with
    | some r, true => .ok (n.helloFromLive env r h)
    | _, _ =>
      match n.peers.get rhex with
      | none => n.helloFromNew env rhex h
      | some r => n.enterPeer env rhex r h (bdec h.endpoint) false

end Node

end Zre
