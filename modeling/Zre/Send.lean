import Zre.State

/-!
# Sending

The sending half of `Peer`, the socket set-up of `Peer.connect`, and the HELLO that a node sends about
itself.
-/

namespace Zre

namespace Node

/-! ## `Peer.connect` and `Peer.send_encoded` -/

/-- `Peer.connect` on the object `r`. The socket counter moves also when the attempt fails. `ctx.socket` is taken not to
raise. -/
def connect (env : Env) (n : Node) (r : Ref) (serverKey publicKey secretKey : Option Bytes) :
    Bool × Node :=
  if (n.obj r).connected then (true, n)
  else
    let sock := n.sockets
    let n := { n with sockets := n.sockets + 1 }
    let refuse : Bool × Node := (false, n.setObj r { n.obj r with dealer := none })
    let dial (curve : Option (Bytes × Bytes × Bytes)) : Bool × Node :=
      if env.connect sock then
        let dealer : Dealer :=
          { sock, identity := 1 :: n.cfg.peerId, addr := (n.obj r).addr, port := (n.obj r).port, curve }
        (true, n.setObj r { n.obj r with dealer := some dealer, connected := true })
      else refuse
    match serverKey with
    | none => dial none
    | some key =>
      match publicKey, secretKey with
      | some pub, some sec => dial (some (key, pub, sec))
      | _, _ => refuse

/-- Write back a peer's counter: `next_seq`. -/
def bumpSeq (n : Node) (r : Ref) : Node :=
  n.setObj r { n.obj r with sentSeq := ((n.obj r).sentSeq + 1) % 65536 }

/-- `Peer.send_encoded` -/
def sendEncoded (env : Env) (n : Node) (r : Ref) (encode : Nat → Except PyError Bytes)
    (more : List Bytes) : Except PyError (Bool × Node) :=
  match (n.obj r).connected, (n.obj r).dealer with
  | true, some dealer => do
    let n := n.bumpSeq r
    let frame ← encode (n.obj r).sentSeq
    let outcome := env.send n.outbox.length
    let n := { n with outbox := n.outbox ++ [⟨dealer, frame :: more, outcome⟩] }
    match outcome with
    | .sent => return (true, n)
    | .again => return (false, n.setObj r (n.obj r).disconnect)
    | .failed => return (false, n)
  | _, _ => return (false, n)

/-- `Peer.send_cmd`; the callers drop its result. -/
def sendCmd (env : Env) (n : Node) (r : Ref) (cmd : UInt8) (group : Option Bytes)
    (status : Option Nat) (more : List Bytes) : Except PyError Node := do
  let (_, n) ← n.sendEncoded env r (fun seq => Codec.encodeSimple cmd seq group status) more
  return n

/-- `Peer.send_election` -/
def sendElection (env : Env) (n : Node) (r : Ref) (cmd : UInt8) (group identity : Bytes) :
    Except PyError Node := do
  let (_, n) ← n.sendEncoded env r (fun seq => Codec.encodeElection cmd seq group identity) []
  return n

/-! ## The endpoint of a HELLO -/

/-- `_resolve_interface_ip`, for the pinned interface. -/
def resolveInterfaceIp (env : Env) (n : Node) : Except PyError Str :=
  match n.cfg.interface with
  | none => .ok []
  | some iface =>
    if iface = [] then .ok []
    else if env.inetAton iface then .ok iface
    else if !env.udpSocket false then .error .osError
    else match env.interfaceAddress iface with
      | some ip => .ok ip
      | none => .ok ((env.hostByName iface).getD [])

/-- `_own_address_for`. The socket is created outside the `try`. Hosts with a NUL, for which `connect` raises a
`TypeError`, are left out. -/
def ownAddressFor (env : Env) (n : Node) (peerAddr : Str) : Except PyError Str := do
  let ip ← n.resolveInterfaceIp env
  if ip ≠ [] then return ip
  if !env.udpSocket (':' ∈ stripBrackets peerAddr) then throw .osError
  return (env.localAddress peerAddr).getD peerAddr

/-- `_public_endpoint_for` -/
def publicEndpointFor (env : Env) (n : Node) (peerAddr : Str) : Except PyError Bytes :=
  let probe : Except PyError Bytes := do
    let own ← n.ownAddressFor env (stripBrackets peerAddr)
    return encodeStr (tcpAddress own n.cfg.inboxPort)
  match n.cfg.advertisedEndpoint with
  | some endpoint => if endpoint.raw = [] then probe else .ok endpoint.raw
  | none => probe

/-- The frame that `_send_hello` encodes for the object `r`. -/
def helloFrame (env : Env) (n : Node) (r : Ref) (seq : Nat) : Except PyError Bytes := do
  let endpoint ← n.publicEndpointFor env (n.obj r).addr
  Codec.encodeHello seq endpoint n.ownGroups n.status n.cfg.name.raw n.headers

/-- `_send_hello` -/
def sendHello (env : Env) (n : Node) (r : Ref) : Except PyError Node := do
  let (_, n) ← n.sendEncoded env r (n.helloFrame env r) []
  return n

/-! ## Groups -/

/-- The loop of `Group.send` over the peer list. -/
def sendAll (env : Env) (encode : Nat → Except PyError Bytes) (more : List Bytes) (n : Node)
    (refs : List Ref) : Except PyError Node :=
  refs.foldlM (fun n r =>
    if (n.obj r).connected then do
      let (_, n) ← n.sendEncoded env r encode more
      return n
    else return n) n

/-- `Group.send` -/
def groupSend (env : Env) (n : Node) (g : Bytes) (encode : Nat → Except PyError Bytes)
    (more : List Bytes) : Except PyError Node :=
  sendAll env encode more n (n.group g).peers.values

end Node

end Zre
