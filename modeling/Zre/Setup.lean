import Zre.Handlers
import Zre.Lib.Writing

/-!
# Setting a node up

The setters that configure a `ZreNode` before `start()`. A setter that raises keeps what it has written until
then.
-/

namespace Zre

open Writing

/-- An argument of a setter: a `str`, a `bytes`, an `int` or `None`. -/
inductive Value where
  | str (s : Str)
  | bytes (b : Bytes)
  | int (n : Int)
  | none

/-- The exceptions of the setters. -/
inductive SetupError where
  /-- The node is running. -/
  | runtimeError
  | attributeError
  | overflowError
  | raised (e : PyError)
  deriving DecidableEq, Repr

/-- What the setters configure. -/
structure Setup where
  running : Bool
  peerId : Bytes
  peerId_length : peerId.length = 16
  peerIdHex : Str
  beaconPort : Int
  /-- In milliseconds. -/
  beaconInterval : Int
  fixedPort : Option Int
  advertisedEndpoint : Option WireString
  curvePublic : Option Bytes
  curveSecret : Option Bytes
  beaconVersion : UInt8
  zapDomain : Value
  headers : Dict Bytes Bytes

/-- `ZreNode.__init__`, with the id that `uuid4` gives. -/
def Setup.init (peerId : Bytes) (h : peerId.length = 16) : Setup where
  running := false
  peerId
  peerId_length := h
  peerIdHex := hex peerId
  beaconPort := 5670
  beaconInterval := 1000
  fixedPort := none
  advertisedEndpoint := none
  curvePublic := none
  curveSecret := none
  beaconVersion := Node.beaconVersionV1
  zapDomain := .str "global".toList
  headers := Dict.empty

/-- A setter. -/
abbrev Setter := Prog SetupError Setup

namespace Setter

def raise {α : Type} (e : PyError) : Setter α := throw (.raised e)

/-- The result of a computation that writes nothing. -/
def lift {α : Type} : Except PyError α → Setter α
  | .ok a => pure a
  | .error e => raise e

/-- `_ensure_not_running` -/
def ensureNotRunning : Setter PUnit := do
  let s ← get
  if s.running then throw .runtimeError else pure ⟨⟩

/-- A number, where one is compared. -/
def number : Value → Setter Int
  | .int n => pure n
  | _ => raise .typeError

/-- The bytes of a `str` or `bytes` argument; `len()` of anything else raises. -/
def rawOf : Value → Setter Bytes
  | .str s => pure (encodeStr s)
  | .bytes b => pure b
  | _ => raise .typeError

/-- `_wire_string` -/
def wireValue (value : Value) : Setter WireString := do
  let raw ← rawOf value
  lift (wireString raw)

/-- The bytes of a uuid argument. -/
def uuidOf : Value → Setter Bytes
  | .bytes b => pure b
  | .str s =>
    match fromHex s with
    | some b => pure b
    | none => raise .valueError
  | _ => raise .typeError

/-- `set_uuid` -/
def setUuid (value : Value) : Setter PUnit := do
  ensureNotRunning
  let raw ← uuidOf value
  if h : raw.length = 16 then
    if raw = List.replicate 16 0 then raise .valueError
    else do
      modify fun s => { s with peerId := raw, peerId_length := h }
      modify fun s => { s with peerIdHex := hex raw }
  else raise .valueError

/-- `set_port` -/
def setPort (port : Value) : Setter PUnit := do
  ensureNotRunning
  let port ← number port
  if 1 ≤ port ∧ port ≤ 65535 then modify fun s => { s with beaconPort := port }
  else raise .valueError

/-- The least `int` that has no `float`. -/
def floatLimit : Int := Int.pow 2 1024 - Int.pow 2 970

/-- `set_interval` -/
def setInterval (intervalMs : Value) : Setter PUnit := do
  ensureNotRunning
  let intervalMs ← number intervalMs
  if intervalMs ≤ 0 then raise .valueError
  else if floatLimit ≤ intervalMs then throw .overflowError
  else modify fun s => { s with beaconInterval := intervalMs }

/-- `set_beacon_peer_port` -/
def setBeaconPeerPort (port : Value) : Setter PUnit := do
  ensureNotRunning
  let port ← number port
  if 1 ≤ port ∧ port ≤ 65535 then modify fun s => { s with fixedPort := some port }
  else raise .valueError

/-- `endpoint.startswith("tcp://")` -/
def startsWithTcp : Value → Setter Str
  | .str s => if "tcp://".toList.isPrefixOf s then pure s else raise .valueError
  | .bytes _ => raise .typeError
  | _ => throw .attributeError

/-- `set_advertised_endpoint` -/
def setAdvertisedEndpoint (rt : Runtime) (endpoint : Value) : Setter PUnit := do
  ensureNotRunning
  let text ← startsWithTcp endpoint
  let _ ← lift (splitEndpoint rt text)
  let raw ← wireValue endpoint
  modify fun s => { s with advertisedEndpoint := some raw }

/-- `_curve_key_raw` -/
def curveKey (rt : Runtime) (value : Value) : Setter Bytes := do
  let raw ← rawOf value
  match Node.curveKeyRaw rt raw with
  | some key => pure key
  | none => raise .valueError

/-- `set_header`, which may be called at any time. -/
def setHeader (key value : Value) : Setter PUnit := do
  let key ← wireValue key
  let value ← wireValue value
  modify fun s => { s with headers := s.headers.set key.raw value.raw }

/-- `set_zcert`. `encode` is `z85.encode`. -/
def setZcert (rt : Runtime) (encode : Bytes → Except PyError Bytes) (publicKey secretKey : Value) :
    Setter PUnit := do
  ensureNotRunning
  let pub ← curveKey rt publicKey
  modify fun s => { s with curvePublic := some pub }
  let sec ← curveKey rt secretKey
  modify fun s => { s with curveSecret := some sec }
  let header ← lift (encode pub)
  setHeader (.bytes Node.publicKeyHeader) (.bytes header)

/-- `bool(value)` -/
def truth : Value → Bool
  | .str s => s ≠ []
  | .bytes b => b ≠ []
  | .int n => n ≠ 0
  | .none => false

/-- `set_zap_domain` -/
def setZapDomain (domain : Value) : Setter PUnit := do
  ensureNotRunning
  if truth domain then modify fun s => { s with zapDomain := domain }
  else raise .valueError

end Setter

namespace Setup

/-- A call of a setter. -/
inductive Call where
  | setUuid (value : Value)
  | setPort (port : Value)
  | setInterval (intervalMs : Value)
  | setBeaconPeerPort (port : Value)
  | setAdvertisedEndpoint (endpoint : Value)
  | setZcert (publicKey secretKey : Value)
  | setZapDomain (domain : Value)
  | setHeader (key value : Value)

/-- The setter that is called. -/
def Call.setter (rt : Runtime) (encode : Bytes → Except PyError Bytes) : Call → Setter PUnit
  | .setUuid value => Setter.setUuid value
  | .setPort port => Setter.setPort port
  | .setInterval intervalMs => Setter.setInterval intervalMs
  | .setBeaconPeerPort port => Setter.setBeaconPeerPort port
  | .setAdvertisedEndpoint endpoint => Setter.setAdvertisedEndpoint rt endpoint
  | .setZcert publicKey secretKey => Setter.setZcert rt encode publicKey secretKey
  | .setZapDomain domain => Setter.setZapDomain domain
  | .setHeader key value => Setter.setHeader key value

/-- The configuration after a call, whether it raises or not. -/
def after (rt : Runtime) (encode : Bytes → Except PyError Bytes) (s : Setup) (c : Call) : Setup :=
  (exec (c.setter rt encode) s).2

/-- The exception of a call. -/
def raises (rt : Runtime) (encode : Bytes → Except PyError Bytes) (s : Setup) (c : Call) : Option SetupError :=
  match (exec (c.setter rt encode) s).1 with
  | .ok _ => none
  | .error e => some e

/-- A configuration that is reached by calls that satisfy `P`. -/
inductive RunBy (rt : Runtime) (encode : Bytes → Except PyError Bytes) (P : Setup → Call → Prop) :
    Setup → Prop where
  | init (peerId : Bytes) (h : peerId.length = 16) : RunBy rt encode P (Setup.init peerId h)
  | call {s : Setup} {c : Call} (hr : RunBy rt encode P s) (hp : P s c) : RunBy rt encode P (s.after rt encode c)

/-! ## What the configuration is read for -/

/-- The beacon version after `start()`. A Curve node gives its inbox the key pair, where a key that is `None` is not
accepted, and the ZAP domain: `domainOption` is what the socket makes of that. -/
def startVersion (domainOption : Value → Except PyError PUnit) (s : Setup) : Except PyError UInt8 :=
  match s.curveSecret, s.curvePublic with
  | none, _ => .ok s.beaconVersion
  | some _, none => .error .typeError
  | some _, some _ => do
    domainOption s.zapDomain
    return Node.beaconVersionV3

/-- The configuration of the run loop after `start()`, for a node with this name whose inbox has this port. -/
def start (rt : Runtime) (domainOption : Value → Except PyError PUnit) (s : Setup) (name : WireString)
    (inboxPort : Nat) : Except PyError Config := do
  let version ← s.startVersion domainOption
  return { Config.plain s.peerId s.peerId_length name inboxPort with
    rt
    beaconPort := s.beaconPort.toNat
    beaconVersion := version
    advertisedEndpoint := s.advertisedEndpoint
    curvePublic := s.curvePublic
    curveSecret := s.curveSecret }

/-- The end of `_gossip_publish_endpoint`: the endpoint, and the node's key after a bar. -/
def gossipPublishEndpoint (encode : Bytes → Except PyError Bytes) (s : Setup) (base : Str) : Except PyError Str :=
  match s.curvePublic with
  | none => .ok base
  | some key => do
    let text ← encode key
    return base ++ '|' :: (← decodeStrict text)

end Setup

end Zre
