import Zre.Broadcast
import Zre.Handlers
import Zre.Lib.Writing

/-!
# Sending beacons

`_send_beacon` and `_build_send_sock`. The send socket and its targets are kept from one beacon to the next. Whatever
is raised on the way drops the socket, but not what was written to the targets until then.
-/

namespace Zre

open Writing

/-- The surroundings of one `_send_beacon`. -/
structure SendLan extends Lan where
  /-- `bind` of the send socket to an address; `false` is an `OSError`. -/
  bind : Str → Bool
  /-- Whether the `n`-th target can be sent to. -/
  sendto : Nat → Bool

/-- A datagram handed to the send socket. -/
structure Datagram where
  /-- The address that the socket is bound to, if it is. -/
  source : Option Str
  target : Str × Nat
  data : Bytes
  sent : Bool
  deriving DecidableEq

/-- What a node keeps for its beacons. -/
structure Sender where
  cfg : Config
  /-- `_gossip_active` -/
  gossip : Bool
  /-- `_beacon_sock` is open. -/
  beaconSock : Bool
  beaconMsg : Option Bytes
  /-- The send socket, with the address that it is bound to. -/
  sendSock : Option (Option Str)
  sendTargets : List (Str × Nat)
  /-- What was handed to send sockets. -/
  outbox : List Datagram

/-- `_resolve_interface_ip`, which depends on the configuration only. -/
def Config.resolveInterfaceIp (cfg : Config) (env : Env) : Except PyError Str := (Node.init cfg).resolveInterfaceIp env

/-- `_build_beacon`, which depends on the configuration only. -/
def Config.buildBeacon (cfg : Config) (port : Nat) : Except PyError Bytes := (Node.init cfg).buildBeacon port

namespace Sender

abbrev Action := Prog PyError Sender

/-- The result of a computation that writes nothing. -/
def lift {α : Type} : Except PyError α → Action α
  | .ok a => pure a
  | .error e => throw e

def loopback : Str := "127.0.0.1".toList

/-- The targets of a node that does not know a single subnet to send to. -/
def everywhere (port : Nat) (found : List Str) : List (Str × Nat) :=
  (found ++ ["255.255.255.255".toList, loopback]).map fun addr => (addr, port)

/-- `_build_send_sock` -/
def buildSendSock (lan : SendLan) : Action PUnit := do
  modify fun s => { s with sendSock := none }
  let s ← get
  let targets := everywhere s.cfg.beaconPort (← lift lan.localSubnetBroadcasts)
  modify fun s => { s with sendTargets := targets }
  if !lan.udpSocket false then throw .osError
  let ip ← lift (s.cfg.resolveInterfaceIp lan.toEnv)
  if ip = [] then modify fun s => { s with sendSock := some none }
  else
    if !lan.bind ip then throw .osError
    let subnet ← lift (lan.interfaceBroadcast s.cfg.interface)
    let targets := if subnet = [] then targets else [(subnet, s.cfg.beaconPort), (loopback, s.cfg.beaconPort)]
    modify fun s => { s with sendTargets := targets, sendSock := some (some ip) }

/-- The loop of `_send_beacon`. -/
def hand (lan : SendLan) (beacon : Bytes) (s : Sender) : Sender :=
  { s with outbox := s.outbox ++ s.sendTargets.zipIdx.map fun t => ⟨s.sendSock.join, t.1, beacon, lan.sendto t.2⟩ }

/-- The datagram of `_send_beacon`: without a port it is the one that `start` has built. -/
def beaconFor (s : Sender) (port : Option Nat) : Except PyError Bytes :=
  match port, s.beaconMsg with
  | none, some msg => .ok msg
  | none, none => s.cfg.buildBeacon s.cfg.inboxPort
  | some port, _ => s.cfg.buildBeacon port

/-- `_send_beacon`. The beacon is built outside the `try`. -/
def sendBeacon (lan : SendLan) (port : Option Nat) : Action PUnit := do
  let s ← get
  if s.gossip ∨ (s.beaconSock = false ∧ port = none) then return
  let beacon ← lift (s.beaconFor port)
  tryCatch
    (do
      if s.sendSock = none then buildSendSock lan
      modify (hand lan beacon))
    fun _ => modify fun s => { s with sendSock := none }

/-- What `start` leaves behind. -/
def start (cfg : Config) (gossip : Bool) : Except PyError Sender := do
  let msg ← if gossip then .ok none else some <$> cfg.buildBeacon cfg.inboxPort
  return { cfg, gossip, beaconSock := !gossip, beaconMsg := msg, sendSock := none, sendTargets := [], outbox := [] }

/-- What happens to a sender. -/
inductive Event where
  | send (lan : SendLan) (port : Option Nat)
  /-- The run loop ends and closes the send socket. -/
  | loopEnd
  /-- `stop`, or the end of the run loop after a collision, closes both sockets. -/
  | close

/-- One event, whether the call raises or not. -/
def step (s : Sender) : Event → Sender
  | .send lan port => (exec (sendBeacon lan port) s).2
  | .loopEnd => { s with sendSock := none }
  | .close => { s with beaconSock := false, sendSock := none }

/-- The runs of a sender, with their events. -/
inductive Run (cfg : Config) : List Event → Sender → Prop where
  | start {gossip : Bool} {s : Sender} (h : start cfg gossip = .ok s) : Run cfg [] s
  | step {events : List Event} {s : Sender} (h : Run cfg events s) (e : Event) : Run cfg (events ++ [e]) (s.step e)

end Sender

end Zre
