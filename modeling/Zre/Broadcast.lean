import Zre.Lib.Subnet
import Zre.Send

/-!
# Where beacons go

`_resolve_interface_ip`, `_interface_broadcast` and `_local_subnet_broadcasts`: the broadcast address of a pinned
interface, and those of all interfaces that the routing table names.
-/

namespace Zre

/-- `socket.inet_ntoa` -/
def inetNtoa (a : BitVec 32) : Str :=
  natStr (a.toNat / 16777216) ++ '.' :: natStr (a.toNat / 65536 % 256) ++ '.' :: natStr (a.toNat / 256 % 256) ++
    '.' :: natStr (a.toNat % 256)

/-- The surroundings of a node on a little-endian host with IPv4 interfaces. -/
structure Lan extends Env where
  rt : Runtime
  /-- `socket.inet_aton`; `none` is an `OSError`. -/
  aton : Str → Option (BitVec 32)
  /-- The `SIOCGIFNETMASK` lookup; `none` is an `OSError`. -/
  interfaceNetmask : Str → Option (BitVec 32)
  /-- The lines of `/proc/net/route`; `none` is an `OSError` of `open`. -/
  routeLines : Option (List Str)
  inetAton_eq : ∀ s, inetAton s = (aton s).isSome
  /-- `inet_aton` reads what `inet_ntoa` writes. -/
  aton_ntoa : ∀ a, aton (inetNtoa a) = some a

/-- The fields of a line of the routing table that the code reads. -/
structure Route where
  iface : Str
  destination : Str
  mask : Str
  deriving DecidableEq

/-- Iface, Destination, Gateway, Flags, RefCnt, Use, Metric, Mask. -/
def Route.ofFields : List Str → Option Route
  | iface :: destination :: _ :: _ :: _ :: _ :: _ :: mask :: _ => some ⟨iface, destination, mask⟩
  | _ => none

namespace Lan

/-- `_resolve_interface_ip` of a given interface. -/
def resolveIp (lan : Lan) (iface : Str) : Except PyError Str :=
  if iface = [] then .ok []
  else if lan.inetAton iface then .ok iface
  else if !lan.udpSocket false then .error .osError
  else match lan.interfaceAddress iface with
    | some ip => .ok ip
    | none => .ok ((lan.hostByName iface).getD [])

/-- `socket.inet_aton` -/
def packedIp (lan : Lan) (ip : Str) : Except PyError (BitVec 32) :=
  match lan.aton ip with
  | some a => .ok a
  | none => .error .osError

/-- `_interface_broadcast`, for the pinned interface. -/
def interfaceBroadcast (lan : Lan) (interface : Option Str) : Except PyError Str :=
  match interface with
  | none => .ok []
  | some iface =>
    if iface = [] then .ok []
    else do
      let ip ← lan.resolveIp iface
      if ip = [] then return []
      if !lan.udpSocket false then throw .osError
      match lan.interfaceNetmask iface with
      | none => return []
      | some mask => do
        let addr ← lan.packedIp ip
        return inetNtoa (Subnet.last addr mask)

/-- The netmask of a line: the bytes of the mask are in host order. -/
def lineMask (mask : Str) : Except PyError (BitVec 32) :=
  match fromHex mask with
  | none => .error .valueError
  | some b => do
    let m ← unpackI b.reverse
    return BitVec.ofNat 32 m

/-- The `try` block of `_local_subnet_broadcasts`. Nothing is returned for an interface without an address of its
own. -/
def lineBroadcast (lan : Lan) (route : Route) : Except PyError (Option Str) := do
  let ip ← lan.resolveIp route.iface
  if ip = [] ∨ "127.".toList.isPrefixOf ip then return none
  let addr ← lan.packedIp ip
  let netmask ← lineMask route.mask
  return some (inetNtoa (Subnet.last addr netmask))

/-- One round of the loop, up to the test for duplicates. The mask is read as a number outside the `try`. -/
def readLine (lan : Lan) (line : Str) : Except PyError (Option Str) :=
  match Route.ofFields (words lan.rt line) with
  | none => .ok none
  | some route =>
    if route.iface = "lo".toList ∨ route.destination = "00000000".toList then .ok none
    else do
      let mask ← pyIntHex lan.rt route.mask
      if mask = 0 then return none
      match lan.lineBroadcast route with
      | .error .osError => return none
      | .error .valueError => return none
      | .error e => throw e
      | .ok broadcast => return broadcast

/-- `if broadcast not in found: found.append(broadcast)` -/
def addBroadcast (found : List Str) (broadcast : Option Str) : List Str :=
  match broadcast with
  | none => found
  | some b => if b ∈ found then found else found ++ [b]

/-- `_local_subnet_broadcasts`. The first line has the names of the columns. -/
def localSubnetBroadcasts (lan : Lan) : Except PyError (List Str) :=
  match lan.routeLines with
  | none => .ok []
  | some lines => (lines.drop 1).foldlM (fun found line => do return addBroadcast found (← lan.readLine line)) []

end Lan

end Zre
