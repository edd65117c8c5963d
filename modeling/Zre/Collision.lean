import Zre.Run

/-!
# The end of a run

What `run` does with a `UUIDCollisionError`: the node stops, reports the collision, and closes its
connections, before the exception is raised again. The handlers raise it before they change anything, so
the state that is stopped is the one before the message.
-/

namespace Zre

/-- One byte of a `bytes` literal. -/
def reprByte (quote b : UInt8) : Str :=
  if b = quote ∨ b = 0x5C then [chr 0x5C, chr b.toNat]
  else if b = 0x09 then [chr 0x5C, 't']
  else if b = 0x0A then [chr 0x5C, 'n']
  else if b = 0x0D then [chr 0x5C, 'r']
  else if b < 0x20 ∨ 0x7F ≤ b then [chr 0x5C, 'x'] ++ hex [b]
  else [chr b.toNat]

/-- `repr` of `bytes`, which an f-string uses as well. -/
def bytesRepr (b : Bytes) : Str :=
  let quote : UInt8 := if 0x27 ∈ b ∧ 0x22 ∉ b then 0x22 else 0x27
  ['b', chr quote.toNat] ++ b.flatMap (reprByte quote) ++ [chr quote.toNat]

namespace Node

/-- The text of a `UUIDCollisionError`. -/
def collisionDetail (n : Node) : PyError → Option Str
  | .uuidCollisionHello endpoint =>
    some ("another node with uuid ".toList ++ n.cfg.peerIdHex ++
      " announced itself (HELLO from ".toList ++ bytesRepr endpoint ++ ")".toList)
  | .uuidCollisionBeacon host port =>
    some ("another node with uuid ".toList ++ n.cfg.peerIdHex ++
      " responded on the network (beacon from ".toList ++ hostPort host port ++ ")".toList)
  | _ => none

/-- The handler of `run`, for a collision with the text `detail`. -/
def collide (n : Node) (detail : Str) : Node :=
  let n := { n with running := false }
  let n := n.emit (.collision detail)
  let n := n.peers.values.foldl (fun n r => n.setObj r (n.obj r).disconnect) n
  { n with peers := Dict.empty }

end Node

end Zre
