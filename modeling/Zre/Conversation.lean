import Zre.Replication

/-!
# What two nodes' applications tell each other

Whispers, shouts, and the groups that a node joins and leaves: what an application has said, what of it is on the
way, and what was passed to `_emit` for the other application. What of that the other application gets depends on how
fast it reads.
-/

namespace Zre

/-- What one application tells another one. -/
inductive Saying where
  | whisper (payload : Bytes)
  | shout (group : Str) (payload : Bytes)
  | join (group : Str)
  | leave (group : Str)
  deriving DecidableEq

/-- A group without a name is not reported. -/
def News.saying : News → Option Saying
  | hello _ _ => none
  | join g _ => if g = [] then none else some (.join (bdec g))
  | leave g _ => if g = [] then none else some (.leave (bdec g))

/-- What is emitted for the application of the receiver of a message. -/
def Msg.saying (msg : Msg) (extra : List Bytes) : Option Saying :=
  if msg.cmd = Cmd.whisper then some (.whisper (extra.headD []))
  else match msg.fields with
    | .group g => some (.shout (bdec g) (extra.headD []))
    | _ => msg.news.bind News.saying

def Handed.saying (h : Handed) : Option Saying := h.msg.bind fun msg => msg.saying h.frames.tail

/-- What an event says that comes from the peer `y`. -/
def Event.saying (y : Str) : Event → Option Saying
  | .whisper p _ payload => if p = y then some (.whisper payload) else none
  | .shout p _ g payload => if p = y then some (.shout g payload) else none
  | .join p _ g => if p = y then some (.join g) else none
  | .leave p _ g => if p = y then some (.leave g) else none
  | _ => none

namespace Node

/-- What was passed to `_emit` about the peer `y`. -/
def heardFrom (n : Node) (y : Str) : List Saying := n.events.filterMap (Event.saying y)

/-- What a command tells the application of the peer `x`, which the node has in its peer table. -/
def utters (n : Node) (x : Str) : Command → List Saying
  | .whisper peerHex payload => if (decodeStrict peerHex).toOption = some x then [.whisper payload] else []
  | .shout g payload => if (n.member g.raw x).isSome then [.shout (bdec g.raw) payload] else []
  | .join g => if g.raw ∈ n.ownGroups ∨ g.raw = [] then [] else [.join (bdec g.raw)]
  | .leave g => if g.raw ∉ n.ownGroups ∨ g.raw = [] then [] else [.leave (bdec g.raw)]
  | .connect _ _ => []

end Node

namespace Duo

/-- What `s` tells the other application with a deed. -/
def utters (d : Duo) (s : Bool) : Deed → List Saying
  | .command t c => if t = s then (d.node s).utters (d.across s) c else []
  | .beacon _ _ | .deliver _ => []

/-- What `s` has told the other application in a run. -/
def uttered (s : Bool) (past : List (Duo × Deed)) : List Saying := past.flatMap fun p => p.1.utters s p.2

/-- What `s` has said and the other node has not received. -/
def unheard (d : Duo) (s : Bool) : List Saying := (d.link s).filterMap Handed.saying

/-- What the other node has passed to `_emit` about `s`. -/
def reported (d : Duo) (s : Bool) : List Saying := (d.node !s).heardFrom (d.across !s)

/-- `s` has the other node in its peer table, and the other node holds it as ready. -/
def Joined (d : Duo) (s : Bool) : Prop :=
  (d.node s).peers.get (d.across s) ≠ none ∧ (d.record s).isSome

end Duo

end Zre
