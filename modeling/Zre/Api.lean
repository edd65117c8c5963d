import Zre.Run

/-!
# The API methods

What `join`, `leave`, `shout`, `shouts`, `whisper` and `whispers` do with their arguments when they are
called, and the queue that takes their commands to the run loop.
-/

namespace Zre

/-- A `str` or `bytes` argument. -/
inductive Argument where
  | str (s : Str)
  | bytes (b : Bytes)

/-- `value.encode() if isinstance(value, str) else value`. A `str` with a lone surrogate has no encoding;
a call with one raises before anything is queued. -/
def Argument.raw : Argument → Bytes
  | str s => encodeStr s
  | bytes b => b

namespace Node

/-- A call of an API method. -/
inductive Call where
  | join (group : Argument)
  | leave (group : Argument)
  | shout (group payload : Argument)
  | shouts (group text : Argument)
  | whisper (peerHex payload : Argument)
  | whispers (peerHex text : Argument)

/-- What a call puts into the queue. Group names are checked here, peer ids are not. -/
def Call.enqueue : Call → Except PyError Command
  | .join group => do return .join (← wireString group.raw)
  | .leave group => do return .leave (← wireString group.raw)
  | .shout group payload | .shouts group payload => do return .shout (← wireString group.raw) payload.raw
  | .whisper peerHex payload | .whispers peerHex payload => .ok (.whisper peerHex.raw payload.raw)

/-- The API drain of `_run_loop`: commands are taken from the front of the queue until it is empty. -/
def drain (env : Env) (n : Node) : List Command → Except PyError Node
  | [] => .ok n
  | c :: queue => do drain env (← n.runCommand env c) queue

end Node

end Zre
