import Zre.Api

/-!
# The run loop

`run` and `_run_loop`: one pass after the other, with what the application does between two passes.
-/

namespace Zre

/-- What a pass receives from a socket that the poll reports. -/
inductive Ready where
  /-- The ROUTER inbox; `none` is a `zmq.Again`. -/
  | inbox (frames : Option (List Bytes))
  /-- The beacon socket; `none` is an `OSError`. -/
  | beacon (datagram : Option (Bytes × Str))
  /-- The tuples that the own hub has accepted. -/
  | hub (tuples : List (Str × Str))
  /-- The tuples that are new on a hub link. -/
  | link (tuples : List (Env × Str × Str))

/-- What one pass meets. -/
structure Pass where
  /-- `loop.time()` at the top of the pass -/
  now : Int
  /-- The surroundings of the `n`-th command. -/
  command : Nat → Env
  /-- `loop.time()` after the commands, when a beacon that is due is sent -/
  sent : Int
  /-- `loop.time()` before the poll -/
  polled : Int
  ready : List (Env × Ready)
  reap : Env

/-- A node with its run loop. -/
structure Loop where
  node : Node
  /-- `_beacon_interval`, in nanoseconds. -/
  interval : Int
  /-- `_api_queue` -/
  api : List Node.Command
  lastBeacon : Int
  lastReap : Int
  /-- The times of the last pass; before the first one, of the start. -/
  now : Int
  polled : Int
  /-- When the loop has called `_send_beacon`, oldest first. -/
  beacons : List Int

namespace Loop

/-- `REAP_INTERVAL_MS` -/
def reapInterval : Int := msec 1000

/-- The cap on `wait_ms`. -/
def maxWait : Int := msec 5

/-- `run`, when it is called at `now`. -/
def start (cfg : Config) (interval now : Int) : Loop :=
  { node := Node.init cfg, interval, api := [], lastBeacon := 0, lastReap := now, now, polled := now, beacons := [] }

/-- The API drain. -/
def drain (env : Nat → Env) (n : Node) (api : List Node.Command) : Except PyError Node :=
  api.zipIdx.foldlM (fun n c => n.runCommand (env c.2) c.1) n

/-- The beacon, when it is due. It is sent after the commands, and counted from the top of the pass. -/
def beat (sent : Int) (l : Loop) : Loop :=
  if l.interval ≤ l.now - l.lastBeacon then { l with lastBeacon := l.now, beacons := l.beacons ++ [sent] } else l

/-- `wait_ms` -/
def wait (l : Loop) : Int :=
  let left := l.interval - (l.polled - l.lastBeacon)
  if left < 0 then 0 else if maxWait < left then maxWait else left

/-- What one ready socket brings. -/
def receive (now : Int) (n : Node) : Env × Ready → Except PyError Node
  | (_, .inbox none) | (_, .beacon none) => .ok n
  | (env, .inbox (some frames)) => n.handlePeerMsg env frames
  | (env, .beacon (some (data, host))) => n.handleBeacon env data host
  | (env, .hub tuples) => tuples.foldlM (fun n t => n.gossipRequire { env with now := now } t.1 t.2) n
  | (_, .link tuples) => tuples.foldlM (fun n t => n.gossipRequire t.1 t.2.1 t.2.2) n

/-- The reaper, when it is due. It goes by the time at the top of the pass. -/
def reap (env : Env) (l : Loop) : Except PyError Loop :=
  if reapInterval ≤ l.now - l.lastReap then do
    return { l with node := ← l.node.reap { env with now := l.now }, lastReap := l.now }
  else .ok l

/-- One pass of `_run_loop`. -/
def pass (l : Loop) (p : Pass) : Except PyError Loop := do
  let l := { l with now := p.now, node := ← drain p.command l.node l.api, api := [] }
  let l := { l.beat p.sent with polled := p.polled }
  let n ← p.ready.foldlM (receive p.now) l.node
  { l with node := n }.reap p.reap

/-- What happens to a node with a run loop. -/
inductive Event where
  | pass (p : Pass)
  /-- An API call puts a command into the queue. -/
  | put (c : Node.Command)
  /-- The application does something that acts at once. -/
  | act (env : Env) (input : Input)

/-- What the application can do at once. -/
def acts : Input → Bool
  | .setContestInGroup _ | .setHeader _ _ | .pinKey _ _ _ | .recv => true
  | _ => false

/-- One event. The application comes to its turn between two passes. -/
def step (l : Loop) : Event → Except PyError Loop
  | .pass p => l.pass p
  | .put c => .ok { l with api := l.api ++ [c] }
  | .act env input => if acts input then do return { l with node := ← l.node.step env input } else .ok l

end Loop

end Zre
