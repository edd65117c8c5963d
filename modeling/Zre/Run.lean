import Zre.Handlers

/-!
# Runs of one node

What can happen to a running node, one event after the other, and the states that it can reach. A run
ends with the first event whose handler raises.
-/

namespace Zre

/-- An event of the run loop, or an API call that acts at once. -/
inductive Input where
  /-- A multipart message on the ROUTER inbox. -/
  | peerMsg (frames : List Bytes)
  /-- A datagram on the beacon port, with its sender. -/
  | beacon (data : Bytes) (host : Str)
  /-- A tuple that the own or a remote hub delivers. -/
  | gossip (uuidHex endpoint : Str)
  /-- The next command of the API queue. -/
  | command (c : Node.Command)
  | reap
  | setContestInGroup (g : WireString)
  | setHeader (key value : WireString)
  /-- `connect_peer` with a public key, before its command runs. -/
  | pinKey (host : Str) (port : Int) (publicKey : Bytes)
  /-- The application takes an event. -/
  | recv

namespace Node

/-- One event. -/
def step (env : Env) (n : Node) : Input → Except PyError Node
  | .peerMsg frames => n.handlePeerMsg env frames
  | .beacon data host => n.handleBeacon env data host
  | .gossip uuidHex endpoint => n.gossipRequire env uuidHex endpoint
  | .command c => n.runCommand env c
  | .reap => n.reap env
  | .setContestInGroup g => .ok (n.setContestInGroup g)
  | .setHeader key value => .ok (n.setHeader key value)
  | .pinKey host port publicKey => .ok (n.pinKey host port publicKey)
  | .recv => .ok { n with queue := n.queue.tail }

/-- The state after an event; a handler that raises is not followed. -/
def after (n : Node) (env : Env) (input : Input) : Node :=
  match n.step env input with
  | .ok n' => n'
  | .error _ => n

/-- The exception that ends a handler. -/
def raised {α : Type} (x : Except PyError α) : Option PyError :=
  match x with
  | .ok _ => none
  | .error e => some e

theorem eq_error_of_raised {α : Type} {x : Except PyError α} {e : PyError} (h : raised x = some e) :
    x = .error e := by
  cases x <;> simp_all [raised]

theorem step_after {n : Node} {env : Env} (input : Input) (h : raised (n.step env input) = none) :
    n.step env input = .ok (n.after env input) := by
  unfold after
  cases hs : n.step env input with
  | ok n' => rfl
  | error e => rw [hs] at h; cases h

theorem handlePeerMsg_after {n : Node} {env : Env} {frames : List Bytes}
    (h : raised (n.handlePeerMsg env frames) = none) :
    n.handlePeerMsg env frames = .ok (n.after env (.peerMsg frames)) :=
  step_after (.peerMsg frames) h

/-- The states that a node can reach from its start. -/
inductive Reachable : Node → Prop where
  | init (cfg : Config) : Reachable (Node.init cfg)
  | step {n n' : Node} (env : Env) (input : Input) (hn : Reachable n)
      (h : n.step env input = .ok n') : Reachable n'

/-- What holds at the start and is preserved by every event holds in every reachable state. -/
theorem Reachable.invariant {I : Node → Prop} (hinit : ∀ cfg, I (Node.init cfg))
    (hstep : ∀ n env input n', I n → n.step env input = .ok n' → I n') {n : Node}
    (h : Reachable n) : I n := by
  induction h with
  | init cfg => exact hinit cfg
  | step env input _ h ih => exact hstep _ env input _ ih h

theorem Reachable.after {n : Node} (h : Reachable n) (env : Env) (input : Input) :
    Reachable (n.after env input) := by
  unfold Node.after
  cases hs : n.step env input with
  | ok n' => exact Reachable.step env input h hs
  | error e => exact h

end Node

end Zre
