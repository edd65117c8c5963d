import Mathlib.Logic.Function.Basic
import Zre.Lib.Fallible
import Zre.Run

/-!
# Two nodes

Two nodes and the frames on their way between them. The nodes run the handlers of `Zre.Run`; what a node
hands to a socket that leads to the other one joins the end of its link, and is received from the front.
Beacons are not queued: a beacon of a node says the same at every time, so a step in which it is handled
is a step in which the other node broadcasts it.
-/

namespace Zre

/-- What lies between the two nodes `false` and `true`. -/
structure Net where
  /-- The host under which a node is seen by the other one. -/
  host : Bool → Str
  /-- Whether a socket of node `s` that dials this host and port leads to the other node. -/
  leads : Bool → Str → Int → Bool

/-- Two nodes, and the frames of each that the other one has not received yet. -/
structure Duo where
  node : Bool → Node
  link : Bool → List Handed

namespace Duo

/-- What can happen to one of the nodes. -/
inductive Act where
  /-- `s` handles a beacon of the other node. -/
  | beacon (s : Bool)
  /-- `s` runs a `connect_peer` with the other node's address. -/
  | dial (s : Bool)
  /-- `s` receives the next frame of the other node. -/
  | deliver (s : Bool)
  | join (s : Bool) (g : WireString)
  | leave (s : Bool) (g : WireString)
  | reap (s : Bool)
  /-- `s` stops and starts again. -/
  | restart (s : Bool) (cfg : Config)

/-- What was handed over gets onto the link. -/
def carried (net : Net) (s : Bool) (h : Handed) : Bool :=
  h.outcome = .sent && net.leads s h.dealer.addr h.dealer.port

/-- The port that a node announces, on its beacons and to whoever dials it. -/
def port (d : Duo) (s : Bool) : Nat := (d.node s).cfg.inboxPort

/-- An event at node `s`. -/
def feed (net : Net) (env : Env) (d : Duo) (s : Bool) (input : Input) : Except PyError Duo := do
  let n ← (d.node s).step env input
  let new := n.outbox.drop (d.node s).outbox.length
  return {
    node := Function.update d.node s n
    link := Function.update d.link s (d.link s ++ new.filter (carried net s)) }

/-- One act. A frame arrives under the identity that its sender gives every DEALER socket. -/
def act (net : Net) (env : Env) (d : Duo) : Act → Except PyError Duo
  | .beacon s => do
    let data ← (d.node !s).buildBeacon (d.port !s)
    d.feed net env s (.beacon data (net.host !s))
  | .dial s => d.feed net env s (.command (.connect (net.host !s) (d.port !s)))
  | .deliver s =>
    match d.link !s with
    | [] => .ok d
    | h :: rest =>
      { d with link := Function.update d.link (!s) rest }.feed net env s
        (.peerMsg ((1 :: (d.node !s).cfg.peerId) :: h.frames))
  | .join s g => d.feed net env s (.command (.join g))
  | .leave s g => d.feed net env s (.command (.leave g))
  | .reap s => d.feed net env s .reap
  | .restart s cfg => .ok { d with node := Function.update d.node s (Node.init cfg) }

/-- Several acts in the same surroundings. -/
def acts (net : Net) (env : Env) (d : Duo) (as : List Act) : Except PyError Duo :=
  as.foldlM (fun d a => d.act net env a) d

theorem acts_singleton (net : Net) (env : Env) (d : Duo) (a : Act) :
    d.acts net env [a] = d.act net env a := by
  unfold acts
  rw [List.foldlM_cons]
  cases d.act net env a <;> rfl

/-- The pair after several acts; a handler that raises is not followed. -/
def after (net : Net) (env : Env) (d : Duo) (as : List Act) : Duo :=
  match d.acts net env as with
  | .ok d' => d'
  | .error _ => d

theorem acts_after {net : Net} {env : Env} {d : Duo} {as : List Act}
    (h : Node.raised (d.acts net env as) = none) :
    d.acts net env as = .ok (d.after net env as) := by
  unfold after
  cases hs : d.acts net env as with
  | ok d' => rfl
  | error e => rw [hs] at h; cases h

/-- A run whose acts satisfy `P`, with the acts that it consists of. It ends with the first act whose
handler raises. -/
inductive Run (net : Net) (P : Duo → Env → Act → Prop) (d : Duo) : List Act → Duo → Prop where
  | start : Run net P d [] d
  | step {as : List Act} {env : Env} {a : Act} {d1 d2 : Duo} (hr : Run net P d as d1)
      (hp : P d1 env a) (h : d1.act net env a = .ok d2) : Run net P d (as ++ [a]) d2

/-- Acts that return are a run, where `I` holds before each of them and gives `P`. -/
theorem Run.of_acts {net : Net} {P : Duo → Env → Act → Prop} {I : Duo → Prop} {env : Env}
    {d d1 d2 : Duo} {as as' : List Act} (h : Run net P d as d1) (hI : I d1)
    (hP : ∀ d1 a, a ∈ as' → I d1 → P d1 env a)
    (hstep : ∀ d1 a d2, a ∈ as' → I d1 → d1.act net env a = .ok d2 → I d2)
    (hacts : d1.acts net env as' = .ok d2) : Run net P d (as ++ as') d2 ∧ I d2 := by
  induction as' generalizing as d1 with
  | nil => cases hacts; simpa using ⟨h, hI⟩
  | cons a as' ih =>
    unfold acts at hacts
    rw [List.foldlM_cons] at hacts
    obtain ⟨d3, h3, hacts⟩ := Fallible.bind_eq_ok_iff.1 hacts
    have hrun := Run.step h (hP d1 a (by simp) hI) h3
    have hrest := ih hrun (hstep d1 a d3 (by simp) hI h3) (fun d a ha => hP d a (by simp [ha]))
      (fun d a d' ha => hstep d a d' (by simp [ha])) hacts
    rw [List.append_assoc] at hrest
    exact hrest

/-- What each act of a run preserves holds at its end. -/
theorem Run.invariant {net : Net} {P : Duo → Env → Act → Prop} {I : Duo → Prop} {d d' : Duo}
    {as : List Act} (h : Run net P d as d')
    (hstep : ∀ d1 env a d2, P d1 env a → d1.act net env a = .ok d2 → I d1 → I d2) (hd : I d) :
    I d' := by
  induction h with
  | start => exact hd
  | step hr hp h ih => exact hstep _ _ _ _ hp h ih

end Duo

end Zre
