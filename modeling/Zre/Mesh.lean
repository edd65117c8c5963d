import Mathlib.Logic.Function.Basic
import Zre.Lib.Fallible
import Zre.Run

/-!
# Many nodes

Any number of nodes, and the frames on their way between them. What a node hands to a socket that leads to
another node joins the end of their link, and is received from the front under the identity of its sender.
-/

namespace Zre

/-- Nodes, and the frames of each that the others have not received yet. -/
structure Mesh (ι : Type) where
  node : ι → Node
  link : ι → ι → List Handed

namespace Mesh

variable {ι : Type} [DecidableEq ι]

/-- What was handed over gets onto the link. `leads` says to which node a socket leads. -/
def carried (leads : ι → Dealer → Option ι) (s t : ι) (h : Handed) : Bool :=
  h.outcome = .sent && leads s h.dealer = some t

/-- A handler of node `s`. -/
def feed (leads : ι → Dealer → Option ι) (d : Mesh ι) (s : ι) (handler : Node → Except PyError Node) :
    Except PyError (Mesh ι) := do
  let n ← handler (d.node s)
  let new := n.outbox.drop (d.node s).outbox.length
  return {
    node := Function.update d.node s n
    link := fun a c => if a = s then d.link a c ++ new.filter (carried leads a c) else d.link a c }

/-- Take the first frame of a link. -/
def take (d : Mesh ι) (s t : ι) : Mesh ι :=
  { d with link := fun a c => if a = s ∧ c = t then (d.link a c).tail else d.link a c }

/-- `t` receives the next frame of `s`. -/
def deliver (leads : ι → Dealer → Option ι) (env : Env) (d : Mesh ι) (s t : ι) : Except PyError (Mesh ι) :=
  match d.link s t with
  | [] => .ok d
  | h :: _ => (d.take s t).feed leads t fun n => n.handlePeerMsg env ((1 :: (d.node s).cfg.peerId) :: h.frames)

/-- `t` runs `_maintain_elections`. -/
def maintain (leads : ι → Dealer → Option ι) (env : Env) (d : Mesh ι) (t : ι) : Except PyError (Mesh ι) :=
  d.feed leads t (Node.maintainElections env)

/-- What can happen to a mesh whose members stay. -/
inductive Act (ι : Type) where
  | deliver (s t : ι)
  | maintain (t : ι)

def act (leads : ι → Dealer → Option ι) (env : Env) (d : Mesh ι) : Act ι → Except PyError (Mesh ι)
  | .deliver s t => d.deliver leads env s t
  | .maintain t => d.maintain leads env t

/-- Acts at given times, when no send fails. -/
def acts (leads : ι → Dealer → Option ι) (d : Mesh ι) (l : List (Int × Act ι)) : Except PyError (Mesh ι) :=
  l.foldlM (fun d p => d.act leads (Env.calm p.1) p.2) d

/-- A run of acts that satisfy `P`, in which no send fails. It ends with the first act whose handler raises. -/
inductive Run (leads : ι → Dealer → Option ι) (P : Act ι → Prop) (d : Mesh ι) : Mesh ι → Prop where
  | start : Run leads P d d
  | step {d1 d2 : Mesh ι} {env : Env} {a : Act ι} (h : Run leads P d d1) (hl : ∀ k, env.send k = .sent) (hp : P a)
      (hs : d1.act leads env a = .ok d2) : Run leads P d d2

theorem Run.of_acts {leads : ι → Dealer → Option ι} {P : Act ι → Prop} {d d1 d2 : Mesh ι}
    (h : Run leads P d d1) {l : List (Int × Act ι)} (hP : ∀ p ∈ l, P p.2) (hs : d1.acts leads l = .ok d2) :
    Run leads P d d2 := by
  induction l generalizing d1 with
  | nil =>
    cases hs
    exact h
  | cons p l ih =>
    unfold acts at hs
    rw [List.foldlM_cons] at hs
    obtain ⟨d3, h3, hs⟩ := Fallible.bind_eq_ok_iff.1 hs
    exact ih (h.step (fun _ => rfl) (hP p List.mem_cons_self) h3) (fun q hq => hP q (List.mem_cons_of_mem p hq)) hs

/-- Frames are delivered, from any link at any time, and nothing else happens. -/
def Delivers (leads : ι → Dealer → Option ι) : Mesh ι → Mesh ι → Prop := Run leads fun a => ∃ s t, a = .deliver s t

/-- No frame is in flight. -/
def Quiet (d : Mesh ι) : Prop := ∀ s t, d.link s t = []

end Mesh

end Zre
