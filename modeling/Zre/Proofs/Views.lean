import Zre.Meeting
import Zre.Proofs.Steady

/-!
# Proofs: what a node holds of one other node

The view that a node has of one peer, read off its tables, and what each handler does to it. The peer is
known by its id and reached at one address.
-/

namespace Zre

open Fallible

instance (c : UInt8) (h : Handed) : Decidable (h.Is c) := inferInstanceAs (Decidable (h.cmd = some c))

/-- A frame that neither begins nor ends an acquaintance. -/
def Handed.Chat (h : Handed) : Prop := ¬ h.Is Cmd.hello ∧ ¬ h.Is Cmd.goodbye

theorem Handed.chat_of_is {h : Handed} {c : UInt8} (hc : h.Is c) (h1 : c ≠ Cmd.hello)
    (h2 : c ≠ Cmd.goodbye) : h.Chat := by
  constructor <;> intro hx <;> unfold Handed.Is at hc hx <;> rw [hc] at hx
  · exact h1 (Option.some.inj hx)
  · exact h2 (Option.some.inj hx)

theorem Handed.chat_of_election {h : Handed} (he : h.IsElection) : h.Chat :=
  he.elim (fun h => chat_of_is h (by decide) (by decide)) fun h => chat_of_is h (by decide) (by decide)

/-- Surroundings in which sends and connects succeed. -/
structure Env.Succeeds (env : Env) : Prop where
  lossless : env.Lossless
  connects : ∀ i, env.connect i = true

namespace Node

/-- What the node holds of the peer `x`, whose address is `host` and `port`. -/
def view (n : Node) (x host : Str) (port : Int) : View :=
  match n.peers.get x with
  | some r => if (n.obj r).ready then .ready else .known
  | none => if n.pending.contains (pendingKey host port) then .dialled else .unknown

/-- Whatever the node dials at the address belongs to `x`, and `x` is dialled nowhere else. -/
structure Facing (n : Node) (x host : Str) (port : Int) : Prop where
  home : ∀ r, n.peers.get x = some r →
    (n.obj r).addr = host ∧ (n.obj r).port = port ∧ (n.obj r).connected = true
  sole : ∀ k r, n.peers.get k = some r → (n.obj r).addr = host → (n.obj r).port = port → k = x
  dial : ∀ k r, n.pending.get k = some r → (n.obj r).port = port → k = pendingKey host port
  wait : ∀ r, n.pending.get (pendingKey host port) = some r →
    (n.obj r).addr = host ∧ (n.obj r).port = port ∧ (n.obj r).connected = true ∧
      (n.obj r).ready = false ∧ n.peers.get x = none

/-- The HELLO that the node says about itself towards `addr`. -/
def SaysHello (env : Env) (n : Node) (addr : Str) (h : Handed) : Prop :=
  ∃ seq endpoint frame, h.frames = [frame] ∧ n.publicEndpointFor env addr = .ok endpoint ∧
    Codec.encodeHello seq endpoint n.ownGroups n.status n.cfg.name.raw n.headers = .ok frame

section View

variable {n n' : Node} {x host : Str} {port : Int}

theorem view_known {r : Ref} (h : n.peers.get x = some r) :
    n.view x host port = if (n.obj r).ready then .ready else .known := by
  simp [view, h]

theorem view_new (h : n.peers.get x = none) :
    n.view x host port = if n.pending.contains (pendingKey host port) then .dialled else .unknown := by
  simp [view, h]

/-- A view of a peer that is in the table is not one of a stranger. -/
theorem peers_of_view (h : n.view x host port = .known ∨ n.view x host port = .ready) :
    ∃ r, n.peers.get x = some r ∧ ((n.obj r).ready = true ↔ n.view x host port = .ready) := by
  cases hk : n.peers.get x with
  | none =>
    rw [view_new hk] at h
    split at h <;> simp at h
  | some r =>
    refine ⟨r, rfl, ?_⟩
    rw [view_known hk]
    cases (n.obj r).ready <;> simp

theorem Facing.steady (h : n.Facing x host port) (ht : Tables n) (hs : Steady n n') :
    n'.Facing x host port := by
  have hp : ∀ {k r}, n.peers.get k = some r → r < n.nextRef := fun hk => ht.alloc _ _ (Or.inl hk)
  have hq : ∀ {k r}, n.pending.get k = some r → r < n.nextRef := fun hk => ht.alloc _ _ (Or.inr hk)
  constructor
  · intro r hr
    rw [hs.peers] at hr
    rw [(hs.address r (hp hr)).1, (hs.address r (hp hr)).2, hs.connected r (hp hr)]
    exact h.home r hr
  · intro k r hr
    rw [hs.peers] at hr
    rw [(hs.address r (hp hr)).1, (hs.address r (hp hr)).2]
    exact h.sole k r hr
  · intro k r hr
    rw [hs.pending] at hr
    rw [(hs.address r (hq hr)).2]
    exact h.dial k r hr
  · intro r hr
    rw [hs.pending] at hr
    rw [(hs.address r (hq hr)).1, (hs.address r (hq hr)).2, hs.connected r (hq hr),
      hs.ready r (hq hr), hs.peers]
    exact h.wait r hr

theorem view_steady (ht : Tables n) (hs : Steady n n') : n'.view x host port = n.view x host port := by
  unfold view
  rw [hs.peers, hs.pending]
  split
  · rename_i r hr
    rw [hs.ready r (ht.alloc _ _ (Or.inl hr))]
  · rfl

end View

/-! ## A turn -/

/-- The node comes to the view `res.1`, announces the peer when it becomes ready, says one HELLO to it if
`res.2`, and otherwise only chats. -/
structure Turns (n n' : Node) (x host : Str) (port : Int) (res : View × Bool) (hello : Handed → Prop) :
    Prop where
  facing : n'.Facing x host port
  view : n'.view x host port = res.1
  enters : n'.enters x = n.enters x + if res.1 = .ready ∧ n.view x host port ≠ .ready then 1 else 0
  outbox : ∃ first more, n'.outbox = n.outbox ++ (first ++ more) ∧
    (∀ h ∈ more, h.Chat) ∧
    if res.2 then ∃ h, first = [h] ∧ h.outcome = .sent ∧ h.dealer.addr = host ∧
      h.dealer.port = port ∧ hello h else first = []


section Turn

variable {n n' n'' : Node} {x host : Str} {port : Int} {res : View × Bool} {hello : Handed → Prop}

/-- A steady step that only chats is a turn of its own. -/
theorem Turns.of_steady (hF : n.Facing x host port) (ht : Tables n) (hs : Steady n n')
    (ho : ∃ l, n'.outbox = n.outbox ++ l ∧ ∀ h ∈ l, h.Chat) :
    n.Turns n' x host port (n.view x host port, false) hello := by
  obtain ⟨l, hl, hno⟩ := ho
  refine ⟨hF.steady ht hs, view_steady ht hs, ?_, [], l, by simpa using hl, hno, by simp⟩
  rw [hs.enters x, if_neg fun h => h.2 h.1, Nat.add_zero]

/-- After a turn come steady steps that only chat. -/
theorem Turns.steady (h : n.Turns n' x host port res hello) (ht : Tables n') (hs : Steady n' n'')
    (ho : ∃ l, n''.outbox = n'.outbox ++ l ∧ ∀ h ∈ l, h.Chat) :
    n.Turns n'' x host port res hello := by
  obtain ⟨first, more, hout, hno, hfirst⟩ := h.outbox
  obtain ⟨l, hl, hno'⟩ := ho
  refine ⟨h.facing.steady ht hs, (view_steady ht hs).trans h.view, (hs.enters x).trans h.enters,
    first, more ++ l, by rw [hl, hout]; simp, fun y hy => ?_, hfirst⟩
  exact (List.mem_append.1 hy).elim (hno y) (hno' y)

/-- A turn may start earlier, where nothing was said or announced yet. -/
theorem Turns.earlier (h : n'.Turns n'' x host port res hello) (he : n'.enters x = n.enters x)
    (hv : n'.view x host port = .ready ↔ n.view x host port = .ready) (ho : n'.outbox = n.outbox) :
    n.Turns n'' x host port res hello := by
  obtain ⟨hF, hview, henters, hout⟩ := h
  rw [he] at henters
  rw [ho] at hout
  refine ⟨hF, hview, henters.trans ?_, hout⟩
  simp only [ne_eq, hv]

end Turn

end Node

end Zre
