import Mathlib.Logic.Relation
import Zre.Proofs.Tables

/-!
# Proofs: the moves of a node

Every handler is a sequence of a few kinds of moves on the tables. `Move` lists them, each with all
that it can change; the handlers are taken apart into moves once, and each invariant of a node is then
proved for the moves only.
-/

namespace Zre

open Fallible

namespace Peer

/-- Neither the tables nor the sockets see the difference, and the peer is as ready as before. -/
structure Keeps (p q : Peer) : Prop where
  uuidHex : q.uuidHex = p.uuidHex
  groups : q.groups = p.groups
  dealer : q.dealer = p.dealer
  connected : q.connected = p.connected
  address : q.addr = p.addr ∧ q.port = p.port
  ready : q.ready = p.ready

theorem Keeps.refresh (p : Peer) (now ev ex : Int) : Keeps p (p.refresh now ev ex) :=
  ⟨rfl, rfl, rfl, rfl, ⟨rfl, rfl⟩, rfl⟩

theorem Keeps.countSeq (p : Peer) (cmd : UInt8) : Keeps p (p.countSeq cmd) :=
  ⟨rfl, rfl, rfl, rfl, ⟨rfl, rfl⟩, rfl⟩

theorem Keeps.announce (p : Peer) (h : HelloFields) : Keeps p (p.announce h) :=
  ⟨rfl, rfl, rfl, rfl, ⟨rfl, rfl⟩, rfl⟩

end Peer

namespace Node

/-- A new object, for which a socket was opened. -/
def allocated (n : Node) (p : Peer) : Node :=
  { n.alloc p with sockets := n.sockets + 1 }

/-- The peer that a successful dial creates. -/
def opened (env : Env) (n : Node) (uuidHex addr : Str) (port : Int)
    (curve : Option (Bytes × Bytes × Bytes)) : Peer :=
  { Peer.new uuidHex addr port with
    dealer := some { sock := n.sockets, identity := 1 :: n.cfg.peerId, addr, port, curve }
    connected := true }.refresh env.now n.cfg.evTimeout n.cfg.exTimeout

/-- The `curve` options of a socket to this address. -/
def dialCurve (n : Node) (addr : Str) (port : Int) (rhex : Option Str) : Option (Bytes × Bytes × Bytes) :=
  match n.cfg.curveSecret, n.serverKeyFor addr port rhex, n.cfg.curvePublic with
  | some sec, some key, some pub => some (key, pub, sec)
  | _, _, _ => none

/-- With a key of its own the node knows a key for this address. -/
def Secured (n : Node) (addr : Str) (port : Int) (rhex : Option Str) : Prop :=
  n.cfg.curveSecret.isSome → (n.dialCurve addr port rhex).isSome

/-- The object that a dial creates. -/
def dialled (env : Env) (n : Node) (uuidHex addr : Str) (port : Int) (rhex : Option Str) : Peer :=
  n.opened env uuidHex addr port (n.dialCurve addr port rhex)

end Node

/-- What is sent about the node itself fits its length prefixes. -/
structure Books (n : Node) : Prop where
  own : ∀ g ∈ n.ownGroups, g.length ≤ maxStringBytes
  ownNodup : n.ownGroups.Nodup
  header : ∀ e ∈ n.headers.entries, e.1.length ≤ maxStringBytes ∧ e.2.length ≤ maxStringBytes
  status : n.status < 256

/-- The moves that only some events make. -/
inductive Kind where
  /-- A full queue tears a peer down. -/
  | close
  /-- A peer or a pending dial is given up. -/
  | forget
  /-- A socket is dialled or a pending dial gets its id. -/
  | meet
  /-- A peer becomes ready. -/
  | hail
  | enter
  | leave
  /-- The node's own groups or headers change. -/
  | books
  deriving DecidableEq

/-- An ENTER event. -/
def Event.IsEnter : Event → Prop
  | .enter _ _ _ => True
  | _ => False

/-- One move. `allow` says which kinds may occur, `hands` what may be handed to a socket. -/
inductive Move (allow : Kind → Prop) (hands : Handed → Prop) (n : Node) : Node → Prop where
  | talk {n' : Node} {L : Prop} (hL : ¬ L → allow .close) (h : Talk L hands n n') :
      Move allow hands n n'
  | touch (r : Ref) (p : Peer) (h : (n.obj r).Keeps p) : Move allow hands n (n.setObj r p)
  | hail (ha : allow .hail) (k : Str) (r : Ref) (p : Peer) (hk : n.peers.get k = some r)
      (h : { n.obj r with ready := true }.Keeps p) : Move allow hands n (n.setObj r p)
  | quiet {n' : Node}
      (h : n' = { n with
        contestGroups := n'.contestGroups, evasiveEmitAt := n'.evasiveEmitAt
        peerServerKeys := n'.peerServerKeys, queue := n'.queue }) : Move allow hands n n'
  | emit (e : Event) (he : e.IsEnter → allow .hail) : Move allow hands n (n.emit e)
  | books {n' : Node} (ha : allow .books)
      (h : n' = { n with headers := n'.headers, ownGroups := n'.ownGroups, status := n'.status })
      (hb : Books n → Books n') : Move allow hands n n'
  | waste (p : Peer) (hd : p.dealer = none) (hc : p.connected = false) :
      Move allow hands n (n.allocated p)
  | file (ha : allow .meet) (env : Env) (k addr : Str) (port : Int) (curve : Option (Bytes × Bytes × Bytes))
      (hk : n.peers.get k = none) (hown : k ≠ n.cfg.peerIdHex) :
      Move allow hands n { n.allocated (n.opened env k addr port curve) with
        peers := n.peers.set k n.nextRef }
  | dial (ha : allow .meet) (env : Env) (k addr : Str) (port : Int) (curve : Option (Bytes × Bytes × Bytes)) :
      Move allow hands n { n.allocated (n.opened env k addr port curve) with
        pending := n.pending.set k n.nextRef }
  | adopt (ha : allow .meet) (env : Env) (k : Str) (r : Ref) (rhex : Str) (hp : n.pending.get k = some r)
      (hk : n.peers.get rhex = none) (hown : rhex ≠ n.cfg.peerIdHex) :
      Move allow hands n (n.adoptUnder env k r rhex)
  | enter {n' : Node} (ha : allow .enter) (k : Str) (r : Ref) (g : Bytes)
      (hk : n.peers.get k = some r)
      (h : n' = { n.setObj r { n.obj r with groups := Node.addGroup (n.obj r).groups g } with
        groups := n'.groups })
      (hm : ∀ g' p, n'.member g' p = if g' = g ∧ p = k then some r else n.member g' p) :
      Move allow hands n n'
  | leave {n' : Node} (ha : allow .leave) (k : Str) (r : Ref) (g : Bytes)
      (hk : n.peers.get k = some r)
      (h : n' = { n.setObj r { n.obj r with groups := Node.discardGroup (n.obj r).groups g } with
        groups := n'.groups })
      (hm : ∀ g' p, n'.member g' p = if g' = g ∧ p = k then none else n.member g' p) :
      Move allow hands n n'
  | forget {n' : Node} (ha : allow .forget) (k : Str) (r : Ref) (hk : n.peers.get k = some r)
      (h : n' = { n.setObj r (n.obj r).disconnect with
        groups := n'.groups, peers := n.peers.pop k })
      (hm : ∀ g p, n'.member g p = if p = k then none else n.member g p) : Move allow hands n n'
  | dropDial (ha : allow .forget) (k : Str) (r : Ref) (hp : n.pending.get k = some r) :
      Move allow hands n { n.setObj r (n.obj r).disconnect with pending := n.pending.pop k }

theorem Move.mono {allow allow' : Kind → Prop} {hands hands' : Handed → Prop} {n n' : Node}
    (h : Move allow hands n n') (ha : ∀ k, allow k → allow' k) (hs : ∀ x, hands x → hands' x) :
    Move allow' hands' n n' := by
  cases h with
  | talk hL h => exact .talk (fun hl => ha _ (hL hl)) (h.mono hs)
  | touch r p h => exact .touch r p h
  | hail hh k r p hk h => exact .hail (ha _ hh) k r p hk h
  | quiet h => exact .quiet h
  | emit e he => exact .emit e fun h => ha _ (he h)
  | books hb h hbs => exact .books (ha _ hb) h hbs
  | waste p hd hc => exact .waste p hd hc
  | file hm env k addr port curve hk hown => exact .file (ha _ hm) env k addr port curve hk hown
  | dial hm env k addr port curve => exact .dial (ha _ hm) env k addr port curve
  | adopt hm env k r rhex hp hk hown => exact .adopt (ha _ hm) env k r rhex hp hk hown
  | enter he k r g hk h hm => exact .enter (ha _ he) k r g hk h hm
  | leave hl k r g hk h hm => exact .leave (ha _ hl) k r g hk h hm
  | forget hf k r hk h hm => exact .forget (ha _ hf) k r hk h hm
  | dropDial hf k r hp => exact .dropDial (ha _ hf) k r hp

/-- A sequence of moves. -/
def Moves (allow : Kind → Prop) (hands : Handed → Prop) : Node → Node → Prop :=
  Relation.ReflTransGen (Move allow hands)

section Moves

variable {allow allow' : Kind → Prop} {hands hands' : Handed → Prop} {n n' n'' : Node}

theorem Moves.refl (n : Node) : Moves allow hands n n := Relation.ReflTransGen.refl

theorem Moves.trans (h1 : Moves allow hands n n') (h2 : Moves allow hands n' n'') :
    Moves allow hands n n'' := Relation.ReflTransGen.trans h1 h2

theorem Move.moves (h : Move allow hands n n') : Moves allow hands n n' :=
  Relation.ReflTransGen.single h

theorem Moves.mono (h : Moves allow hands n n') (ha : ∀ k, allow k → allow' k)
    (hs : ∀ x, hands x → hands' x) : Moves allow' hands' n n' := by
  induction h with
  | refl => exact Relation.ReflTransGen.refl
  | tail _ hm ih => exact ih.tail (hm.mono ha hs)

/-- What each move preserves is preserved by every sequence of moves. -/
theorem Moves.invariant {I : Node → Prop} (hstep : ∀ {n n'}, Move allow hands n n' → I n → I n')
    (h : Moves allow hands n n') (hn : I n) : I n' := by
  induction h with
  | refl => exact hn
  | tail _ hm ih => exact hstep hm ih

end Moves

/-- Any kind of move, and anything handed over. -/
def anything {α : Type} (_ : α) : Prop := True

theorem Moves.anything {allow : Kind → Prop} {hands : Handed → Prop} {n n' : Node}
    (h : Moves allow hands n n') : Moves Zre.anything Zre.anything n n' :=
  h.mono (fun _ _ => trivial) fun _ _ => trivial

/-- The kinds `ks`, and tearing down where a send can fail. -/
def may (env : Env) (ks : List Kind) (k : Kind) : Prop := k ∈ ks ∨ (k = .close ∧ ¬ env.Lossless)

theorem may_mono {env : Env} {ks ks' : List Kind} (h : ks ⊆ ks') (k : Kind) (hk : may env ks k) :
    may env ks' k := hk.imp (fun hm => h hm) id

/-- Sending and electing, as a sequence of moves. -/
theorem Talk.moves {env : Env} {ks : List Kind} {hands : Handed → Prop} {n n' : Node}
    (h : Talk env.Lossless hands n n') : Moves (may env ks) hands n n' :=
  (Move.talk (fun hl => Or.inr ⟨rfl, hl⟩) h).moves

/-! ## The tables -/

theorem mem_addGroup (gs : List Bytes) (g x : Bytes) :
    x ∈ Node.addGroup gs g ↔ x ∈ gs ∨ x = g := by
  unfold Node.addGroup
  split
  · rename_i h
    exact ⟨Or.inl, fun hx => hx.elim id fun e => e ▸ h⟩
  · simp

theorem mem_discardGroup (gs : List Bytes) (g x : Bytes) :
    x ∈ Node.discardGroup gs g ↔ x ∈ gs ∧ x ≠ g := by
  simp [Node.discardGroup]

namespace Node

@[simp] theorem allocated_obj_self (n : Node) (p : Peer) : (n.allocated p).obj n.nextRef = p := by
  simp [allocated, alloc]

theorem allocated_obj (n : Node) (p : Peer) (s : Ref) :
    (n.allocated p).obj s = if s = n.nextRef then p else n.obj s := setObj_obj n n.nextRef s p

@[simp] theorem allocated_nextRef (n : Node) (p : Peer) :
    (n.allocated p).nextRef = n.nextRef + 1 := rfl

end Node

open Node in
theorem Tables.move {allow : Kind → Prop} {hands : Handed → Prop} {n n' : Node}
    (h : Move allow hands n n') (ht : Tables n) : Tables n' := by
  have hne : ∀ {r s : Ref} (p : Peer), s ≠ r → (n.setObj r p).obj s = n.obj s := fun p hs => by
    rw [setObj_obj, if_neg hs]
  cases h with
  | talk hL h => exact Tables.of_same (Same.of_talk h) ht
  | touch r p h => exact Tables.of_same (Same.setObj n r h.uuidHex h.groups) ht
  | hail ha k r p hk h => exact Tables.of_same (Same.setObj n r h.uuidHex h.groups) ht
  | emit e he =>
    exact Tables.of_same (n := n) ⟨rfl, rfl, rfl, le_rfl, fun _ _ => rfl, fun _ _ => rfl, fun _ _ => rfl⟩ ht
  | quiet h | books ha h hb =>
    rw [h]
    exact Tables.of_same (n := n) ⟨rfl, rfl, rfl, le_rfl, fun _ _ => rfl, fun _ _ => rfl, fun _ _ => rfl⟩ ht
  | waste p hd hc =>
    refine Tables.of_same (n := n)
      ⟨rfl, rfl, rfl, Nat.le_succ _, fun _ _ => rfl, fun r hr => ?_, fun r hr => ?_⟩ ht <;>
      rw [allocated_obj, if_neg (Nat.ne_of_lt hr)]
  | file ha env k addr port curve hk hown =>
    refine ht.file hk hown rfl rfl (fun j s => ?_) (Nat.le_succ _) (Nat.lt_succ_self _)
      (fun j hj => ?_) ?_ ?_ (fun s hs => ?_) (fun s hs => ?_) fun _ _ => rfl
    · exact ⟨fun hj => ⟨hj, Nat.ne_of_lt (ht.alloc j s (Or.inr hj))⟩, fun hj => hj.1⟩
    · exact absurd (ht.alloc j _ (Or.inl hj)) (Nat.lt_irrefl _)
    · exact congrArg Peer.uuidHex (allocated_obj_self n _)
    · exact congrArg Peer.groups (allocated_obj_self n _)
    · exact congrArg Peer.uuidHex (hne _ hs)
    · exact congrArg Peer.groups (hne _ hs)
  | dial ha env k addr port curve =>
    refine ht.dial rfl rfl rfl (Nat.le_succ _) (Nat.lt_succ_self _) le_rfl ?_ (fun s hs => ?_)
      (fun s hs => ?_) fun _ _ => rfl
    · exact congrArg Peer.groups (allocated_obj_self n _)
    · exact congrArg Peer.uuidHex (hne _ hs)
    · exact congrArg Peer.groups (hne _ hs)
  | adopt ha env k r rhex hp hk hown =>
    refine ht.file hk hown rfl rfl (fun j s => ?_) le_rfl (ht.alloc k r (Or.inr hp))
      (fun j hj => ht.apart j k r hj hp) ?_ ?_ (fun s hs => ?_) (fun s hs => ?_) fun _ _ => rfl
    · show (n.pending.pop k).get j = some s ↔ _
      rw [Dict.get_pop]
      constructor
      · intro hj
        split at hj
        · cases hj
        · rename_i hkj
          exact ⟨hj, fun e => hkj (ht.pendingInj k j r hp (e ▸ hj))⟩
      · rintro ⟨hj, hs⟩
        rw [if_neg, hj]
        rintro rfl
        rw [hp] at hj
        exact hs (Option.some.inj hj).symm
    · exact congrArg Peer.uuidHex (setObj_obj_self n r _)
    · exact (congrArg Peer.groups (setObj_obj_self n r _)).trans (ht.pendingIdle k r hp)
    · exact congrArg Peer.uuidHex (hne _ hs)
    · exact congrArg Peer.groups (hne _ hs)
  | enter ha k r g hk h hm =>
    have hobj : n'.obj = (n.setObj r { n.obj r with groups := addGroup (n.obj r).groups g }).obj := by
      rw [h]
    refine ht.enter hk (by rw [h]; rfl) (by rw [h]; rfl) (by rw [h]; rfl) (by rw [h]; rfl) (fun s => ?_)
      (fun x => ?_) (fun s hs => ?_) hm
    · rw [hobj]; exact setObj_congr Peer.uuidHex n r (by rfl) s
    · rw [hobj, setObj_obj_self]; exact mem_addGroup _ _ _
    · rw [hobj, hne _ hs]
  | leave ha k r g hk h hm =>
    have hobj : n'.obj =
        (n.setObj r { n.obj r with groups := discardGroup (n.obj r).groups g }).obj := by
      rw [h]
    refine ht.leave hk (by rw [h]; rfl) (by rw [h]; rfl) (by rw [h]; rfl) (by rw [h]; rfl) (fun s => ?_)
      (fun x => ?_) (fun s hs => ?_) hm
    · rw [hobj]; exact setObj_congr Peer.uuidHex n r (by rfl) s
    · rw [hobj, setObj_obj_self]; exact mem_discardGroup _ _ _
    · rw [hobj, hne _ hs]
  | forget ha k r hk h hm =>
    have hobj : n'.obj = (n.setObj r (n.obj r).disconnect).obj := by rw [h]
    refine ht.forget (k := k) (by rw [h]; rfl) (by rw [h]) (by rw [h]; rfl) (by rw [h]; rfl)
      (fun s => ?_) (fun s => ?_) hm
    · rw [hobj]; exact setObj_congr Peer.uuidHex n r (by rfl) s
    · rw [hobj]; exact setObj_congr Peer.groups n r (by rfl) s
  | dropDial ha k r hp =>
    exact ht.dropDial k rfl rfl rfl rfl (setObj_congr Peer.uuidHex n r (by rfl))
      (setObj_congr Peer.groups n r (by rfl)) fun _ _ => rfl

theorem Tables.quiet {n n' : Node} (ht : Tables n)
    (h : n' = { n with
      contestGroups := n'.contestGroups, evasiveEmitAt := n'.evasiveEmitAt
      peerServerKeys := n'.peerServerKeys, queue := n'.queue }) : Tables n' :=
  Tables.move (Move.quiet h : Move anything anything n n') ht

end Zre
