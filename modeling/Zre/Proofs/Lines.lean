import Zre.Proofs.HandlerMoves
import Zre.Proofs.RoundTrip

/-!
# Proofs: the lines of a node

What happens to the connections of a node and to the records that own them, and when. `Line` lists the
steps: a socket is opened for one `Peer` object and greeted at once, frames are handed to it, it is closed.
Unlike a `Move`, a line tells which frame, which key and which deadline it is about, and what event it is
due to.
-/

namespace Zre

open Fallible

namespace Peer

/-- What the lines see of a `Peer` object has not changed. -/
structure Wired (p q : Peer) : Prop where
  uuidHex : q.uuidHex = p.uuidHex
  addr : q.addr = p.addr
  port : q.port = p.port
  dealer : q.dealer = p.dealer
  connected : q.connected = p.connected
  ready : q.ready = p.ready
  sentSeq : q.sentSeq = p.sentSeq
  expiredAt : q.expiredAt = p.expiredAt

theorem Wired.refl (p : Peer) : p.Wired p := ⟨rfl, rfl, rfl, rfl, rfl, rfl, rfl, rfl⟩

theorem Wired.trans {p q s : Peer} (h1 : p.Wired q) (h2 : q.Wired s) : p.Wired s :=
  ⟨h2.uuidHex.trans h1.uuidHex, h2.addr.trans h1.addr, h2.port.trans h1.port, h2.dealer.trans h1.dealer,
    h2.connected.trans h1.connected, h2.ready.trans h1.ready, h2.sentSeq.trans h1.sentSeq,
    h2.expiredAt.trans h1.expiredAt⟩

/-- The object after a frame was handed to its socket. -/
def handed (p : Peer) (outcome : SendOutcome) : Peer :=
  if outcome = .again then { p with sentSeq := (p.sentSeq + 1) % 65536 }.disconnect
  else { p with sentSeq := (p.sentSeq + 1) % 65536 }

theorem handed_uuidHex (p : Peer) (o : SendOutcome) : (p.handed o).uuidHex = p.uuidHex := by
  unfold handed
  split <;> rfl

theorem handed_addr (p : Peer) (o : SendOutcome) : (p.handed o).addr = p.addr := by
  unfold handed
  split <;> rfl

theorem handed_port (p : Peer) (o : SendOutcome) : (p.handed o).port = p.port := by
  unfold handed
  split <;> rfl

theorem handed_expiredAt (p : Peer) (o : SendOutcome) : (p.handed o).expiredAt = p.expiredAt := by
  unfold handed
  split <;> rfl

theorem handed_sentSeq (p : Peer) (o : SendOutcome) :
    (p.handed o).sentSeq = (p.sentSeq + 1) % 65536 := by
  unfold handed
  split <;> rfl

/-- A full queue closes the socket; anything else leaves it. -/
theorem handed_dealer (p : Peer) (o : SendOutcome) :
    (p.handed o).dealer = if o = .again then none else p.dealer := by
  unfold handed
  split <;> rfl

theorem handed_connected (p : Peer) (o : SendOutcome) :
    (p.handed o).connected = if o = .again then false else p.connected := by
  unfold handed
  split <;> rfl

theorem handed_ready (p : Peer) (o : SendOutcome) :
    (p.handed o).ready = if o = .again then false else p.ready := by
  unfold handed
  split <;> rfl

end Peer

/-- The first frame is decoded to a message of this command and number. -/
def Handed.Says (h : Handed) (cmd : UInt8) (seq : ℕ) : Prop :=
  ∃ frame more fields, h.frames = frame :: more ∧
    Codec.decode frame = .ok (some ⟨cmd, zreVersion, seq, fields⟩)

/-- What the encoder returns is decoded to this command and to the number that it was given. -/
def Numbers (encode : ℕ → Except PyError Bytes) (cmd : UInt8) : Prop :=
  ∀ seq frame, encode seq = .ok frame →
    ∃ fields, Codec.decode frame = .ok (some ⟨cmd, zreVersion, seq, fields⟩)

theorem numbers_bare {cmd : UInt8} (h : Codec.Suits cmd .none) :
    Numbers (fun seq => Codec.encodeSimple cmd seq none none) cmd :=
  fun _ _ henc => ⟨_, (Codec.decode_encoded .none h henc).1⟩

theorem numbers_group (g : Bytes) :
    Numbers (fun seq => Codec.encodeSimple Cmd.shout seq (some g) none) Cmd.shout :=
  fun _ _ henc => ⟨_, (Codec.decode_encoded (.group g) rfl henc).1⟩

theorem numbers_groupStatus {cmd : UInt8} (h : cmd = Cmd.join ∨ cmd = Cmd.leave) (g : Bytes) (status : ℕ) :
    Numbers (fun seq => Codec.encodeSimple cmd seq (some g) (some status)) cmd :=
  fun _ _ henc => ⟨_, (Codec.decode_encoded (.groupStatus g status) h henc).1⟩

theorem numbers_election {cmd : UInt8} (h : cmd = Cmd.elect ∨ cmd = Cmd.leader) (g id : Bytes) :
    Numbers (fun seq => Codec.encodeElection cmd seq g id) cmd :=
  fun _ _ henc => ⟨_, (Codec.decode_encoded (.election g id) h henc).1⟩

theorem numbers_hello (env : Env) (n : Node) (r : Ref) : Numbers (n.helloFrame env r) Cmd.hello := by
  intro seq frame hframe
  obtain ⟨endpoint, -, henc⟩ := bind_eq_ok_iff.1 hframe
  exact ⟨_, (Codec.decode_encoded
    (.hello ⟨endpoint, n.ownGroups, n.status, n.cfg.name.raw, n.headers⟩) rfl henc).1⟩

/-- What an event tells a node. -/
structure Tidings where
  /-- The node is heard from. -/
  hears : Str → Prop
  /-- A host and port are to be dialled, for an announced id or for the application. -/
  dials : Option Str → Str → Int → Prop
  /-- A key is announced or given for an id or for a host and port. -/
  teaches : Str → Bytes → Prop

/-- An event that tells nothing. -/
def Tidings.silence : Tidings := ⟨fun _ => False, fun _ _ _ => False, fun _ _ => False⟩

namespace Node

/-- Hand `h` to the socket of the object `r`. -/
def hand (n : Node) (r : Ref) (h : Handed) : Node :=
  { n.setObj r ((n.obj r).handed h.outcome) with outbox := n.outbox ++ [h] }

/-- The socket that a dial opens. -/
def lineTo (n : Node) (addr : Str) (port : Int) (rhex : Option Str) : Dealer :=
  { sock := n.sockets
    identity := 1 :: n.cfg.peerId
    addr, port
    curve := n.dialCurve addr port rhex }

theorem dialled_dealer (env : Env) (n : Node) (uuidHex addr : Str) (port : Int) (rhex : Option Str) :
    (n.dialled env uuidHex addr port rhex).dealer = some (n.lineTo addr port rhex) := rfl

/-- A new object is filed in the peer table. -/
def filed (n : Node) (k : Str) (p : Peer) : Node :=
  { n with
    peers := n.peers.set k n.nextRef
    obj := Function.update n.obj n.nextRef p
    nextRef := n.nextRef + 1
    sockets := n.sockets + 1 }

/-- A new object is filed as a pending dial. -/
def awaited (n : Node) (k : Str) (p : Peer) : Node :=
  { n with
    pending := n.pending.set k n.nextRef
    obj := Function.update n.obj n.nextRef p
    nextRef := n.nextRef + 1
    sockets := n.sockets + 1 }

/-- Nothing has changed but what the lines do not see. -/
structure Idle (n n' : Node) : Prop where
  rest : n' = { n with
    headers := n'.headers, groups := n'.groups, ownGroups := n'.ownGroups
    contestGroups := n'.contestGroups, obj := n'.obj, status := n'.status
    evasiveEmitAt := n'.evasiveEmitAt, events := n'.events, queue := n'.queue }
  obj : ∀ r, (n.obj r).Wired (n'.obj r)

theorem Idle.refl (n : Node) : Idle n n := ⟨rfl, fun r => Peer.Wired.refl (n.obj r)⟩

theorem Idle.setObj (n : Node) (r : Ref) {p : Peer} (h : (n.obj r).Wired p) : Idle n (n.setObj r p) := by
  refine ⟨rfl, fun s => ?_⟩
  rw [setObj_obj]
  split
  · rename_i hs
    exact hs ▸ h
  · exact Peer.Wired.refl _

/-- One step on the lines of a node. -/
inductive Line (env : Env) (w : Tidings) (n : Node) : Node → Prop where
  | idle {n' : Node} (h : Idle n n') : Line env w n n'
  | learn {keys : Dict Str Bytes}
      (h : ∀ x, keys.get x = n.peerServerKeys.get x ∨ ∃ key, keys.get x = some key ∧ w.teaches x key) :
      Line env w n { n with peerServerKeys := keys }
  | hail (k : Str) (r : Ref) (p : Peer) (hk : n.peers.get k = some r)
      (hp : { n.obj r with ready := true }.Wired p) : Line env w n (n.setObj r p)
  | refresh (k : Str) (r : Ref) (hk : n.peers.get k = some r) (hh : w.hears k) :
      Line env w n (n.refreshPeer env r)
  | hand (r : Ref) (h : Handed) (cmd : UInt8) (hc : (n.obj r).connected = true)
      (hd : (n.obj r).dealer = some h.dealer) (hs : h.Says cmd (((n.obj r).sentSeq + 1) % 65536)) :
      Line env w n (n.hand r h)
  | waste (uuidHex addr : Str) (port : Int) : Line env w n (n.allocated (Peer.new uuidHex addr port))
  | greet (k addr : Str) (port : Int) (p : Peer) (h : Handed) (hk : n.peers.get k = none)
      (hh : w.hears k) (hw : w.dials (some k) addr port)
      (hl : ∀ key, w.teaches k key → n.peerServerKeys.get k = some key) (hs : n.Secured addr port (some k))
      (hp : (n.dialled env k addr port (some k)).Wired { p with ready := false })
      (hd : p.dealer = some h.dealer) (hmsg : h.Says Cmd.hello 1) :
      Line env w n ((n.filed k p).hand n.nextRef h)
  | call (k addr : Str) (port : Int) (h : Handed) (hk : n.pending.get k = none)
      (hw : w.dials none addr port) (hs : n.Secured addr port none)
      (hd : (n.dialled env k addr port none).dealer = some h.dealer) (hmsg : h.Says Cmd.hello 1) :
      Line env w n ((n.awaited k (n.dialled env k addr port none)).hand n.nextRef h)
  | adopt (k : Str) (r : Ref) (rhex : Str) (hp : n.pending.get k = some r)
      (hk : n.peers.get rhex = none) (hh : w.hears rhex) : Line env w n (n.adoptUnder env k r rhex)
  | forget (k : Str) (r : Ref) (hk : n.peers.get k = some r) :
      Line env w n { n.setObj r (n.obj r).disconnect with peers := n.peers.pop k }
  | drop (k : Str) (r : Ref) (hp : n.pending.get k = some r) :
      Line env w n { n.setObj r (n.obj r).disconnect with pending := n.pending.pop k }

/-- A sequence of steps on the lines. -/
def Lines (env : Env) (w : Tidings) : Node → Node → Prop := Relation.ReflTransGen (Line env w)

section Lines

variable {env : Env} {w : Tidings} {n n' n'' : Node}

theorem Lines.refl (n : Node) : Lines env w n n := Relation.ReflTransGen.refl

theorem Lines.trans (h1 : Lines env w n n') (h2 : Lines env w n' n'') : Lines env w n n'' :=
  Relation.ReflTransGen.trans h1 h2

theorem Line.lines (h : Line env w n n') : Lines env w n n' := Relation.ReflTransGen.single h

theorem Idle.lines (h : Idle n n') : Lines env w n n' := (Line.idle h).lines

/-- What each step preserves is preserved by every sequence of steps. -/
theorem Lines.invariant {I : Node → Prop} (hstep : ∀ {n n'}, Line env w n n' → I n → I n')
    (h : Lines env w n n') (hn : I n) : I n' := by
  induction h with
  | refl => exact hn
  | tail _ hl ih => exact hstep hl ih

end Lines

/-! ## What a step leaves alone -/

section Frame

variable {env : Env} {w : Tidings} {n n' : Node}

section Hand

variable (n : Node) (r : Ref) (h : Handed)

@[simp] theorem hand_cfg : (n.hand r h).cfg = n.cfg := rfl

@[simp] theorem hand_running : (n.hand r h).running = n.running := rfl

@[simp] theorem hand_peers : (n.hand r h).peers = n.peers := rfl

@[simp] theorem hand_pending : (n.hand r h).pending = n.pending := rfl

@[simp] theorem hand_nextRef : (n.hand r h).nextRef = n.nextRef := rfl

@[simp] theorem hand_sockets : (n.hand r h).sockets = n.sockets := rfl

@[simp] theorem hand_peerServerKeys : (n.hand r h).peerServerKeys = n.peerServerKeys := rfl

@[simp] theorem hand_outbox : (n.hand r h).outbox = n.outbox ++ [h] := rfl

end Hand

section New

variable (n : Node) (k : Str) (p : Peer)

@[simp] theorem filed_cfg : (n.filed k p).cfg = n.cfg := rfl

@[simp] theorem filed_running : (n.filed k p).running = n.running := rfl

@[simp] theorem filed_peers : (n.filed k p).peers = n.peers.set k n.nextRef := rfl

@[simp] theorem filed_pending : (n.filed k p).pending = n.pending := rfl

@[simp] theorem filed_nextRef : (n.filed k p).nextRef = n.nextRef + 1 := rfl

@[simp] theorem filed_sockets : (n.filed k p).sockets = n.sockets + 1 := rfl

@[simp] theorem filed_peerServerKeys : (n.filed k p).peerServerKeys = n.peerServerKeys := rfl

@[simp] theorem filed_outbox : (n.filed k p).outbox = n.outbox := rfl

theorem filed_obj (s : Ref) : (n.filed k p).obj s = if s = n.nextRef then p else n.obj s :=
  allocated_obj n p s

@[simp] theorem awaited_cfg : (n.awaited k p).cfg = n.cfg := rfl

@[simp] theorem awaited_running : (n.awaited k p).running = n.running := rfl

@[simp] theorem awaited_peers : (n.awaited k p).peers = n.peers := rfl

@[simp] theorem awaited_pending : (n.awaited k p).pending = n.pending.set k n.nextRef := rfl

@[simp] theorem awaited_nextRef : (n.awaited k p).nextRef = n.nextRef + 1 := rfl

@[simp] theorem awaited_sockets : (n.awaited k p).sockets = n.sockets + 1 := rfl

@[simp] theorem awaited_peerServerKeys : (n.awaited k p).peerServerKeys = n.peerServerKeys := rfl

@[simp] theorem awaited_outbox : (n.awaited k p).outbox = n.outbox := rfl

theorem awaited_obj (s : Ref) : (n.awaited k p).obj s = if s = n.nextRef then p else n.obj s :=
  allocated_obj n p s

end New

theorem hand_obj (n : Node) (r s : Ref) (h : Handed) :
    (n.hand r h).obj s = if s = r then (n.obj r).handed h.outcome else n.obj s := setObj_obj n r s _

/-- A field that sending does not write. -/
theorem hand_congr {α : Type} (f : Peer → α) (hf : ∀ p o, f (Peer.handed p o) = f p) (n : Node) (r : Ref)
    (h : Handed) (s : Ref) : f ((n.hand r h).obj s) = f (n.obj s) := by
  rw [hand_obj]
  split
  · rename_i hs
    rw [hf, hs]
  · rfl

theorem Line.cfg (h : Line env w n n') : n'.cfg = n.cfg := by
  cases h with
  | idle h => rw [h.rest]
  | greet | call => simp
  | learn | hail | refresh | hand | waste | adopt | forget | drop => rfl

theorem Lines.cfg (h : Lines env w n n') : n'.cfg = n.cfg :=
  h.invariant (I := fun m => m.cfg = n.cfg) (fun hl hc => hl.cfg.trans hc) rfl

theorem Line.running (h : Line env w n n') : n'.running = n.running := by
  cases h with
  | idle h => rw [h.rest]
  | greet | call => simp
  | learn | hail | refresh | hand | waste | adopt | forget | drop => rfl

/-- The keys that a sequence of steps leaves were known before or are taught by the event. -/
theorem Lines.keys (h : Lines env w n n') (x : Str) :
    n'.peerServerKeys.get x = n.peerServerKeys.get x ∨
      ∃ key, n'.peerServerKeys.get x = some key ∧ w.teaches x key := by
  refine h.invariant (I := fun m => m.peerServerKeys.get x = n.peerServerKeys.get x ∨
    ∃ key, m.peerServerKeys.get x = some key ∧ w.teaches x key) (fun {m m'} hl hm => ?_) (Or.inl rfl)
  cases hl with
  | idle h =>
    rw [h.rest]
    exact hm
  | @learn keys h =>
    rcases h x with hx | hx
    · exact hx ▸ hm
    · exact Or.inr hx
  | greet | call => simpa using hm
  | hail | refresh | hand | waste | adopt | forget | drop => exact hm

end Frame

/-! ## The tables -/

/-- The objects in the tables exist, each has one place, and the peers know their ids. -/
structure Filed (n : Node) : Prop where
  key : ∀ k r, n.peers.get k = some r → (n.obj r).uuidHex = k
  apart : ∀ k k' r, n.peers.get k = some r → n.pending.get k' ≠ some r
  alloc : ∀ k r, n.peers.get k = some r ∨ n.pending.get k = some r → r < n.nextRef
  pendingInj : ∀ k k' r, n.pending.get k = some r → n.pending.get k' = some r → k = k'

theorem Filed.of_tables {n : Node} (ht : Tables n) : Filed n := ⟨ht.key, ht.apart, ht.alloc, ht.pendingInj⟩

section Filed

variable {env : Env} {w : Tidings} {n n' : Node}

theorem Filed.inj (hf : Filed n) {k k' : Str} {r : Ref} (hk : n.peers.get k = some r)
    (hk' : n.peers.get k' = some r) : k = k' := (hf.key k r hk).symm.trans (hf.key k' r hk')

/-- Nothing was filed. -/
theorem Filed.sub (hf : Filed n) (hp : ∀ k r, n'.peers.get k = some r → n.peers.get k = some r)
    (hq : ∀ k r, n'.pending.get k = some r → n.pending.get k = some r) (hn : n.nextRef ≤ n'.nextRef)
    (hu : ∀ r, r < n.nextRef → (n'.obj r).uuidHex = (n.obj r).uuidHex) : Filed n' := by
  constructor
  · intro k r hk
    rw [hu r (hf.alloc k r (Or.inl (hp k r hk)))]
    exact hf.key k r (hp k r hk)
  · exact fun k k' r hk hk' => hf.apart k k' r (hp k r hk) (hq k' r hk')
  · exact fun k r hk => lt_of_lt_of_le (hf.alloc k r (hk.imp (hp k r) (hq k r))) hn
  · exact fun k k' r hk hk' => hf.pendingInj k k' r (hq k r hk) (hq k' r hk')

theorem Filed.setObj (hf : Filed n) (r : Ref) {p : Peer} (h : p.uuidHex = (n.obj r).uuidHex) :
    Filed (n.setObj r p) :=
  hf.sub (fun _ _ => id) (fun _ _ => id) le_rfl fun s _ => setObj_congr Peer.uuidHex n r h s

theorem Filed.allocated (hf : Filed n) (p : Peer) : Filed (n.allocated p) := by
  refine hf.sub (fun _ _ => id) (fun _ _ => id) (Nat.le_succ _) fun s hs => ?_
  rw [allocated_obj, if_neg (Nat.ne_of_lt hs)]

/-- An object that was in neither table, or was pending, is filed under an id. -/
theorem Filed.file (hf : Filed n) {k : Str} {r : Ref} (hr : r < n'.nextRef)
    (hold : ∀ j, n.peers.get j ≠ some r) (hp : n'.peers = n.peers.set k r)
    (hq : ∀ j s, n'.pending.get j = some s → n.pending.get j = some s ∧ s ≠ r)
    (hn : n.nextRef ≤ n'.nextRef) (hk : (n'.obj r).uuidHex = k)
    (hu : ∀ s, s < n.nextRef → s ≠ r → (n'.obj s).uuidHex = (n.obj s).uuidHex) : Filed n' := by
  have hget : ∀ j s, n'.peers.get j = some s → (j = k ∧ s = r) ∨ n.peers.get j = some s := by
    intro j s hj
    rw [hp, Dict.get_set] at hj
    split at hj
    · rename_i hkj
      cases hj
      exact Or.inl ⟨hkj.symm, rfl⟩
    · exact Or.inr hj
  constructor
  · intro j s hj
    rcases hget j s hj with ⟨rfl, rfl⟩ | hj
    · exact hk
    · rw [hu s (hf.alloc j s (Or.inl hj)) fun e => hold j (e ▸ hj)]
      exact hf.key j s hj
  · intro j j' s hj hj'
    rcases hget j s hj with ⟨-, rfl⟩ | hj
    · exact (hq j' s hj').2 rfl
    · exact hf.apart j j' s hj (hq j' s hj').1
  · intro j s hj
    rcases hj with hj | hj
    · rcases hget j s hj with ⟨-, rfl⟩ | hj
      · exact hr
      · exact lt_of_lt_of_le (hf.alloc j s (Or.inl hj)) hn
    · exact lt_of_lt_of_le (hf.alloc j s (Or.inr (hq j s hj).1)) hn
  · exact fun j j' s hj hj' => hf.pendingInj j j' s (hq j s hj).1 (hq j' s hj').1

/-- A new object is filed as a pending dial. -/
theorem Filed.dial (hf : Filed n) {k : Str} (hp : n'.peers = n.peers)
    (hq : n'.pending = n.pending.set k n.nextRef) (hn : n'.nextRef = n.nextRef + 1)
    (hu : ∀ s, s < n.nextRef → (n'.obj s).uuidHex = (n.obj s).uuidHex) : Filed n' := by
  have hget : ∀ j s, n'.pending.get j = some s →
      (j = k ∧ s = n.nextRef) ∨ n.pending.get j = some s ∧ s < n.nextRef := by
    intro j s hj
    rw [hq, Dict.get_set] at hj
    split at hj
    · rename_i hkj
      cases hj
      exact Or.inl ⟨hkj.symm, rfl⟩
    · exact Or.inr ⟨hj, hf.alloc j s (Or.inr hj)⟩
  constructor
  · intro j s hj
    rw [hp] at hj
    rw [hu s (hf.alloc j s (Or.inl hj))]
    exact hf.key j s hj
  · intro j j' s hj hj'
    rw [hp] at hj
    rcases hget j' s hj' with ⟨-, rfl⟩ | ⟨hj', -⟩
    · exact absurd (hf.alloc j _ (Or.inl hj)) (Nat.lt_irrefl _)
    · exact hf.apart j j' s hj hj'
  · intro j s hj
    rw [hp] at hj
    rw [hn]
    rcases hj with hj | hj
    · exact Nat.lt_succ_of_lt (hf.alloc j s (Or.inl hj))
    · rcases hget j s hj with ⟨-, rfl⟩ | ⟨-, hs⟩
      · exact Nat.lt_succ_self _
      · exact Nat.lt_succ_of_lt hs
  · intro j j' s hj hj'
    rcases hget j s hj with ⟨hjk, hs⟩ | ⟨hj, hs⟩ <;> rcases hget j' s hj' with ⟨hjk', hs'⟩ | ⟨hj', hs'⟩
    · rw [hjk, hjk']
    · exact absurd hs (Nat.ne_of_lt hs')
    · exact absurd hs' (Nat.ne_of_lt hs)
    · exact hf.pendingInj j j' s hj hj'

/-- What is left in a table after an object was taken out. -/
theorem get_pop_iff {d : Dict Str Ref} {k j : Str} {r s : Ref} (hk : d.get k = some r)
    (hinj : d.get j = some r → j = k) :
    (d.pop k).get j = some s ↔ d.get j = some s ∧ s ≠ r := by
  rw [Dict.get_pop]
  constructor
  · intro hj
    split at hj
    · cases hj
    · rename_i hkj
      refine ⟨hj, ?_⟩
      rintro rfl
      exact hkj (hinj hj).symm
  · rintro ⟨hj, hs⟩
    rw [if_neg, hj]
    rintro rfl
    rw [hk] at hj
    exact hs (Option.some.inj hj).symm

theorem Filed.pending_pop (hf : Filed n) {k : Str} {r : Ref} (hk : n.pending.get k = some r) (j : Str) (s : Ref) :
    (n.pending.pop k).get j = some s ↔ n.pending.get j = some s ∧ s ≠ r :=
  get_pop_iff hk fun hj => hf.pendingInj j k r hj hk

theorem Filed.peers_pop (hf : Filed n) {k : Str} {r : Ref} (hk : n.peers.get k = some r) (j : Str) (s : Ref) :
    (n.peers.pop k).get j = some s ↔ n.peers.get j = some s ∧ s ≠ r :=
  get_pop_iff hk fun hj => hf.inj hj hk

theorem Filed.line (h : Line env w n n') (hf : Filed n) : Filed n' := by
  cases h with
  | idle h =>
    have hrest := h.rest
    refine hf.sub ?_ ?_ ?_ fun r _ => (h.obj r).uuidHex
    · intro k r hk
      rwa [hrest] at hk
    · intro k r hk
      rwa [hrest] at hk
    · rw [hrest]
  | learn => exact hf.sub (fun _ _ => id) (fun _ _ => id) le_rfl fun _ _ => rfl
  | hail k r p hk hp => exact hf.setObj r hp.uuidHex
  | refresh k r hk hh => exact hf.setObj r rfl
  | hand r h cmd hc hd hs =>
    exact (hf.setObj r (Peer.handed_uuidHex _ h.outcome)).sub (fun _ _ => id) (fun _ _ => id) le_rfl
      fun _ _ => rfl
  | waste uuidHex addr port => exact hf.allocated _
  | greet k addr port p h hk hh hw hl hs hp hd hmsg =>
    have hobj := hand_congr Peer.uuidHex Peer.handed_uuidHex (n.filed k p) n.nextRef h
    refine hf.file (k := k) (r := n.nextRef) (by simp) ?_ (by simp) ?_ (by simp) ?_ ?_
    · exact fun j hj => absurd (hf.alloc j _ (Or.inl hj)) (Nat.lt_irrefl _)
    · intro j s hj
      rw [hand_pending, filed_pending] at hj
      exact ⟨hj, Nat.ne_of_lt (hf.alloc j s (Or.inr hj))⟩
    · rw [hobj, filed_obj, if_pos rfl]
      exact hp.uuidHex
    · intro s _ hs
      rw [hobj, filed_obj, if_neg hs]
  | call k addr port h hk hw hs hd hmsg =>
    refine hf.dial (k := k) (by simp) (by simp) (by simp) fun s hs => ?_
    rw [hand_congr Peer.uuidHex Peer.handed_uuidHex, awaited_obj, if_neg (Nat.ne_of_lt hs)]
  | adopt k r rhex hp hk hh =>
    refine hf.file (hf.alloc k r (Or.inr hp)) (fun j hj => hf.apart j k r hj hp) rfl
      (fun j s hj => (hf.pending_pop hp j s).1 hj) le_rfl ?_ ?_
    · exact congrArg Peer.uuidHex (setObj_obj_self n r _)
    · intro s _ hs
      show ((n.setObj r _).obj s).uuidHex = _
      rw [setObj_obj, if_neg hs]
  | forget k r hk =>
    exact (hf.setObj r (p := (n.obj r).disconnect) rfl).sub (fun j s hj => ((hf.peers_pop hk j s).1 hj).1)
      (fun _ _ => id) le_rfl fun _ _ => rfl
  | drop k r hp =>
    exact (hf.setObj r (p := (n.obj r).disconnect) rfl).sub (fun _ _ => id)
      (fun j s hj => ((hf.pending_pop hp j s).1 hj).1) le_rfl fun _ _ => rfl

theorem Filed.lines (h : Lines env w n n') (hf : Filed n) : Filed n' :=
  h.invariant (fun hl hf => hf.line hl) hf

end Filed

end Node

end Zre
