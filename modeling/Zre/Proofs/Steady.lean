import Zre.Proofs.Membership

/-!
# Proofs: moves that keep the peer table

Most moves neither add nor remove an entry of the two peer tables, and leave alone how an entry is
dialled and whether it is ready. `Steady` collects what is then the same.
-/

namespace Zre

open Fallible

/-- The ENTER events of the peer `x`. -/
def Event.Enters (x : Str) : Event → Bool
  | .enter peerId _ _ => peerId = x
  | _ => false

/-- How often the node announced the peer `x`. -/
def Node.enters (n : Node) (x : Str) : Nat := n.events.countP (Event.Enters x)

/-- What the tables say about the peers that were known is the same. -/
structure Steady (n n' : Node) : Prop where
  cfg : n'.cfg = n.cfg
  running : n'.running = n.running
  peers : n'.peers = n.peers
  pending : n'.pending = n.pending
  nextRef : n.nextRef ≤ n'.nextRef
  address : ∀ r, r < n.nextRef →
    (n'.obj r).addr = (n.obj r).addr ∧ (n'.obj r).port = (n.obj r).port
  connected : ∀ r, r < n.nextRef → (n'.obj r).connected = (n.obj r).connected
  ready : ∀ r, r < n.nextRef → (n'.obj r).ready = (n.obj r).ready
  enters : ∀ x, n'.enters x = n.enters x

namespace Steady

theorem refl (n : Node) : Steady n n :=
  ⟨rfl, rfl, rfl, rfl, le_rfl, fun _ _ => ⟨rfl, rfl⟩, fun _ _ => rfl, fun _ _ => rfl, fun _ => rfl⟩

theorem trans {n n' n'' : Node} (h1 : Steady n n') (h2 : Steady n' n'') : Steady n n'' := by
  have hlt : ∀ {r}, r < n.nextRef → r < n'.nextRef := fun hr => Nat.lt_of_lt_of_le hr h1.nextRef
  refine ⟨h2.cfg.trans h1.cfg, h2.running.trans h1.running, h2.peers.trans h1.peers,
    h2.pending.trans h1.pending, Nat.le_trans h1.nextRef h2.nextRef, fun r hr => ⟨?_, ?_⟩,
    fun r hr => (h2.connected r (hlt hr)).trans (h1.connected r hr),
    fun r hr => (h2.ready r (hlt hr)).trans (h1.ready r hr),
    fun x => (h2.enters x).trans (h1.enters x)⟩
  · exact (h2.address r (hlt hr)).1.trans (h1.address r hr).1
  · exact (h2.address r (hlt hr)).2.trans (h1.address r hr).2

/-- A write to an object that keeps what the tables say about it. -/
theorem setObj (n : Node) (r : Ref) {p : Peer}
    (ha : p.addr = (n.obj r).addr ∧ p.port = (n.obj r).port)
    (hc : p.connected = (n.obj r).connected) (hr : p.ready = (n.obj r).ready) :
    Steady n (n.setObj r p) :=
  ⟨rfl, rfl, rfl, rfl, le_rfl,
    fun s _ => ⟨Node.setObj_congr Peer.addr n r ha.1 s, Node.setObj_congr Peer.port n r ha.2 s⟩,
    fun s _ => Node.setObj_congr Peer.connected n r hc s,
    fun s _ => Node.setObj_congr Peer.ready n r hr s, fun _ => rfl⟩

theorem of_talk {K : Handed → Prop} {n n' : Node} {L : Prop} (hL : L) (h : Talk L K n n') :
    Steady n n' := by
  refine ⟨h.cfg, h.running, h.peers, h.pending, Nat.le_of_eq h.nextRef.symm, fun r _ => ?_,
    fun r _ => ?_, fun r _ => ?_, fun x => ?_⟩
  · exact (h.obj r).address
  · obtain ⟨s, hs⟩ := (h.obj r).of_lossless hL
    rw [hs]
  · obtain ⟨s, hs⟩ := (h.obj r).of_lossless hL
    rw [hs]
  · obtain ⟨l, hl, hlead⟩ := h.events
    unfold Node.enters
    have hnone : l.countP (Event.Enters x) = 0 := by
      refine List.countP_eq_zero.2 fun e he => ?_
      cases e <;> first | exact Bool.false_ne_true | exact (hlead _ he).elim
    rw [hl, List.countP_append, hnone, Nat.add_zero]

end Steady

/-- The moves of no kind but `books`, `enter` and `leave` are steady. -/
theorem Move.steady {allow : Kind → Prop} {hands : Handed → Prop} {n n' : Node}
    (hcl : ¬ allow .close) (hf : ¬ allow .forget) (hm : ¬ allow .meet) (hh : ¬ allow .hail)
    (h : Move allow hands n n') : Steady n n' := by
  cases h with
  | talk hL h => exact Steady.of_talk (Classical.byContradiction fun hl => hcl (hL hl)) h
  | touch r p h => exact Steady.setObj n r h.address h.connected h.ready
  | hail ha k r p hk h => exact absurd ha hh
  | quiet h =>
    rw [h]
    exact ⟨rfl, rfl, rfl, rfl, le_rfl, fun _ _ => ⟨rfl, rfl⟩, fun _ _ => rfl, fun _ _ => rfl,
      fun _ => rfl⟩
  | books ha h hb =>
    rw [h]
    exact ⟨rfl, rfl, rfl, rfl, le_rfl, fun _ _ => ⟨rfl, rfl⟩, fun _ _ => rfl, fun _ _ => rfl,
      fun _ => rfl⟩
  | emit e he =>
    refine ⟨rfl, rfl, rfl, rfl, le_rfl, fun _ _ => ⟨rfl, rfl⟩, fun _ _ => rfl, fun _ _ => rfl,
      fun x => ?_⟩
    have hx : Event.Enters x e = false := by
      cases e <;> first | rfl | exact absurd (he trivial) hh
    simp [Node.enters, Node.emit, List.countP_append, hx]
  | waste p hd hc =>
    have hne : ∀ {r}, r < n.nextRef → (n.allocated p).obj r = n.obj r := fun hr => by
      rw [Node.allocated_obj, if_neg (Nat.ne_of_lt hr)]
    refine ⟨rfl, rfl, rfl, rfl, Nat.le_succ _, fun r hr => ?_, fun r hr => ?_, fun r hr => ?_,
      fun _ => rfl⟩ <;> rw [hne hr]
    exact ⟨rfl, rfl⟩
  | file ha | dial ha | adopt ha => exact absurd ha hm
  | enter ha k r g hk h hm =>
    have hs : Steady n (n.setObj r { n.obj r with groups := Node.addGroup (n.obj r).groups g }) :=
      Steady.setObj n r ⟨rfl, rfl⟩ rfl rfl
    rw [h]
    exact ⟨rfl, rfl, rfl, rfl, le_rfl, hs.address, hs.connected, hs.ready, fun _ => rfl⟩
  | leave ha k r g hk h hm =>
    have hs : Steady n (n.setObj r { n.obj r with groups := Node.discardGroup (n.obj r).groups g }) :=
      Steady.setObj n r ⟨rfl, rfl⟩ rfl rfl
    rw [h]
    exact ⟨rfl, rfl, rfl, rfl, le_rfl, hs.address, hs.connected, hs.ready, fun _ => rfl⟩
  | forget ha | dropDial ha => exact absurd ha hf

/-- So are sequences of them, when no send fails. -/
theorem Moves.steady {env : Env} (hl : env.Lossless) {ks : List Kind} {hands : Handed → Prop}
    {n n' : Node} (hf : .forget ∉ ks) (hc : .close ∉ ks) (hm : .meet ∉ ks) (hh : .hail ∉ ks)
    (h : Moves (may env ks) hands n n') : Steady n n' := by
  have hnot : ∀ {k : Kind}, k ∉ ks → ¬ may env ks k := fun hk hmay =>
    hmay.elim hk fun hcl => hcl.2 hl
  induction h with
  | refl => exact Steady.refl n
  | tail _ hmove ih =>
    exact ih.trans (hmove.steady (hnot hc) (hnot hf) (hnot hm) (hnot hh))

/-- An entry that is still there is as it was. -/
structure Fades (n n' : Node) : Prop where
  peers : ∀ k r, n'.peers.get k = some r → n.peers.get k = some r
  pending : ∀ k r, n'.pending.get k = some r → n.pending.get k = some r
  address : ∀ k r, n'.peers.get k = some r ∨ n'.pending.get k = some r →
    (n'.obj r).addr = (n.obj r).addr ∧ (n'.obj r).port = (n.obj r).port
  connected : ∀ k r, n'.peers.get k = some r ∨ n'.pending.get k = some r →
    (n'.obj r).connected = (n.obj r).connected
  ready : ∀ k r, n'.peers.get k = some r ∨ n'.pending.get k = some r →
    (n'.obj r).ready = (n.obj r).ready
  enters : ∀ x, n'.enters x = n.enters x

namespace Fades

theorem refl (n : Node) : Fades n n :=
  ⟨fun _ _ => id, fun _ _ => id, fun _ _ _ => ⟨rfl, rfl⟩, fun _ _ _ => rfl, fun _ _ _ => rfl,
    fun _ => rfl⟩

theorem trans {n n' n'' : Node} (h1 : Fades n n') (h2 : Fades n' n'') : Fades n n'' := by
  have hold : ∀ {k r}, n''.peers.get k = some r ∨ n''.pending.get k = some r →
      n'.peers.get k = some r ∨ n'.pending.get k = some r := fun h =>
    h.imp (h2.peers _ _) (h2.pending _ _)
  refine ⟨fun k r h => h1.peers k r (h2.peers k r h), fun k r h => h1.pending k r (h2.pending k r h),
    fun k r h => ⟨?_, ?_⟩, fun k r h => (h2.connected k r h).trans (h1.connected k r (hold h)),
    fun k r h => (h2.ready k r h).trans (h1.ready k r (hold h)),
    fun x => (h2.enters x).trans (h1.enters x)⟩
  · exact (h2.address k r h).1.trans (h1.address k r (hold h)).1
  · exact (h2.address k r h).2.trans (h1.address k r (hold h)).2

theorem of_steady {n n' : Node} (ht : Tables n) (hs : Steady n n') : Fades n n' := by
  have hlt : ∀ {k r}, n'.peers.get k = some r ∨ n'.pending.get k = some r → r < n.nextRef := by
    intro k r h
    rw [hs.peers, hs.pending] at h
    exact ht.alloc k r h
  exact ⟨fun k r h => by rw [hs.peers] at h; exact h, fun k r h => by rw [hs.pending] at h; exact h,
    fun k r h => hs.address r (hlt h), fun k r h => hs.connected r (hlt h),
    fun k r h => hs.ready r (hlt h), hs.enters⟩

/-- Entries are taken out, and one object that is in no table any more is closed. -/
theorem of_closed {n n' : Node} (r : Ref)
    (hp : ∀ k s, n'.peers.get k = some s → n.peers.get k = some s ∧ s ≠ r)
    (hq : ∀ k s, n'.pending.get k = some s → n.pending.get k = some s ∧ s ≠ r)
    (hobj : n'.obj = (n.setObj r (n.obj r).disconnect).obj) (he : n'.events = n.events) :
    Fades n n' := by
  have hsame : ∀ {k s}, n'.peers.get k = some s ∨ n'.pending.get k = some s →
      n'.obj s = n.obj s := by
    intro k s h
    rw [hobj, Node.setObj_obj, if_neg (h.elim (fun h => (hp k s h).2) fun h => (hq k s h).2)]
  exact ⟨fun k s h => (hp k s h).1, fun k s h => (hq k s h).1,
    fun k s h => by rw [hsame h]; exact ⟨rfl, rfl⟩, fun k s h => by rw [hsame h],
    fun k s h => by rw [hsame h], fun x => by simp [Node.enters, he]⟩

end Fades

/-- Moves that give up peers and dials only take entries out. -/
theorem Move.fades {allow : Kind → Prop} {hands : Handed → Prop} {n n' : Node} (ht : Tables n)
    (hcl : ¬ allow .close) (hm : ¬ allow .meet) (hh : ¬ allow .hail) (h : Move allow hands n n') :
    Fades n n' := by
  cases h with
  | forget ha k r hk h hmem =>
    refine Fades.of_closed r (fun j s hs => ?_) (fun j s hs => ?_) (by rw [h]) (by rw [h]; rfl)
    · rw [h] at hs
      change (n.peers.pop k).get j = some s at hs
      rw [Dict.get_pop] at hs
      split at hs
      · cases hs
      · rename_i hj
        exact ⟨hs, fun e => hj ((ht.key k r hk).symm.trans (ht.key j r (e ▸ hs)))⟩
    · rw [h] at hs
      exact ⟨hs, fun e => ht.apart k j r hk (e ▸ hs)⟩
  | dropDial ha k r hp =>
    refine Fades.of_closed r (fun j s hs => ?_) (fun j s hs => ?_) rfl rfl
    · exact ⟨hs, fun e => ht.apart j k r (e ▸ hs) hp⟩
    · change (n.pending.pop k).get j = some s at hs
      rw [Dict.get_pop] at hs
      split at hs
      · cases hs
      · rename_i hj
        exact ⟨hs, fun e => hj (ht.pendingInj k j r hp (e ▸ hs))⟩
  | talk hL h =>
    have hmove : Move (fun _ => False) hands n n' := .talk (fun hl => hcl (hL hl)) h
    exact Fades.of_steady ht (hmove.steady id id id id)
  | touch r p h => exact Fades.of_steady ht (Steady.setObj n r h.address h.connected h.ready)
  | hail ha => exact absurd ha hh
  | file ha | dial ha | adopt ha => exact absurd ha hm
  | quiet h =>
    have hmove : Move (fun _ => False) hands n n' := .quiet h
    exact Fades.of_steady ht (hmove.steady id id id id)
  | books ha h hb =>
    have hmove : Move (fun k => k = .books) hands n n' := .books rfl h hb
    exact Fades.of_steady ht (hmove.steady (by simp) (by simp) (by simp) (by simp))
  | emit e he =>
    have hmove : Move (fun _ => False) hands n _ := .emit e fun h => hh (he h)
    exact Fades.of_steady ht (hmove.steady id id id id)
  | waste p hd hc =>
    have hmove : Move (fun _ => False) hands n _ := .waste p hd hc
    exact Fades.of_steady ht (hmove.steady id id id id)
  | enter ha k r g hk h hmem =>
    have hmove : Move (fun k => k = .enter) hands n n' := .enter rfl k r g hk h hmem
    exact Fades.of_steady ht (hmove.steady (by simp) (by simp) (by simp) (by simp))
  | leave ha k r g hk h hmem =>
    have hmove : Move (fun k => k = .leave) hands n n' := .leave rfl k r g hk h hmem
    exact Fades.of_steady ht (hmove.steady (by simp) (by simp) (by simp) (by simp))

theorem Moves.fades {env : Env} (hl : env.Lossless) {ks : List Kind} {hands : Handed → Prop}
    {n n' : Node} (ht : Tables n) (hc : .close ∉ ks) (hm : .meet ∉ ks) (hh : .hail ∉ ks)
    (h : Moves (may env ks) hands n n') : Fades n n' := by
  have hnot : ∀ {k : Kind}, k ∉ ks → ¬ may env ks k := fun hk hmay =>
    hmay.elim hk fun hcl => hcl.2 hl
  refine (h.invariant (I := fun m => Tables m ∧ Fades n m) (fun {m m'} hmove hm' => ?_)
    ⟨ht, Fades.refl n⟩).2
  exact ⟨hm'.1.move hmove, hm'.2.trans (hmove.fades hm'.1 (hnot hc) (hnot hm) (hnot hh))⟩

/-- Whatever the moves, the outbox only grows, and by what may be handed over. -/
theorem Moves.outbox {allow : Kind → Prop} {hands : Handed → Prop} {n n' : Node}
    (h : Moves allow hands n n') : ∃ l, n'.outbox = n.outbox ++ l ∧ ∀ x ∈ l, hands x := by
  induction h with
  | refl => exact ⟨[], by simp⟩
  | @tail m m' _ hmove ih =>
    obtain ⟨l, hl, hall⟩ := ih
    have hsame : ∀ {k : Node}, k.outbox = m.outbox → ∃ l, k.outbox = n.outbox ++ l ∧ ∀ x ∈ l, hands x :=
      fun hk => ⟨l, hk.trans hl, hall⟩
    cases hmove with
    | talk hL ht =>
      obtain ⟨l', hl', hall'⟩ := ht.outbox
      refine ⟨l ++ l', by rw [hl', hl, List.append_assoc], fun x hx => ?_⟩
      exact (List.mem_append.1 hx).elim (hall x) (hall' x)
    | quiet h | books ha h hb => exact hsame (by rw [h])
    | enter ha k r g hk h hm | leave ha k r g hk h hm | forget ha k r hk h hm =>
      exact hsame (by rw [h]; rfl)
    | touch | hail | emit | waste | file | dial | adopt | dropDial => exact hsame rfl

end Zre
