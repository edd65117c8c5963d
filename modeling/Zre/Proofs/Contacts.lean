import Zre.Proofs.BeaconFormat
import Zre.Proofs.Reports
import Zre.Proofs.RoundTrip
import Zre.Proofs.Steady
import Zre.Replication

/-!
# Proofs: a node and the sockets that lead to one other node

Where a node has come by another one, it has a socket to it, in the peer table or among the pending dials,
and everything that it hands to that socket about its groups is true when it is handed over.
-/

namespace Zre

open Fallible

/-! ## What frames say -/

namespace Handed

/-- A frame that says nothing about the groups of its sender, and is no farewell. -/
def Plain (h : Handed) : Prop :=
  ¬ h.Is Cmd.hello ∧ ¬ h.Is Cmd.join ∧ ¬ h.Is Cmd.leave ∧ ¬ h.Is Cmd.goodbye

/-- A frame has one command. -/
theorem not_is {h : Handed} {c c' : UInt8} (hc : h.Is c) (hne : c ≠ c') : ¬ h.Is c' := by
  intro hc'
  unfold Is at hc hc'
  rw [hc] at hc'
  exact hne (Option.some.inj hc')

theorem plain_of_is {h : Handed} {c : UInt8} (hc : h.Is c)
    (hne : c ≠ Cmd.hello ∧ c ≠ Cmd.join ∧ c ≠ Cmd.leave ∧ c ≠ Cmd.goodbye) : h.Plain :=
  ⟨not_is hc hne.1, not_is hc hne.2.1, not_is hc hne.2.2.1, not_is hc hne.2.2.2⟩

theorem plain_of_election {h : Handed} (he : h.IsElection) : h.Plain :=
  he.elim (fun h => plain_of_is h (by decide)) fun h => plain_of_is h (by decide)

theorem plain_of_answer {h : Handed} (ha : Node.Answer h) : h.Plain :=
  ha.elim plain_of_election fun h => plain_of_is h (by decide)

theorem msg_eq_some {h : Handed} {data : Bytes} {more : List Bytes} {m : Msg}
    (hf : h.frames = data :: more) : h.msg = some m ↔ Codec.decode data = .ok (some m) := by
  obtain ⟨r, hr⟩ := Codec.decode_returns data
  simp only [msg, hf, List.head?_cons, Option.bind_some, hr]
  cases r <;> simp [Except.toOption]

/-- The message of a frame has its command. -/
theorem is_of_msg {h : Handed} {m : Msg} (hm : h.msg = some m) :
    h.Is m.cmd ∧ Codec.FieldsOf m.cmd m.fields := by
  cases hf : h.frames with
  | nil =>
    unfold msg at hm
    rw [hf] at hm
    cases hm
  | cons data more =>
    obtain ⟨hcmd, hfields⟩ := Codec.decode_fields ((msg_eq_some hf).1 hm)
    exact ⟨is_of_frames hf hcmd, hfields⟩

theorem news_of_plain {h : Handed} (hp : h.Plain) : h.news = none := by
  unfold news
  cases hm : h.msg with
  | none => rfl
  | some m =>
    obtain ⟨his, hfields⟩ := is_of_msg hm
    rw [Option.bind_some]
    unfold Msg.news
    cases hf : m.fields with
    | hello f =>
      rw [hf] at hfields
      exact absurd (hfields.1 ▸ his) hp.1
    | groupStatus g status =>
      rw [hf] at hfields
      rcases hfields.1 with hc | hc <;> rw [hc] at his
      · exact absurd his hp.2.1
      · exact absurd his hp.2.2.1
    | none | group | election => rfl

theorem news_of_decode {h : Handed} {frame : Bytes} {more : List Bytes} {m : Msg}
    (hf : h.frames = frame :: more) (hd : Codec.decode frame = .ok (some m)) : h.news = m.news := by
  unfold news
  rw [(msg_eq_some hf).2 hd]
  rfl

/-- A node's HELLO gives the groups that it is in and its status. -/
theorem news_of_ownHello {n : Node} {h : Handed} (hh : n.OwnHello h) :
    h.news = some (.hello n.ownGroups n.status) ∧ h.Is Cmd.hello := by
  obtain ⟨seq, endpoint, frame, hf, henc⟩ := hh
  have hd := (Codec.decode_encoded
    (.hello ⟨endpoint, n.ownGroups, n.status, n.cfg.name.raw, n.headers⟩) rfl henc).1
  exact ⟨news_of_decode hf hd, is_of_frames hf (Codec.encodeHello_cmd _ _ _ _ _ _ frame henc)⟩

/-- A JOIN or a LEAVE gives the group and the status that it was made of. -/
theorem news_of_simple {h : Handed} {cmd : UInt8} (hcmd : cmd = Cmd.join ∨ cmd = Cmd.leave) {seq status : ℕ}
    {g frame : Bytes} {more : List Bytes} (hf : h.frames = frame :: more)
    (henc : Codec.encodeSimple cmd seq (some g) (some status) = .ok frame) :
    h.news = some (if cmd = Cmd.join then .join g status else .leave g status) :=
  news_of_decode hf (Codec.decode_encoded (.groupStatus g status) hcmd henc).1

end Handed

/-! ## Steps that leave the tables alone -/

/-- The tables of the peers, where they are reached, and what the node says about itself are the same. -/
structure Stays (n n' : Node) : Prop where
  peers : n'.peers = n.peers
  pending : n'.pending = n.pending
  nextRef : n.nextRef ≤ n'.nextRef
  address : ∀ r, r < n.nextRef → (n'.obj r).addr = (n.obj r).addr ∧ (n'.obj r).port = (n.obj r).port
  connected : ∀ r, r < n.nextRef → (n'.obj r).connected = (n.obj r).connected
  ownGroups : n'.ownGroups = n.ownGroups
  status : n'.status = n.status
  ownHello : n'.OwnHello = n.OwnHello

namespace Stays

theorem refl (n : Node) : Stays n n :=
  ⟨rfl, rfl, le_rfl, fun _ _ => ⟨rfl, rfl⟩, fun _ _ => rfl, rfl, rfl, rfl⟩

theorem trans {n n' n'' : Node} (h1 : Stays n n') (h2 : Stays n' n'') : Stays n n'' := by
  have hlt : ∀ {r}, r < n.nextRef → r < n'.nextRef := fun hr => Nat.lt_of_lt_of_le hr h1.nextRef
  refine ⟨h2.peers.trans h1.peers, h2.pending.trans h1.pending, h1.nextRef.trans h2.nextRef,
    fun r hr => ⟨?_, ?_⟩, fun r hr => (h2.connected r (hlt hr)).trans (h1.connected r hr),
    h2.ownGroups.trans h1.ownGroups, h2.status.trans h1.status, h2.ownHello.trans h1.ownHello⟩
  · exact (h2.address r (hlt hr)).1.trans (h1.address r hr).1
  · exact (h2.address r (hlt hr)).2.trans (h1.address r hr).2

/-- A write to an object that keeps its address and its socket. -/
theorem setObj (n : Node) (r : Ref) {p : Peer} (ha : p.addr = (n.obj r).addr ∧ p.port = (n.obj r).port)
    (hc : p.connected = (n.obj r).connected) : Stays n (n.setObj r p) :=
  ⟨rfl, rfl, le_rfl, fun s _ => ⟨Node.setObj_congr Peer.addr n r ha.1 s, Node.setObj_congr Peer.port n r ha.2 s⟩,
    fun s _ => Node.setObj_congr Peer.connected n r hc s, rfl, rfl, rfl⟩

theorem of_talk {L : Prop} {K : Handed → Prop} {n n' : Node} (hL : L) (h : Talk L K n n') : Stays n n' := by
  refine ⟨h.peers, h.pending, h.nextRef.ge, fun r _ => (h.obj r).address, fun r _ => ?_, h.ownGroups, h.status,
    ?_⟩
  · obtain ⟨s, hs⟩ := (h.obj r).of_lossless hL
    rw [hs]
  · unfold Node.OwnHello
    rw [h.ownGroups, h.status, h.cfg, h.headers]

end Stays

/-- The moves that neither find nor lose anybody, and do not change the node's own books. -/
theorem Move.stays {allow : Kind → Prop} {hands : Handed → Prop} {n n' : Node} (hcl : ¬ allow .close)
    (hf : ¬ allow .forget) (hm : ¬ allow .meet) (hb : ¬ allow .books) (h : Move allow hands n n') :
    Stays n n' := by
  cases h with
  | talk hL h => exact Stays.of_talk (Classical.byContradiction fun hl => hcl (hL hl)) h
  | touch r p h => exact Stays.setObj n r h.address h.connected
  | hail ha k r p hk h => exact Stays.setObj n r h.address h.connected
  | emit e he => exact ⟨rfl, rfl, le_rfl, fun _ _ => ⟨rfl, rfl⟩, fun _ _ => rfl, rfl, rfl, rfl⟩
  | quiet h =>
    rw [h]
    exact ⟨rfl, rfl, le_rfl, fun _ _ => ⟨rfl, rfl⟩, fun _ _ => rfl, rfl, rfl, rfl⟩
  | waste p hd hc =>
    have hne : ∀ {r}, r < n.nextRef → (n.allocated p).obj r = n.obj r := fun hr => by
      rw [Node.allocated_obj, if_neg (Nat.ne_of_lt hr)]
    refine ⟨rfl, rfl, Nat.le_succ _, fun r hr => ?_, fun r hr => ?_, rfl, rfl, rfl⟩ <;> rw [hne hr]
    exact ⟨rfl, rfl⟩
  | enter ha k r g hk h hmem =>
    have hs : Stays n (n.setObj r { n.obj r with groups := Node.addGroup (n.obj r).groups g }) :=
      Stays.setObj n r ⟨rfl, rfl⟩ rfl
    rw [h]
    exact ⟨rfl, rfl, le_rfl, hs.address, hs.connected, rfl, rfl, rfl⟩
  | leave ha k r g hk h hmem =>
    have hs : Stays n (n.setObj r { n.obj r with groups := Node.discardGroup (n.obj r).groups g }) :=
      Stays.setObj n r ⟨rfl, rfl⟩ rfl
    rw [h]
    exact ⟨rfl, rfl, le_rfl, hs.address, hs.connected, rfl, rfl, rfl⟩
  | books ha => exact absurd ha hb
  | file ha | dial ha | adopt ha => exact absurd ha hm
  | forget ha | dropDial ha => exact absurd ha hf

theorem Moves.stays {env : Env} (hl : env.Lossless) {ks : List Kind} {hands : Handed → Prop} {n n' : Node}
    (hc : .close ∉ ks) (hf : .forget ∉ ks) (hm : .meet ∉ ks) (hb : .books ∉ ks)
    (h : Moves (may env ks) hands n n') : Stays n n' := by
  have hnot : ∀ {k : Kind}, k ∉ ks → ¬ may env ks k := fun hk hmay => hmay.elim hk fun hcl => hcl.2 hl
  induction h with
  | refl => exact Stays.refl n
  | tail _ hmove ih => exact ih.trans (hmove.stays (hnot hc) (hnot hf) (hnot hm) (hnot hb))

namespace Node

/-! ## Sockets that lead to the other node -/

/-- The sockets of the node that lead to the peer `x`: that of its entry, and those of the pending dials. -/
structure Contact (n : Node) (x : Str) (leads : Str → Int → Bool) : Prop where
  home : ∀ r, n.peers.get x = some r →
    leads (n.obj r).addr (n.obj r).port = true ∧ (n.obj r).connected = true
  sole : ∀ k r, n.peers.get k = some r → leads (n.obj r).addr (n.obj r).port = true → k = x
  wait : ∀ k r, n.pending.get k = some r →
    leads (n.obj r).addr (n.obj r).port = true ∧ (n.obj r).connected = true

/-- The node has an entry for the peer `x`, or waits for the answer to a dial. -/
def Greets (n : Node) (x : Str) : Prop := n.peers.get x ≠ none ∨ ∃ k r, n.pending.get k = some r

/-- The node keeps its sockets to `x`, and what it hands over about its groups is true; to do so it has to
have found `x`. -/
structure Tends (x : Str) (leads : Str → Int → Bool) (n n' : Node) : Prop where
  contact : n'.Contact x leads
  entry : n.peers.get x ≠ none → n'.peers.get x ≠ none
  greets : n.Greets x → n'.Greets x
  ownGroups : n'.ownGroups = n.ownGroups
  status : n'.status = n.status
  ownHello : n'.OwnHello = n.OwnHello
  outbox : ∃ l, n'.outbox = n.outbox ++ l ∧ ∀ h ∈ l, n.OwnHello h ∧ n'.Greets x ∨ h.Plain

section Tends

variable {x : Str} {leads : Str → Int → Bool} {n n' n'' : Node}

theorem Contact.stays (h : n.Contact x leads) (ht : Tables n) (hs : Stays n n') : n'.Contact x leads := by
  have hp : ∀ {k r}, n.peers.get k = some r → r < n.nextRef := fun hk => ht.alloc _ _ (Or.inl hk)
  have hq : ∀ {k r}, n.pending.get k = some r → r < n.nextRef := fun hk => ht.alloc _ _ (Or.inr hk)
  constructor
  · intro r hr
    rw [hs.peers] at hr
    rw [(hs.address r (hp hr)).1, (hs.address r (hp hr)).2, hs.connected r (hp hr)]
    exact h.home r hr
  · intro k r hr
    rw [hs.peers] at hr
    rw [(hs.address r (hp hr)).1, (hs.address r (hp hr)).2]
    exact h.sole k r hr
  · intro k r hr
    rw [hs.pending] at hr
    rw [(hs.address r (hq hr)).1, (hs.address r (hq hr)).2, hs.connected r (hq hr)]
    exact h.wait k r hr

theorem greets_stays (hs : Stays n n') : n'.Greets x ↔ n.Greets x := by
  unfold Greets
  rw [hs.peers, hs.pending]

theorem Tends.trans (h1 : Tends x leads n n') (h2 : Tends x leads n' n'') : Tends x leads n n'' := by
  obtain ⟨l1, ho1, hall1⟩ := h1.outbox
  obtain ⟨l2, ho2, hall2⟩ := h2.outbox
  refine ⟨h2.contact, fun h => h2.entry (h1.entry h), fun h => h2.greets (h1.greets h), h2.ownGroups.trans h1.ownGroups,
    h2.status.trans h1.status, h2.ownHello.trans h1.ownHello, l1 ++ l2,
    by rw [ho2, ho1, List.append_assoc], fun h hh => ?_⟩
  rw [← h1.ownHello] at hall1 ⊢
  rcases List.mem_append.1 hh with hh | hh
  · exact (hall1 h hh).imp (fun hx => ⟨hx.1, h2.greets hx.2⟩) id
  · exact hall2 h hh

/-- What the node hands over has its HELLO in it, on a socket to `x`. -/
def Hails (leads : Str → Int → Bool) (n n' : Node) : Prop :=
  ∃ l, n'.outbox = n.outbox ++ l ∧
    ∃ h ∈ l, n.OwnHello h ∧ h.outcome = .sent ∧ leads h.dealer.addr h.dealer.port = true

theorem Hails.after (h1 : Tends x leads n n') (h2 : Hails leads n' n'') : Hails leads n n'' := by
  obtain ⟨l1, ho1, -⟩ := h1.outbox
  obtain ⟨l2, ho2, h, hh, hhello, hsent⟩ := h2
  exact ⟨l1 ++ l2, by rw [ho2, ho1, List.append_assoc], h, List.mem_append_right l1 hh, h1.ownHello ▸ hhello, hsent⟩

theorem Hails.before (h1 : Hails leads n n') (h2 : Tends x leads n' n'') : Hails leads n n'' := by
  obtain ⟨l1, ho1, h, hh, hhello⟩ := h1
  obtain ⟨l2, ho2, -⟩ := h2.outbox
  exact ⟨l1 ++ l2, by rw [ho2, ho1, List.append_assoc], h, List.mem_append_left l2 hh, hhello⟩

/-- A node that finds `x` has sent it a HELLO. -/
structure Acquaints (x : Str) (leads : Str → Int → Bool) (n n' : Node) : Prop extends Tends x leads n n' where
  hails : ¬ n.Greets x → n'.Greets x → Hails leads n n'

theorem Acquaints.trans (h1 : Acquaints x leads n n') (h2 : Acquaints x leads n' n'') : Acquaints x leads n n'' := by
  refine ⟨h1.toTends.trans h2.toTends, fun hno hyes => ?_⟩
  by_cases hmid : n'.Greets x
  · exact (h1.hails hno hmid).before h2.toTends
  · exact (h2.hails hmid hyes).after h1.toTends

/-- Moves that neither find nor lose anybody. -/
theorem acquaints_of_moves {env : Env} (hl : env.Lossless) {ks : List Kind} {hands : Handed → Prop}
    (hc : n.Contact x leads) (ht : Tables n)
    (hks : .close ∉ ks ∧ .forget ∉ ks ∧ .meet ∉ ks ∧ .books ∉ ks)
    (hh : ∀ h, hands h → n.OwnHello h ∧ n.Greets x ∨ h.Plain) (h : Moves (may env ks) hands n n') :
    Acquaints x leads n n' := by
  have hs := h.stays hl hks.1 hks.2.1 hks.2.2.1 hks.2.2.2
  obtain ⟨l, hout, hall⟩ := h.outbox
  refine ⟨⟨hc.stays ht hs, by rw [hs.peers]; exact id, (greets_stays hs).2, hs.ownGroups, hs.status, hs.ownHello, l,
    hout, fun y hy => ?_⟩, fun hno hyes => absurd ((greets_stays hs).1 hyes) hno⟩
  exact (hh y (hall y hy)).imp (fun hx => ⟨hx.1, (greets_stays hs).2 hx.2⟩) id

end Tends

/-! ## Finding the other node -/

/-- The node takes the pending dial that matches the address, or dials it, and files the peer under `x`. -/
inductive Finds (env : Env) (n : Node) (x addr : Str) (port : Int) : Node → Ref → Prop where
  | adopt (k : Str) (r : Ref) (h : n.pendingMatch addr port x = some (k, r)) :
      Finds env n x addr port (n.adoptUnder env k r x) r
  | dial (curve : Option (Bytes × Bytes × Bytes)) :
      Finds env n x addr port
        { n.allocated (n.opened env x addr port curve) with peers := n.peers.set x n.nextRef } n.nextRef

section Finds

variable {env : Env} {x addr : Str} {port : Int} {leads : Str → Int → Bool} {n n' : Node} {r : Ref}

theorem Finds.filed (h : Finds env n x addr port n' r) : n'.peers.get x = some r := by
  cases h with
  | adopt k r h => exact adoptUnder_peers env n k r x
  | dial curve => exact Dict.get_set_self n.peers x n.nextRef

theorem Finds.report (h : Finds env n x addr port n' r) : n'.report = n.report := by
  cases h <;> rfl

theorem Finds.moves {hands : Handed → Prop} (h : Finds env n x addr port n' r) (hk : n.peers.get x = none)
    (hown : x ≠ n.cfg.peerIdHex) : Moves (may env [.meet]) hands n n' := by
  cases h with
  | adopt k r h => exact (Move.adopt (Or.inl (by simp)) env k r x (pendingMatch_mem h) hk hown).moves
  | dial curve => exact (Move.file (Or.inl (by simp)) env x addr port curve hk hown).moves

/-- Filing a connected peer under `x`. -/
theorem contact_filed (hc : n.Contact x leads) (hpeers : n'.peers = n.peers.set x r)
    (hpend : ∀ k s, n'.pending.get k = some s → n.pending.get k = some s ∧ s ≠ r)
    (hother : ∀ k s, n.peers.get k = some s → s ≠ r) (hobj : ∀ s, s ≠ r → n'.obj s = n.obj s)
    (hnew : leads (n'.obj r).addr (n'.obj r).port = true ∧ (n'.obj r).connected = true) :
    n'.Contact x leads := by
  constructor
  · intro s hs
    rw [hpeers, Dict.get_set_self] at hs
    cases hs
    exact hnew
  · intro k s hs hlead
    rw [hpeers, Dict.get_set] at hs
    split at hs
    · rename_i hk; exact hk.symm
    · rw [hobj s (hother k s hs)] at hlead
      exact hc.sole k s hs hlead
  · intro k s hs
    obtain ⟨hs', hne⟩ := hpend k s hs
    rw [hobj s hne]
    exact hc.wait k s hs'

theorem Finds.contact (h : Finds env n x addr port n' r) (hc : n.Contact x leads) (ht : Tables n)
    (hlead : leads addr port = true) : n'.Contact x leads := by
  cases h with
  | adopt k r h =>
    have hp := pendingMatch_mem h
    have hself : (n.adoptUnder env k r x).obj r =
        { n.obj r with uuidHex := x }.refresh env.now n.cfg.evTimeout n.cfg.exTimeout :=
      setObj_obj_self n r _
    refine contact_filed hc rfl (fun j s hs => ?_) (fun j s hs e => ht.apart j k s hs (e ▸ hp)) (fun s hs => ?_) ?_
    · change (n.pending.pop k).get j = some s at hs
      rw [Dict.get_pop] at hs
      split at hs
      · cases hs
      · rename_i hj
        exact ⟨hs, fun e => hj (ht.pendingInj k j r hp (e ▸ hs))⟩
    · exact (setObj_obj n r s _).trans (if_neg hs)
    · rw [hself]
      exact hc.wait k r hp
  | dial curve =>
    have hself := allocated_obj_self n (n.opened env x addr port curve)
    have hnew : ({ n.allocated (n.opened env x addr port curve) with
        peers := n.peers.set x n.nextRef } : Node).obj n.nextRef = n.opened env x addr port curve := hself
    refine contact_filed hc rfl (fun j s hs => ⟨hs, ?_⟩) (fun j s hs => ?_) (fun s hs => ?_) ?_
    · exact Nat.ne_of_lt (ht.alloc j s (Or.inr hs))
    · exact Nat.ne_of_lt (ht.alloc j s (Or.inl hs))
    · exact (allocated_obj n _ s).trans (if_neg hs)
    · rw [hnew]
      exact ⟨hlead, rfl⟩

/-- Whoever finds `x` says nothing yet. -/
theorem Finds.tends (h : Finds env n x addr port n' r) (hc : n.Contact x leads) (ht : Tables n)
    (hlead : leads addr port = true) : Tends x leads n n' := by
  have hentry : n'.peers.get x ≠ none := by rw [h.filed]; simp
  have hgreets : n.Greets x → n'.Greets x := fun _ => Or.inl hentry
  have hcontact := h.contact hc ht hlead
  cases h with
  | adopt | dial =>
    exact ⟨hcontact, fun _ => hentry, hgreets, rfl, rfl, rfl, [], by simp [adoptUnder, setObj, allocated, alloc]⟩

end Finds

/-- A beacon of a peer that is not in the table: nothing comes of it, or the peer is found and greeted. -/
theorem meetPeer_finds (env : Env) (n : Node) (x addr : Str) (port : Int) :
    Ensures (n.meetPeer env x addr port) fun n' =>
      Moves (may env []) (fun _ => False) n n' ∨
      ∃ n1 r, Finds env n x addr port n1 r ∧ n1.sendHello env r = .ok n' := by
  intro n' hn'
  unfold meetPeer adoptPending at hn'
  cases hm : n.pendingMatch addr port x with
  | some e =>
    obtain ⟨k, r⟩ := e
    simp only [hm] at hn'
    exact Or.inr ⟨_, r, .adopt k r hm, hn'⟩
  | none =>
    simp only [hm, dialPeer] at hn'
    cases hopen : n.openPeer env x addr port (some x) with
    | mk o m =>
      cases o with
      | none =>
        simp only [hopen] at hn'
        cases hn'
        exact Or.inl (moves_openPeer_none _ _ hopen).1
      | some r =>
        simp only [hopen] at hn'
        obtain ⟨rfl, curve, rfl⟩ := openPeer_some hopen
        exact Or.inr ⟨_, _, .dial curve, hn'⟩

/-- A HELLO of a peer that is not in the table. -/
theorem helloFromNew_finds (env : Env) (n : Node) (x : Str) (h : HelloFields) :
    Ensures (n.helloFromNew env x h) fun n' =>
      Moves (may env []) (fun _ => False) n n' ∧ n'.report = n.report ∨
      ∃ keys addr port n1 r epStr reply,
        splitEndpoint n.cfg.rt (endpointText h.endpoint) = .ok (addr, port) ∧
        Finds env { n with peerServerKeys := keys } x (dialHost addr) port n1 r ∧
        (reply = true ∨ n.Greets x) ∧ n1.enterPeer env x r h epStr reply = .ok n' := by
  intro n' hn'
  obtain ⟨keys, hkeys⟩ := learnHelloKeys_rest n x h
  have hquiet : Moves (may env []) (fun _ => False) n { n with peerServerKeys := keys } := moves_quiet rfl
  unfold helloFromNew at hn'
  simp only [hkeys] at hn'
  cases hs : splitEndpoint n.cfg.rt (endpointText h.endpoint) with
  | error e =>
    simp only [hs] at hn'
    cases hn'
    exact Or.inl ⟨hquiet, rfl⟩
  | ok res =>
    obtain ⟨addr, port⟩ := res
    simp only [hs, adoptPending] at hn'
    cases hm : { n with peerServerKeys := keys }.pendingMatch (dialHost addr) port x with
    | some e =>
      obtain ⟨k, r⟩ := e
      simp only [hm] at hn'
      exact Or.inr ⟨keys, addr, port, _, r, _, _, rfl, .adopt k r hm, Or.inr (Or.inr ⟨k, r, pendingMatch_mem hm⟩), hn'⟩
    | none =>
      simp only [hm, dialPeer] at hn'
      cases hopen : { n with peerServerKeys := keys }.openPeer env x (dialHost addr) port (some x) with
      | mk o m =>
        cases o with
        | none =>
          simp only [hopen] at hn'
          cases hn'
          exact Or.inl ⟨hquiet.trans (moves_openPeer_none _ _ hopen).1, (openPeer_report hopen).trans rfl⟩
        | some r =>
          simp only [hopen] at hn'
          obtain ⟨rfl, curve, rfl⟩ := openPeer_some hopen
          exact Or.inr ⟨keys, addr, port, _, _, _, _, rfl, .dial curve, Or.inl rfl, hn'⟩

/-- What comes of a HELLO before its sender is entered: nothing, or there is an entry that is not ready. A sender
that was not known before gets an answer. -/
def Awaits (env : Env) (x : Str) (h : HelloFields) (reply : Bool) (n n1 : Node) (r : Ref) : Prop :=
  ∃ n0, Moves (may env []) (fun _ => False) n n0 ∧ n0.report = n.report ∧ n0.peers = n.peers ∧ n0.cfg = n.cfg ∧
    (n1 = n0 ∧ n0.peers.get x = some r ∧ (n0.obj r).ready = false ∨
      n0.peers.get x = none ∧ (reply = true ∨ n0.Greets x) ∧
        ∃ addr port, splitEndpoint n.cfg.rt (endpointText h.endpoint) = .ok (addr, port) ∧
          Finds env n0 x (dialHost addr) port n1 r)

theorem handleHello_awaits (env : Env) (n : Node) {x : Str} (hown : x ≠ n.cfg.peerIdHex) (h : HelloFields) :
    Ensures (n.handleHello env x h (n.peers.get x)) fun n' =>
      Moves (may env []) (fun _ => False) n n' ∧ n'.report = n.report ∨
      ∃ n1 r epStr reply, Awaits env x h reply n n1 r ∧ n1.enterPeer env x r h epStr reply = .ok n' := by
  have hq : Moves (may env []) (fun _ => False) n { n with evasiveEmitAt := n.evasiveEmitAt.pop x } :=
    moves_quiet rfl
  unfold handleHello
  rw [if_neg hown]
  split
  · exact Ensures.ok (Or.inl ⟨Moves.refl n, rfl⟩)
  split
  · exact Ensures.ok (Or.inl ⟨Moves.refl n, rfl⟩)
  cases hk : n.peers.get x with
  | none =>
    simp only [hk]
    refine (helloFromNew_finds env _ x h).mono fun n' hn' => ?_
    rcases hn' with ⟨hm, hreport⟩ | ⟨keys, addr, port, n1, r, epStr, reply, hs, hfinds, hreply, hn'⟩
    · exact Or.inl ⟨hq.trans hm, hreport⟩
    · exact Or.inr ⟨n1, r, epStr, reply,
        ⟨{ n with evasiveEmitAt := n.evasiveEmitAt.pop x, peerServerKeys := keys },
          hq.trans (moves_quiet rfl), rfl, rfl, rfl, Or.inr ⟨hk, hreply, addr, port, hs, hfinds⟩⟩, hn'⟩
  | some r =>
    cases hr : (n.obj r).ready with
    | true =>
      simp only [hr]
      exact Ensures.ok (Or.inl ⟨hq.trans (moves_helloFromLive env _ r h), rfl⟩)
    | false =>
      simp only [hr, hk]
      intro n' hn'
      exact Or.inr ⟨_, r, _, _, ⟨_, hq, rfl, rfl, rfl, Or.inl ⟨rfl, hk, hr⟩⟩, hn'⟩

section Handlers

variable {env : Env} {x : Str} {leads : Str → Int → Bool} {n n' : Node}

theorem acquaints_quiet (hl : env.Lossless) (hc : n.Contact x leads) (ht : Tables n)
    (h : Moves (may env []) (fun _ => False) n n') : Acquaints x leads n n' :=
  acquaints_of_moves hl hc ht (by simp) (fun _ h => h.elim) h

theorem greets_of_peers {r : Ref} (hk : n.peers.get x = some r) : n.Greets x := Or.inl (by rw [hk]; simp)

/-- Whoever was found is greeted. -/
theorem sendHello_hails (hl : env.Lossless) (hlinks : Links n) {r : Ref}
    (hr : leads (n.obj r).addr (n.obj r).port = true ∧ (n.obj r).connected = true) :
    Ensures (n.sendHello env r) (Hails leads n) := by
  intro n' hn'
  obtain ⟨res, hres, hn'⟩ := bind_eq_ok_iff.1 hn'
  cases hn'
  rcases sendEncoded_cases env n r _ _ res hres with ⟨-, h | h⟩ | ⟨dealer, frame, -, hd, hframe, hout⟩
  · rw [hr.2] at h
    cases h
  · have hsome := (hlinks.dealer r).1 hr.2
    rw [h] at hsome
    cases hsome
  · obtain ⟨endpoint, hep, henc⟩ := bind_eq_ok_iff.1 hframe
    obtain ⟨haddr, hport, -⟩ := hlinks.target r dealer hd
    refine ⟨_, by rw [hout], _, List.mem_singleton_self _, ⟨_, endpoint, frame, rfl, henc⟩, hl _, ?_⟩
    show leads dealer.addr dealer.port = true
    rw [haddr, hport]
    exact hr.1

/-- Greeting a peer that has just been found. -/
theorem sendHello_acquaints (hl : env.Lossless) (hc : n.Contact x leads) (ht : Tables n) {r : Ref}
    (hg : n.Greets x) : Ensures (n.sendHello env r) (Acquaints x leads n) :=
  (moves_sendHello env n r []).mono fun _ h =>
    acquaints_of_moves hl hc ht (by simp) (fun _ hh => Or.inl ⟨hh, hg⟩) h

theorem meetPeer_acquaints (hl : env.Lossless) (hc : n.Contact x leads) (ht : Tables n) (hlinks : Links n)
    (hk : n.peers.get x = none) (hown : x ≠ n.cfg.peerIdHex) {addr : Str} {port : Int}
    (hlead : leads addr port = true) : Ensures (n.meetPeer env x addr port) (Acquaints x leads n) := by
  intro n' hn'
  rcases meetPeer_finds env n x addr port n' hn' with hm | ⟨n1, r, hfinds, hsend⟩
  · exact acquaints_quiet hl hc ht hm
  · have hfound := hfinds.tends hc ht hlead
    have hm1 : Moves (may env [.meet]) (fun _ => False) n n1 := hfinds.moves hk hown
    have hhails := sendHello_hails hl (hm1.invariant Links.move hlinks) (hfound.contact.home r hfinds.filed) n' hsend
    have hsent := sendHello_acquaints hl hfound.contact (hm1.invariant Tables.move ht) (greets_of_peers hfinds.filed)
      n' hsend
    exact ⟨hfound.trans hsent.toTends, fun _ _ => hhails.after hfound⟩

/-- The end of `_handle_hello`. -/
theorem enterPeer_acquaints (hl : env.Lossless) (hc : n.Contact x leads) (ht : Tables n) {r : Ref}
    (hk : n.peers.get x = some r) (h : HelloFields) (epStr : Str) (reply : Bool) :
    Ensures (n.enterPeer env x r h epStr reply) (Acquaints x leads n) :=
  (moves_enterPeer env ht hk h epStr reply).mono fun _ hm => acquaints_of_moves hl hc ht (by simp)
    (fun _ hh => hh.imp (fun hx => ⟨hx.2, greets_of_peers hk⟩) Handed.plain_of_election) hm

/-- A peer that was found for its HELLO gets an answer. -/
theorem enterPeer_hails (hl : env.Lossless) (hlinks : Links n) {r : Ref} (hk : n.peers.get x = some r)
    (hr : leads (n.obj r).addr (n.obj r).port = true ∧ (n.obj r).connected = true) (h : HelloFields) (epStr : Str) :
    Ensures (n.enterPeer env x r h epStr true) (Hails leads n) := by
  intro n' hn'
  obtain ⟨n2, h2, hn'⟩ := bind_eq_ok_iff.1 hn'
  let p : Peer := { (n.obj r).announce h with ready := true, endpointStr := epStr }
  have hm : Move anything anything n (n.setObj r p) :=
    .hail trivial x r p hk ⟨rfl, rfl, rfl, rfl, ⟨rfl, rfl⟩, rfl⟩
  have hr1 : leads ((n.setObj r p).obj r).addr ((n.setObj r p).obj r).port = true ∧
      ((n.setObj r p).obj r).connected = true := by
    rw [setObj_obj_self]
    exact hr
  obtain ⟨l, hout, hhails⟩ := sendHello_hails hl (hlinks.move hm) hr1 n2 h2
  obtain ⟨groups, obj, hgroups⟩ := enterGroups_rest n2 r h.groups
  obtain ⟨l', hout', -⟩ := (moves_startElections env _ h.groups [] n' hn').outbox
  refine ⟨l ++ l', ?_, hhails.imp fun y hy => ⟨List.mem_append_left l' hy.1, hy.2⟩⟩
  rw [hout', emits_rest, hgroups]
  show n2.outbox ++ l' = _
  rw [hout, ← List.append_assoc]
  rfl

theorem handleHello_acquaints (hl : env.Lossless) (hc : n.Contact x leads) (ht : Tables n) (hlinks : Links n)
    (hown : x ≠ n.cfg.peerIdHex) {h : HelloFields}
    (hlead : ∀ addr port, splitEndpoint n.cfg.rt (endpointText h.endpoint) = .ok (addr, port) →
      leads (dialHost addr) port = true) :
    Ensures (n.handleHello env x h (n.peers.get x)) (Acquaints x leads n) := by
  intro n' hn'
  rcases handleHello_awaits env n hown h n' hn' with
    ⟨hm, -⟩ | ⟨n1, r, epStr, reply, ⟨n0, hm0, -, -, hcfg, hwait⟩, henter⟩
  · exact acquaints_quiet hl hc ht hm
  · have h0 := acquaints_quiet hl hc ht hm0
    have ht0 := hm0.invariant Tables.move ht
    rcases hwait with ⟨rfl, hk, -⟩ | ⟨hk, hreply, addr, port, hs, hfinds⟩
    · exact h0.trans (enterPeer_acquaints hl h0.contact ht0 hk h epStr reply n' henter)
    · have hfound := hfinds.tends h0.contact ht0 (hlead addr port hs)
      have hm1 : Moves (may env [.meet]) (fun _ => False) n0 n1 := hfinds.moves hk (by rw [hcfg]; exact hown)
      have hentered := enterPeer_acquaints hl hfound.contact (hm1.invariant Tables.move ht0) hfinds.filed h epStr reply
        n' henter
      refine h0.trans ⟨hfound.trans hentered.toTends, fun hno _ => ?_⟩
      obtain rfl := hreply.resolve_right hno
      have hlinks1 := hm1.invariant Links.move (hm0.invariant Links.move hlinks)
      have hhome := hfound.contact.home r hfinds.filed
      exact (enterPeer_hails hl hlinks1 hfinds.filed hhome h epStr n' henter).after hfound

/-- A frame of `x` that is no farewell. -/
theorem handlePeerMsg_acquaints (hl : env.Lossless) {uuid : Bytes} (hc : n.Contact (hex uuid) leads)
    (ht : Tables n) (hlinks : Links n) (hown : uuid ≠ n.cfg.peerId) {rid : Bytes} (hu : routingUuid rid = some uuid)
    {f : Handed} (hno : ¬ f.Is Cmd.goodbye)
    (hlead : ∀ msg h addr port, f.msg = some msg → msg.fields = .hello h →
      splitEndpoint n.cfg.rt (endpointText h.endpoint) = .ok (addr, port) → leads (dialHost addr) port = true) :
    Ensures (n.handlePeerMsg env (rid :: f.frames)) (Acquaints (hex uuid) leads n) := by
  have hown' : hex uuid ≠ n.cfg.peerIdHex := fun e => hown (hex_injective e)
  intro n' hn'
  rcases handlePeerMsg_cases env n _ n' hn' with
    rfl | ⟨uuid', msg, extra, ⟨rid', data, hfr, hu', hd⟩, hcase⟩
  · exact acquaints_quiet hl hc ht (Moves.refl _)
  obtain ⟨rfl, hframes⟩ := List.cons.inj hfr
  rw [hu] at hu'
  cases hu'
  have hmsg := (Handed.msg_eq_some hframes).2 hd
  rcases hcase with ⟨h, hf, hh⟩ | ⟨-, r, hk, -, hh⟩
  · obtain ⟨hm0, hp0, -⟩ := moves_resetSeq (may env []) (fun _ => False) n (hex uuid)
    have h0 := acquaints_quiet hl hc ht hm0
    have hcfg := moves_cfg hm0
    rw [← hp0] at hh
    exact h0.trans (handleHello_acquaints hl h0.contact (hm0.invariant Tables.move ht) (hm0.invariant Links.move hlinks)
      (by rw [hcfg]; exact hown')
      (fun addr port hs => hlead msg h addr port hmsg hf (by rw [← hcfg]; exact hs)) n' hh)
  · have hks : .close ∉ trafficKinds msg.cmd ∧ .forget ∉ trafficKinds msg.cmd ∧ .meet ∉ trafficKinds msg.cmd ∧
        .books ∉ trafficKinds msg.cmd := by
      unfold trafficKinds
      rw [if_neg fun e : msg.cmd = Cmd.goodbye => hno (e ▸ (Handed.is_of_msg hmsg).1)]
      split
      · simp
      · split <;> simp
    exact acquaints_of_moves hl hc ht hks (fun _ ha => Or.inr (Handed.plain_of_answer ha))
      (moves_handleTraffic env ht hk msg extra n' hh)

/-- A dial without an id, to an address that leads to `x`. -/
theorem dial_tends (hc : n.Contact x leads) (ht : Tables n) {host k : Str} {port : Int}
    (hlead : leads host port = true) (curve : Option (Bytes × Bytes × Bytes)) {m : Node}
    (hm : m = { n.allocated (n.opened env k host port curve) with pending := n.pending.set k n.nextRef }) :
    Tends x leads n m ∧ m.Greets x := by
  have hself : m.obj n.nextRef = n.opened env k host port curve := by
    rw [hm]
    exact allocated_obj_self n _
  have hother : ∀ s, s < n.nextRef → m.obj s = n.obj s := fun s hs => by
    rw [hm]
    exact (allocated_obj n _ s).trans (if_neg (Nat.ne_of_lt hs))
  have hpeers : m.peers = n.peers := by rw [hm]; rfl
  have hpend : m.pending = n.pending.set k n.nextRef := by rw [hm]
  have hgreets : m.Greets x := Or.inr ⟨k, n.nextRef, by rw [hpend, Dict.get_set_self]⟩
  refine ⟨⟨⟨fun r hr => ?_, fun j r hr hlr => ?_, fun j r hr => ?_⟩, by rw [hpeers]; exact id, fun _ => hgreets,
    by rw [hm]; rfl, by rw [hm]; rfl, by rw [hm]; rfl, [], by rw [hm]; simp [allocated, alloc, setObj]⟩, hgreets⟩
  · rw [hpeers] at hr
    rw [hother r (ht.alloc x r (Or.inl hr))]
    exact hc.home r hr
  · rw [hpeers] at hr
    rw [hother r (ht.alloc j r (Or.inl hr))] at hlr
    exact hc.sole j r hr hlr
  · rw [hpend, Dict.get_set] at hr
    split at hr
    · cases hr
      rw [hself]
      exact ⟨hlead, rfl⟩
    · rw [hother r (ht.alloc j r (Or.inr hr))]
      exact hc.wait j r hr

theorem doConnect_acquaints (hl : env.Lossless) (hc : n.Contact x leads) (ht : Tables n) (hlinks : Links n) {host : Str}
    {port : Int} (hlead : leads host port = true) : Ensures (n.doConnect env host port) (Acquaints x leads n) := by
  have hstay : Acquaints x leads n n := acquaints_quiet hl hc ht (Moves.refl n)
  unfold doConnect
  split
  · exact Ensures.ok hstay
  split
  · exact Ensures.ok hstay
  simp only []
  split
  · exact Ensures.ok hstay
  cases hopen : n.openPeer env (pendingKey host port) host port none with
  | mk o m =>
    cases o with
    | none => exact Ensures.ok (acquaints_quiet hl hc ht (moves_openPeer_none _ _ hopen).1)
    | some r =>
      obtain ⟨rfl, curve, rfl⟩ := openPeer_some hopen
      intro n' hn'
      let m : Node := { n.allocated (n.opened env (pendingKey host port) host port curve) with
        pending := n.pending.set (pendingKey host port) n.nextRef }
      have hm : Move anything anything n m := .dial trivial env _ host port curve
      obtain ⟨hdial, hgreets⟩ : Tends x leads n m ∧ m.Greets x := dial_tends hc ht hlead curve rfl
      have hhome := hdial.contact.wait _ n.nextRef (Dict.get_set_self n.pending (pendingKey host port) n.nextRef)
      have hsent := sendHello_acquaints hl hdial.contact (ht.move hm) hgreets n' hn'
      exact ⟨hdial.trans hsent.toTends, fun _ _ =>
        (sendHello_hails hl (hlinks.move hm) hhome n' hn').after hdial⟩

/-- A beacon that another node has built is ignored, or accepted as what it says. -/
theorem handleBeacon_built (env : Env) (n : Node) {m : Node} {port : Nat} {data : Bytes}
    (hb : m.buildBeacon port = .ok data) (host : Str) :
    n.handleBeacon env data host = .ok n ∨
      ∃ key, n.handleBeacon env data host = n.acceptBeacon env m.cfg.peerId port key host := by
  obtain ⟨p, hp, hb⟩ := bind_eq_ok_iff.1 hb
  obtain ⟨v, rest, hdata⟩ : ∃ v rest, data = beaconMagic ++ [v] ++ m.cfg.peerId ++ p ++ rest := by
    split at hb
    · split at hb <;> cases hb
      exact ⟨_, _, rfl⟩
    · cases hb
      exact ⟨beaconVersionV1, [], by simp⟩
  obtain ⟨hunpack, hplen⟩ : unpackH p = .ok port ∧ p.length = 2 := by
    by_cases hport : port < 65536
    · rw [packH_ok hport] at hp
      cases hp
      exact ⟨unpackH_pack hport, rfl⟩
    · unfold packH at hp
      rw [if_neg hport] at hp
      cases hp
  have hlen := m.cfg.peerId_length
  have hmagic : data.take 3 = beaconMagic := by rw [hdata]; simp [beaconMagic]
  have hbyte : byteAt data 3 = .ok v := by rw [hdata]; simp [byteAt, beaconMagic]
  have huuid : slice data 4 20 = m.cfg.peerId :=
    slice_at (beaconMagic ++ [v]) m.cfg.peerId (p ++ rest) (by rw [hdata]; simp) rfl (by rw [hlen])
  have hslice : slice data 20 22 = p :=
    slice_at (beaconMagic ++ [v] ++ m.cfg.peerId) p rest hdata (by simp [hlen, beaconMagic]) (by rw [hplen])
  unfold handleBeacon
  simp only [hmagic, ne_eq, not_true, if_false, hbyte, bind_ok, hslice, hunpack, huuid]
  split
  · exact Or.inl rfl
  split
  · exact Or.inl rfl
  split
  · exact Or.inl rfl
  · exact Or.inr ⟨_, rfl⟩

/-- A beacon of `x`. -/
theorem acceptBeacon_acquaints (hl : env.Lossless) {uuid : Bytes} (hc : n.Contact (hex uuid) leads)
    (ht : Tables n) (hlinks : Links n) (hown : uuid ≠ n.cfg.peerId) {port : Nat} (hport : 0 < port) {host : Str}
    (hlead : leads host port = true) (key : Option Bytes) :
    Ensures (n.acceptBeacon env uuid port key host) (Acquaints (hex uuid) leads n) := by
  obtain ⟨keys, hkeys⟩ := learnBeaconKey_rest n (hex uuid) host port key
  have hq : Moves (may env []) (fun _ => False) n { n with peerServerKeys := keys } := moves_quiet rfl
  have h0 := acquaints_quiet hl hc ht hq
  have ht0 := hq.invariant Tables.move ht
  unfold acceptBeacon
  rw [if_neg hown, if_neg (Nat.pos_iff_ne_zero.1 hport)]
  simp only [hkeys]
  cases hk : n.peers.get (hex uuid) with
  | some r => exact Ensures.ok (h0.trans (acquaints_quiet hl h0.contact ht0 (moves_refreshPeer env _ r)))
  | none =>
    have hforeign : hex uuid ≠ n.cfg.peerIdHex := fun e => hown (hex_injective e)
    exact (meetPeer_acquaints hl h0.contact ht0 (hq.invariant Links.move hlinks) hk hforeign hlead).mono
      fun _ h => h0.trans h

end Handlers

/-! ## Telling a change -/

section Changes

variable {env : Env} {net : Net} {s : Bool} {n : Node} {cmd : UInt8} {g : Bytes} {status : ℕ}

/-- The news that a JOIN or a LEAVE brings. -/
def change (cmd : UInt8) (g : Bytes) (status : ℕ) : News :=
  if cmd = Cmd.join then .join g status else .leave g status

/-- What is read from those of the frames that get onto the link. -/
def gist {β : Type} (read : Handed → Option β) (net : Net) (s : Bool) (l : List Handed) : List β :=
  (l.filter (Duo.carried net s)).filterMap read

/-- The news on those of the frames that get onto the link. -/
def heard (net : Net) (s : Bool) (l : List Handed) : List News := gist Handed.news net s l

theorem gist_append {β : Type} (read : Handed → Option β) (net : Net) (s : Bool) (l l' : List Handed) :
    gist read net s (l ++ l') = gist read net s l ++ gist read net s l' := by
  simp [gist]

/-- The socket of the peer is open and leads to the other node. -/
def reaches (net : Net) (s : Bool) (n : Node) (r : Ref) : Bool :=
  (n.obj r).connected && net.leads s (n.obj r).addr (n.obj r).port

theorem sendEncoded_gist {β : Type} {read : Handed → Option β} {v : β} (hl : env.Lossless) (hlinks : Links n) (r : Ref)
    {encode : ℕ → Except PyError Bytes} {more : List Bytes}
    (hread : ∀ seq frame dealer outcome, encode seq = .ok frame → read ⟨dealer, frame :: more, outcome⟩ = some v) :
    Ensures (n.sendEncoded env r encode more) fun res => ∃ l, res.2.outbox = n.outbox ++ l ∧
      gist read net s l = if n.reaches net s r then [v] else [] := by
  intro res hres
  rcases sendEncoded_cases env n r _ _ res hres with ⟨hsame, hcase⟩ | ⟨dealer, frame, hc, hd, hframe, hout⟩
  · have hno : n.reaches net s r = false := by
      unfold reaches
      rcases hcase with hc | hd
      · simp [hc]
      · have hc : (n.obj r).connected = false := by
          rw [← Bool.not_eq_true, hlinks.dealer, hd]
          simp
        simp [hc]
    refine ⟨[], by rw [hsame]; simp, ?_⟩
    rw [hno]
    rfl
  · obtain ⟨haddr, hport, -⟩ := hlinks.target r dealer hd
    have hnews : read ⟨dealer, frame :: more, env.send n.outbox.length⟩ = some v := hread _ frame dealer _ hframe
    have hcarried : Duo.carried net s ⟨dealer, frame :: more, env.send n.outbox.length⟩ = n.reaches net s r := by
      simp [Duo.carried, reaches, hl _, hc, haddr, hport]
    refine ⟨[⟨dealer, frame :: more, env.send n.outbox.length⟩], by rw [hout], ?_⟩
    unfold gist
    cases hr : n.reaches net s r <;> simp [hcarried, hr, hnews]

theorem sendCmd_gist {β : Type} {read : Handed → Option β} {v : β} (hl : env.Lossless) (hlinks : Links n) (r : Ref)
    {group : Option Bytes} {status : Option ℕ} {more : List Bytes}
    (hread : ∀ seq frame dealer outcome, Codec.encodeSimple cmd seq group status = .ok frame →
      read ⟨dealer, frame :: more, outcome⟩ = some v) :
    Ensures (n.sendCmd env r cmd group status more) fun n' => ∃ l, n'.outbox = n.outbox ++ l ∧
      gist read net s l = if n.reaches net s r then [v] else [] := by
  intro n' hn'
  obtain ⟨res, hres, hn'⟩ := bind_eq_ok_iff.1 hn'
  cases hn'
  exact sendEncoded_gist hl hlinks r hread res hres

/-- A loop that sends the same to several peers. -/
theorem sends_gist {β : Type} {read : Handed → Option β} {v : β} {K : Handed → Prop}
    {send : Node → Ref → Except PyError Node} (hl : env.Lossless) (hlinks : Links n)
    (hsend : ∀ m r, Links m → Ensures (send m r) fun m' => Talk env.Lossless K m m' ∧
      ∃ l, m'.outbox = m.outbox ++ l ∧ gist read net s l = if m.reaches net s r then [v] else []) (refs : List Ref) :
    Ensures (refs.foldlM send n) fun n' => ∃ l, n'.outbox = n.outbox ++ l ∧
      gist read net s l = (refs.filter (n.reaches net s)).map fun _ => v := by
  induction refs generalizing n with
  | nil => exact Ensures.ok ⟨[], by simp, rfl⟩
  | cons r refs ih =>
    rw [List.foldlM_cons]
    refine (hsend n r hlinks).bind fun n1 h1 => ?_
    obtain ⟨htalk1, l1, hout1, hheard1⟩ := h1
    have hlinks1 : Links n1 := hlinks.move (Move.talk (fun _ => trivial) htalk1 : Move anything _ n n1)
    refine (ih hlinks1).mono fun n' hn' => ?_
    obtain ⟨l2, hout2, hheard2⟩ := hn'
    -- the peers are reached as before
    have hsame : n1.reaches net s = n.reaches net s := by
      funext t
      obtain ⟨seq, hseq⟩ := (htalk1.obj t).of_lossless hl
      simp [reaches, hseq]
    refine ⟨l1 ++ l2, by rw [hout2, hout1, List.append_assoc], ?_⟩
    rw [gist_append, hheard1, hheard2, hsame, List.filter_cons]
    split <;> simp

/-- Of the peers in a table, those that lead to the other node: its entry, if there is one. -/
theorem filter_reaches (ht : Tables n) {x : Str} (hc : n.Contact x (net.leads s)) {d : Dict Str Ref}
    (hd : ∀ k r, d.get k = some r → n.peers.get k = some r) : d.values.filter (n.reaches net s) = (d.get x).toList := by
  have hmem : ∀ r, r ∈ d.values.filter (n.reaches net s) ↔ d.get x = some r := by
    intro r
    rw [List.mem_filter, Dict.mem_values]
    constructor
    · rintro ⟨⟨k, hk⟩, hr⟩
      have hlead : net.leads s (n.obj r).addr (n.obj r).port = true := (Bool.and_eq_true_iff.1 hr).2
      rw [← hc.sole k r (hd k r hk) hlead]
      exact hk
    · intro hk
      obtain ⟨hlead, hconn⟩ := hc.home r (hd x r hk)
      exact ⟨⟨x, hk⟩, by rw [reaches, hconn, hlead]; rfl⟩
  have hnodup : (d.values.filter (n.reaches net s)).Nodup :=
    (Dict.values_nodup d fun k k' r hk hk' =>
      (ht.key k r (hd k r hk)).symm.trans (ht.key k' r (hd k' r hk'))).filter _
  cases hk : d.get x with
  | none =>
    refine List.eq_nil_iff_forall_not_mem.2 fun r hr => ?_
    rw [hmem, hk] at hr
    cases hr
  | some r =>
    refine List.perm_singleton.1 ((List.perm_ext_iff_of_nodup hnodup (List.nodup_singleton r)).2 fun t => ?_)
    rw [hmem, hk, List.mem_singleton]
    exact ⟨fun h => (Option.some.inj h).symm, fun h => by rw [h]⟩

/-- What a node does that changes its groups: its sockets stay, and only an entry is told. -/
structure Alters (net : Net) (s : Bool) (x : Str) (v : News) (own : List Bytes) (n n' : Node) : Prop where
  contact : n'.Contact x (net.leads s)
  entry : n.peers.get x ≠ none → n'.peers.get x ≠ none
  greets : n'.Greets x ↔ n.Greets x
  ownGroups : n'.ownGroups = own
  status : n'.status = (n.status + 1) % 256
  outbox : ∃ l, n'.outbox = n.outbox ++ l ∧ heard net s l = (n.peers.get x).toList.map fun _ => v

theorem sendToPeers_alters (hl : env.Lossless) {x : Str} {m : Node} (hc : n.Contact x (net.leads s))
    (ht : Tables n) (hlinks : Links n) (hcmd : cmd = Cmd.join ∨ cmd = Cmd.leave) {own : List Bytes}
    (hm : m = { n with ownGroups := own, status := (n.status + 1) % 256, groups := m.groups }) (htm : Tables m) :
    Ensures (m.sendToPeers env cmd (some g) (some m.status))
      (Alters net s x (change cmd g ((n.status + 1) % 256)) own n) := by
  obtain ⟨groups, rfl⟩ : ∃ groups, m = { n with
      ownGroups := own, status := (n.status + 1) % 256, groups := groups } := ⟨_, hm⟩
  have hlinksm : Links { n with ownGroups := own, status := (n.status + 1) % 256, groups := groups } :=
    hlinks.of_holds rfl rfl fun r => Peer.Holds.refl _
  intro n' hn'
  have hsend : ∀ (m : Node) (r : Ref), Links m →
      Ensures (m.sendCmd env r cmd (some g) (some ((n.status + 1) % 256)) []) fun m' =>
        Talk env.Lossless (fun h => h.Is cmd) m m' ∧ ∃ l, m'.outbox = m.outbox ++ l ∧
          gist Handed.news net s l = if m.reaches net s r then [change cmd g ((n.status + 1) % 256)] else [] :=
    fun m r hm => (talk_sendCmd env m r cmd (some g) _ []).and
      (sendCmd_gist hl hm r fun _ _ _ _ henc => Handed.news_of_simple hcmd rfl henc)
  obtain ⟨l, hout, hheard⟩ := sends_gist hl hlinksm hsend _ n' hn'
  have hstays := (moves_sendToPeers env _ cmd (some g) _ [] n' hn').stays hl (by simp) (by simp) (by simp) (by simp)
  have hcm : ({ n with ownGroups := own, status := (n.status + 1) % 256, groups := groups } : Node).Contact x
    (net.leads s) := ⟨hc.home, hc.sole, hc.wait⟩
  have hgreets := greets_stays (x := x) hstays
  refine ⟨hcm.stays htm hstays, by rw [hstays.peers]; exact id, hgreets, hstays.ownGroups, hstays.status, l, hout, ?_⟩
  unfold heard
  rw [hheard, ← filter_reaches ht hc fun _ _ => id]
  rfl

/-- A JOIN of a group that the node is not in. -/
theorem joinGroup_alters (hl : env.Lossless) {x : Str} (hc : n.Contact x (net.leads s)) (ht : Tables n)
    (hlinks : Links n) (hg : g ∉ n.ownGroups) :
    Ensures (n.joinGroup env g)
      (Alters net s x (.join g ((n.status + 1) % 256)) (n.ownGroups ++ [g]) n) := by
  unfold joinGroup
  rw [if_neg hg]
  have hbooks : Tables { n with ownGroups := n.ownGroups ++ [g], status := (n.status + 1) % 256 } :=
    ⟨ht.key, ht.foreign, ht.apart, ht.member, ht.alloc, ht.pendingInj, ht.pendingIdle⟩
  exact sendToPeers_alters hl hc ht hlinks (Or.inl rfl) (requireGroup_rest _ g)
    (Tables.of_same (Same.of_talk (talk_requireGroup True (fun _ => True) _ g)) hbooks)

/-- A LEAVE of a group that the node is in. -/
theorem leaveGroup_alters (hl : env.Lossless) {x : Str} (hc : n.Contact x (net.leads s)) (ht : Tables n)
    (hlinks : Links n) (hg : g ∈ n.ownGroups) :
    Ensures (n.leaveGroup env g)
      (Alters net s x (.leave g ((n.status + 1) % 256)) (n.ownGroups.erase g) n) := by
  unfold leaveGroup
  rw [if_neg (not_not.2 hg)]
  exact sendToPeers_alters hl hc ht hlinks (Or.inr rfl) rfl
    ⟨ht.key, ht.foreign, ht.apart, ht.member, ht.alloc, ht.pendingInj, ht.pendingIdle⟩

end Changes

end Node

end Zre
