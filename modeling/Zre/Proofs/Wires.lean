import Zre.Proofs.HandlerLines
import Zre.Proofs.EventOrder

/-!
# Proofs: which peers have a connection

Every `Peer` object has its own socket, and the socket carries the number of the object. A peer in the
table has an open socket, unless a send on it found the queue full: then the entry stays without one.
-/

namespace Zre

open Fallible

namespace Node

/-- The socket was opened by the node: an object holds it, or a frame was handed to it. -/
def Opened (n : Node) (d : Dealer) : Prop :=
  (∃ r, (n.obj r).dealer = some d) ∨ ∃ h ∈ n.outbox, h.dealer = d

/-- A send on the connection of the object `r` was answered with `zmq.Again`. -/
def Torn (n : Node) (r : Ref) : Prop := ∃ h ∈ n.outbox, h.dealer.sock = r ∧ h.outcome = .again

/-- The sockets belong to the objects, one to each. -/
structure Wires (n : Node) : Prop where
  count : n.nextRef = n.sockets
  own : ∀ r d, (n.obj r).dealer = some d → d.sock = r
  opened : ∀ d, n.Opened d →
    d.sock < n.nextRef ∧ d.addr = (n.obj d.sock).addr ∧ d.port = (n.obj d.sock).port
  connected : ∀ r, (n.obj r).connected = (n.obj r).dealer.isSome
  torn : ∀ r, n.Torn r → (n.obj r).dealer = none
  entry : ∀ k r, n.peers.get k = some r ∨ n.pending.get k = some r →
    (n.obj r).dealer ≠ none ∨ n.Torn r
  ready : ∀ r, (n.obj r).ready = true → (n.obj r).dealer ≠ none ∨ ∃ k, n.peers.get k = some r

theorem Wires.init (cfg : Config) : Wires (Node.init cfg) := by
  constructor <;> simp [Node.init, Opened, Torn, Peer.new, Dict.get_empty]

section Wires

variable {env : Env} {w : Tidings} {n n' : Node}

theorem Wires.fresh (hw : Wires n) {r : Ref} (hr : n.nextRef ≤ r) : (n.obj r).dealer = none := by
  cases hd : (n.obj r).dealer with
  | none => rfl
  | some d =>
    have hlt := (hw.opened d (Or.inl ⟨r, hd⟩)).1
    rw [hw.own r d hd] at hlt
    exact absurd hlt (Nat.not_lt.2 hr)

theorem Wires.not_torn (hw : Wires n) {r : Ref} (hr : n.nextRef ≤ r) : ¬ n.Torn r := by
  rintro ⟨h, hmem, rfl, -⟩
  exact absurd (hw.opened h.dealer (Or.inr ⟨h, hmem, rfl⟩)).1 (Nat.not_lt.2 hr)

/-- Sockets were only closed. -/
theorem opened_sub (ho : n'.outbox = n.outbox)
    (hobj : ∀ s, (n'.obj s).dealer = (n.obj s).dealer ∨ (n'.obj s).dealer = none) {d : Dealer}
    (h : n'.Opened d) : n.Opened d := by
  rcases h with ⟨s, hs⟩ | h
  · rcases hobj s with h | h
    · exact Or.inl ⟨s, h ▸ hs⟩
    · rw [h] at hs
      cases hs
  · rw [ho] at h
    exact Or.inr h

theorem hand_dealer (n : Node) (r s : Ref) (h : Handed) : ((n.hand r h).obj s).dealer =
    if s = r ∧ h.outcome = .again then none else (n.obj s).dealer := by
  rw [hand_obj]
  by_cases hs : s = r
  · subst hs
    rw [if_pos rfl, Peer.handed_dealer]
    simp
  · simp [hs]

/-- A send opens nothing. -/
theorem opened_hand {r : Ref} {h : Handed} (hd : (n.obj r).dealer = some h.dealer) {d : Dealer}
    (ho : (n.hand r h).Opened d) : n.Opened d := by
  rcases ho with ⟨s, hs⟩ | ⟨x, hx, rfl⟩
  · rw [hand_dealer] at hs
    split at hs
    · cases hs
    · exact Or.inl ⟨s, hs⟩
  · rw [hand_outbox] at hx
    rcases List.mem_append.1 hx with hx | hx
    · exact Or.inr ⟨x, hx, rfl⟩
    · rw [List.mem_singleton.1 hx]
      exact Or.inl ⟨r, hd⟩

theorem torn_hand {r : Ref} {h : Handed} (hsock : h.dealer.sock = r) (s : Ref) :
    (n.hand r h).Torn s ↔ n.Torn s ∨ (s = r ∧ h.outcome = .again) := by
  unfold Torn
  rw [hand_outbox]
  constructor
  · rintro ⟨x, hx, hs, ho⟩
    rcases List.mem_append.1 hx with hx | hx
    · exact Or.inl ⟨x, hx, hs, ho⟩
    · rw [List.mem_singleton.1 hx] at hs ho
      exact Or.inr ⟨hs.symm.trans hsock, ho⟩
  · rintro (⟨x, hx, hs⟩ | ⟨hs, ho⟩)
    · exact ⟨x, List.mem_append_left _ hx, hs⟩
    · exact ⟨h, by simp, hsock.trans hs.symm, ho⟩

/-- Nothing was opened or handed over; sockets may have been closed where their objects left the
tables. -/
theorem Wires.still (hw : Wires n) (hn : n'.nextRef = n.nextRef) (hs : n'.sockets = n.sockets)
    (ho : n'.outbox = n.outbox)
    (hobj : ∀ r, (n'.obj r).addr = (n.obj r).addr ∧ (n'.obj r).port = (n.obj r).port ∧
      (n'.obj r).connected = (n'.obj r).dealer.isSome ∧
      ((n'.obj r).dealer = (n.obj r).dealer ∨ (n'.obj r).dealer = none ∧ (n'.obj r).ready = false ∧
        ∀ k, n'.peers.get k ≠ some r ∧ n'.pending.get k ≠ some r))
    (htab : ∀ k r, n'.peers.get k = some r ∨ n'.pending.get k = some r →
      ∃ j, n.peers.get j = some r ∨ n.pending.get j = some r)
    (hready : ∀ r, (n'.obj r).ready = true → (∃ k, n'.peers.get k = some r) ∨
      (n.obj r).ready = true ∧ ∀ k, n.peers.get k ≠ some r) : Wires n' := by
  have hopened : ∀ d, n'.Opened d → n.Opened d := fun _ =>
    opened_sub ho fun r => (hobj r).2.2.2.imp id And.left
  have htorn : ∀ r, n'.Torn r ↔ n.Torn r := by
    intro r
    unfold Torn
    rw [ho]
  refine ⟨by rw [hn, hs, hw.count], fun r d hd => ?_, fun d hd => ?_, fun r => (hobj r).2.2.1,
    fun r hr => ?_, fun k r hk => ?_, fun r hr => ?_⟩
  · rcases (hobj r).2.2.2 with h | ⟨h, -⟩
    · exact hw.own r d (h ▸ hd)
    · rw [h] at hd
      cases hd
  · rw [hn, (hobj d.sock).1, (hobj d.sock).2.1]
    exact hw.opened d (hopened d hd)
  · rcases (hobj r).2.2.2 with h | ⟨h, -⟩
    · rw [h]
      exact hw.torn r ((htorn r).1 hr)
    · exact h
  · rw [htorn]
    rcases (hobj r).2.2.2 with h | ⟨-, -, hout⟩
    · rw [h]
      obtain ⟨j, hj⟩ := htab k r hk
      exact hw.entry j r hj
    · exact absurd hk (not_or.2 (hout k))
  · rcases hready r hr with hk | ⟨hr', hno⟩
    · exact Or.inr hk
    · rcases (hobj r).2.2.2 with h | ⟨-, hfalse, -⟩
      · rw [h]
        refine (hw.ready r hr').imp id ?_
        rintro ⟨k, hk⟩
        exact absurd hk (hno k)
      · rw [hfalse] at hr
        cases hr

/-- A frame was handed over on an open socket. -/
theorem Wires.hand (hw : Wires n) {r : Ref} {h : Handed} (hd0 : (n.obj r).dealer = some h.dealer) :
    Wires (n.hand r h) := by
  have hsock : h.dealer.sock = r := hw.own r _ hd0
  have hadr : ∀ s, ((n.hand r h).obj s).addr = (n.obj s).addr := hand_congr Peer.addr Peer.handed_addr n r h
  have hprt : ∀ s, ((n.hand r h).obj s).port = (n.obj s).port := hand_congr Peer.port Peer.handed_port n r h
  have hdealer : ∀ s, ((n.hand r h).obj s).dealer =
      if s = r ∧ h.outcome = .again then none else (n.obj s).dealer := fun s => hand_dealer n r s h
  have htorn := torn_hand (n := n) hsock
  refine ⟨hw.count, fun s d hs => ?_, fun d hd => ?_, fun s => ?_, fun s hs => ?_, fun k s hk => ?_,
    fun s hs => ?_⟩
  · rw [hdealer] at hs
    split at hs
    · cases hs
    · exact hw.own s d hs
  · rw [hadr, hprt]
    exact hw.opened d (opened_hand hd0 hd)
  · rw [hdealer, hand_obj]
    by_cases hs : s = r
    · subst hs
      rw [if_pos rfl, Peer.handed_connected, hw.connected s]
      by_cases ho : h.outcome = .again <;> simp [ho]
    · simpa [hs] using hw.connected s
  · rw [hdealer]
    rcases (htorn s).1 hs with hs | hs
    · split
      · rfl
      · exact hw.torn s hs
    · rw [if_pos hs]
  · rw [hdealer, htorn]
    by_cases hs : s = r ∧ h.outcome = .again
    · exact Or.inr (Or.inr hs)
    · rw [if_neg hs]
      exact (hw.entry k s hk).imp id Or.inl
  · rw [hdealer]
    rw [hand_obj] at hs
    by_cases hsr : s = r
    · subst hsr
      rw [if_pos rfl, Peer.handed_ready] at hs
      split at hs
      · cases hs
      · rename_i ho
        rw [if_neg fun h => ho h.2]
        exact hw.ready s hs
    · rw [if_neg hsr] at hs
      rw [if_neg fun h => hsr h.1]
      exact hw.ready s hs

/-- A new object: it has a socket of its own, or has none and is in neither table. -/
theorem Wires.fresh_object (hw : Wires n) (p : Peer) (hn : n'.nextRef = n.nextRef + 1)
    (hs : n'.sockets = n.sockets + 1) (ho : n'.outbox = n.outbox)
    (hobj : ∀ s, n'.obj s = if s = n.nextRef then p else n.obj s)
    (hc : p.connected = p.dealer.isSome)
    (hd : ∀ d, p.dealer = some d → d.sock = n.nextRef ∧ d.addr = p.addr ∧ d.port = p.port)
    (hp : p.dealer = none → p.ready = false ∧ ∀ k, n'.peers.get k ≠ some n.nextRef ∧
      n'.pending.get k ≠ some n.nextRef)
    (htab : ∀ k r, r ≠ n.nextRef → n'.peers.get k = some r ∨ n'.pending.get k = some r →
      n.peers.get k = some r ∨ n.pending.get k = some r)
    (hpeers : ∀ k r, n.peers.get k = some r → ∃ j, n'.peers.get j = some r) : Wires n' := by
  have hnew : n'.obj n.nextRef = p := by rw [hobj, if_pos rfl]
  have hold : ∀ s, s ≠ n.nextRef → n'.obj s = n.obj s := fun s h => by rw [hobj, if_neg h]
  have htorn : ∀ r, n'.Torn r ↔ n.Torn r := by
    intro r
    unfold Torn
    rw [ho]
  refine ⟨by rw [hn, hs, hw.count], fun r d hr => ?_, fun d hd' => ?_, fun r => ?_, fun r hr => ?_,
    fun k r hk => ?_, fun r hr => ?_⟩
  · by_cases h : r = n.nextRef
    · subst h
      rw [hnew] at hr
      exact (hd d hr).1
    · rw [hold r h] at hr
      exact hw.own r d hr
  · have hprev : n.Opened d → d.sock < n'.nextRef ∧ d.addr = (n'.obj d.sock).addr ∧
        d.port = (n'.obj d.sock).port := by
      intro h
      obtain ⟨hlt, haddr⟩ := hw.opened d h
      rw [hold d.sock (Nat.ne_of_lt hlt), hn]
      exact ⟨Nat.lt_succ_of_lt hlt, haddr⟩
    rcases hd' with ⟨r, hr⟩ | h
    · by_cases h : r = n.nextRef
      · subst h
        rw [hnew] at hr
        obtain ⟨h1, h2⟩ := hd d hr
        rw [h1, hnew, hn]
        exact ⟨Nat.lt_succ_self _, h2⟩
      · rw [hold r h] at hr
        exact hprev (Or.inl ⟨r, hr⟩)
    · rw [ho] at h
      exact hprev (Or.inr h)
  · by_cases h : r = n.nextRef
    · rw [h, hnew]
      exact hc
    · rw [hold r h]
      exact hw.connected r
  · rw [htorn] at hr
    have hne : r ≠ n.nextRef := by
      rintro rfl
      exact hw.not_torn le_rfl hr
    rw [hold r hne]
    exact hw.torn r hr
  · rw [htorn]
    by_cases h : r = n.nextRef
    · subst h
      rw [hnew]
      refine Or.inl fun hnone => ?_
      exact absurd hk (not_or.2 ((hp hnone).2 k))
    · rw [hold r h]
      exact hw.entry k r (htab k r h hk)
  · by_cases h : r = n.nextRef
    · subst h
      rw [hnew] at hr ⊢
      refine Or.inl fun hnone => ?_
      rw [(hp hnone).1] at hr
      cases hr
    · rw [hold r h] at hr ⊢
      refine (hw.ready r hr).imp id ?_
      rintro ⟨k, hk⟩
      exact hpeers k r hk

/-- A write to an object that keeps its socket; only an object in the peer table may become ready. -/
theorem Wires.setObj (hw : Wires n) (r : Ref) {p : Peer} (ha : p.addr = (n.obj r).addr)
    (hp : p.port = (n.obj r).port) (hd : p.dealer = (n.obj r).dealer)
    (hc : p.connected = (n.obj r).connected)
    (hr : p.ready = (n.obj r).ready ∨ ∃ k, n.peers.get k = some r) : Wires (n.setObj r p) := by
  have hdealer := setObj_congr Peer.dealer n r hd
  refine hw.still rfl rfl rfl (fun s => ⟨setObj_congr Peer.addr n r ha s, setObj_congr Peer.port n r hp s, ?_,
    Or.inl (hdealer s)⟩) (fun k s hk => ⟨k, hk⟩) fun s hs => ?_
  · rw [setObj_congr Peer.connected n r hc s, hdealer s]
    exact hw.connected s
  · by_cases hk : ∃ k, n.peers.get k = some s
    · exact Or.inl hk
    · refine Or.inr ⟨?_, not_exists.1 hk⟩
      rcases hr with hr | hr
      · rw [← setObj_congr Peer.ready n r hr s]
        exact hs
      · rw [setObj_obj] at hs
        split at hs
        · rename_i hsr
          exact absurd (hsr ▸ hr) hk
        · exact hs

/-- An object is closed and leaves the tables. -/
theorem Wires.close (hw : Wires n) (r : Ref) {peers pending : Dict Str Ref}
    (hp : ∀ j s, peers.get j = some s ↔ n.peers.get j = some s ∧ s ≠ r)
    (hq : ∀ j s, pending.get j = some s ↔ n.pending.get j = some s ∧ s ≠ r) :
    Wires { n.setObj r (n.obj r).disconnect with peers, pending } := by
  refine hw.still rfl rfl rfl (fun s => ⟨setObj_congr Peer.addr n r (by rfl) s,
    setObj_congr Peer.port n r (by rfl) s, ?_, ?_⟩) (fun j s hj => ?_) fun s hs => ?_
  · show ((n.setObj r _).obj s).connected = ((n.setObj r _).obj s).dealer.isSome
    rw [setObj_obj]
    split
    · rfl
    · exact hw.connected s
  · show ((n.setObj r _).obj s).dealer = _ ∨
      ((n.setObj r _).obj s).dealer = none ∧ ((n.setObj r _).obj s).ready = _ ∧ _
    rw [setObj_obj]
    split
    · rename_i hsr
      subst hsr
      exact Or.inr ⟨rfl, rfl, fun j => ⟨fun hj => ((hp j s).1 hj).2 rfl, fun hj => ((hq j s).1 hj).2 rfl⟩⟩
    · exact Or.inl rfl
  · exact ⟨j, hj.imp (fun hj => ((hp j s).1 hj).1) fun hj => ((hq j s).1 hj).1⟩
  · have hs' : ((n.setObj r (n.obj r).disconnect).obj s).ready = true := hs
    rw [setObj_obj] at hs'
    split at hs'
    · cases hs'
    · rename_i hsr
      by_cases hold : ∃ j, n.peers.get j = some s
      · obtain ⟨j, hj⟩ := hold
        exact Or.inl ⟨j, (hp j s).2 ⟨hj, hsr⟩⟩
      · exact Or.inr ⟨hs', not_exists.1 hold⟩

theorem Wires.line (hf : Filed n) (h : Line env w n n') (hw : Wires n) : Wires n' := by
  cases h with
  | idle h =>
    have hrest := h.rest
    have hout : n'.nextRef = n.nextRef ∧ n'.sockets = n.sockets ∧ n'.outbox = n.outbox := by
      rw [hrest]
      exact ⟨rfl, rfl, rfl⟩
    have htab : n'.peers = n.peers ∧ n'.pending = n.pending := by
      rw [hrest]
      exact ⟨rfl, rfl⟩
    refine hw.still hout.1 hout.2.1 hout.2.2 (fun r => ⟨(h.obj r).addr, (h.obj r).port, ?_, Or.inl (h.obj r).dealer⟩)
      (fun k r hk => ?_) fun r hr => ?_
    · rw [(h.obj r).connected, (h.obj r).dealer]
      exact hw.connected r
    · rw [htab.1, htab.2] at hk
      exact ⟨k, hk⟩
    · rw [htab.1]
      rw [(h.obj r).ready] at hr
      by_cases hk : ∃ k, n.peers.get k = some r
      · exact Or.inl hk
      · exact Or.inr ⟨hr, not_exists.1 hk⟩
  | learn h => exact ⟨hw.count, hw.own, hw.opened, hw.connected, hw.torn, hw.entry, hw.ready⟩
  | hail k r p hk hp => exact hw.setObj r hp.addr hp.port hp.dealer hp.connected (Or.inr ⟨k, hk⟩)
  | refresh k r hk hh => exact hw.setObj r rfl rfl rfl rfl (Or.inl rfl)
  | hand r h cmd hc hd hs => exact hw.hand hd
  | waste uuidHex addr port =>
    refine hw.fresh_object (Peer.new uuidHex addr port) rfl rfl rfl (allocated_obj n _) rfl (fun d hd => ?_)
      (fun _ => ⟨rfl, fun k => ⟨fun hk => ?_, fun hk => ?_⟩⟩) (fun _ _ _ hk => hk) fun k r hk => ⟨k, hk⟩
    · cases hd
    · exact absurd (hf.alloc k _ (Or.inl hk)) (Nat.lt_irrefl _)
    · exact absurd (hf.alloc k _ (Or.inr hk)) (Nat.lt_irrefl _)
  | greet k addr port p h hk hh hd hkeys hs hp hdealer hmsg =>
    have hpd : p.dealer = (n.dialled env k addr port (some k)).dealer := hp.dealer
    have hfiled : Wires (n.filed k p) := by
      refine hw.fresh_object p rfl rfl rfl (filed_obj n k p) ?_ (fun d hd => ?_) (fun hnone => ?_)
        (fun j s hs hj => ?_) fun j s hj => ⟨j, ?_⟩
      · rw [hpd]
        exact hp.connected
      · rw [hpd] at hd
        cases hd
        exact ⟨hw.count.symm, hp.addr.symm, hp.port.symm⟩
      · rw [hpd] at hnone
        cases hnone
      · rw [filed_peers, filed_pending] at hj
        refine hj.imp (fun hj => ?_) id
        rw [Dict.get_set] at hj
        split at hj
        · cases hj
          exact absurd rfl hs
        · exact hj
      · rw [filed_peers, Dict.get_set, if_neg, hj]
        rintro rfl
        rw [hk] at hj
        cases hj
    refine hfiled.hand ?_
    rw [filed_obj, if_pos rfl, hdealer]
  | call k addr port h hk hd hs hdealer hmsg =>
    have hawaited : Wires (n.awaited k (n.dialled env k addr port none)) := by
      refine hw.fresh_object _ rfl rfl rfl (awaited_obj n k _) rfl (fun d hd => ?_) (fun hnone => ?_)
        (fun j s hs hj => ?_) fun j s hj => ⟨j, hj⟩
      · cases hd
        exact ⟨hw.count.symm, rfl, rfl⟩
      · cases hnone
      · rw [awaited_peers, awaited_pending] at hj
        refine hj.imp id fun hj => ?_
        rw [Dict.get_set] at hj
        split at hj
        · cases hj
          exact absurd rfl hs
        · exact hj
    refine hawaited.hand ?_
    rw [awaited_obj, if_pos rfl, hdealer]
  | adopt k r rhex hp hk hh =>
    have hset : Wires (n.setObj r
        ({ n.obj r with uuidHex := rhex }.refresh env.now n.cfg.evTimeout n.cfg.exTimeout)) :=
      hw.setObj r rfl rfl rfl rfl (Or.inl rfl)
    refine hset.still rfl rfl rfl (fun s => ⟨rfl, rfl, hset.connected s, Or.inl rfl⟩) (fun j s hj => ?_)
      fun s hs => ?_
    · rcases hj with hj | hj
      · have hj' : (n.peers.set rhex r).get j = some s := hj
        rw [Dict.get_set] at hj'
        split at hj'
        · cases hj'
          exact ⟨k, Or.inr hp⟩
        · exact ⟨j, Or.inl hj'⟩
      · exact ⟨j, Or.inr ((hf.pending_pop hp j s).1 hj).1⟩
    · by_cases hold : ∃ j, n.peers.get j = some s
      · obtain ⟨j, hj⟩ := hold
        refine Or.inl ⟨j, ?_⟩
        show (n.peers.set rhex r).get j = some s
        rw [Dict.get_set, if_neg, hj]
        rintro rfl
        rw [hk] at hj
        cases hj
      · exact Or.inr ⟨hs, not_exists.1 hold⟩
  | forget k r hk =>
    exact hw.close r (hf.peers_pop hk) fun j s => ⟨fun hj => ⟨hj, fun h => hf.apart k j r hk (h ▸ hj)⟩, And.left⟩
  | drop k r hp =>
    exact hw.close r (fun j s => ⟨fun hj => ⟨hj, fun h => hf.apart j k r (h ▸ hj) hp⟩, And.left⟩)
      (hf.pending_pop hp)

end Wires

theorem Reachable.wires {n : Node} (h : n.Reachable) : Wires n :=
  h.of_lines Wires.init fun hf hl hw => hw.line hf hl

/-- Every peer in the table has an open socket, and no object is ready without one. -/
def NoZombies (n : Node) : Prop :=
  (∀ k r, n.peers.get k = some r → (n.obj r).connected = true ∧ (n.obj r).dealer ≠ none) ∧
    ∀ r, (n.obj r).ready = true → (n.obj r).connected = true

/-- The zombies are the peers in the table whose connection was torn down by a full queue. -/
theorem Reachable.no_zombies_iff {n : Node} (h : n.Reachable) :
    n.NoZombies ↔ ∀ k r, n.peers.get k = some r → ¬ n.Torn r := by
  have hw := h.wires
  have hopen : ∀ r, (n.obj r).connected = true ↔ (n.obj r).dealer ≠ none := by
    intro r
    rw [hw.connected r]
    cases (n.obj r).dealer <;> simp
  constructor
  · intro hz k r hk ht
    exact (hz.1 k r hk).2 (hw.torn r ht)
  · intro hno
    have hentry : ∀ k r, n.peers.get k = some r → (n.obj r).dealer ≠ none := fun k r hk =>
      (hw.entry k r (Or.inl hk)).resolve_right (hno k r hk)
    refine ⟨fun k r hk => ⟨(hopen r).2 (hentry k r hk), hentry k r hk⟩, fun r hr => (hopen r).2 ?_⟩
    rcases hw.ready r hr with hd | ⟨k, hk⟩
    · exact hd
    · exact hentry k r hk

/-- A peer whose greeting was queued. -/
def sampleGreeted : Node :=
  sampleA.after (Env.calm 0) (.beacon (sampleBeaconData 4002) "10.0.0.2".toList)

theorem no_zombies_greeted : sampleGreeted.peers.get (hex sampleUuid) = some 0 ∧ sampleGreeted.NoZombies := by
  have hsent : ∀ h ∈ sampleGreeted.outbox, h.outcome ≠ .again := by decide +kernel
  refine ⟨by decide +kernel, (Reachable.no_zombies_iff ((Reachable.init _).after _ _)).2 fun k r _ => ?_⟩
  rintro ⟨h, hmem, -, hagain⟩
  exact hsent h hmem hagain

/-- Every queue is full. -/
def sampleJam : Env := { Env.calm 0 with send := fun _ => .again }

/-- The connection of a peer is torn down by its greeting; then the HELLO of the peer makes it ready. -/
def sampleZombie : Node :=
  (sampleA.after sampleJam (.beacon (sampleBeaconData 4002) "10.0.0.2".toList)).after (Env.calm 0)
    (.peerMsg sampleHello)

/-- A peer that is in the table and ready, without a connection. -/
theorem zombie : ¬ ∀ n : Node, n.Reachable → n.NoZombies := by
  intro hall
  have hn : sampleZombie.Reachable := ((Reachable.init _).after _ _).after _ _
  have hready : (sampleZombie.obj 0).ready = true := by decide +kernel
  have hclosed : (sampleZombie.obj 0).connected = false := by decide +kernel
  have hopen := (hall sampleZombie hn).2 0 hready
  rw [hclosed] at hopen
  cases hopen

end Node

end Zre
