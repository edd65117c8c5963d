import Zre.Proofs.Record
import Zre.Proofs.EventOrder

/-!
# Proofs: whose connection a peer has

`owner` says who really listens at an address. While everybody announces its own address, the record of a
peer is dialled to an address of that peer, unless a pending dial to somebody else is taken by its port
alone.
-/

namespace Zre

open Fallible

namespace Node

variable {owner : Str → Int → Option Str}

/-- The address to which the object `r` was dialled is one of the node `k`. -/
def Reaches (owner : Str → Int → Option Str) (n : Node) (r : Ref) (k : Str) : Prop :=
  owner (n.obj r).addr (n.obj r).port = some k

/-- Every record in the peer table is dialled to an address of its peer. -/
def Bound (owner : Str → Int → Option Str) (n : Node) : Prop :=
  ∀ k r, n.peers.get k = some r → n.Reaches owner r k

/-- The first pending dial to `port` goes to an address of `k`, or there is one to `host` and `port`
themselves. -/
def Spared (owner : Str → Int → Option Str) (n : Node) (k host : Str) (port : Int) : Prop :=
  (∃ e ∈ n.pending.entries, (n.obj e.2).addr = host ∧ (n.obj e.2).port = port) ∨
    ∀ e, n.pending.entries.find? (fun e => (n.obj e.2).port = port) = some e → n.Reaches owner e.2 k

/-- Who is announced is told the truth about. -/
def Truthful (owner : Str → Int → Option Str) (n : Node) (a : Act) : Prop :=
  ∀ k host port, n.Announces a k host port → owner host port = some k

/-- Announcements are truthful, and no new peer takes the dial to somebody else. -/
structure Faithful (owner : Str → Int → Option Str) (n : Node) (_ : Env) (a : Act) : Prop where
  truthful : n.Truthful owner a
  spared : ∀ k host port, n.Announces a k host port → n.peers.get k = none → n.Spared owner k host port

section Bound

variable {n n' : Node} {k rhex host : Str} {port : Int} {r : Ref}

/-! ## One adoption -/

/-- The pending dial that is taken goes to an address of the announced node exactly when it is spared. -/
theorem spared_iff (ho : owner host port = some k) (hk : n.peers.get k = none) :
    (∀ e, n.pendingMatch host port k = some e → n.Reaches owner e.2 k) ↔ n.Spared owner k host port := by
  have hport : ∀ e : Str × Ref, ((n.obj e.2).port = port ∧ (!n.peers.contains k) = true) ↔
      (n.obj e.2).port = port := by
    intro e
    simp [Dict.contains, hk]
  unfold pendingMatch Spared
  cases hfind : n.pending.entries.find? (fun e => (n.obj e.2).addr = host ∧ (n.obj e.2).port = port) with
  | some e =>
    have he := List.find?_some hfind
    simp only [decide_eq_true_eq] at he
    refine ⟨fun _ => Or.inl ⟨e, List.mem_of_find?_eq_some hfind, he⟩, fun _ e' he' => ?_⟩
    cases he'
    unfold Reaches
    rw [he.1, he.2, ho]
  | none =>
    have hnone : ¬ ∃ e ∈ n.pending.entries, (n.obj e.2).addr = host ∧ (n.obj e.2).port = port := by
      rintro ⟨e, hmem, he⟩
      exact absurd (decide_eq_true he) (List.find?_eq_none.1 hfind e hmem)
    simp only [hport, hnone, false_or]

/-- An adoption connects the announced node to itself exactly when the dial that it takes is spared. -/
theorem adoptPending_reaches_iff (env : Env) (ho : owner host port = some k) (hk : n.peers.get k = none) :
    (∀ r n', n.adoptPending env host port k = (some r, n') → n'.Reaches owner r k) ↔
      n.Spared owner k host port := by
  rw [← spared_iff ho hk]
  have hadopt : ∀ key r, (n.adoptUnder env key r k).Reaches owner r k ↔ n.Reaches owner r k := by
    intro key r
    show owner ((n.setObj r _).obj r).addr ((n.setObj r _).obj r).port = _ ↔ _
    rw [setObj_obj_self]
    rfl
  unfold adoptPending
  cases n.pendingMatch host port k with
  | none => simp
  | some e => simp [hadopt]

/-! ## Moves that meet nobody -/

/-- Every peer was known before, under the same address. -/
theorem Bound.of_kept (hb : n.Bound owner)
    (hp : ∀ k r, n'.peers.get k = some r → n.peers.get k = some r)
    (ha : ∀ k r, n.peers.get k = some r →
      (n'.obj r).addr = (n.obj r).addr ∧ (n'.obj r).port = (n.obj r).port) : n'.Bound owner := by
  intro k r hk
  obtain ⟨haddr, hport⟩ := ha k r (hp k r hk)
  unfold Reaches
  rw [haddr, hport]
  exact hb k r (hp k r hk)

theorem Bound.setObj (hb : n.Bound owner) (r : Ref) {p : Peer}
    (h : p.addr = (n.obj r).addr ∧ p.port = (n.obj r).port) : (n.setObj r p).Bound owner :=
  hb.of_kept (fun _ _ => id) fun _ s _ => ⟨setObj_congr Peer.addr n r h.1 s, setObj_congr Peer.port n r h.2 s⟩

/-- A new object is in no table yet. -/
theorem Bound.allocated (ht : Tables n) (hb : n.Bound owner) (p : Peer) (hp : n'.peers = n.peers)
    (ho : n'.obj = (n.allocated p).obj) : n'.Bound owner := by
  refine hb.of_kept (fun k r hk => hp ▸ hk) fun k r hk => ?_
  have hr : (n.allocated p).obj r = n.obj r := by
    rw [allocated_obj, if_neg (Nat.ne_of_lt (ht.alloc k r (Or.inl hk)))]
  rw [ho, hr]
  exact ⟨rfl, rfl⟩

theorem Bound.move {allow : Kind → Prop} {hands : Handed → Prop} (hno : ¬ allow .meet) (ht : Tables n)
    (h : Move allow hands n n') (hb : n.Bound owner) : n'.Bound owner := by
  cases h with
  | talk hL h => exact hb.of_kept (fun k r hk => h.peers ▸ hk) fun k r _ => (h.obj r).address
  | touch r p h => exact hb.setObj r h.address
  | hail ha k r p hk h => exact hb.setObj r h.address
  | quiet h | books ha h hbs =>
    rw [h]
    exact hb
  | emit e he => exact hb
  | waste p hd hc => exact hb.allocated ht p rfl rfl
  | file ha env k addr port curve hk hown => exact absurd ha hno
  | dial ha env k addr port curve => exact absurd ha hno
  | adopt ha env k r rhex hp hk hown => exact absurd ha hno
  | enter ha k r g hk h hm =>
    rw [h]
    exact hb.setObj r ⟨rfl, rfl⟩
  | leave ha k r g hk h hm =>
    rw [h]
    exact hb.setObj r ⟨rfl, rfl⟩
  | forget ha k r hk h hm =>
    rw [h]
    refine (hb.setObj r (p := (n.obj r).disconnect) ⟨rfl, rfl⟩).of_kept (fun j s hj => ?_) fun _ _ _ => ⟨rfl, rfl⟩
    have hj' : (n.peers.pop k).get j = some s := hj
    rw [Dict.get_pop] at hj'
    split at hj'
    · cases hj'
    · exact hj'
  | dropDial ha k r hp => exact hb.setObj r ⟨rfl, rfl⟩

theorem Bound.moves {allow : Kind → Prop} {hands : Handed → Prop} (hno : ¬ allow .meet) (ht : Tables n)
    (h : Moves allow hands n n') (hb : n.Bound owner) : n'.Bound owner :=
  (h.invariant (I := fun m => Tables m ∧ m.Bound owner)
    (fun hm hi => ⟨hi.1.move hm, hi.2.move hno hi.1 hm⟩) ⟨ht, hb⟩).2

theorem Bound.still (hb : n.Bound owner) (ht : Tables n) (h : Moves (fun _ => False) anything n n') :
    n'.Bound owner := hb.moves id ht h

/-- The kinds of an act that meets nobody. -/
theorem not_may_meet {env : Env} {ks : List Kind} (h : Kind.meet ∉ ks) : ¬ may env ks .meet := by
  rintro (hm | ⟨hc, -⟩)
  · exact h hm
  · cases hc

/-! ## Meeting -/

theorem Bound.file (ht : Tables n) (hb : n.Bound owner) (env : Env) (curve : Option (Bytes × Bytes × Bytes))
    (ho : owner host port = some k) : { n.allocated (n.opened env k host port curve) with
      peers := n.peers.set k n.nextRef }.Bound owner := by
  intro j s hj
  have hj' : (n.peers.set k n.nextRef).get j = some s := hj
  rw [Dict.get_set] at hj'
  split at hj'
  · rename_i hkj
    cases hj'
    subst hkj
    show owner ((n.allocated _).obj n.nextRef).addr ((n.allocated _).obj n.nextRef).port = _
    rw [allocated_obj_self]
    exact ho
  · have hold : (n.allocated (n.opened env k host port curve)).Bound owner := hb.allocated ht _ rfl rfl
    exact hold j s hj'

theorem Bound.adopt (hb : n.Bound owner) (env : Env) (key : Str) (hr : n.Reaches owner r k) :
    (n.adoptUnder env key r k).Bound owner := by
  intro j s hj
  have hj' : (n.peers.set k r).get j = some s := hj
  have hobj : ((n.adoptUnder env key r k).obj s).addr = (n.obj s).addr ∧
      ((n.adoptUnder env key r k).obj s).port = (n.obj s).port :=
    ⟨setObj_congr Peer.addr n r (by rfl) s, setObj_congr Peer.port n r (by rfl) s⟩
  unfold Reaches
  rw [hobj.1, hobj.2]
  rw [Dict.get_set] at hj'
  split at hj'
  · rename_i hkj
    cases hj'
    exact hkj ▸ hr
  · exact hb j s hj'

theorem Bound.adoptPending (hb : n.Bound owner) {env : Env} (ho : owner host port = some k)
    (hk : n.peers.get k = none) (hs : n.Spared owner k host port) {res : Option Ref}
    (h : n.adoptPending env host port k = (res, n')) : n'.Bound owner := by
  cases res with
  | none =>
    obtain ⟨rfl, -⟩ := adoptPending_none h
    exact hb
  | some r =>
    obtain ⟨j, rfl, hm⟩ := adoptPending_some h
    exact hb.adopt env j ((spared_iff ho hk).2 hs (j, r) hm)

theorem Bound.dialPeer (ht : Tables n) (hb : n.Bound owner) {env : Env} (ho : owner host port = some k)
    {res : Option Ref} (h : n.dialPeer env k host port = (res, n')) : n'.Bound owner := by
  unfold Node.dialPeer at h
  rcases openPeer_cases env n k host port (some k) with h' | ⟨p, -, -, h'⟩ | ⟨curve, h'⟩ <;> rw [h'] at h <;>
    cases h
  · exact hb
  · exact hb.allocated ht p rfl rfl
  · exact hb.file ht env curve ho

theorem Bound.talk {L : Prop} {K : Handed → Prop} (h : Talk L K n n') (hb : n.Bound owner) : n'.Bound owner :=
  hb.of_kept (fun _ _ hk => h.peers ▸ hk) fun _ s _ => (h.obj s).address

/-- A node that announces itself truthfully is met at its own address. -/
theorem bound_meetPeer (env : Env) (ht : Tables n) (hb : n.Bound owner) (ho : owner host port = some k)
    (hk : n.peers.get k = none) (hs : n.Spared owner k host port) :
    Ensures (n.meetPeer env k host port) (Bound owner) := by
  unfold meetPeer
  cases ha : n.adoptPending env host port k with
  | mk o n1 =>
    have hb1 := hb.adoptPending ho hk hs ha
    cases o with
    | some r => exact (talk_sendHello env n1 r).mono fun _ h => hb1.talk h
    | none =>
      obtain ⟨rfl, -⟩ := adoptPending_none ha
      simp only []
      cases hd : n1.dialPeer env k host port with
      | mk o n2 =>
        have hb2 := hb.dialPeer ht ho hd
        cases o with
        | some r => exact (talk_sendHello env n2 r).mono fun _ h => hb2.talk h
        | none => exact Ensures.ok hb2

theorem bound_enterPeer (env : Env) (ht : Tables n) (hb : n.Bound owner) (hk : n.peers.get k = some r)
    (h : HelloFields) (epStr : Str) (helloReply : Bool) :
    Ensures (n.enterPeer env k r h epStr helloReply) (Bound owner) :=
  (moves_enterPeer env ht hk h epStr helloReply).mono fun _ hm =>
    hb.moves (not_may_meet (by simp)) ht hm

theorem bound_helloFromNew (env : Env) (ht : Tables n) (hb : n.Bound owner) (hk : n.peers.get k = none)
    (hown : k ≠ n.cfg.peerIdHex) (h : HelloFields)
    (ho : ∀ addr port, splitEndpoint n.cfg.rt (endpointText h.endpoint) = .ok (addr, port) →
      owner (dialHost addr) port = some k ∧ n.Spared owner k (dialHost addr) port) :
    Ensures (n.helloFromNew env k h) (Bound owner) := by
  obtain ⟨keys, hkeys⟩ := learnHelloKeys_rest n k h
  have ht0 : Tables { n with peerServerKeys := keys } := ht.quiet rfl
  unfold helloFromNew
  simp only [hkeys]
  split
  · exact Ensures.ok hb
  · rename_i addr port hsplit
    obtain ⟨howner, hspared⟩ := ho addr port hsplit
    cases ha : { n with peerServerKeys := keys }.adoptPending env (dialHost addr) port k with
    | mk o n1 =>
      have hb1 : n1.Bound owner :=
        Bound.adoptPending (n := { n with peerServerKeys := keys }) hb howner hk hspared ha
      obtain ⟨hm1, -, hnone, hin⟩ := moves_adoptPending anything anything
        (n := { n with peerServerKeys := keys }) trivial hk hown ha
      cases o with
      | some r => exact bound_enterPeer env (hm1.invariant Tables.move ht0) hb1 (hin r rfl) h _ false
      | none =>
        cases hnone rfl
        simp only []
        cases hd : { n with peerServerKeys := keys }.dialPeer env k (dialHost addr) port with
        | mk o n2 =>
          have hb2 : n2.Bound owner := Bound.dialPeer (n := { n with peerServerKeys := keys }) ht0 hb howner hd
          obtain ⟨hm2, -, hin2⟩ := moves_dialPeer anything anything
            (n := { n with peerServerKeys := keys }) trivial hk hown hd
          cases o with
          | some r => exact bound_enterPeer env (hm2.invariant Tables.move ht0) hb2 (hin2 r rfl) h _ true
          | none => exact Ensures.ok hb2

/-! ## Acts -/

theorem bound_handleHello (env : Env) (ht : Tables n) (hb : n.Bound owner) (h : HelloFields)
    (existing : Option Ref) (ho : n.peers.get k = none → ∀ addr port,
      splitEndpoint n.cfg.rt (endpointText h.endpoint) = .ok (addr, port) →
        owner (dialHost addr) port = some k ∧ n.Spared owner k (dialHost addr) port) :
    Ensures (n.handleHello env k h existing) (Bound owner) := by
  unfold handleHello
  split
  · exact Ensures.ok hb
  · split
    · split
      · exact Ensures.ok hb
      · exact Ensures.error
    · rename_i hown
      split
      · exact Ensures.ok hb
      · have ht0 : Tables { n with evasiveEmitAt := n.evasiveEmitAt.pop k } := ht.quiet rfl
        have hb0 : { n with evasiveEmitAt := n.evasiveEmitAt.pop k }.Bound owner := hb
        simp only []
        split
        · exact Ensures.ok (hb0.still ht0 (moves_helloFromLive env _ _ h))
        · split
          · rename_i hk
            exact bound_helloFromNew env ht0 hb0 hk hown h (ho hk)
          · rename_i r hk
            exact bound_enterPeer env ht0 hb0 hk h _ false

theorem bound_handlePeerMsg (env : Env) (ht : Tables n) (hb : n.Bound owner) {frames : List Bytes}
    (hp : n.Faithful owner env (.input (.peerMsg frames))) :
    Ensures (n.handlePeerMsg env frames) (Bound owner) := by
  intro n' hn'
  rcases handlePeerMsg_cases env n frames n' hn' with
    rfl | ⟨uuid, msg, extra, hc, ⟨h, hf, hh⟩ | ⟨-, r, hk, -, hh⟩⟩
  · exact hb
  · obtain ⟨hm0, hpeers, -⟩ := moves_resetSeq (fun _ => False) anything n (hex uuid)
    refine bound_handleHello env (hm0.invariant Tables.move ht) (hb.still ht hm0) h _
      (fun hk addr port hs => ?_) n' hh
    rw [hpeers] at hk
    have hsame : n.resetSeq (hex uuid) = n := by
      unfold resetSeq
      rw [hk]
    rw [hsame] at hs ⊢
    exact ⟨hp.truthful _ _ _ (.hello hc hf hs), hp.spared _ _ _ (.hello hc hf hs) hk⟩
  · refine hb.moves (not_may_meet ?_) ht (moves_handleTraffic env ht hk msg extra n' hh)
    unfold trafficKinds
    split_ifs <;> simp

theorem bound_handleBeacon (env : Env) (ht : Tables n) (hb : n.Bound owner) {data : Bytes}
    (hp : n.Faithful owner env (.input (.beacon data host))) :
    Ensures (n.handleBeacon env data host) (Bound owner) := by
  intro n' hn'
  rcases handleBeacon_cases env n data host n' hn' with rfl | ⟨uuid, port, hh, hacc⟩
  · exact hb
  by_cases hport : port = 0
  · have hm := moves_acceptBeacon env ht uuid port (n.beaconKey data) host n' hacc
    refine hb.moves (not_may_meet ?_) ht hm
    rw [beaconKinds, if_pos hport]
    simp
  · unfold acceptBeacon at hacc
    split at hacc
    · split at hacc <;> cases hacc
      exact hb
    · obtain ⟨keys, hkeys⟩ := learnBeaconKey_rest n (hex uuid) host port (n.beaconKey data)
      simp only [hkeys] at hacc
      have ht0 : Tables { n with peerServerKeys := keys } := ht.quiet rfl
      have hb0 : { n with peerServerKeys := keys }.Bound owner := hb
      split at hacc
      · cases hacc
        exact hb0.setObj _ ⟨rfl, rfl⟩
      · rename_i hk
        exact bound_meetPeer env ht0 hb0 (hp.truthful _ _ _ (.beacon hh hport)) hk
          (hp.spared _ _ _ (.beacon hh hport) hk) n' hacc

theorem bound_gossipRequire (env : Env) (ht : Tables n) (hb : n.Bound owner) {uuidHex endpoint : Str}
    (hp : n.Faithful owner env (.input (.gossip uuidHex endpoint))) :
    Ensures (n.gossipRequire env uuidHex endpoint) (Bound owner) := by
  unfold gossipRequire
  simp only []
  split
  · exact Ensures.ok hb
  · split
    · exact Ensures.ok hb
    · obtain ⟨keys, hkeys⟩ := learnTupleKey_rest n (n.cfg.rt.lower uuidHex) endpoint
      simp only [hkeys]
      have ht0 : Tables { n with peerServerKeys := keys } := ht.quiet rfl
      have hb0 : { n with peerServerKeys := keys }.Bound owner := hb
      split
      · exact Ensures.ok hb
      · exact Ensures.error
      · rename_i hs
        split
        · exact Ensures.ok (hb0.setObj _ ⟨rfl, rfl⟩)
        · rename_i hk
          exact bound_meetPeer env ht0 hb0 (hp.truthful _ _ _ (.gossip hs)) hk
            (hp.spared _ _ _ (.gossip hs) hk)

theorem bound_doConnect (env : Env) (ht : Tables n) (hb : n.Bound owner) (host : Str) (port : Int) :
    Ensures (n.doConnect env host port) (Bound owner) := by
  unfold doConnect
  split
  · exact Ensures.ok hb
  · split
    · exact Ensures.ok hb
    · simp only []
      split
      · exact Ensures.ok hb
      · rcases openPeer_cases env n (pendingKey host port) host port none with h | ⟨p, -, -, h⟩ | ⟨curve, h⟩ <;>
          rw [h]
        · exact Ensures.ok hb
        · exact Ensures.ok (hb.allocated ht p rfl rfl)
        · refine (talk_sendHello env _ _).mono fun _ ht' => Bound.talk ht' ?_
          exact hb.allocated ht (n.opened env (pendingKey host port) host port curve) rfl rfl

theorem bound_act (env : Env) (ht : Tables n) (hb : n.Bound owner) {a : Act} (ha : n.Enabled a)
    (hp : n.Faithful owner env a) : Ensures (n.act env a) (Bound owner) := by
  have hfree : ∀ {ks : List Kind} {hands : Handed → Prop} {m : Node}, Kind.meet ∉ ks →
      Moves (may env ks) hands n m → m.Bound owner :=
    fun hks hm => hb.moves (not_may_meet hks) ht hm
  cases a with
  | dropDials =>
    have hm := moves_reapPendings env n n.pending.nodup fun e he => (Dict.get_eq_some_iff _).2 he
    exact Ensures.ok (hfree (by simp) hm)
  | maintain => exact (talk_maintainElections env n).mono fun _ h => hb.talk h
  | round r =>
    obtain ⟨k, hk⟩ := (Dict.mem_values _).1 ha
    exact (moves_reapPeer env ht hk).mono fun _ h => hfree (by simp) h.1
  | input input =>
    cases input with
    | peerMsg frames => exact bound_handlePeerMsg env ht hb hp
    | beacon data host => exact bound_handleBeacon env ht hb hp
    | gossip uuidHex endpoint => exact bound_gossipRequire env ht hb hp
    | command c =>
      cases c with
      | join g => exact (moves_joinGroup env n g).mono fun _ h => hfree (by simp) h
      | leave g => exact (moves_leaveGroup env n g.raw).mono fun _ h => hfree (by simp) h
      | whisper peerHex payload => exact (moves_doWhisper env n peerHex payload).mono fun _ h => hfree (by simp) h
      | shout g payload => exact (moves_doShout env n g.raw payload).mono fun _ h => hfree (by simp) h
      | connect host port => exact bound_doConnect env ht hb host port
    | reap => exact absurd rfl ha
    | setContestInGroup g =>
      exact Ensures.ok (hb.still ht (moves_setContestInGroup n g))
    | setHeader key value => exact Ensures.ok hb
    | pinKey host port publicKey =>
      exact Ensures.ok (hb.still ht (moves_learnKey n _ publicKey))
    | recv => exact Ensures.ok hb

/-- Every dialled socket has the address of its record. -/
theorem Visits.links {P : Node → Env → Act → Prop} (h : Visits P n) : Links n := by
  induction h with
  | init cfg => exact Links.init cfg
  | act env a hn ha _ h ih => exact (moves_act env hn.tables ha _ h).invariant Links.move ih

/-- A WHISPER is handed to the socket of the peer that it names. -/
theorem doWhisper_socket (env : Env) (n : Node) (peerHex payload : Bytes) :
    Ensures (n.doWhisper env peerHex payload) fun n' => ∃ l, n'.outbox = n.outbox ++ l ∧ ∀ x ∈ l,
      ∃ k r, decodeStrict peerHex = .ok k ∧ n.peers.get k = some r ∧ (n.obj r).dealer = some x.dealer := by
  intro n' hn'
  obtain ⟨k, hk, hn'⟩ := bind_eq_ok_iff.1 hn'
  have hnone : n' = n → ∃ l, n'.outbox = n.outbox ++ l ∧ ∀ x ∈ l,
      ∃ k r, decodeStrict peerHex = .ok k ∧ n.peers.get k = some r ∧ (n.obj r).dealer = some x.dealer := by
    rintro rfl
    exact ⟨[], by simp, by simp⟩
  split at hn'
  · rename_i r hr
    split at hn'
    · obtain ⟨res, hres, hn'⟩ := bind_eq_ok_iff.1 hn'
      cases hn'
      obtain ⟨hsame, -⟩ | ⟨dealer, frame, -, hd, -, hsent⟩ := sendEncoded_cases env n r _ _ res hres
      · exact hnone hsame
      · refine ⟨_, by rw [hsent], fun x hx => ?_⟩
        cases List.mem_singleton.1 hx
        exact ⟨k, r, hk, hr, hd⟩
    · cases hn'
      exact hnone rfl
  · cases hn'
    exact hnone rfl

/-- An adoption connects a node to itself exactly when the dial that it takes is spared. In every run of
truthful announcements that spare the dials to others, every record is connected to its peer, and a
WHISPER is handed to a socket of the peer that it names. -/
theorem bindings (owner : Str → Int → Option Str) :
    (∀ (n : Node) (env : Env) (k host : Str) (port : Int), owner host port = some k → n.peers.get k = none →
      ((∀ r n', n.adoptPending env host port k = (some r, n') → n'.Reaches owner r k) ↔
        n.Spared owner k host port)) ∧
    ∀ n, Visits (Faithful owner) n →
      (∀ k r, n.peers.get k = some r → n.Reaches owner r k ∧
        ∀ d, (n.obj r).dealer = some d → owner d.addr d.port = some k) ∧
      ∀ env peerHex payload n', n.doWhisper env peerHex payload = .ok n' → ∃ l, n'.outbox = n.outbox ++ l ∧
        ∀ x ∈ l, ∃ k, decodeStrict peerHex = .ok k ∧ owner x.dealer.addr x.dealer.port = some k := by
  refine ⟨fun n env k host port ho hk => adoptPending_reaches_iff env ho hk, fun n hv => ?_⟩
  have hb : n.Bound owner := hv.invariant (fun cfg k r hk => by cases hk) fun m env a m' ht hm ha hp hact =>
    bound_act env ht hm ha hp m' hact
  have hdealer : ∀ k r d, n.peers.get k = some r → (n.obj r).dealer = some d → owner d.addr d.port = some k := by
    intro k r d hk hd
    obtain ⟨haddr, hport, -⟩ := hv.links.target r d hd
    rw [haddr, hport]
    exact hb k r hk
  refine ⟨fun k r hk => ⟨hb k r hk, fun d => hdealer k r d hk⟩, fun env peerHex payload n' hn' => ?_⟩
  obtain ⟨l, hout, hl⟩ := doWhisper_socket env n peerHex payload n' hn'
  refine ⟨l, hout, fun x hx => ?_⟩
  obtain ⟨k, r, hdec, hk, hd⟩ := hl x hx
  exact ⟨k, hdec, hdealer k r x.dealer hk hd⟩

end Bound

/-! ## A dial that somebody else takes -/

/-- The node `00…02` listens at 10.0.0.2 and the node `00…09` at 10.0.0.9, both on port 4002. -/
def sampleOwner (host : Str) (port : Int) : Option Str :=
  if port ≠ 4002 then none
  else if host = "10.0.0.2".toList then some (hex sampleUuid)
  else if host = "10.0.0.9".toList then some (hex (List.replicate 15 0 ++ [9]))
  else none

/-- The node `sampleA`, after `connect_peer` with port 4002 of a host. -/
def sampleCaller (host : Str) : Node := sampleA.after (Env.calm 0) (.command (.connect host 4002))

/-- The beacon of `00…02` reaches the caller. -/
def sampleCalled (host : Str) : Node :=
  (sampleCaller host).after (Env.calm 0) (.beacon (sampleBeaconData 4002) "10.0.0.2".toList)

theorem sampleBeacon_hears {n : Node} {uuid : Bytes} {port : Nat}
    (h : n.Hears (sampleBeaconData 4002) uuid port) : uuid = sampleUuid ∧ port = 4002 := by
  obtain ⟨-, -, -, -, huuid, hport⟩ := h
  have hslice : slice (sampleBeaconData 4002) 4 20 = sampleUuid := by decide
  have hread : unpackH (slice (sampleBeaconData 4002) 20 22) = .ok 4002 := by decide
  rw [hread] at hport
  cases hport
  exact ⟨huuid.trans hslice, rfl⟩

theorem sampleBeacon_announces {n : Node} {k host : Str} {port : Int}
    (h : n.Announces (.input (.beacon (sampleBeaconData 4002) "10.0.0.2".toList)) k host port) :
    k = hex sampleUuid ∧ host = "10.0.0.2".toList ∧ port = 4002 := by
  cases h with
  | beacon hh hp =>
    obtain ⟨rfl, rfl⟩ := sampleBeacon_hears hh
    exact ⟨rfl, rfl, rfl⟩

theorem sampleBeacon_truthful (n : Node) :
    n.Truthful sampleOwner (.input (.beacon (sampleBeaconData 4002) "10.0.0.2".toList)) := by
  intro k host port h
  obtain ⟨rfl, rfl, rfl⟩ := sampleBeacon_announces h
  decide

theorem connect_quiet {n : Node} {host k addr : Str} {port p : Int} :
    ¬ n.Announces (.input (.command (.connect host port))) k addr p := nofun

/-- The node dials 10.0.0.2 and hears the beacon of the peer there. -/
theorem bindings_sampleCalled : ∃ k r, (sampleCalled "10.0.0.2".toList).peers.get k = some r ∧
    (sampleCalled "10.0.0.2".toList).Reaches sampleOwner r k := by
  have hrun0 : Visits (Faithful sampleOwner) sampleA := .init _
  have hrun1 : Visits (Faithful sampleOwner) (sampleCaller "10.0.0.2".toList) :=
    hrun0.input (Env.calm 0) (.command (.connect "10.0.0.2".toList 4002)) nofun
      ⟨fun _ _ _ h => absurd h connect_quiet, fun _ _ _ h => absurd h connect_quiet⟩ (by decide +kernel)
  have hspared : ∃ e ∈ (sampleCaller "10.0.0.2".toList).pending.entries,
      ((sampleCaller "10.0.0.2".toList).obj e.2).addr = "10.0.0.2".toList ∧
        ((sampleCaller "10.0.0.2".toList).obj e.2).port = 4002 := by decide +kernel
  have hrun2 : Visits (Faithful sampleOwner) (sampleCalled "10.0.0.2".toList) := by
    refine hrun1.input (Env.calm 0) (.beacon (sampleBeaconData 4002) "10.0.0.2".toList) nofun
      ⟨sampleBeacon_truthful _, fun k host port h _ => ?_⟩ (by decide +kernel)
    obtain ⟨rfl, rfl, rfl⟩ := sampleBeacon_announces h
    exact Or.inl hspared
  have hk : (sampleCalled "10.0.0.2".toList).peers.get (hex sampleUuid) = some 0 := by decide +kernel
  exact ⟨_, 0, hk, (((bindings sampleOwner).2 _ hrun2).1 _ 0 hk).1⟩

/-- The node dials 10.0.0.9 and hears the beacon of another node with the same port: it takes the
connection to `00…09` for one to `00…02`. -/
theorem not_bound : ¬ ∀ (owner : Str → Int → Option Str) (n : Node),
    Visits (fun n _ a => n.Truthful owner a) n → n.Bound owner := by
  intro hall
  have hrun0 : Visits (fun n _ a => n.Truthful sampleOwner a) sampleA := .init _
  have hrun1 : Visits (fun n _ a => n.Truthful sampleOwner a) (sampleCaller "10.0.0.9".toList) :=
    hrun0.input (Env.calm 0) (.command (.connect "10.0.0.9".toList 4002)) nofun
      (fun _ _ _ h => absurd h connect_quiet) (by decide +kernel)
  have hrun2 : Visits (fun n _ a => n.Truthful sampleOwner a) (sampleCalled "10.0.0.9".toList) :=
    hrun1.input (Env.calm 0) (.beacon (sampleBeaconData 4002) "10.0.0.2".toList) nofun
      (sampleBeacon_truthful _) (by decide +kernel)
  have hk : (sampleCalled "10.0.0.9".toList).peers.get (hex sampleUuid) = some 0 := by decide +kernel
  have hother : sampleOwner ((sampleCalled "10.0.0.9".toList).obj 0).addr
      ((sampleCalled "10.0.0.9".toList).obj 0).port ≠ some (hex sampleUuid) := by decide +kernel
  exact hother (hall sampleOwner _ hrun2 _ 0 hk)

end Node

end Zre
