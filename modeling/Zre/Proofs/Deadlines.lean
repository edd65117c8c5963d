import Zre.Proofs.HandlerLines

/-!
# Proofs: the two deadlines of a peer

A refresh gives a peer its two deadlines, the one after which it is probed and the one after which it is given up.
Apart from the reaper, no handler changes one of them without the other.
-/

namespace Zre

open Fallible

/-- When the peer is to be probed, and when it is to be given up. -/
def Peer.lease (p : Peer) : Int × Int := (p.evasiveAt, p.expiredAt)

/-- What a refresh gives. -/
def Config.lease (c : Config) (now : Int) : Int × Int := (now + msec c.evTimeout, now + msec c.exTimeout)

theorem Peer.lease_refresh (p : Peer) (c : Config) (now : Int) :
    (p.refresh now c.evTimeout c.exTimeout).lease = c.lease now := rfl

theorem Peer.Sends.lease {L : Prop} {p q : Peer} (h : Peer.Sends L p q) : q.lease = p.lease := by
  obtain ⟨s, rfl | ⟨-, rfl⟩⟩ := h <;> rfl

namespace Node

/-- Each `Peer` object keeps its deadlines or is refreshed, and one that comes into the table is refreshed. -/
structure Ticks (env : Env) (n n' : Node) : Prop where
  cfg : n'.cfg = n.cfg
  alloc : n.nextRef ≤ n'.nextRef
  obj : ∀ r < n.nextRef, (n'.obj r).lease = (n.obj r).lease ∨ (n'.obj r).lease = n.cfg.lease env.now
  filed : ∀ k r, n'.peers.get k = some r →
    n.peers.get k = some r ∨ r < n'.nextRef ∧ (n'.obj r).lease = n.cfg.lease env.now

variable {env : Env} {n n' : Node}

theorem Ticks.refl (n : Node) : Ticks env n n := ⟨rfl, le_rfl, fun _ _ => Or.inl rfl, fun _ _ h => Or.inl h⟩

theorem Ticks.trans {n'' : Node} (h1 : Ticks env n n') (h2 : Ticks env n' n'') : Ticks env n n'' := by
  refine ⟨h2.cfg.trans h1.cfg, h1.alloc.trans h2.alloc, fun r hr => ?_, fun k r hk => ?_⟩
  · rcases h2.obj r (hr.trans_le h1.alloc) with hsame | hnew
    · rw [hsame]
      exact h1.obj r hr
    · exact Or.inr (hnew.trans (by rw [h1.cfg]))
  · rcases h2.filed k r hk with hk | ⟨hr, hnew⟩
    · rcases h1.filed k r hk with hk | ⟨hr, hnew⟩
      · exact Or.inl hk
      · refine Or.inr ⟨hr.trans_le h2.alloc, ?_⟩
        rcases h2.obj r hr with hsame | hnew'
        · exact hsame.trans hnew
        · exact hnew'.trans (by rw [h1.cfg])
    · exact Or.inr ⟨hr, hnew.trans (by rw [h1.cfg])⟩

/-- Nothing that the deadlines depend on has changed. -/
theorem ticks_of_eq (hcfg : n'.cfg = n.cfg) (halloc : n'.nextRef = n.nextRef)
    (hobj : ∀ r, (n'.obj r).lease = (n.obj r).lease)
    (hpeers : ∀ k r, n'.peers.get k = some r → n.peers.get k = some r) :
    Ticks env n n' :=
  ⟨hcfg, halloc.ge, fun r _ => Or.inl (hobj r), fun k r hk => Or.inl (hpeers k r hk)⟩

theorem ticks_talk {L : Prop} {K : Handed → Prop} (h : Talk L K n n') : Ticks env n n' := by
  refine ticks_of_eq ?_ ?_ (fun r => (h.obj r).lease) fun k r hk => ?_
  · rw [h.rest]
  · rw [h.rest]
  · rwa [h.peers] at hk

/-- A write that leaves the deadlines alone. -/
theorem ticks_setObj (n : Node) (r : Ref) {p : Peer} (h : p.lease = (n.obj r).lease) : Ticks env n (n.setObj r p) :=
  ticks_of_eq rfl rfl (setObj_congr Peer.lease n r h) fun _ _ hk => hk

theorem lease_refreshPeer (env : Env) (n : Node) (r : Ref) :
    ((n.refreshPeer env r).obj r).lease = n.cfg.lease env.now := by
  unfold refreshPeer
  rw [setObj_obj_self, Peer.lease_refresh]

theorem ticks_refreshPeer (n : Node) (r : Ref) : Ticks env n (n.refreshPeer env r) := by
  refine ⟨rfl, le_rfl, fun s _ => ?_, fun _ _ hk => Or.inl hk⟩
  by_cases hs : s = r
  · subst hs
    exact Or.inr (lease_refreshPeer env n s)
  · refine Or.inl (congrArg Peer.lease ?_)
    exact (setObj_obj n r s _).trans (if_neg hs)

theorem ticks_foldlM {α : Type} {f : Node → α → Except PyError Node} {l : List α}
    (h : ∀ m a, a ∈ l → Ensures (f m a) (Ticks env m)) : Ensures (l.foldlM f n) (Ticks env n) :=
  Ensures.foldlM_rel Ticks.refl (fun _ _ _ => Ticks.trans) h

/-! ## Discovery -/

theorem ticks_allocated (n : Node) (p : Peer) : Ticks env n (n.allocated p) := by
  refine ⟨rfl, Nat.le_succ _, fun r hr => Or.inl ?_, fun _ _ hk => Or.inl hk⟩
  rw [allocated_obj, if_neg (Nat.ne_of_lt hr)]

theorem ticks_openPeer {uuidHex addr : Str} {port : Int} {rhex : Option Str} {res : Option Ref}
    (h : n.openPeer env uuidHex addr port rhex = (res, n')) :
    Ticks env n n' ∧ n'.peers = n.peers ∧
      ∀ r, res = some r → r < n'.nextRef ∧ (n'.obj r).lease = n.cfg.lease env.now := by
  rcases openPeer_exact env n uuidHex addr port rhex with h' | h' | ⟨-, h'⟩ <;> rw [h] at h' <;> cases h'
  · exact ⟨Ticks.refl n, rfl, fun _ hr => nomatch hr⟩
  · exact ⟨ticks_allocated n _, rfl, fun _ hr => nomatch hr⟩
  · refine ⟨ticks_allocated n _, rfl, ?_⟩
    rintro _ ⟨⟩
    refine ⟨Nat.lt_succ_self _, ?_⟩
    rw [allocated_obj_self]
    rfl

/-- A refreshed object is filed. -/
theorem Ticks.file {m : Node} (h : Ticks env n m) {k : Str} {r : Ref} (hr : r < m.nextRef)
    (hnew : (m.obj r).lease = n.cfg.lease env.now) {pending : Dict Str Ref} :
    Ticks env n { m with peers := m.peers.set k r, pending := pending } := by
  refine ⟨h.cfg, h.alloc, h.obj, fun j s hj => ?_⟩
  replace hj : (m.peers.set k r).get j = some s := hj
  rw [Dict.get_set] at hj
  split at hj
  · cases hj
    exact Or.inr ⟨hr, hnew⟩
  · exact h.filed j s hj

theorem ticks_dialPeer {rhex addr : Str} {port : Int} {res : Option Ref}
    (h : n.dialPeer env rhex addr port = (res, n')) : Ticks env n n' := by
  unfold dialPeer at h
  cases hopen : n.openPeer env rhex addr port (some rhex) with
  | mk o m =>
    obtain ⟨hticks, -, hnew⟩ := ticks_openPeer hopen
    rw [hopen] at h
    cases o with
    | none =>
      cases h
      exact hticks
    | some r =>
      cases h
      exact hticks.file (hnew r rfl).1 (hnew r rfl).2

theorem ticks_adoptUnder (n : Node) (k : Str) {r : Ref} (rhex : Str) (hr : r < n.nextRef) :
    Ticks env n (n.adoptUnder env k r rhex) := by
  unfold adoptUnder
  have hset : Ticks env n (n.setObj r
      ({ n.obj r with uuidHex := rhex }.refresh env.now n.cfg.evTimeout n.cfg.exTimeout)) := by
    refine ⟨rfl, le_rfl, fun s _ => ?_, fun _ _ hk => Or.inl hk⟩
    rw [setObj_obj]
    split
    · exact Or.inr rfl
    · exact Or.inl rfl
  exact hset.file hr (by rw [setObj_obj_self]; rfl)

theorem ticks_adoptPending (hp : ∀ k r, n.pending.get k = some r → r < n.nextRef) {rhex addr : Str} {port : Int}
    {res : Option Ref} (h : n.adoptPending env addr port rhex = (res, n')) : Ticks env n n' := by
  cases res with
  | none =>
    obtain ⟨rfl, -⟩ := adoptPending_none h
    exact Ticks.refl n'
  | some r =>
    obtain ⟨k, rfl, hmatch⟩ := adoptPending_some h
    exact ticks_adoptUnder n k rhex (hp k r (pendingMatch_mem hmatch))

theorem ticks_sendHello (n : Node) (r : Ref) : Ensures (n.sendHello env r) (Ticks env n) :=
  (talk_sendHello env n r).mono fun _ h => ticks_talk h

theorem ticks_meetPeer (hp : ∀ k r, n.pending.get k = some r → r < n.nextRef) (rhex addr : Str) (port : Int) :
    Ensures (n.meetPeer env rhex addr port) (Ticks env n) := by
  unfold meetPeer
  cases ha : n.adoptPending env addr port rhex with
  | mk o n1 =>
    have h1 := ticks_adoptPending hp ha
    cases o with
    | some r => exact (ticks_sendHello n1 r).mono fun _ h => h1.trans h
    | none =>
      simp only []
      cases hd : n1.dialPeer env rhex addr port with
      | mk o n2 =>
        have h2 := ticks_dialPeer hd
        cases o with
        | some r => exact (ticks_sendHello n2 r).mono fun _ h => (h1.trans h2).trans h
        | none => exact Ensures.ok (h1.trans h2)

theorem ticks_doConnect (host : Str) (port : Int) : Ensures (n.doConnect env host port) (Ticks env n) := by
  unfold doConnect
  split
  · exact Ensures.ok (Ticks.refl n)
  split
  · exact Ensures.ok (Ticks.refl n)
  simp only []
  split
  · exact Ensures.ok (Ticks.refl n)
  cases hopen : n.openPeer env (pendingKey host port) host port none with
  | mk o m =>
    obtain ⟨h1, -, -⟩ := ticks_openPeer hopen
    cases o with
    | none => exact Ensures.ok h1
    | some r =>
      have h2 : Ticks env n { m with pending := m.pending.set (pendingKey host port) r } :=
        ⟨h1.cfg, h1.alloc, h1.obj, h1.filed⟩
      exact (ticks_sendHello _ r).mono fun _ h => h2.trans h

/-! ## HELLO -/

theorem ticks_enterPeer (n : Node) (y : Str) (r : Ref) (h : HelloFields) (epStr : Str) (reply : Bool) :
    Ensures (n.enterPeer env y r h epStr reply) (Ticks env n) := by
  unfold enterPeer
  simp only []
  have h1 : Ticks env n (n.setObj r { (n.obj r).announce h with ready := true, endpointStr := epStr }) :=
    ticks_setObj n r rfl
  refine (talk_replyHello env _ r reply).bind fun n2 h2 => ?_
  have h3 : Ticks env n2 (h.groups.foldl (fun n g => n.enterGroup r g) n2) := by
    refine List.foldlRecOn (motive := fun m => Ticks env n2 m) h.groups _ (Ticks.refl n2) fun m hm g _ => ?_
    have hrest := talk_openGroup True (fun _ => True) m g
    refine hm.trans ((ticks_talk hrest).trans ?_)
    unfold enterGroup joinTable
    exact ticks_of_eq rfl rfl (setObj_congr Peer.lease _ r rfl) fun _ _ hk => hk
  have hemit : ∀ (m : Node) (e : Event), Ticks env m (m.emit e) := fun m e =>
    ticks_of_eq rfl rfl (fun _ => rfl) fun _ _ hk => hk
  have h4 : ∀ (m : Node) (e : Bytes → Event), Ticks env m (h.groups.foldl (fun n g => n.emit (e g)) m) :=
    fun m e => List.foldlRecOn (motive := fun m' => Ticks env m m') h.groups _ (Ticks.refl m)
      fun m' hm g _ => hm.trans (hemit m' (e g))
  have h5 : ∀ m : Node, Ensures (h.groups.foldlM (fun n g => n.startElection env g) m) (Ticks env m) := fun m =>
    ticks_foldlM fun m g _ => (talk_startElection env m g).mono fun _ ht => ticks_talk ht
  refine (h5 _).mono fun n' h5 => ?_
  exact (((h1.trans (ticks_talk h2)).trans h3).trans ((hemit _ _).trans (h4 _ _))).trans h5

theorem ticks_helloFromLive (n : Node) (r : Ref) (h : HelloFields) : Ticks env n (n.helloFromLive env r h) := by
  unfold helloFromLive
  exact (ticks_refreshPeer n r).trans (ticks_setObj _ r rfl)

theorem ticks_helloFromNew (hp : ∀ k r, n.pending.get k = some r → r < n.nextRef) (y : Str) (h : HelloFields) :
    Ensures (n.helloFromNew env y h) (Ticks env n) := by
  obtain ⟨keys, hkeys⟩ := learnHelloKeys_rest n y h
  have h0 : Ticks env n { n with peerServerKeys := keys } :=
    ticks_of_eq rfl rfl (fun _ => rfl) fun _ _ hk => hk
  unfold helloFromNew
  simp only [hkeys]
  split
  · exact Ensures.ok h0
  · rename_i addr port hsplit
    cases ha : { n with peerServerKeys := keys }.adoptPending env (dialHost addr) port y with
    | mk o n1 =>
      have h1 := h0.trans (ticks_adoptPending (n := { n with peerServerKeys := keys }) hp ha)
      cases o with
      | some r => exact (ticks_enterPeer n1 y r h _ false).mono fun _ h2 => h1.trans h2
      | none =>
        simp only []
        cases hd : n1.dialPeer env y (dialHost addr) port with
        | mk o n2 =>
          have h2 := h1.trans (ticks_dialPeer hd)
          cases o with
          | some r => exact (ticks_enterPeer n2 y r h _ true).mono fun _ h3 => h2.trans h3
          | none => exact Ensures.ok h2

theorem ticks_handleHello (hp : ∀ k r, n.pending.get k = some r → r < n.nextRef) (y : Str) (h : HelloFields)
    (existing : Option Ref) : Ensures (n.handleHello env y h existing) (Ticks env n) := by
  have h0 : Ticks env n { n with evasiveEmitAt := n.evasiveEmitAt.pop y } :=
    ticks_of_eq rfl rfl (fun _ => rfl) fun _ _ hk => hk
  unfold handleHello
  split
  · exact Ensures.ok (Ticks.refl n)
  split
  · split
    · exact Ensures.ok (Ticks.refl n)
    · exact Ensures.error
  split
  · exact Ensures.ok (Ticks.refl n)
  simp only []
  split
  · exact Ensures.ok (h0.trans (ticks_helloFromLive _ _ h))
  · split
    · exact (ticks_helloFromNew (n := { n with evasiveEmitAt := n.evasiveEmitAt.pop y }) hp y h).mono
        fun _ h1 => h0.trans h1
    · exact (ticks_enterPeer _ y _ h _ false).mono fun _ h1 => h0.trans h1

/-! ## Departures and messages -/

theorem ticks_restartElections (n : Node) (gs : List Bytes) : Ensures (n.restartElections env gs) (Ticks env n) :=
  ticks_foldlM fun m g _ => (talk_restartElectionIfNeeded env m g).mono fun _ h => ticks_talk h

theorem ticks_forgotten (n : Node) (k : Str) (r : Ref) (gone : List Bytes) : Ticks env n (n.forgotten k r gone) :=
  ticks_of_eq rfl rfl (setObj_congr Peer.lease n r rfl) fun _ _ hk => Dict.get_of_get_pop hk

theorem ticks_removePeer {k : Str} {r : Ref} (hkey : (n.obj r).uuidHex = k) :
    Ensures (n.removePeer env r) (Ticks env n) := by
  rw [removePeer_eq env hkey]
  exact (ticks_restartElections _ _).mono fun _ h => (ticks_forgotten n k r _).trans h

theorem ticks_beaconExit (n : Node) (k : Str) : Ensures (n.beaconExit env k) (Ticks env n) := by
  cases hk : n.peers.get k with
  | none =>
    unfold beaconExit
    rw [hk]
    exact Ensures.ok (Ticks.refl n)
  | some r =>
    rw [beaconExit_eq env hk]
    exact (ticks_restartElections _ _).mono fun _ h => (ticks_forgotten n k r _).trans h

theorem ticks_handleJoin (n : Node) (y : Str) (r : Ref) (g : Bytes) :
    Ensures (n.handleJoin env y r g) (Ticks env n) := by
  unfold handleJoin
  split
  · exact Ensures.ok (Ticks.refl n)
  · refine (talk_startElection env _ g).mono fun n' h => Ticks.trans ?_ (ticks_talk h)
    have h1 : Ticks env n (n.setObj r { n.obj r with groups := addGroup (n.obj r).groups g }) := ticks_setObj n r rfl
    refine (h1.trans (ticks_talk (talk_requireGroup True (fun _ => True) _ g))).trans ?_
    exact ticks_of_eq rfl rfl (fun _ => rfl) fun _ _ hk => hk

theorem ticks_handleLeave (n : Node) (y : Str) (r : Ref) (g : Bytes) :
    Ensures (n.handleLeave env y r g) (Ticks env n) := by
  unfold handleLeave
  split
  · exact Ensures.ok (Ticks.refl n)
  · refine (talk_restartElectionIfNeeded env _ g).mono fun n' h => Ticks.trans ?_ (ticks_talk h)
    have h1 : Ticks env n (n.setObj r { n.obj r with groups := discardGroup (n.obj r).groups g }) :=
      ticks_setObj n r rfl
    refine h1.trans ?_
    rw [leaveTable_rest]
    exact ticks_of_eq rfl rfl (fun _ => rfl) fun _ _ hk => hk

theorem ticks_dispatch {y : Str} {r : Ref} (hkey : (n.obj r).uuidHex = y) (msg : Msg) (extra : List Bytes) :
    Ensures (n.dispatch env y r msg extra) (Ticks env n) := by
  have hemit : ∀ e : Event, Ticks env n (n.emit e) := fun e =>
    ticks_of_eq rfl rfl (fun _ => rfl) fun _ _ hk => hk
  unfold dispatch
  simp only []
  split
  · exact Ensures.ok (hemit _)
  split
  · exact ticks_removePeer hkey
  split
  · exact (talk_sendCmd env n r _ _ _ _).mono fun _ h => ticks_talk h
  split
  · exact Ensures.ok (ticks_refreshPeer n r)
  split
  · split
    · exact Ensures.ok (hemit _)
    · exact Ensures.ok (Ticks.refl n)
  · split
    · exact ticks_handleJoin n y r _
    split
    · exact ticks_handleLeave n y r _
    · exact Ensures.ok (Ticks.refl n)
  · split
    · exact (talk_handleElect env n r _ _).mono fun _ h => ticks_talk h
    split
    · exact (talk_handleLeader env n _ _).mono fun _ h => ticks_talk h
    · exact Ensures.ok (Ticks.refl n)
  · exact Ensures.ok (Ticks.refl n)

theorem ticks_checkSeq (n : Node) (r : Ref) (cmd : UInt8) (seq : Nat) : Ticks env n (n.checkSeq r cmd seq) := by
  have h1 : Ticks env n (n.setObj r ((n.obj r).countSeq cmd)) := ticks_setObj n r rfl
  unfold checkSeq
  simp only []
  split
  · exact h1.trans (ticks_setObj _ r rfl)
  · exact h1

theorem ticks_arrive (n : Node) (y : Str) (r : Ref) (msg : Msg) :
    Ticks env n (n.arrive env y r msg) ∧ ((n.arrive env y r msg).obj r).lease = n.cfg.lease env.now := by
  have h0 : Ticks env n (if isTraffic msg.cmd then { n with evasiveEmitAt := n.evasiveEmitAt.pop y } else n) := by
    split
    · exact ticks_of_eq rfl rfl (fun _ => rfl) fun _ _ hk => hk
    · exact Ticks.refl n
  have h1 := h0.trans (ticks_checkSeq _ r msg.cmd msg.seq)
  constructor
  · exact h1.trans (ticks_refreshPeer _ r)
  · exact (lease_refreshPeer env _ r).trans (by rw [h1.cfg])

/-- A message of a ready peer refreshes it. -/
theorem ticks_handleTraffic {y : Str} {r : Ref} (hkey : (n.obj r).uuidHex = y) (hr : r < n.nextRef) (msg : Msg)
    (extra : List Bytes) : Ensures (n.handleTraffic env y r msg extra) fun n' =>
      Ticks env n n' ∧ (n'.obj r).lease = n.cfg.lease env.now := by
  obtain ⟨h1, hnew⟩ : Ticks env n _ ∧ _ := ticks_arrive n y r msg
  have hkey' : ((n.arrive env y r msg).obj r).uuidHex = y :=
    (arrive_congr Peer.uuidHex (fun _ _ => rfl) (fun _ _ _ _ => rfl) env n y r msg r).trans hkey
  refine (ticks_dispatch hkey' msg extra).mono fun n' h2 => ⟨h1.trans h2, ?_⟩
  rcases h2.obj r (hr.trans_le h1.alloc) with hsame | hnew'
  · exact hsame.trans hnew
  · exact hnew'.trans (by rw [h1.cfg])

theorem ticks_resetSeq (n : Node) (y : Str) : Ticks env n (n.resetSeq y) := by
  unfold resetSeq
  split
  · exact ticks_setObj n _ rfl
  · exact Ticks.refl n

/-! ## Events -/

theorem ticks_handlePeerMsg (hf : Filed n) (frames : List Bytes) :
    Ensures (n.handlePeerMsg env frames) (Ticks env n) := by
  intro n' hn'
  rcases handlePeerMsg_cases env n frames n' hn' with
    rfl | ⟨uuid, msg, extra, -, ⟨h, -, hh⟩ | ⟨-, r, hk, -, hh⟩⟩
  · exact Ticks.refl n'
  · have h1 : Ticks env n (n.resetSeq (hex uuid)) := ticks_resetSeq n _
    have hp : ∀ k r, (n.resetSeq (hex uuid)).pending.get k = some r → r < (n.resetSeq (hex uuid)).nextRef := by
      intro k r hk
      unfold resetSeq at hk ⊢
      split at hk <;> exact hf.alloc k r (Or.inr hk)
    exact h1.trans (ticks_handleHello hp _ h _ n' hh)
  · exact (ticks_handleTraffic (hf.key _ r hk) (hf.alloc _ r (Or.inl hk)) msg extra n' hh).1

theorem ticks_acceptBeacon (hf : Filed n) (uuid : Bytes) (port : Nat) (key : Option Bytes) (host : Str) :
    Ensures (n.acceptBeacon env uuid port key host) (Ticks env n) := by
  obtain ⟨keys, hkeys⟩ := learnBeaconKey_rest n (hex uuid) host port key
  have h0 : Ticks env n { n with peerServerKeys := keys } :=
    ticks_of_eq rfl rfl (fun _ => rfl) fun _ _ hk => hk
  unfold acceptBeacon
  split
  · split
    · exact Ensures.error
    · exact Ensures.ok (Ticks.refl n)
  simp only [hkeys]
  split
  · exact (ticks_beaconExit _ _).mono fun _ h => h0.trans h
  split
  · exact Ensures.ok (h0.trans (ticks_refreshPeer _ _))
  · exact (ticks_meetPeer (n := { n with peerServerKeys := keys }) (fun k r hk => hf.alloc k r (Or.inr hk)) _ _ _).mono
      fun _ h => h0.trans h

theorem ticks_gossipRequire (hf : Filed n) (uuidHex endpoint : Str) :
    Ensures (n.gossipRequire env uuidHex endpoint) (Ticks env n) := by
  obtain ⟨keys, hkeys⟩ := learnTupleKey_rest n (n.cfg.rt.lower uuidHex) endpoint
  have h0 : Ticks env n { n with peerServerKeys := keys } :=
    ticks_of_eq rfl rfl (fun _ => rfl) fun _ _ hk => hk
  unfold gossipRequire
  simp only [hkeys]
  split
  · exact Ensures.ok (Ticks.refl n)
  split
  · exact Ensures.ok (Ticks.refl n)
  split
  · exact Ensures.ok h0
  · exact Ensures.error
  split
  · exact Ensures.ok (h0.trans (ticks_refreshPeer _ _))
  · exact (ticks_meetPeer (n := { n with peerServerKeys := keys }) (fun k r hk => hf.alloc k r (Or.inr hk)) _ _ _).mono
      fun _ h => h0.trans h

theorem ticks_sendToPeers (n : Node) (cmd : UInt8) (group : Option Bytes) (status : Option Nat) :
    Ensures (n.sendToPeers env cmd group status) (Ticks env n) :=
  ticks_foldlM fun m r _ => (talk_sendCmd env m r cmd group status []).mono fun _ h => ticks_talk h

theorem ticks_runCommand (n : Node) (c : Command) : Ensures (n.runCommand env c) (Ticks env n) := by
  cases c with
  | join g =>
    unfold runCommand joinGroup
    simp only []
    split
    · exact Ensures.ok (Ticks.refl n)
    · have h1 : Ticks env n { n with ownGroups := n.ownGroups ++ [g.raw], status := (n.status + 1) % 256 } :=
        ticks_of_eq rfl rfl (fun _ => rfl) fun _ _ hk => hk
      have h2 := h1.trans (ticks_talk (talk_requireGroup True (fun _ => True) _ g.raw))
      exact (ticks_sendToPeers _ _ _ _).mono fun _ h => h2.trans h
  | leave g =>
    unfold runCommand leaveGroup
    simp only []
    split
    · exact Ensures.ok (Ticks.refl n)
    · have h1 : Ticks env n { n with ownGroups := n.ownGroups.erase g.raw, status := (n.status + 1) % 256 } :=
        ticks_of_eq rfl rfl (fun _ => rfl) fun _ _ hk => hk
      exact (ticks_sendToPeers _ _ _ _).mono fun _ h => h1.trans h
  | whisper peerHex payload =>
    have hany : Ensures (decodeStrict peerHex) fun _ => True := fun _ _ => trivial
    refine hany.bind fun peerId _ => ?_
    split
    · split
      · exact (talk_sendCmd env n _ _ _ _ _).mono fun _ h => ticks_talk h
      · exact Ensures.ok (Ticks.refl n)
    · exact Ensures.ok (Ticks.refl n)
  | shout g payload =>
    unfold runCommand doShout
    simp only []
    split
    · refine ticks_foldlM fun m r _ => ?_
      split
      · exact (talk_sendEncoded env m r (K := anything) fun _ _ _ _ _ => trivial).bind fun _ h =>
          Ensures.ok (ticks_talk h)
      · exact Ensures.ok (Ticks.refl m)
    · exact Ensures.ok (Ticks.refl n)
  | connect host port => exact ticks_doConnect host port

/-- Whatever happens apart from the reaper. -/
theorem ticks_step (hf : Filed n) {input : Input} (hin : input ≠ .reap) : Ensures (n.step env input) (Ticks env n) := by
  cases input with
  | peerMsg frames => exact ticks_handlePeerMsg hf frames
  | beacon data host =>
    intro n' hn'
    rcases handleBeacon_cases env n data host n' hn' with rfl | ⟨uuid, port, -, hacc⟩
    · exact Ticks.refl n'
    · exact ticks_acceptBeacon hf uuid port _ host n' hacc
  | gossip uuidHex endpoint => exact ticks_gossipRequire hf uuidHex endpoint
  | command c => exact ticks_runCommand n c
  | reap => exact absurd rfl hin
  | setContestInGroup g =>
    refine Ensures.ok ?_
    unfold setContestInGroup
    simp only []
    split <;> exact ticks_of_eq rfl rfl (fun _ => rfl) fun _ _ hk => hk
  | setHeader key value => exact Ensures.ok (ticks_of_eq rfl rfl (fun _ => rfl) fun _ _ hk => hk)
  | pinKey host port publicKey =>
    refine Ensures.ok ?_
    unfold pinKey learnKey
    split <;> exact ticks_of_eq rfl rfl (fun _ => rfl) fun _ _ hk => hk
  | recv => exact Ensures.ok (ticks_of_eq rfl rfl (fun _ => rfl) fun _ _ hk => hk)

end Node

end Zre
