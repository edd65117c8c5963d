import Mathlib.Algebra.Order.Group.Int
import Zre.Lib.Lease
import Zre.Proofs.Wires

/-!
# Proofs: when a peer expires

The deadline of a peer is one expired timeout after the node last heard from it, and the reaper takes out
exactly the peers whose deadline has passed. Only a HELLO can go by without moving the deadline: the HELLO of
a peer that is in the table and not ready, and the one of a ready peer that has no endpoint.
-/

namespace Zre

open Fallible

namespace Node

/-- The deadline of a peer in the table. -/
def deadline (n : Node) (k : Str) : Option Int := (n.peers.get k).map fun r => (n.obj r).expiredAt

/-- The test of `_reap`. -/
def Overdue (env : Env) (p : Peer) : Prop := p.expiredAt ≠ 0 ∧ p.expiredAt < env.now

theorem deadline_eq_some {n : Node} {k : Str} {d : Int} :
    n.deadline k = some d ↔ ∃ r, n.peers.get k = some r ∧ (n.obj r).expiredAt = d := Option.map_eq_some_iff

/-! ## How deadlines move -/

section Lines

variable {env : Env} {w : Tidings} {n n' : Node}

/-- A new deadline is that of a peer that is heard from. -/
theorem Line.deadline (hf : Filed n) (h : Line env w n n') {k : Str} {r : Ref}
    (hk : n'.peers.get k = some r) :
    w.hears k ∧ (n'.obj r).expiredAt = env.now + msec n.cfg.exTimeout ∨
      n.peers.get k = some r ∧ (n'.obj r).expiredAt = (n.obj r).expiredAt := by
  have hset : ∀ s {p : Peer}, p.expiredAt = (n.obj s).expiredAt →
      ((n.setObj s p).obj r).expiredAt = (n.obj r).expiredAt :=
    fun s _ h => setObj_congr Peer.expiredAt n s h r
  have hold : n.peers.get k = some r → r ≠ n.nextRef :=
    fun hk => Nat.ne_of_lt (hf.alloc k r (Or.inl hk))
  cases h with
  | idle h =>
    refine Or.inr ⟨?_, (h.obj r).expiredAt⟩
    rwa [h.rest] at hk
  | learn h => exact Or.inr ⟨hk, rfl⟩
  | hail j s p hj hp => exact Or.inr ⟨hk, hset s hp.expiredAt⟩
  | refresh j s hj hh =>
    by_cases hs : r = s
    · subst hs
      have hkj : k = j := hf.inj hk hj
      refine Or.inl ⟨hkj ▸ hh, ?_⟩
      exact congrArg Peer.expiredAt (setObj_obj_self n r _)
    · refine Or.inr ⟨hk, ?_⟩
      show ((n.setObj s _).obj r).expiredAt = _
      rw [setObj_obj, if_neg hs]
  | hand s h cmd hc hd hmsg => exact Or.inr ⟨hk, hset s (Peer.handed_expiredAt _ _)⟩
  | waste uuidHex addr port =>
    refine Or.inr ⟨hk, ?_⟩
    rw [allocated_obj, if_neg (hold hk)]
  | greet j addr port p h hj hh hdial hkeys hs hp hdealer hmsg =>
    rw [hand_peers, filed_peers, Dict.get_set] at hk
    rw [hand_congr Peer.expiredAt Peer.handed_expiredAt, filed_obj]
    split at hk
    · rename_i hjk
      cases hk
      refine Or.inl ⟨hjk ▸ hh, ?_⟩
      rw [if_pos rfl]
      exact hp.expiredAt
    · refine Or.inr ⟨hk, ?_⟩
      rw [if_neg (hold hk)]
  | call j addr port h hj hdial hs hdealer hmsg =>
    rw [hand_peers, awaited_peers] at hk
    refine Or.inr ⟨hk, ?_⟩
    rw [hand_congr Peer.expiredAt Peer.handed_expiredAt, awaited_obj, if_neg (hold hk)]
  | adopt j s rhex hp hj hh =>
    have hk' : (n.peers.set rhex s).get k = some r := hk
    rw [Dict.get_set] at hk'
    split at hk'
    · rename_i hrk
      cases hk'
      refine Or.inl ⟨hrk ▸ hh, ?_⟩
      exact congrArg Peer.expiredAt (setObj_obj_self n r _)
    · refine Or.inr ⟨hk', ?_⟩
      show ((n.setObj s _).obj r).expiredAt = _
      rw [setObj_obj, if_neg]
      rintro rfl
      exact hf.apart k j r hk' hp
  | forget j s hj => exact Or.inr ⟨((hf.peers_pop hj k r).1 hk).1, hset s rfl⟩
  | drop j s hp => exact Or.inr ⟨hk, hset s rfl⟩

theorem Lines.deadline (hf : Filed n) (h : Lines env w n n') {k : Str} {r : Ref}
    (hk : n'.peers.get k = some r) :
    w.hears k ∧ (n'.obj r).expiredAt = env.now + msec n.cfg.exTimeout ∨
      n.peers.get k = some r ∧ (n'.obj r).expiredAt = (n.obj r).expiredAt := by
  induction h generalizing r with
  | refl => exact Or.inr ⟨hk, rfl⟩
  | @tail a b ha hl ih =>
    rcases hl.deadline (hf.lines ha) hk with ⟨hh, hd⟩ | ⟨hk', hd⟩
    · refine Or.inl ⟨hh, ?_⟩
      rw [hd, Lines.cfg ha]
    · rw [hd]
      exact ih hk'

/-- An event that is no news of a peer leaves its deadline. -/
theorem Lines.keeps (hf : Filed n) (h : Lines env w n n') {k : Str} (hk : ¬ w.hears k) {r : Ref}
    (hr : n'.peers.get k = some r) :
    n.peers.get k = some r ∧ (n'.obj r).expiredAt = (n.obj r).expiredAt := by
  rcases h.deadline hf hr with ⟨hh, -⟩ | hsame
  · exact absurd hh hk
  · exact hsame

/-- A deadline that has moved to the time of the event stays there. -/
theorem Lines.renewed (hf : Filed n) (h : Lines env w n n') {k : Str} {r s : Ref}
    (hr : n.peers.get k = some r) (hd : (n.obj r).expiredAt = env.now + msec n.cfg.exTimeout)
    (hs : n'.peers.get k = some s) : (n'.obj s).expiredAt = env.now + msec n.cfg.exTimeout := by
  rcases h.deadline hf hs with ⟨-, h⟩ | ⟨hk, h⟩
  · exact h
  · rw [hr] at hk
    cases hk
    rw [h, hd]

end Lines

/-! ## The reaper -/

/-- One round of the reaper takes the peer out if it is overdue. -/
theorem reapPeer_peers (env : Env) {n : Node} (ht : Tables n) {k : Str} {r : Ref}
    (hk : n.peers.get k = some r) :
    Ensures (n.reapPeer env r) fun n' => ∀ j s,
      n'.peers.get j = some s ↔ n.peers.get j = some s ∧ (s = r → ¬ Overdue env (n.obj r)) := by
  have hf := Filed.of_tables ht
  by_cases ho : Overdue env (n.obj r)
  · have hpop : Ensures (n.reapPeer env r) fun n' => n'.peers = n.peers.pop k := by
      unfold reapPeer
      simp only []
      rw [if_pos (show (n.obj r).expiredAt ≠ 0 ∧ (n.obj r).expiredAt < env.now from ho)]
      exact (moves_removePeer env ht hk).mono fun _ h => h.2
    refine hpop.mono fun n' hp j s => ?_
    rw [hp, hf.peers_pop hk]
    simp [ho]
  · have hsame : Ensures (n.reapPeer env r) fun n' => n'.peers = n.peers := by
      unfold reapPeer
      simp only []
      rw [if_neg (show ¬ ((n.obj r).expiredAt ≠ 0 ∧ (n.obj r).expiredAt < env.now) from ho)]
      split
      · refine Ensures.bind (talk_sendCmd env _ r Cmd.ping none none []) fun n' h => Ensures.ok ?_
        show n'.peers = n.peers
        rw [h.peers]
        split <;> rfl
      · exact Ensures.ok rfl
    refine hsame.mono fun n' hp j s => ?_
    rw [hp]
    simp [ho]

/-- The loop over the peers takes the overdue ones out. -/
theorem reapPeers_get (env : Env) {n : Node} (ht : Tables n) {refs : List Ref} (hnd : refs.Nodup)
    (hrefs : ∀ r ∈ refs, ∃ k, n.peers.get k = some r) :
    Ensures (refs.foldlM (fun n r => n.reapPeer env r) n) fun n' => ∀ j s,
      n'.peers.get j = some s ↔ n.peers.get j = some s ∧ (s ∈ refs → ¬ Overdue env (n.obj s)) := by
  induction refs generalizing n with
  | nil => exact Ensures.ok fun j s => by simp
  | cons r refs ih =>
    obtain ⟨k, hk⟩ := hrefs r (by simp)
    rw [List.nodup_cons] at hnd
    rw [List.foldlM_cons]
    refine (((reapPeer_peers env ht hk).and (moves_reapPeer env ht hk)).and
      (lines_reapPeer (w := Tidings.silence) (Filed.of_tables ht) hk)).bind fun n1 hn1 => ?_
    obtain ⟨⟨hp, hm, -⟩, hl⟩ := hn1
    have hstill : ∀ s ∈ refs, ∃ j, n1.peers.get j = some s := by
      intro s hs
      obtain ⟨j, hj⟩ := hrefs s (by simp [hs])
      refine ⟨j, (hp j s).2 ⟨hj, ?_⟩⟩
      rintro rfl
      exact absurd hs hnd.1
    refine (ih (hm.invariant Tables.move ht) hnd.2 hstill).mono fun n' h j s => ?_
    rw [h, hp]
    constructor
    · rintro ⟨⟨hj, hr⟩, hs⟩
      refine ⟨hj, fun hmem => ?_⟩
      rcases List.mem_cons.1 hmem with rfl | hmem
      · exact hr rfl
      · have hkeep := hl.keeps (Filed.of_tables ht) (k := j) (by simp [Tidings.silence]) ((hp j s).2 ⟨hj, hr⟩)
        have hno := hs hmem
        unfold Overdue at hno ⊢
        rwa [hkeep.2] at hno
    · rintro ⟨hj, hs⟩
      have hr : s = r → ¬ Overdue env (n.obj r) := by
        rintro rfl
        exact hs (by simp)
      refine ⟨⟨hj, hr⟩, fun hmem => ?_⟩
      have hkeep := hl.keeps (Filed.of_tables ht) (k := j) (by simp [Tidings.silence]) ((hp j s).2 ⟨hj, hr⟩)
      have hno := hs (by simp [hmem])
      unfold Overdue at hno ⊢
      rwa [hkeep.2]

theorem dropDials_peers (env : Env) (n : Node) : (n.dropDials env).peers = n.peers := by
  refine List.foldlRecOn (motive := fun m : Node => m.peers = n.peers) n.pending.entries _ rfl fun m hm e _ => ?_
  unfold reapPending
  simp only []
  split <;> exact hm

/-- The reaper takes out the overdue peers, and moves no deadline of the others. -/
theorem reap_get (env : Env) {n : Node} (ht : Tables n) :
    Ensures (n.reap env) fun n' => ∀ k r,
      (n'.peers.get k = some r ↔ n.peers.get k = some r ∧ ¬ Overdue env (n.obj r)) ∧
      (n'.peers.get k = some r → (n'.obj r).expiredAt = (n.obj r).expiredAt) := by
  have hf := Filed.of_tables ht
  have hsilent : ∀ k, ¬ Tidings.silence.hears k := fun k => id
  have h0 : Lines env Tidings.silence n (n.dropDials env) := lines_dropDials hf
  have hm0 := moves_reapPendings env n n.pending.nodup fun e he =>
    (Dict.get_eq_some_iff _).2 (show (e.1, e.2) ∈ _ from he)
  have ht0 : Tables (n.dropDials env) := hm0.invariant Tables.move ht
  suffices hget : Ensures (n.reap env) fun n' => ∀ k r,
      n'.peers.get k = some r ↔ n.peers.get k = some r ∧ ¬ Overdue env (n.obj r) from
    (hget.and (lines_reap (w := Tidings.silence) ht)).mono fun n' h k r =>
      ⟨h.1 k r, fun hk => (h.2.keeps hf (hsilent k) hk).2⟩
  refine (((lines_conversation env Tidings.silence).maintainElections (n.dropDials env)).and
    (talk_maintainElections env _)).bind fun n2 h2 => ?_
  have ht2 : Tables n2 := Tables.of_same (Same.of_talk h2.2) ht0
  have hp2 : n2.peers = n.peers := h2.2.peers.trans (dropDials_peers env n)
  have hl2 : Lines env Tidings.silence n n2 := h0.trans h2.1
  refine (reapPeers_get env ht2 ht2.peers_nodup fun r hr => (Dict.mem_values _).1 hr).mono fun n' h k r => ?_
  rw [h, hp2]
  refine and_congr_right fun hk => ?_
  have hmem : r ∈ n.peers.values := (Dict.mem_values _).2 ⟨k, hk⟩
  have hkeep := (hl2.keeps hf (hsilent k) (hp2 ▸ hk)).2
  unfold Overdue
  rw [hkeep]
  exact forall_prop_of_true hmem

/-! ## What counts as hearing from a peer -/

/-- The node hears from `k` by the event that leads to `n'`: a beacon of its own security mode with a port, a
gossip tuple or a HELLO with an endpoint that leaves `k` in the table, or any frame of a ready peer. -/
inductive Heard (n : Node) : Input → Node → Str → Prop where
  | beacon {data uuid : Bytes} {host : Str} {port : ℕ} {n' : Node} (hh : n.Hears data uuid port) (hp : port ≠ 0) :
      Heard n (.beacon data host) n' (hex uuid)
  | gossip {uuidHex endpoint addr : Str} {port : Int} {n' : Node}
      (hs : splitEndpoint n.cfg.rt (partition '|' endpoint).1 = .ok (addr, port))
      (hin : n'.peers.get (n.cfg.rt.lower uuidHex) ≠ none) :
      Heard n (.gossip uuidHex endpoint) n' (n.cfg.rt.lower uuidHex)
  | hello {frames : List Bytes} {uuid : Bytes} {msg : Msg} {extra : List Bytes} {h : HelloFields} {n' : Node}
      (hc : Carries frames uuid msg extra) (hf : msg.fields = .hello h) (he : h.endpoint ≠ [])
      (hin : n'.peers.get (hex uuid) ≠ none) : Heard n (.peerMsg frames) n' (hex uuid)
  | traffic {frames : List Bytes} {uuid : Bytes} {msg : Msg} {extra : List Bytes} {r : Ref} {n' : Node}
      (hc : Carries frames uuid msg extra) (hk : n.peers.get (hex uuid) = some r)
      (hr : (n.obj r).ready = true) : Heard n (.peerMsg frames) n' (hex uuid)

/-- An event from a node that is in the table afterwards is heard. -/
theorem Tells.heard {n n' : Node} {input : Input} {k : Str} (h : n.Tells input k)
    (hin : n'.peers.get k ≠ none) : n.Heard input n' k := by
  cases h with
  | hello hc hf he => exact .hello hc hf he hin
  | traffic hc hk hr => exact .traffic hc hk hr
  | beacon hh hp => exact .beacon hh hp
  | gossip hs => exact .gossip hs hin

theorem Heard.tells {n n' : Node} {input : Input} {k : Str} (h : n.Heard input n' k) : n.Tells input k := by
  cases h with
  | beacon hh hp => exact .beacon hh hp
  | gossip hs hin => exact .gossip hs
  | hello hc hf he hin => exact .hello hc hf he
  | traffic hc hk hr => exact .traffic hc hk hr

/-- The event is not one of those that go by without moving the deadline: a HELLO of a peer in the table has
an endpoint if the peer is ready and has none if it is not, unless the deadline is already where it belongs;
and the deadline is not 0, which stands for none. -/
structure Punctual (n : Node) (env : Env) (input : Input) : Prop where
  hello : ∀ frames uuid msg extra h r, input = .peerMsg frames → Carries frames uuid msg extra →
    msg.fields = .hello h → n.peers.get (hex uuid) = some r →
    ((n.obj r).ready = true ↔ h.endpoint ≠ []) ∨ (n.obj r).expiredAt = env.now + msec n.cfg.exTimeout
  set : ∀ k, n.Tells input k → env.now + msec n.cfg.exTimeout ≠ 0

section Renewed

variable {env : Env} {n n' : Node}

theorem refreshPeer_expiredAt (env : Env) (n : Node) (r : Ref) :
    ((n.refreshPeer env r).obj r).expiredAt = env.now + msec n.cfg.exTimeout :=
  congrArg Peer.expiredAt (setObj_obj_self n r _)

/-- A HELLO with an endpoint from a ready peer. -/
theorem handleHello_renewed {n : Node} (hrun : n.running = true) {k : Str} (hown : k ≠ n.cfg.peerIdHex)
    {h : HelloFields} (he : h.endpoint ≠ []) {r : Ref} (hr : (n.obj r).ready = true) :
    Ensures (n.handleHello env k h (some r)) fun n' =>
      n'.peers = n.peers ∧ (n'.obj r).expiredAt = env.now + msec n.cfg.exTimeout := by
  unfold handleHello
  simp only [hrun, hr, if_neg hown, if_neg he, Bool.not_true, Bool.false_eq_true, if_false]
  refine Ensures.ok ⟨rfl, ?_⟩
  exact (congrArg Peer.expiredAt (setObj_obj_self _ r _)).trans (refreshPeer_expiredAt env _ r)

/-- Any other frame of a ready peer. -/
theorem handleTraffic_renewed {n : Node} (ht : Tables n) {k : Str} {r : Ref} (hk : n.peers.get k = some r)
    (msg : Msg) (extra : List Bytes) :
    Ensures (n.handleTraffic env k r msg extra) fun n' => ∀ s, n'.peers.get k = some s →
      (n'.obj s).expiredAt = env.now + msec n.cfg.exTimeout := by
  let w : Tidings := ⟨fun _ => True, fun _ _ _ => False, fun _ _ => False⟩
  have hl : Lines env w n (n.arrive env k r msg) := lines_arrive hk trivial msg
  have hf : Filed (n.arrive env k r msg) := (Filed.of_tables ht).lines hl
  have hin : (n.arrive env k r msg).peers.get k = some r := by
    rw [(moves_arrive anything anything env n k r msg).2]
    exact hk
  have hd : ((n.arrive env k r msg).obj r).expiredAt = env.now + msec (n.arrive env k r msg).cfg.exTimeout := by
    rw [hl.cfg]
    unfold arrive
    rw [refreshPeer_expiredAt, checkSeq_rest]
    split <;> rfl
  rw [hl.cfg] at hd
  exact (lines_dispatch (w := w) hf hin trivial msg extra).mono fun n' h s hs =>
    (h.renewed hf hin (hl.cfg ▸ hd) hs).trans (by rw [hl.cfg])

/-- A known peer that is heard from gets its new deadline. -/
theorem Tells.renewed {input : Input} (hn : n.Reachable) (hp : n.Punctual env input) {k : Str} {r : Ref}
    (h : n.Tells input k) (hk : n.peers.get k = some r) (hs : n.step env input = .ok n') {s : Ref}
    (hin : n'.peers.get k = some s) : (n'.obj s).expiredAt = env.now + msec n.cfg.exTimeout := by
  have hf := Filed.of_tables hn.tables
  have hrun := hn.running
  have hown : k ≠ n.cfg.peerIdHex := by
    rintro rfl
    rw [hn.tables.foreign] at hk
    cases hk
  -- the handler leaves the table, and has written the new deadline
  have hdirect : n'.peers = n.peers → (n'.obj r).expiredAt = env.now + msec n.cfg.exTimeout →
      (n'.obj s).expiredAt = env.now + msec n.cfg.exTimeout := by
    intro hpeers hd
    rw [hpeers, hk] at hin
    cases hin
    exact hd
  have hhello : ∀ {frames : List Bytes} {uuid : Bytes} {msg : Msg} {extra : List Bytes} {h : HelloFields},
      input = .peerMsg frames → k = hex uuid → Carries frames uuid msg extra → msg.fields = .hello h →
      ((n.obj r).ready = true ∨ h.endpoint ≠ []) →
      (n'.obj s).expiredAt = env.now + msec n.cfg.exTimeout := by
    rintro frames uuid msg extra hello rfl rfl hc hfields hor
    rcases hp.hello frames uuid msg extra hello r rfl hc hfields hk with hiff | hd
    · have hr : (n.obj r).ready = true := hor.elim id hiff.2
      obtain ⟨rid, data, rfl, hu, hdec⟩ := hc
      have hreset : n.resetSeq (hex uuid) = n.setObj r { n.obj r with wantSeq := 1 } := by
        unfold resetSeq
        rw [hk]
      have hstep : (n.setObj r { n.obj r with wantSeq := 1 }).handleHello env (hex uuid) hello (some r) =
          .ok n' := by
        rw [← hreset, ← hk, ← handlePeerMsg_hello env hu hdec hfields extra]
        exact hs
      have hready : ((n.setObj r { n.obj r with wantSeq := 1 }).obj r).ready = true := by
        rw [setObj_obj_self]
        exact hr
      obtain ⟨hpeers, hd⟩ := handleHello_renewed (n := n.setObj r _) hrun hown (hiff.1 hr) hready n' hstep
      exact hdirect hpeers hd
    · exact (lines_step env hn.tables _ n' hs).renewed hf hk hd hin
  cases h with
  | hello hc hfields he => exact hhello rfl rfl hc hfields (Or.inr he)
  | @traffic frames uuid msg extra r' hc hk' hr =>
    rw [hk] at hk'
    cases hk'
    by_cases hfields : ∃ h, msg.fields = .hello h
    · obtain ⟨h, hfields⟩ := hfields
      exact hhello rfl rfl hc hfields (Or.inl hr)
    · push Not at hfields
      obtain ⟨rid, data, rfl, hu, hdec⟩ := hc
      have hstep : n.handleTraffic env (hex uuid) r msg extra = .ok n' := by
        rw [← handlePeerMsg_traffic env hu hdec hfields hk hr extra]
        exact hs
      exact handleTraffic_renewed hn.tables hk msg extra n' hstep s hin
  | @beacon data uuid host port hh hport =>
    have huuid : uuid ≠ n.cfg.peerId := by
      rintro rfl
      exact hown rfl
    have hstep : n.acceptBeacon env uuid port (n.beaconKey data) host = .ok n' := by
      rw [← handleBeacon_heard env hh host]
      exact hs
    obtain ⟨keys, hkeys⟩ := learnBeaconKey_rest n (hex uuid) host port (n.beaconKey data)
    unfold acceptBeacon at hstep
    simp only [if_neg huuid, hkeys, if_neg hport, hk] at hstep
    cases hstep
    exact hdirect rfl (refreshPeer_expiredAt env _ r)
  | @gossip uuidHex endpoint addr port hsplit =>
    obtain ⟨keys, hkeys⟩ := learnTupleKey_rest n (n.cfg.rt.lower uuidHex) endpoint
    have hstep : n.gossipRequire env uuidHex endpoint = .ok n' := hs
    unfold gossipRequire at hstep
    simp only [hrun, hkeys, hsplit, hk, Bool.not_true, Bool.false_eq_true, if_false, if_neg hown] at hstep
    cases hstep
    exact hdirect rfl (refreshPeer_expiredAt env _ r)

end Renewed

/-! ## Runs -/

/-- The runs whose clock does not go back and whose events satisfy `P`, with the time at which each peer was
last heard from. -/
inductive Hearing (P : Node → Env → Input → Prop) : (Str → Option Int) → Int → Node → Prop where
  | init (cfg : Config) (now : Int) : Hearing P (fun _ => none) now (Node.init cfg)
  | step {heard heard' : Str → Option Int} {clock : Int} {n n' : Node} (env : Env) (input : Input)
      (h : Hearing P heard clock n) (hc : clock ≤ env.now) (hp : P n env input)
      (hs : n.step env input = .ok n') (hh : Lease.Hears (n.Heard input n') env.now heard heard') :
      Hearing P heard' env.now n'

section Hearing

variable {P : Node → Env → Input → Prop} {heard : Str → Option Int} {clock : Int} {n : Node}

theorem Hearing.reachable (h : Hearing P heard clock n) : n.Reachable := by
  induction h with
  | init cfg now => exact .init cfg
  | step env input _ _ _ hs _ ih => exact .step env input ih hs

theorem Hearing.le (h : Hearing P heard clock n) : ∀ k t, heard k = some t → t ≤ clock := by
  induction h with
  | init cfg now => simp
  | step env input _ hc _ _ hh ih => exact hh.le hc ih

/-- An event moves the deadlines of the peers that are heard from, and no others. -/
theorem Punctual.moves {env : Env} {input : Input} {n' : Node} (hp : n.Punctual env input) (hn : n.Reachable)
    (hs : n.step env input = .ok n') :
    Lease.Moves (n.Heard input n') (env.now + msec n.cfg.exTimeout) n.deadline n'.deadline := by
  intro k d hd
  obtain ⟨r, hk, rfl⟩ := deadline_eq_some.1 hd
  have hin : n'.peers.get k ≠ none := by
    rw [hk]
    simp
  rcases (lines_step env hn.tables input n' hs).deadline (Filed.of_tables hn.tables) hk with
    ⟨htells, hd⟩ | ⟨hk0, hd⟩
  · exact Or.inl ⟨Tells.heard htells hin, hd⟩
  · by_cases hheard : n.Heard input n' k
    · exact Or.inl ⟨hheard, hheard.tells.renewed hn hp hk0 hs hk⟩
    · refine Or.inr ⟨hheard, deadline_eq_some.2 ⟨r, hk0, hd.symm⟩⟩

/-- Each deadline is one expired timeout after the peer was last heard from, and is set. -/
theorem Hearing.exact (h : Hearing Punctual heard clock n) :
    Lease.Exact (msec n.cfg.exTimeout) heard n.deadline ∧ ∀ k, n.deadline k ≠ some 0 := by
  induction h with
  | init cfg now =>
    constructor
    · intro k d hd
      cases hd
    · intro k hd
      cases hd
  | @step heard heard' clock n n' env input h hc hp hs hh ih =>
    have hmoves := hp.moves h.reachable hs
    have hcfg := (lines_step env h.reachable.tables input n' hs).cfg
    refine ⟨?_, fun k hk => ?_⟩
    · rw [hcfg]
      exact ih.1.step hh hmoves
    · rcases hmoves k 0 hk with ⟨hheard, hd⟩ | ⟨-, hd⟩
      · exact hp.set k hheard.tells hd.symm
      · exact ih.2 k hd

/-- The reaper takes a peer out exactly when it was silent for longer than the expired timeout, and moves no
deadline of those it leaves. -/
theorem Hearing.reap_iff (h : Hearing Punctual heard clock n) (env : Env) (hc : clock ≤ env.now) {n' : Node}
    (hs : n.reap env = .ok n') {k : Str} {r : Ref} (hk : n.peers.get k = some r) :
    (∃ t ≤ env.now, heard k = some t ∧
      (n'.peers.get k = none ↔ msec n.cfg.exTimeout < env.now - t)) ∧
    ∀ s, n'.peers.get k = some s → n'.deadline k = n.deadline k := by
  have hreap := reap_get env h.reachable.tables n' hs
  have hdead : n.deadline k = some (n.obj r).expiredAt := deadline_eq_some.2 ⟨r, hk, rfl⟩
  constructor
  · obtain ⟨t, ht, hiff⟩ := h.exact.1.overdue_iff hdead env.now
    refine ⟨t, (h.le k t ht).trans hc, ht, ?_⟩
    rw [← hiff, Option.eq_none_iff_forall_ne_some]
    constructor
    · intro hnone
      have hover : Overdue env (n.obj r) := not_not.1 fun ho => hnone r ((hreap k r).1.2 ⟨hk, ho⟩)
      exact hover.2
    · intro hlt s hsome
      obtain ⟨hks, hno⟩ := (hreap k s).1.1 hsome
      rw [hk] at hks
      cases hks
      refine hno ⟨fun hzero => ?_, hlt⟩
      exact h.exact.2 k (hzero ▸ hdead)
  · intro s hsome
    obtain ⟨hks, -⟩ := (hreap k s).1.1 hsome
    rw [deadline_eq_some.2 ⟨s, hsome, rfl⟩, deadline_eq_some.2 ⟨s, hks, rfl⟩, (hreap k s).2 hsome]

end Hearing

/-! ## Two peers that fall silent -/

/-- The reaper, 40 seconds after the only beacon of a peer. -/
def sampleReaped : Node := sampleGreeted.after (Env.calm 40000000000) .reap

theorem reaped_after_beacon : sampleReaped.peers.get (hex sampleUuid) = none ∧
    ∃ heard t, Hearing Punctual heard 0 sampleGreeted ∧ heard (hex sampleUuid) = some t ∧
      (sampleReaped.peers.get (hex sampleUuid) = none ↔ 30000000000 < 40000000000 - t) := by
  have hpunctual : sampleA.Punctual (Env.calm 0) (.beacon (sampleBeaconData 4002) "10.0.0.2".toList) := by
    constructor
    · intro frames uuid msg extra h r hinput
      cases hinput
    · exact fun k _ => by decide
  obtain ⟨heard, hheard⟩ := Lease.exists_hears
    (sampleA.Heard (.beacon (sampleBeaconData 4002) "10.0.0.2".toList) sampleGreeted) (0 : Int) fun _ => none
  have hrun : Hearing Punctual heard 0 sampleGreeted :=
    .step (Env.calm 0) _ (.init _ 0) (by decide) hpunctual (step_after _ (by decide +kernel)) hheard
  have hreap : sampleGreeted.reap (Env.calm 40000000000) = .ok sampleReaped :=
    step_after .reap (by decide +kernel)
  have hk : sampleGreeted.peers.get (hex sampleUuid) = some 0 := by decide +kernel
  obtain ⟨⟨t, -, ht, hiff⟩, -⟩ := Hearing.reap_iff hrun (Env.calm 40000000000) (by decide) hreap hk
  exact ⟨by decide +kernel, heard, t, hrun, ht, hiff⟩

/-- The HELLO of the peer comes 20 seconds after its beacon, and the reaper 20 seconds after the HELLO. -/
def sampleSlow : Node := sampleGreeted.after (Env.calm 20000000000) (.peerMsg sampleHello)

/-- The peer is taken out although its HELLO was accepted 20 seconds ago and the timeout is 30 seconds. -/
theorem reaped_too_early : ¬ ∀ (heard : Str → Option Int) (clock : Int) (n : Node) (env : Env) (n' : Node)
    (k : Str) (r : Ref), Hearing (fun _ _ _ => True) heard clock n → clock ≤ env.now → n.reap env = .ok n' →
    n.peers.get k = some r → ∃ t ≤ env.now, heard k = some t ∧
      (n'.peers.get k = none ↔ msec n.cfg.exTimeout < env.now - t) := by
  intro hall
  obtain ⟨heard1, hheard1⟩ := Lease.exists_hears
    (sampleA.Heard (.beacon (sampleBeaconData 4002) "10.0.0.2".toList) sampleGreeted) (0 : Int) fun _ => none
  have hrun1 : Hearing (fun _ _ _ => True) heard1 0 sampleGreeted :=
    .step (Env.calm 0) _ (.init _ 0) (by decide) trivial (step_after _ (by decide +kernel)) hheard1
  obtain ⟨heard2, hheard2⟩ := Lease.exists_hears
    (sampleGreeted.Heard (.peerMsg sampleHello) sampleSlow) (20000000000 : Int) heard1
  have hrun2 : Hearing (fun _ _ _ => True) heard2 20000000000 sampleSlow :=
    .step (Env.calm 20000000000) _ hrun1 (by decide) trivial (step_after _ (by decide +kernel)) hheard2
  have hk : sampleSlow.peers.get (hex sampleUuid) = some 0 := by decide +kernel
  have hdec : Codec.decode (Codec.helloBytes 1 sampleFields) =
      .ok (some ⟨Cmd.hello, zreVersion, 1, .hello sampleFields⟩) :=
    Codec.decode_hello (by decide) (by constructor <;> decide)
  have hcarries : Carries sampleHello sampleUuid ⟨Cmd.hello, zreVersion, 1, .hello sampleFields⟩ [] :=
    ⟨_, _, rfl, by decide +kernel, hdec⟩
  have hheard : sampleGreeted.Heard (.peerMsg sampleHello) sampleSlow (hex sampleUuid) :=
    .hello hcarries rfl (by decide) (by rw [hk]; simp)
  have hreap : sampleSlow.reap (Env.calm 40000000000) =
      .ok (sampleSlow.after (Env.calm 40000000000) .reap) := step_after .reap (by decide +kernel)
  obtain ⟨t, -, ht, hiff⟩ := hall _ _ _ (Env.calm 40000000000) _ _ _ hrun2 (by decide) hreap hk
  rw [(hheard2 _).1 hheard] at ht
  cases ht
  have hgone : (sampleSlow.after (Env.calm 40000000000) .reap).peers.get (hex sampleUuid) = none := by
    decide +kernel
  exact absurd (hiff.1 hgone) (by decide)

end Node

end Zre
