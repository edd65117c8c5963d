import Zre.Lib.Watch
import Zre.Proofs.Deadlines
import Zre.Proofs.Expiry
import Zre.Proofs.Loops

/-!
# Proofs: who is taken for dead

The run loop is a watch over the peers of the node. Whoever is in the table was heard from not long ago, and nobody
who answers a PING soon enough is taken out by the reaper.
-/

namespace Zre

open Fallible

/-- The timeouts of a node. -/
def Config.rules (c : Config) : Watch.Rules Int := ⟨msec c.evTimeout, msec c.exTimeout⟩

namespace Node

/-- The deadlines of the peers in the table. -/
def leases (n : Node) (k : Str) : Option (Int × Int) := (n.peers.get k).map fun r => (n.obj r).lease

theorem leases_eq_some {n : Node} {k : Str} {e : Int × Int} :
    n.leases k = some e ↔ ∃ r, n.peers.get k = some r ∧ (n.obj r).lease = e := Option.map_eq_some_iff

/-- The event comes from the node `k` and is no HELLO: a message of a ready peer, a beacon with a port or a tuple. -/
inductive Replies (n : Node) : Input → Str → Prop where
  | traffic {frames : List Bytes} {uuid : Bytes} {msg : Msg} {extra : List Bytes} {r : Ref}
      (hc : Carries frames uuid msg extra) (hf : ∀ h, msg.fields ≠ .hello h)
      (hk : n.peers.get (hex uuid) = some r) (hr : (n.obj r).ready = true) : Replies n (.peerMsg frames) (hex uuid)
  | beacon {data uuid : Bytes} {host : Str} {port : ℕ} (hh : n.Hears data uuid port) (hp : port ≠ 0) :
      Replies n (.beacon data host) (hex uuid)
  | gossip {uuidHex endpoint addr : Str} {port : Int}
      (hs : splitEndpoint n.cfg.rt (partition '|' endpoint).1 = .ok (addr, port)) :
      Replies n (.gossip uuidHex endpoint) (n.cfg.rt.lower uuidHex)

/-- A PING is handed to the socket of the peer `k`. -/
def Moment.Pings (m : Moment) (k : Str) : Prop :=
  ∃ r, m.before.peers.get k = some r ∧
    ∃ h ∈ m.after.outbox.drop m.before.outbox.length, ∃ seq, h.dealer.sock = r ∧ h.Says Cmd.ping seq

/-- The moment as one of a watch. -/
def Moment.watched (asked : Moment → Str → Prop) (m : Moment) : Watch.Moment Str Int where
  now := m.env.now
  check := match m.input with
    | .reap => true
    | _ => false
  told := m.before.Tells m.input
  answers := m.before.Replies m.input
  asked := asked m
  before := m.before.leases
  after := m.after.leases

/-! ## The reaper -/

/-- No send has found a queue full. -/
def Roomy (n : Node) : Prop := ∀ h ∈ n.outbox, h.outcome ≠ .again

/-- What the reaper does to a peer that it leaves: it may probe it. -/
def Treated (env : Env) (n : Node) (r : Ref) (n' : Node) : Prop :=
  (n'.obj r).evasiveAt = (n.obj r).evasiveAt ∧ ((n.obj r).evasiveAt = 0 ∨ env.now ≤ (n.obj r).evasiveAt) ∨
    (n'.obj r).evasiveAt = env.now + msec n.cfg.evTimeout ∧ (n'.Roomy →
      ∃ h ∈ n'.outbox.drop n.outbox.length, ∃ seq, h.dealer.sock = r ∧ h.Says Cmd.ping seq)

/-- What the reaper does at the peer `r`. -/
structure Round (env : Env) (n : Node) (r : Ref) (n' : Node) : Prop where
  cfg : n'.cfg = n.cfg
  outbox : n.outbox <+: n'.outbox
  others : ∀ s, s ≠ r → (n'.obj s).evasiveAt = (n.obj s).evasiveAt
  own : ¬ Overdue env (n.obj r) → Treated env n r n'

section Reaper

variable {env : Env} {n n' : Node}

theorem Roomy.of_le (h : n'.Roomy) (hle : n.outbox <+: n'.outbox) : n.Roomy := fun x hx => h x (hle.subset hx)

theorem evasiveAt_talk {L : Prop} {K : Handed → Prop} (h : Talk L K n n') (r : Ref) :
    (n'.obj r).evasiveAt = (n.obj r).evasiveAt := congrArg Prod.fst (h.obj r).lease

theorem outbox_talk {L : Prop} {K : Handed → Prop} (h : Talk L K n n') : n.outbox <+: n'.outbox := by
  obtain ⟨l, hl, -⟩ := h.outbox
  exact ⟨l, hl.symm⟩

theorem removePeer_round {k : Str} {r : Ref} (hkey : (n.obj r).uuidHex = k) (hover : Overdue env (n.obj r)) :
    Ensures (n.removePeer env r) (Round env n r) := by
  rw [removePeer_eq env hkey]
  have htalk : ∀ (m : Node) (gs : List Bytes), Ensures (m.restartElections env gs)
      (Talk env.Lossless Handed.IsElection m) := fun m gs =>
    Ensures.foldlM_rel (Talk.refl _ _) (fun _ _ _ => Talk.trans) fun m g _ => talk_restartElectionIfNeeded env m g
  refine (htalk _ _).mono fun n' h => ?_
  have hle : (n.forgotten k r (env.order (n.obj r).groups)).outbox <+: n'.outbox := outbox_talk h
  refine ⟨?_, hle, fun s _ => ?_, fun hno => absurd hover hno⟩
  · rw [h.rest]
    rfl
  · exact (evasiveAt_talk h s).trans (setObj_congr Peer.evasiveAt n r (p := (n.obj r).disconnect) rfl s)

/-- A quiet peer is sent a PING, unless its connection was torn down. -/
theorem probe_round (hw : Wires n) {k : Str} {r : Ref} (hk : n.peers.get k = some r) {n1 : Node}
    (h1 : n1.obj = n.obj ∧ n1.outbox = n.outbox ∧ n1.cfg = n.cfg) :
    Ensures (do
      let m ← n1.sendCmd env r Cmd.ping none none []
      return m.setObj r { m.obj r with evasiveAt := env.now + msec m.cfg.evTimeout }) (Round env n r) := by
  obtain ⟨hobj, hout, hcfg⟩ := h1
  have hsend : Ensures (n1.sendCmd env r Cmd.ping none none []) fun m =>
      n1.outbox <+: m.outbox ∧ m.cfg = n1.cfg ∧ (∀ s, (m.obj s).evasiveAt = (n1.obj s).evasiveAt) ∧ (m.Roomy →
        ∃ h ∈ m.outbox.drop n1.outbox.length, ∃ seq, h.dealer.sock = r ∧ h.Says Cmd.ping seq) := by
    intro m hm
    have htalk := talk_sendCmd env n1 r Cmd.ping none none [] m hm
    refine ⟨outbox_talk htalk, by rw [htalk.rest], evasiveAt_talk htalk, fun hroom => ?_⟩
    obtain ⟨res, hres, hm⟩ := bind_eq_ok_iff.1 hm
    cases hm
    rcases sendEncoded_hand n1 r (numbers_bares (by simp)) [] res hres with ⟨-, hclosed⟩ | ⟨h, -, hd, hmsg, hhand⟩
    · -- a closed socket was torn down
      exfalso
      have hnone : (n.obj r).dealer = none := by
        rw [hobj] at hclosed
        rcases hclosed with hc | hd
        · rw [hw.connected r] at hc
          exact Option.not_isSome_iff_eq_none.1 (by rw [hc]; simp)
        · exact hd
      rcases hw.entry k r (Or.inl hk) with hd | ⟨h, hmem, -, hagain⟩
      · exact hd hnone
      · refine hroom h ?_ hagain
        refine (outbox_talk htalk).subset ?_
        rw [hout]
        exact hmem
    · refine ⟨h, ?_, _, ?_, hmsg⟩
      · rw [hhand]
        show h ∈ (n1.outbox ++ [h]).drop n1.outbox.length
        rw [List.drop_left]
        exact List.mem_singleton_self h
      · rw [hobj] at hd
        exact hw.own r h.dealer hd
  refine hsend.bind fun m hm => Ensures.ok ?_
  obtain ⟨hle, hcfg', hsame, hping⟩ := hm
  rw [hout] at hle hping
  refine ⟨hcfg'.trans hcfg, hle, fun s hs => ?_, fun _ => Or.inr ⟨?_, hping⟩⟩
  · show ((m.setObj r _).obj s).evasiveAt = _
    rw [setObj_obj, if_neg hs, hsame, hobj]
  · show ((m.setObj r _).obj r).evasiveAt = _
    rw [setObj_obj_self, hcfg', hcfg]

theorem reapPeer_round (hw : Wires n) {k : Str} {r : Ref} (hk : n.peers.get k = some r)
    (hkey : (n.obj r).uuidHex = k) : Ensures (n.reapPeer env r) (Round env n r) := by
  unfold reapPeer
  simp only []
  split
  · rename_i hover
    exact removePeer_round hkey hover
  split
  · refine probe_round hw hk ?_
    split <;> exact ⟨rfl, rfl, rfl⟩
  · rename_i hquiet
    refine Ensures.ok ⟨rfl, List.prefix_rfl, fun _ _ => rfl, fun _ => Or.inl ⟨rfl, ?_⟩⟩
    by_cases hzero : (n.obj r).evasiveAt = 0
    · exact Or.inl hzero
    · exact Or.inr (not_lt.1 fun hlt => hquiet ⟨hzero, hlt⟩)

/-- What the reaper has done at the peers `refs`. -/
structure Rounds (env : Env) (n : Node) (refs : List Ref) (n' : Node) : Prop where
  cfg : n'.cfg = n.cfg
  outbox : n.outbox <+: n'.outbox
  others : ∀ s, s ∉ refs → (n'.obj s).evasiveAt = (n.obj s).evasiveAt
  own : ∀ r ∈ refs, ¬ Overdue env (n.obj r) → Treated env n r n'

/-- Later rounds do not undo what was done to `r`. -/
theorem Treated.mono {m : Node} {r : Ref} (h : Treated env n r m) (hle : m.outbox <+: n'.outbox)
    (hsame : (n'.obj r).evasiveAt = (m.obj r).evasiveAt) : Treated env n r n' := by
  rcases h with ⟨hkeep, hquiet⟩ | ⟨hset, hping⟩
  · exact Or.inl ⟨hsame.trans hkeep, hquiet⟩
  · refine Or.inr ⟨hsame.trans hset, fun hroom => ?_⟩
    obtain ⟨h, hmem, hsays⟩ := hping (hroom.of_le hle)
    exact ⟨h, (hle.drop _).subset hmem, hsays⟩

/-- Earlier rounds were about others. -/
theorem Treated.of_later {m : Node} {r : Ref} (h : Treated env m r n') (hcfg : m.cfg = n.cfg)
    (hle : n.outbox <+: m.outbox) (hsame : (m.obj r).evasiveAt = (n.obj r).evasiveAt) : Treated env n r n' := by
  unfold Treated at h
  rw [hsame, hcfg] at h
  refine h.imp id fun ⟨hset, hping⟩ => ⟨hset, fun hroom => ?_⟩
  obtain ⟨h, hmem, hsays⟩ := hping hroom
  exact ⟨h, (List.drop_sublist_drop_left _ hle.length_le).subset hmem, hsays⟩

theorem Wires.lines {w : Tidings} (hf : Filed n) (hw : Wires n) (h : Lines env w n n') : Wires n' :=
  (h.invariant (I := fun n => Filed n ∧ Wires n) (fun hl hn => ⟨hn.1.line hl, hn.2.line hn.1 hl⟩) ⟨hf, hw⟩).2

theorem reapPeers_rounds (ht : Tables n) (hw : Wires n) {refs : List Ref} (hnd : refs.Nodup)
    (hrefs : ∀ r ∈ refs, ∃ k, n.peers.get k = some r) :
    Ensures (refs.foldlM (fun n r => n.reapPeer env r) n) (Rounds env n refs) := by
  induction refs generalizing n with
  | nil => exact Ensures.ok ⟨rfl, List.prefix_rfl, fun _ _ => rfl, fun r hr => absurd hr List.not_mem_nil⟩
  | cons r refs ih =>
    obtain ⟨k, hk⟩ := hrefs r (by simp)
    have hf := Filed.of_tables ht
    rw [List.nodup_cons] at hnd
    rw [List.foldlM_cons]
    refine ((((reapPeer_peers env ht hk).and (moves_reapPeer env ht hk)).and
      (lines_reapPeer (w := Tidings.silence) hf hk)).and (reapPeer_round hw hk (ht.key k r hk))).bind fun n1 hn1 => ?_
    obtain ⟨⟨⟨hp, hm, -⟩, hl⟩, hround⟩ := hn1
    have hstill : ∀ s ∈ refs, ∃ j, n1.peers.get j = some s := by
      intro s hs
      obtain ⟨j, hj⟩ := hrefs s (by simp [hs])
      refine ⟨j, (hp j s).2 ⟨hj, ?_⟩⟩
      rintro rfl
      exact absurd hs hnd.1
    refine (ih (hm.invariant Tables.move ht) (hw.lines hf hl) hnd.2 hstill).mono fun n' h => ?_
    refine ⟨h.cfg.trans hround.cfg, hround.outbox.trans h.outbox, fun s hs => ?_, fun s hs hno => ?_⟩
    · have hsr : s ≠ r := fun heq => hs (by simp [heq])
      exact (h.others s fun hmem => hs (by simp [hmem])).trans (hround.others s hsr)
    · rcases List.mem_cons.1 hs with rfl | hmem
      · exact (hround.own hno).mono h.outbox (h.others s hnd.1)
      · have hsr : s ≠ r := by
          rintro rfl
          exact hnd.1 hmem
        obtain ⟨j, hj⟩ := hstill s hmem
        have hkeep := hl.keeps hf (k := j) (by simp [Tidings.silence]) hj
        have hno' : ¬ Overdue env (n1.obj s) := by
          unfold Overdue at hno ⊢
          rwa [hkeep.2]
        exact (h.own s hmem hno').of_later hround.cfg hround.outbox (hround.others s hsr)

theorem dropDials_lease (env : Env) (n : Node) (s : Ref) : ((n.dropDials env).obj s).lease = (n.obj s).lease := by
  refine List.foldlRecOn (motive := fun m : Node => (m.obj s).lease = (n.obj s).lease) n.pending.entries _ rfl
    fun m hm e _ => ?_
  unfold reapPending
  simp only []
  split
  · exact (setObj_congr Peer.lease m e.2 (p := (m.obj e.2).disconnect) rfl s).trans hm
  · exact hm

theorem dropDials_rest (env : Env) (n : Node) :
    (n.dropDials env).cfg = n.cfg ∧ (n.dropDials env).outbox = n.outbox := by
  refine List.foldlRecOn (motive := fun m : Node => m.cfg = n.cfg ∧ m.outbox = n.outbox) n.pending.entries _
    ⟨rfl, rfl⟩ fun m hm e _ => ?_
  unfold reapPending
  simp only []
  split <;> exact hm

/-- The reaper probes the quiet ones among the peers that it leaves. -/
theorem reap_treated (ht : Tables n) (hw : Wires n) : Ensures (n.reap env) fun n' => ∀ k r,
    n.peers.get k = some r → ¬ Overdue env (n.obj r) → Treated env n r n' := by
  have hf := Filed.of_tables ht
  have h0 : Lines env Tidings.silence n (n.dropDials env) := lines_dropDials hf
  have hm0 := moves_reapPendings env n n.pending.nodup fun e he =>
    (Dict.get_eq_some_iff _).2 (show (e.1, e.2) ∈ _ from he)
  have ht0 : Tables (n.dropDials env) := hm0.invariant Tables.move ht
  obtain ⟨hcfg0, hout0⟩ := dropDials_rest env n
  refine (((lines_conversation env Tidings.silence).maintainElections (n.dropDials env)).and
    (talk_maintainElections env _)).bind fun n2 h2 => ?_
  have ht2 : Tables n2 := Tables.of_same (Same.of_talk h2.2) ht0
  have hp2 : n2.peers = n.peers := h2.2.peers.trans (dropDials_peers env n)
  have hl2 : Lines env Tidings.silence n n2 := h0.trans h2.1
  have hlease : ∀ s, (n2.obj s).lease = (n.obj s).lease := fun s => (h2.2.obj s).lease.trans (dropDials_lease env n s)
  refine (reapPeers_rounds ht2 (hw.lines hf hl2) ht2.peers_nodup fun r hr => (Dict.mem_values _).1 hr).mono
    fun n' h k r hk hno => ?_
  have hno' : ¬ Overdue env (n2.obj r) := by
    have hexp : (n2.obj r).expiredAt = (n.obj r).expiredAt := congrArg Prod.snd (hlease r)
    unfold Overdue at hno ⊢
    rwa [hexp]
  refine (h.own r ((Dict.mem_values _).2 ⟨k, hp2 ▸ hk⟩) hno').of_later ?_ ?_ (congrArg Prod.fst (hlease r))
  · rw [h2.2.rest]
    exact hcfg0
  · rw [← hout0]
    exact outbox_talk h2.2

end Reaper

/-! ## Moments of a watch -/

section Watched

variable {env : Env} {n n' : Node} {asked : Moment → Str → Prop}

/-- A known peer that answers is refreshed. -/
theorem Replies.renews (hn : n.Reachable) {input : Input} {k : Str} (ha : n.Replies input k)
    (hs : n.step env input = .ok n') {r : Ref} (hk : n'.peers.get k = some r) :
    (n'.obj r).lease = n.cfg.lease env.now := by
  have hf := Filed.of_tables hn.tables
  have hin : input ≠ .reap := by
    rintro rfl
    cases ha
  rcases (ticks_step hf hin n' hs).filed k r hk with hold | ⟨-, hnew⟩
  swap
  · exact hnew
  have hown : k ≠ n.cfg.peerIdHex := by
    rintro rfl
    rw [hn.tables.foreign] at hold
    cases hold
  cases ha with
  | @traffic frames uuid msg extra s hc hfields hks hready =>
    rw [hold] at hks
    cases hks
    obtain ⟨rid, data, rfl, hu, hd⟩ := hc
    have hstep : n.handleTraffic env (hex uuid) r msg extra = .ok n' := by
      rw [← handlePeerMsg_traffic env hu hd hfields hold hready extra]
      exact hs
    exact (ticks_handleTraffic (hf.key _ r hold) (hf.alloc _ r (Or.inl hold)) msg extra n' hstep).2
  | @beacon data uuid host port hh hport =>
    have huuid : uuid ≠ n.cfg.peerId := by
      rintro rfl
      exact hown rfl
    have hstep : n.acceptBeacon env uuid port (n.beaconKey data) host = .ok n' := by
      rw [← handleBeacon_heard env hh host]
      exact hs
    obtain ⟨keys, hkeys⟩ := learnBeaconKey_rest n (hex uuid) host port (n.beaconKey data)
    unfold acceptBeacon at hstep
    simp only [if_neg huuid, hkeys, if_neg hport, hold] at hstep
    cases hstep
    exact lease_refreshPeer env _ r
  | @gossip uuidHex endpoint addr port hsplit =>
    obtain ⟨keys, hkeys⟩ := learnTupleKey_rest n (n.cfg.rt.lower uuidHex) endpoint
    have hstep : n.gossipRequire env uuidHex endpoint = .ok n' := hs
    unfold gossipRequire at hstep
    simp only [hn.running, hkeys, hsplit, hold, Bool.not_true, Bool.false_eq_true, if_false, if_neg hown] at hstep
    cases hstep
    exact lease_refreshPeer env _ r

/-- Whatever is not the reaper is news, or nothing. -/
theorem watched_news (hn : n.Reachable) {input : Input} (hin : input ≠ .reap) (hs : n.step env input = .ok n') :
    (Moment.watched asked ⟨env, input, n, n'⟩).News n.cfg.rules := by
  have hf := Filed.of_tables hn.tables
  have hticks := ticks_step hf hin n' hs
  have hlines := lines_step env hn.tables input n' hs
  constructor
  · intro k e he
    obtain ⟨r, hk, rfl⟩ := leases_eq_some.1 he
    rcases hlines.deadline hf hk with ⟨htold, hd⟩ | ⟨hold, hd⟩
    · exact Or.inr ⟨htold, hd⟩
    · refine Or.inl ⟨(n.obj r).evasiveAt, leases_eq_some.2 ⟨r, hold, ?_⟩⟩
      exact Prod.ext rfl hd.symm
  · intro k e he
    obtain ⟨r, hk, rfl⟩ := leases_eq_some.1 he
    by_cases ha : n.Replies input k
    · exact Or.inr (ha.renews hn hs hk)
    · rcases hticks.filed k r hk with hold | ⟨-, hnew⟩
      · rcases hticks.obj r (hf.alloc k r (Or.inl hold)) with hsame | hnew
        · exact Or.inl ⟨leases_eq_some.2 ⟨r, hold, hsame.symm⟩, ha⟩
        · exact Or.inr hnew
      · exact Or.inr hnew

/-- The reaper checks. -/
theorem watched_checks (hn : n.Reachable) (hpos : ∀ k e, n.leases k = some e → 0 < e.1 ∧ 0 < e.2)
    (hs : n.reap env = .ok n')
    (hask : ∀ k, (n'.Roomy → Moment.Pings ⟨env, .reap, n, n'⟩ k) → asked ⟨env, .reap, n, n'⟩ k) :
    (Moment.watched asked ⟨env, .reap, n, n'⟩).Checks n.cfg.rules := by
  have hget := reap_get env hn.tables n' hs
  have htreat := reap_treated hn.tables hn.wires n' hs
  have hover : ∀ k r, n.peers.get k = some r → (¬ Overdue env (n.obj r) ↔ env.now ≤ (n.obj r).expiredAt) := by
    intro k r hk
    have hd := (hpos k _ (leases_eq_some.2 ⟨r, hk, rfl⟩)).2
    constructor
    · exact fun hno => not_lt.1 fun hlt => hno ⟨ne_of_gt hd, hlt⟩
    · exact fun hle ho => absurd ho.2 (not_lt.2 hle)
  constructor
  · intro k e he
    obtain ⟨r, hk, rfl⟩ := leases_eq_some.1 he
    obtain ⟨hold, hno⟩ := (hget k r).1.1 hk
    have hd : (n'.obj r).expiredAt = (n.obj r).expiredAt := (hget k r).2 hk
    refine ⟨(n.obj r).evasiveAt, leases_eq_some.2 ⟨r, hold, Prod.ext rfl hd.symm⟩, ?_, ?_⟩
    · show env.now ≤ (n'.obj r).expiredAt
      rw [hd]
      exact (hover k r hold).1 hno
    · rcases htreat k r hold hno with ⟨hsame, hzero | hle⟩ | ⟨hset, hping⟩
      · exact absurd hzero (ne_of_gt (hpos k _ (leases_eq_some.2 ⟨r, hold, rfl⟩)).1)
      · exact Or.inl ⟨hle, hsame⟩
      · exact Or.inr ⟨hset, hask k fun hroom => ⟨r, hold, hping hroom⟩⟩
  · intro k e he hle
    obtain ⟨r, hk, rfl⟩ := leases_eq_some.1 he
    exact ⟨_, leases_eq_some.2 ⟨r, (hget k r).1.2 ⟨hk, (hover k r hk).2 hle⟩, rfl⟩⟩
  · intro k ha
    cases ha

end Watched

end Node

namespace Loop

section

variable {R : Int → Int → Prop} {asked : Node.Moment → Str → Prop} {last : Int}

/-- The calls before the reaper are moments of the watch. -/
theorem life_makes {n n' : Node} {calls : List (Env × Input)} (ms : List Node.Moment) (hm : n.makes calls = .ok n')
    (hcalls : ∀ c ∈ calls, c.2 ≠ .reap ∧ last ≤ c.1.now) (hn : n.Reachable)
    (h : Watch.Life n.cfg.rules R (ms.map (Node.Moment.watched asked)) last n.leases) :
    n'.Reachable ∧ n'.cfg = n.cfg ∧
      Watch.Life n.cfg.rules R ((ms ++ n.moments calls).map (Node.Moment.watched asked)) last n'.leases := by
  induction calls generalizing n ms with
  | nil =>
    cases hm
    refine ⟨hn, rfl, ?_⟩
    show Watch.Life _ R ((ms ++ []).map _) last _
    rw [List.append_nil]
    exact h
  | cons c calls ih =>
    obtain ⟨m, hstep, hrest⟩ := bind_eq_ok_iff.1 hm
    obtain ⟨hin, hle⟩ := hcalls c (by simp)
    have hcfg : m.cfg = n.cfg := (Node.lines_step c.1 hn.tables c.2 m hstep).cfg
    have hcheck : (Node.Moment.watched asked ⟨c.1, c.2, n, m⟩).check = false := by
      show (match c.2 with
        | .reap => true
        | _ => false) = false
      split
      · rename_i hreap
        exact absurd hreap hin
      · rfl
    have hnext := Watch.Life.news (Node.Moment.watched asked ⟨c.1, c.2, n, m⟩) h hle hcheck
      (Node.watched_news hn hin hstep)
    obtain ⟨hn', hcfg', hlife⟩ := ih (ms ++ [⟨c.1, c.2, n, m⟩]) hrest
      (fun d hd => hcalls d (by simp [hd])) (.step c.1 c.2 hn hstep) (by rw [hcfg, List.map_append]; exact hnext)
    refine ⟨hn', hcfg'.trans hcfg, ?_⟩
    rw [hcfg] at hlife
    rw [show n.moments (c :: calls) = ⟨c.1, c.2, n, m⟩ :: m.moments calls by
      rw [Node.moments, Node.after_eq hstep], List.append_cons]
    exact hlife

end

/-- No call before the reaper is one. -/
theorem handled_ne_reap (l : Loop) (p : Pass) : ∀ c ∈ l.handled p, c.2 ≠ .reap := by
  have hreceived : ∀ x : Env × Ready, ∀ c ∈ received p.now x, c.2 ≠ .reap := by
    rintro ⟨env, ready⟩ c hc
    cases ready with
    | inbox frames =>
      cases frames with
      | none => cases hc
      | some frames =>
        obtain rfl := List.mem_singleton.1 hc
        simp
    | beacon datagram =>
      cases datagram with
      | none => cases hc
      | some d =>
        obtain rfl := List.mem_singleton.1 hc
        simp
    | hub tuples | link tuples =>
      obtain ⟨t, -, rfl⟩ := List.mem_map.1 hc
      simp
  intro c hc
  rcases List.mem_append.1 hc with hc | hc
  · obtain ⟨x, -, rfl⟩ := List.mem_map.1 hc
    simp
  · obtain ⟨x, -, hx⟩ := List.mem_flatMap.1 hc
    exact hreceived x c hx

section

variable {P : Loop → Event → Prop} {R : Int → Int → Prop} {asked : Node.Moment → Str → Prop} {ms : List Node.Moment}
  {l l' : Loop}

/-- A pass is a stretch in the life of the watch. -/
theorem life_pass {p : Pass} (hpass : Passed l p l') (horder : InOrder l (.pass p)) (hlast : l.lastReap ≤ l.now)
    (hR : R l.lastReap p.now) (hn : l.node.Reachable) (hev : 0 ≤ l.node.cfg.rules.ask)
    (hex : 0 ≤ l.node.cfg.rules.drop)
    (hask : ∀ m ∈ l.moments (.pass p), m.input = .reap → ∀ k, (m.after.Roomy → m.Pings k) → asked m k)
    (h : Watch.Life l.node.cfg.rules R (ms.map (Node.Moment.watched asked)) l.lastReap l.node.leases) :
    Watch.Life l.node.cfg.rules R ((ms ++ l.moments (.pass p)).map (Node.Moment.watched asked)) l'.lastReap
      l'.node.leases := by
  obtain ⟨hnow, -, hclock⟩ := horder p rfl
  obtain ⟨n, hhandled, hreaped⟩ := Node.makes_append_ok hpass.node
  have hmoments : l.moments (.pass p) = l.node.moments (l.handled p) ++ n.moments (l.reaped p) :=
    Node.moments_append _ hhandled
  have hcalls : ∀ c ∈ l.handled p, c.2 ≠ .reap ∧ l.lastReap ≤ c.1.now := fun c hc =>
    ⟨handled_ne_reap l p c hc, (hlast.trans hnow).trans (hclock c hc)⟩
  obtain ⟨hn', hcfg, hlife⟩ := life_makes ms hhandled hcalls hn h
  rw [hmoments, ← List.append_assoc, hpass.lastReap]
  by_cases hdue : reapInterval ≤ p.now - l.lastReap
  · rw [if_pos hdue]
    rw [reaped, if_pos hdue, Node.makes_singleton] at hreaped
    have hone : n.moments (l.reaped p) = [⟨{ p.reap with now := p.now }, .reap, n, l'.node⟩] := by
      rw [reaped, if_pos hdue, Node.moments, Node.moments, Node.after_eq hreaped]
    rw [hone, List.map_append]
    have hpos := (hlife.positive hev hex).2
    rw [← hcfg] at hlife ⊢
    refine Watch.Life.check (Node.Moment.watched asked ⟨{ p.reap with now := p.now }, .reap, n, l'.node⟩) hlife
      (hlast.trans hnow) hR (Node.watched_checks hn' hpos hreaped ?_)
    refine hask ⟨{ p.reap with now := p.now }, .reap, n, l'.node⟩ ?_ rfl
    rw [hmoments, hone]
    exact List.mem_append_right _ (List.mem_singleton_self _)
  · rw [if_neg hdue]
    rw [reaped, if_neg hdue] at hreaped ⊢
    cases hreaped
    rw [Node.moments, List.append_nil]
    exact hlife

/-- What the application does at once changes no deadline. -/
theorem leases_act {n n' : Node} {env : Env} {input : Input} (ha : acts input = true)
    (hs : n.step env input = .ok n') : n'.leases = n.leases := by
  cases input with
  | setContestInGroup g =>
    cases hs
    unfold Node.setContestInGroup
    simp only []
    split <;> rfl
  | setHeader key value =>
    cases hs
    rfl
  | pinKey host port publicKey =>
    cases hs
    unfold Node.pinKey Node.learnKey
    split <;> rfl
  | recv =>
    cases hs
    rfl
  | peerMsg _ | beacon _ _ | gossip _ _ | command _ | reap => cases ha

/-- A run of the loop is the life of a watch. -/
theorem Run.life (hP : ∀ l event, P l event → InOrder l event)
    (hR : ∀ l p, P l (.pass p) → l.now - l.lastReap < reapInterval → R l.lastReap p.now) (h : Run P ms l)
    (hev : 0 ≤ l.node.cfg.rules.ask) (hex : 0 ≤ l.node.cfg.rules.drop)
    (hask : ∀ m ∈ ms, m.input = .reap → ∀ k, (m.after.Roomy → m.Pings k) → asked m k) :
    Watch.Life l.node.cfg.rules R (ms.map (Node.Moment.watched asked)) l.lastReap l.node.leases := by
  induction h with
  | start cfg interval now hnow hinterval => exact .start now hnow
  | @step ms l l' event hrun hp hs ih =>
    have hcfg := (step_reachable hrun.reachable hs).2
    rw [hcfg] at hev hex ⊢
    have hlife := ih hev hex fun m hm => hask m (List.mem_append_left _ hm)
    rcases step_rest hs with ⟨p, rfl, hpass⟩ | ⟨hnil, n, api, rfl, hact⟩
    · obtain ⟨hlast, hlate⟩ := hrun.reaps hP
      exact life_pass hpass (hP _ _ hp) hlast (hR l p hp hlate) hrun.reachable hev hex
        (fun m hm => hask m (List.mem_append_right _ hm)) hlife
    · rw [hnil, List.append_nil]
      have hsame : n.leases = l.node.leases := by
        rcases hact with rfl | ⟨env, input, ha, hstep⟩
        · rfl
        · exact leases_act ha hstep
      show Watch.Life _ R _ l.lastReap n.leases
      rw [hsame]
      exact hlife

/-! ## Who is in the table -/

/-- In every run whose clock does not go back, whoever is in the peer table after a pass was heard from, and not longer
ago than the expired timeout and one interval of the reaper. -/
theorem Run.heard_lately (h : Run InOrder ms l) (hev : 0 ≤ l.node.cfg.evTimeout) (hex : 0 ≤ l.node.cfg.exTimeout)
    {k : Str} {r : Ref} (hk : l.node.peers.get k = some r) :
    ∃ m ∈ ms, m.before.Tells m.input k ∧ l.now - m.env.now < msec l.node.cfg.exTimeout + reapInterval := by
  have hmsec : ∀ x : Int, 0 ≤ x → 0 ≤ msec x := fun x hx => by
    unfold msec
    omega
  have hlife : Watch.Life l.node.cfg.rules (fun _ _ => True) (ms.map (Node.Moment.watched fun _ _ => True))
      l.lastReap l.node.leases :=
    h.life (fun _ _ hp => hp) (fun _ _ _ _ => trivial) (hmsec _ hev) (hmsec _ hex) fun _ _ _ _ _ => trivial
  obtain ⟨hlast, x, hx, htold, hd⟩ := hlife.complete (hmsec _ hex) (Node.leases_eq_some.2 ⟨r, hk, rfl⟩)
  obtain ⟨m, hm, rfl⟩ := List.mem_map.1 hx
  refine ⟨m, hm, htold, ?_⟩
  obtain ⟨-, hlate⟩ := h.reaps fun _ _ hp => hp
  have hd' : (l.node.obj r).lease.2 = m.env.now + msec l.node.cfg.exTimeout := hd
  rw [hd'] at hlast
  omega

/-- Each peer that is handed a PING is heard from before `delay` is over, other than by a HELLO, unless it is out of
the table before. -/
def Answered (delay : Int) (ms : List Node.Moment) : Prop :=
  Watch.Answered delay (ms.map (Node.Moment.watched Node.Moment.Pings))

/-- In every run whose passes take `w` at most apart from their waits and whose sends never find a queue full, the
reaper takes nobody out if each peer that is handed a PING answers within `delay`, and the evasive timeout, the time
between two rounds of the reaper and the delay fit into the expired timeout. -/
theorem Run.spares {w delay : Int} (h : Run (fun l event => InOrder l event ∧ Swift w l event) ms l)
    (hroomy : ∀ m ∈ ms, m.after.Roomy) (hans : Answered delay ms) (hev : 0 ≤ l.node.cfg.evTimeout)
    (hex : 0 ≤ l.node.cfg.exTimeout) (hdelay : 0 ≤ delay)
    (hfits : msec l.node.cfg.evTimeout + (reapInterval + maxWait + w) + delay ≤ msec l.node.cfg.exTimeout) :
    ∀ m ∈ ms, m.input = .reap → ∀ k, m.before.peers.contains k = true → m.after.peers.contains k = true := by
  have hmsec : ∀ x : Int, 0 ≤ x → 0 ≤ msec x := fun x hx => by
    unfold msec
    omega
  have hlife : Watch.Life l.node.cfg.rules (fun a b => b ≤ a + (reapInterval + maxWait + w))
      (ms.map (Node.Moment.watched Node.Moment.Pings)) l.lastReap l.node.leases := by
    refine h.life (fun _ _ hp => hp.1) (fun l p hp hlate => ?_) (hmsec _ hev) (hmsec _ hex)
      fun m hm _ k hping => hping (hroomy m hm)
    have hnext := hp.2 p rfl
    have hwait := wait_le_maxWait l
    omega
  have hkeeps := hlife.keeps (hmsec _ hev) hdelay hfits hans
  intro m hm hreap k hk
  rw [Dict.contains_iff] at hk ⊢
  obtain ⟨r, hr⟩ := hk
  have hcheck : (m.watched Node.Moment.Pings).check = true := by
    unfold Node.Moment.watched
    simp only [hreap]
  obtain ⟨e, he⟩ := hkeeps _ (List.mem_map_of_mem hm) hcheck k _ (Node.leases_eq_some.2 ⟨r, hr, rfl⟩)
  obtain ⟨s, hs, -⟩ := Node.leases_eq_some.1 he
  exact ⟨s, hs⟩

end

/-! ## A sample -/

theorem sample_history : ((sampleLoop samplePasses).1.map fun m => m.env.now) =
    [1000000000, 8000000000, 10000000000, 10000000000] := by decide +kernel

theorem sample_known : (sampleLoop samplePasses).2.node.peers.get (hex sampleUuid) = some 0 := by decide +kernel

/-- The peer was heard from less than 31 seconds ago. -/
theorem sample_heard_lately : ∃ m ∈ (sampleLoop samplePasses).1, m.before.Tells m.input (hex sampleUuid) ∧
    10000000000 - m.env.now < 31000000000 := by
  have hrun : Run InOrder (sampleLoop samplePasses).1 (sampleLoop samplePasses).2 := sample_run fun _ _ h => h.1
  obtain ⟨m, hm, htold, hlt⟩ := hrun.heard_lately (by decide +kernel) (by decide +kernel) sample_known
  have hnow : (sampleLoop samplePasses).2.now = 10000000000 := by decide +kernel
  have hspan : msec (sampleLoop samplePasses).2.node.cfg.exTimeout + reapInterval = 31000000000 := by decide +kernel
  rw [hnow, hspan] at hlt
  exact ⟨m, hm, htold, hlt⟩

theorem sample_answered : Answered 10000000000 (sampleLoop samplePasses).1 := by
  have htimes : ∀ x ∈ (sampleLoop samplePasses).1.map (Node.Moment.watched Node.Moment.Pings),
      1000000000 ≤ x.now ∧ x.now ≤ 10000000000 := by
    intro x hx
    obtain ⟨m, hm, rfl⟩ := List.mem_map.1 hx
    have hmem : m.env.now ∈ (sampleLoop samplePasses).1.map fun m => m.env.now := List.mem_map_of_mem hm
    rw [sample_history] at hmem
    show 1000000000 ≤ m.env.now ∧ m.env.now ≤ 10000000000
    simp only [List.mem_cons, List.not_mem_nil, or_false] at hmem
    omega
  intro pre a mid x post k hms _ _
  have ha := htimes a (by rw [hms]; simp)
  have hx := htimes x (by rw [hms]; simp)
  omega

/-- The reaper of the second pass leaves the peer. -/
theorem sample_spares : ∃ m ∈ (sampleLoop samplePasses).1, m.input = .reap ∧
    m.before.peers.contains (hex sampleUuid) = true ∧ m.after.peers.contains (hex sampleUuid) = true := by
  have hrun : Run (fun l event => InOrder l event ∧ Swift 10000000000 l event) (sampleLoop samplePasses).1
      (sampleLoop samplePasses).2 := sample_run fun _ _ h => ⟨h.1, h.2.1⟩
  have hroomy : ∀ m ∈ (sampleLoop samplePasses).1, m.after.Roomy := by
    have hall : ∀ m ∈ (sampleLoop samplePasses).1, ∀ h ∈ m.after.outbox, h.outcome ≠ .again := by decide +kernel
    exact hall
  have hspares := hrun.spares hroomy sample_answered (by decide +kernel) (by decide +kernel) (by decide)
    (by decide +kernel)
  have hcheck : ∃ m ∈ (sampleLoop samplePasses).1, (m.watched fun _ _ => True).check = true ∧
      m.before.peers.contains (hex sampleUuid) = true := by decide +kernel
  obtain ⟨m, hm, hc, hk⟩ := hcheck
  have hreap : m.input = .reap := by
    revert hc
    unfold Node.Moment.watched
    cases m.input <;> simp
  exact ⟨m, hm, hreap, hk, hspares m hm hreap _ hk⟩

end Loop

end Zre
