import Zre.Lib.Mailbox
import Zre.Collision
import Zre.Proofs.RoundTrip
import Zre.Proofs.BeaconFormat
import Zre.Proofs.Record
import Zre.Proofs.Reelection

/-!
# Proofs: the events that the application gets

The event queue is a bounded mailbox that the acts fill and the application empties. An event that gets in
is handed out before the queue is empty again, whatever happens in between, and an event gets in exactly
when there is room.
-/

namespace Zre

open Fallible

namespace Node

/-! ## The queue as a mailbox -/

/-- The events that the application gets in an act. -/
def taken (n : Node) : Act → List Event
  | .input .recv => n.queue.take 1
  | _ => []

/-- A run from `m` in which the application gets the events `l`. A node that has stopped only hands out
what is in its queue. -/
inductive Takes (m : Node) : List Event → Node → Prop where
  | refl : Takes m [] m
  | act {l : List Event} {n n' : Node} (env : Env) (a : Act) (h : Takes m l n) (ha : n.Enabled a)
      (hlive : n.running = true ∨ a = .input .recv) (hact : n.act env a = .ok n') :
      Takes m (l ++ n.taken a) n'

/-- The event `e` got into the queue after `n`, and the application gets it before the queue is empty
again, whatever it does and however the run goes on. -/
structure Signalled (n n' : Node) (e : Event) : Prop where
  queued : n.queue ++ [e] <+: n'.queue
  delivered : ∀ l m, Takes n' l m → m.queue = [] → n.queue ++ [e] <+: l

theorem fill_eq_offers (q l : List Event) : fill q l = Mailbox.offers queueSize q l := rfl

section Signals

variable {n n' m : Node} {env : Env} {a : Act} {k : Str} {r : Ref}
  {q l : List Event} {e : Event}

theorem taken_of_ne (h : a ≠ .input .recv) : n.taken a = [] := by
  cases a with
  | input input =>
    cases input with
    | recv => exact absurd rfl h
    | _ => rfl
  | _ => rfl

/-- An act that is not `recv` emits events. -/
theorem stir_emits (hn : n.Named) (ha : a ≠ .input .recv) (h : Stir env n a n') :
    ∃ l, n'.events = n.events ++ l ∧ n'.queue = Mailbox.offers queueSize n.queue l := by
  have hemits : ∀ {P : Event → Prop}, Emits P n n' →
      ∃ l, n'.events = n.events ++ l ∧ n'.queue = Mailbox.offers queueSize n.queue l :=
    fun ⟨l, he, hq, _⟩ => ⟨l, he, hq.trans (fill_eq_offers _ l)⟩
  rcases act_campaign h with hc | hr
  · exact hemits (hc.emits hn)
  · cases hr with
    | join g _ h =>
      obtain ⟨l, he, hq, -⟩ := h.emits
      rw [requireGroup_rest] at he hq
      exact ⟨l, he, hq⟩
    | leave g _ h =>
      obtain ⟨l, he, hq, -⟩ := h.emits
      exact ⟨l, he, hq⟩
    | contest g _ h =>
      refine hemits (P := fun _ => True) (Emits.of_eq ?_ ?_)
      all_goals
        rw [h]
        unfold setContestInGroup
        simp only []
        split <;> rfl
    | recv hrecv _ => exact absurd hrecv ha

/-- An act puts events into the queue, or it is the one that takes from it. -/
theorem act_uses (hv : Visits (fun _ _ _ => True) n) (ha : n.Enabled a) (hact : n.act env a = .ok n')
    (h : Mailbox.Use queueSize q l n.queue) : Mailbox.Use queueSize q (l ++ n.taken a) n'.queue := by
  by_cases hrecv : a = .input .recv
  · subst hrecv
    cases hact
    exact h.take
  · obtain ⟨l', -, hq⟩ := stir_emits hv.named hrecv (act_stirs env hv.tables ha n' hact)
    rw [taken_of_ne hrecv, List.append_nil, hq]
    exact h.put l'

/-- In a run the queue is used as a mailbox. -/
theorem Takes.use (h : Takes m l n) (hm : m.running = false ∨ Visits (fun _ _ _ => True) m) :
    (n.running = false ∨ Visits (fun _ _ _ => True) n) ∧ Mailbox.Use queueSize m.queue l n.queue := by
  induction h with
  | refl => exact ⟨hm, .idle _⟩
  | @act l n n' env a h ha hlive hact ih =>
    obtain ⟨hn, hu⟩ := ih
    rcases hn with hstop | hv
    · have hrecv : a = .input .recv := hlive.resolve_left (by simp [hstop])
      subst hrecv
      cases hact
      exact ⟨Or.inl hstop, hu.take⟩
    · exact ⟨Or.inr (.act env a hv ha trivial hact), act_uses hv ha hact hu⟩

/-- What is in the queue is handed out before the queue is empty. -/
theorem Takes.drained (h : Takes m l n) (hm : m.running = false ∨ Visits (fun _ _ _ => True) m)
    (hempty : n.queue = []) : m.queue <+: l := by
  have hu := (h.use hm).2
  rw [hempty] at hu
  exact hu.drained

/-- The first event of an act reaches the application exactly when there is room for it. -/
theorem signalled_iff (hn' : n'.running = false ∨ Visits (fun _ _ _ => True) n')
    (hq : n'.queue = Mailbox.offers queueSize n.queue (e :: l)) :
    n.Signalled n' e ↔ n.queue.length < queueSize := by
  constructor
  · intro h
    have hqueued := h.queued
    rw [hq] at hqueued
    exact Mailbox.offers_cons_iff.1 hqueued
  · intro hroom
    have hqueued : n.queue ++ [e] <+: n'.queue := by
      rw [hq]
      exact Mailbox.offers_cons_iff.2 hroom
    exact ⟨hqueued, fun _ _ hrun hempty => hqueued.trans (hrun.drained hn' hempty)⟩

/-! ## Removals and collisions -/

theorem handleJoin_peers (env : Env) (n : Node) (k : Str) (r : Ref) (g : Bytes) :
    Ensures (n.handleJoin env k r g) fun n' => n'.peers = n.peers := by
  unfold handleJoin
  split
  · exact Ensures.ok rfl
  · refine (talk_startElection env _ g).mono fun n' h => h.peers.trans ?_
    show (requireGroup _ g).peers = n.peers
    rw [requireGroup_rest]
    rfl

theorem handleLeave_peers (env : Env) (n : Node) (k : Str) (r : Ref) (g : Bytes) :
    Ensures (n.handleLeave env k r g) fun n' => n'.peers = n.peers := by
  by_cases hg : g = []
  · unfold handleLeave
    rw [if_pos hg]
    exact Ensures.ok rfl
  · rw [handleLeave_eq env n k r hg]
    exact (talk_restartElectionIfNeeded env _ g).mono fun _ h => h.peers.trans (left_rest n k r g).1

/-- A peer is only given up by a departure. -/
theorem stir_removes (h : Stir env n a n') (hk : n.peers.get k = some r) (hgone : n'.peers.get k = none) :
    ∃ n0, Prelude n n0 ∧
      (n0.forgotten k r (n.gone env r)).restartElections env (n.gone env r) = .ok n' := by
  have hstay : n'.peers = n.peers → False := fun h => by
    rw [h, hk] at hgone
    cases hgone
  have hkeep : Aside n n' → False := fun h => by
    rw [h.peers k r hk] at hgone
    cases hgone
  cases h with
  | aside h => exact (hkeep h).elim
  | hello j s h epStr helloReply n0 h0 hj hs =>
    have hp := (enterPeer_record env n0 j s h epStr helloReply n' hs).1
    rw [hp, h0.peers k r hk] at hgone
    cases hgone
  | depart j s n0 hd h0 hs =>
    have hp : n'.peers = n.peers.pop j := (restartElections_peers env _ _ n' hs).trans
      (congrArg (Dict.pop · j) h0.peers)
    by_cases hj : j = k
    · subst hj
      cases hk.symm.trans hd.1
      exact ⟨n0, h0, hs⟩
    · rw [hp, Dict.get_pop, if_neg hj, hk] at hgone
      cases hgone
  | join j s g n0 hj h0 hs => exact (hstay ((handleJoin_peers env n0 j s g n' hs).trans h0.peers)).elim
  | leave j s g n0 hl h0 hs => exact (hstay ((handleLeave_peers env n0 j s g n' hs).trans h0.peers)).elim
  | elect j s g id n0 he h0 hs =>
    exact (hstay ((talk_handleElect env n0 s g id n' hs).peers.trans h0.peers)).elim
  | leader j s g id n0 hl h0 hs =>
    exact (hstay ((talk_handleLeader env n0 g id n' hs).peers.trans h0.peers)).elim
  | maintain ha hs => exact (hstay (talk_maintainElections env n n' hs).peers).elim
  | joinGroup g ha hs =>
    rcases joinGroup_aside env n g.raw n' hs with rfl | h
    · exact (hstay rfl).elim
    · have hreq : ((n.owning (n.ownGroups ++ [g.raw])).requireGroup g.raw).peers = n.peers := by
        rw [requireGroup_rest]
        rfl
      rw [h.peers k r (by rw [hreq]; exact hk)] at hgone
      cases hgone
  | leaveGroup g ha hs =>
    rcases leaveGroup_aside env n g.raw n' hs with rfl | h
    · exact (hstay rfl).elim
    · rw [h.peers k r hk] at hgone
      cases hgone
  | contest g ha hs =>
    refine (hstay ?_).elim
    rw [hs]
    unfold setContestInGroup
    simp only []
    split <;> rfl
  | recv ha hs => exact (hstay (by rw [hs])).elim

/-- The EXIT is the first event of a departure. -/
theorem departure_queue {n0 : Node} {gs : List Bytes} (hn : n.Named) (h0 : Prelude n n0)
    (hs : (n0.forgotten k r gs).restartElections env gs = .ok n') :
    ∃ l, n'.queue = Mailbox.offers queueSize n.queue (.exit k (pname (n.obj r)) :: l) := by
  have hn0 : (n0.forgotten k r gs).Named :=
    (campaign_forgotten (G := Nowhere) (A := Nobody) n0 k r gs).named
      ((h0.aside.campaign (G := Nowhere) (A := Nobody)).named hn)
  obtain ⟨l, -, hq, -⟩ := (campaign_restartElections env _ gs n' hs).emits hn0
  have hname : pname (n0.obj r) = pname (n.obj r) := by
    unfold pname
    rw [h0.name]
  have hforgot : (n0.forgotten k r gs).queue =
      Mailbox.offer queueSize n.queue (.exit k (pname (n.obj r))) := by
    show Mailbox.offer queueSize n0.queue (.exit k (pname (n0.obj r))) = _
    rw [hname, h0.rest]
  exact ⟨l, by rw [hq, hforgot]; rfl⟩

theorem collide_queue (n : Node) (detail : Str) : (n.collide detail).running = false ∧
    (n.collide detail).queue = Mailbox.offers queueSize n.queue [.collision detail] := by
  have hloop : ∀ (rs : List Ref) (m : Node),
      (rs.foldl (fun n r => n.setObj r (n.obj r).disconnect) m).running = m.running ∧
        (rs.foldl (fun n r => n.setObj r (n.obj r).disconnect) m).queue = m.queue := by
    intro rs
    induction rs with
    | nil => exact fun _ => ⟨rfl, rfl⟩
    | cons r rs ih => exact fun m => ih (m.setObj r (m.obj r).disconnect)
  exact hloop n.peers.values ({ n with running := false }.emit (.collision detail))

/-- In every run, whenever a peer is removed, the application gets the EXIT exactly when the event queue
has room right before, and likewise for the COLLISION with which a run ends. -/
theorem Visits.signals (hv : Visits (fun _ _ _ => True) n) (ha : n.Enabled a) :
    (∀ n' k r, n.act env a = .ok n' → n.peers.get k = some r → n'.peers.get k = none →
      (n.Signalled n' (.exit k (pname (n.obj r))) ↔ n.queue.length < queueSize)) ∧
    ∀ err detail, n.act env a = .error err → n.collisionDetail err = some detail →
      (n.Signalled (n.collide detail) (.collision detail) ↔ n.queue.length < queueSize) := by
  refine ⟨fun n' k r hact hk hgone => ?_, fun err detail _ _ => ?_⟩
  · obtain ⟨n0, h0, hs⟩ := stir_removes (act_stirs env hv.tables ha n' hact) hk hgone
    obtain ⟨l, hq⟩ := departure_queue hv.named h0 hs
    exact signalled_iff (Or.inr (.act env a hv ha trivial hact)) hq
  · obtain ⟨hstop, hq⟩ := collide_queue n detail
    exact signalled_iff (Or.inl hstop) hq

end Signals

/-! ## A queue that is full -/

/-- The HELLO of the peer `00…02` on port 4002, a member of no group. -/
def sampleLoner : List Bytes :=
  [1 :: sampleUuid,
    Codec.helloBytes 1 ⟨encodeStr "tcp://10.0.0.2:4002".toList, [], 1, [0x42], Dict.empty⟩]

/-- The next message of the peer `00…02`, without a group. -/
def sampleNext (n : Node) (r : Ref) (cmd : UInt8) (extra : List Bytes) : List Bytes :=
  (1 :: sampleUuid) :: Codec.headBytes cmd (((n.obj r).wantSeq + 1) % 65536) :: extra

/-- The peer `00…02` is known and ready, and in no group. -/
structure Loner (n : Node) (r : Ref) : Prop where
  running : n.running = true
  known : n.peers.get (hex sampleUuid) = some r
  ready : (n.obj r).ready = true
  groups : (n.obj r).groups = []

section Loner

variable {n m : Node} {r : Ref} {l : List Event}

theorem Loner.receives (h : n.Loner r) (cmd : UInt8) (h1 : cmd ≠ Cmd.hello)
    (h2 : ¬ (cmd = Cmd.shout ∨ cmd = Cmd.join ∨ cmd = Cmd.leave))
    (h3 : ¬ (cmd = Cmd.elect ∨ cmd = Cmd.leader)) (extra : List Bytes) :
    ∃ msg, n.Receives (.input (.peerMsg (n.sampleNext r cmd extra))) (hex sampleUuid) r msg ∧
      msg.cmd = cmd :=
  ⟨_, ⟨_, sampleUuid, extra, rfl, rfl,
    ⟨_, _, rfl, by decide, Codec.decode_bare (Nat.mod_lt _ (by decide)) ⟨h1, h2, h3⟩⟩, h.known, h.ready⟩, rfl⟩

theorem peerMsg_enabled (frames : List Bytes) : n.Enabled (.input (.peerMsg frames)) :=
  show Input.peerMsg frames ≠ .reap from nofun

/-- A WHISPER of the loner goes to the queue. -/
theorem Loner.whispers (h : n.Loner r) (env : Env) : ∃ n',
    n.act env (.input (.peerMsg (n.sampleNext r Cmd.whisper [[0x21]]))) = .ok n' ∧ n'.Loner r ∧
      (n.queue.length < queueSize → n'.queue.length = n.queue.length + 1) := by
  obtain ⟨msg, hr, hcmd⟩ := h.receives Cmd.whisper (by decide) (by decide) (by decide) [[0x21]]
  obtain ⟨extra, hact⟩ := act_receives env hr (by rw [hcmd]; decide)
  have h0 := prelude_arrive env n (hex sampleUuid) r msg
  have hdispatch : ∃ e, (n.arrive env (hex sampleUuid) r msg).dispatch env (hex sampleUuid) r msg extra =
      .ok ((n.arrive env (hex sampleUuid) r msg).emit e) := by
    unfold dispatch
    rw [hcmd, if_pos rfl]
    exact ⟨_, rfl⟩
  obtain ⟨e, he⟩ := hdispatch
  refine ⟨_, hact.trans he, ⟨?_, ?_, ?_, ?_⟩, fun hroom => ?_⟩
  · show (n.arrive env (hex sampleUuid) r msg).running = true
    rw [h0.rest]
    exact h.running
  · exact h0.peers ▸ h.known
  · exact (h0.keeps r).ready.trans h.ready
  · exact (h0.keeps r).groups.trans h.groups
  · have hq : (n.arrive env (hex sampleUuid) r msg).queue = n.queue := by rw [h0.rest]
    show (Mailbox.offer queueSize (n.arrive env (hex sampleUuid) r msg).queue e).length = _
    rw [hq, Mailbox.offer_of_lt hroom, List.length_append]
    rfl

/-- The loner whispers until the queue is full. -/
theorem Loner.fills (room : Nat) (h : Takes m l n) (hn : n.Loner r) (hroom : n.queue.length + room = queueSize) :
    ∃ n', Takes m l n' ∧ n'.Loner r ∧ n'.queue.length = queueSize := by
  induction room generalizing n with
  | zero => exact ⟨n, h, hn, hroom⟩
  | succ room ih =>
    obtain ⟨n', hact, hn', hlen⟩ := hn.whispers (Env.calm 0)
    have hrun := h.act (Env.calm 0) _ (peerMsg_enabled _) (Or.inl hn.running) hact
    rw [show n.taken (.input (.peerMsg _)) = [] from rfl, List.append_nil] at hrun
    refine ih hrun hn' ?_
    rw [hlen (by omega)]
    omega

/-- The loner says GOODBYE. -/
theorem Loner.leaves (h : n.Loner r) (ht : Tables n) (env : Env) : ∃ n',
    n.act env (.input (.peerMsg (n.sampleNext r Cmd.goodbye []))) = .ok n' ∧
      n'.peers.get (hex sampleUuid) = none := by
  obtain ⟨msg, hr, hcmd⟩ := h.receives Cmd.goodbye (by decide) (by decide) (by decide) []
  have hd : n.Departs env _ _ r := ⟨h.known, Or.inl ⟨msg, hr, hcmd⟩⟩
  obtain ⟨n0, -, hact⟩ := act_departs ht hd
  have hgone : n.gone env r = [] := by
    unfold gone
    rw [h.groups]
    exact (env.order_perm []).eq_nil
  rw [hgone] at hact
  exact ⟨_, hact, Dict.get_pop_self n0.peers (hex sampleUuid)⟩

/-- The application takes the one event there is and reads no further; the loner whispers until the queue
is full and says GOODBYE: its EXIT is lost. -/
theorem Loner.unheard (hm : Visits (fun _ _ _ => True) m) (h : Takes m l n) (hn : n.Loner r)
    (hempty : n.queue.tail = []) : ∃ n1 n' a, Takes m (l ++ n.queue.take 1) n1 ∧ n1.running = true ∧
      n1.Enabled a ∧ n1.act (Env.calm 0) a = .ok n' ∧ n1.peers.get (hex sampleUuid) = some r ∧
      n'.peers.get (hex sampleUuid) = none ∧
      ¬ n1.Signalled n' (.exit (hex sampleUuid) (pname (n1.obj r))) := by
  have htook : Takes m (l ++ n.queue.take 1) { n with queue := n.queue.tail } :=
    h.act (Env.calm 0) (.input .recv) (fun h => nomatch h) (Or.inr rfl) rfl
  obtain ⟨n1, hrun, hn1, hfull⟩ := Loner.fills queueSize htook (r := r)
    ⟨hn.running, hn.known, hn.ready, hn.groups⟩ (by
      show n.queue.tail.length + queueSize = queueSize
      rw [hempty, List.length_nil, Nat.zero_add])
  have hv := (hrun.use (Or.inr hm)).1.resolve_left (by simp [hn1.running])
  obtain ⟨n', hact, hgone⟩ := hn1.leaves hv.tables (Env.calm 0)
  refine ⟨n1, n', _, hrun, hn1.running, peerMsg_enabled _, hact, hn1.known, hgone, fun hsig => ?_⟩
  obtain ⟨n0, h0, hs⟩ := stir_removes (act_stirs (Env.calm 0) hv.tables (peerMsg_enabled _) n' hact)
    hn1.known hgone
  obtain ⟨l', hq⟩ := departure_queue hv.named h0 hs
  have hroom := (signalled_iff (Or.inr (hv.act (Env.calm 0) _ (peerMsg_enabled _) trivial hact)) hq).1 hsig
  omega

end Loner

/-- The node `sampleA`, after the HELLO of the loner. -/
def sampleMet : Node := sampleA.after (Env.calm 0) (.peerMsg sampleLoner)

theorem sampleMet_act : sampleA.act (Env.calm 0) (.input (.peerMsg sampleLoner)) = .ok sampleMet :=
  act_after (.peerMsg sampleLoner) (by decide +kernel)

theorem sampleMet_loner : sampleMet.Loner 0 :=
  ⟨by decide +kernel, by decide +kernel, by decide +kernel, by decide +kernel⟩

theorem sampleMet_visits : Visits (fun _ _ _ => True) sampleMet := by
  have hv : Visits (fun _ _ _ => True) sampleA := .init _
  exact hv.act (Env.calm 0) _ (peerMsg_enabled _) trivial sampleMet_act

/-- Another node with the uuid of `sampleA` sends a beacon from port 4999. -/
def sampleClash : Bytes :=
  beaconMagic ++ [beaconVersionV1] ++ sampleMet.cfg.peerId ++ portBytes 4999

/-- The loner says GOODBYE, and the application gets the EXIT; a clash, and it gets the COLLISION. -/
theorem signals_sampleMet :
    (∃ n', sampleMet.act (Env.calm 0) (.input (.peerMsg (sampleMet.sampleNext 0 Cmd.goodbye []))) = .ok n' ∧
      sampleMet.Signalled n' (.exit (hex sampleUuid) (pname (sampleMet.obj 0)))) ∧
    ∃ err detail, sampleMet.act (Env.calm 0) (.input (.beacon sampleClash "10.0.0.3".toList)) = .error err ∧
      sampleMet.collisionDetail err = some detail ∧
      sampleMet.Signalled (sampleMet.collide detail) (.collision detail) := by
  have hroom : sampleMet.queue.length < queueSize := by decide +kernel
  constructor
  · obtain ⟨n', hact, hgone⟩ := sampleMet_loner.leaves sampleMet_visits.tables (Env.calm 0)
    exact ⟨n', hact, ((sampleMet_visits.signals (peerMsg_enabled _)).1 n' _ 0 hact sampleMet_loner.known
      hgone).2 hroom⟩
  · have hact : sampleMet.act (Env.calm 0) (.input (.beacon sampleClash "10.0.0.3".toList)) =
        .error (.uuidCollisionBeacon "10.0.0.3".toList 4999) :=
      eq_error_of_raised (by decide +kernel)
    have ha : sampleMet.Enabled (.input (.beacon sampleClash "10.0.0.3".toList)) := fun h => nomatch h
    exact ⟨_, _, hact, rfl, ((sampleMet_visits.signals ha).2 _ _ hact rfl).2 hroom⟩

/-- The application gets the ENTER of the loner and then reads no further; a thousand WHISPERs later
the loner says GOODBYE, and its EXIT is lost. -/
theorem not_signals :
    ¬ ∀ (cfg : Config) (l : List Event) (n n' : Node) (env : Env) (a : Act) (k : Str) (r : Ref),
      Takes (Node.init cfg) l n → (∃ name addr, Event.enter k name addr ∈ l) → n.running = true →
      n.Enabled a → n.act env a = .ok n' → n.peers.get k = some r → n'.peers.get k = none →
      n.Signalled n' (.exit k (pname (n.obj r))) := by
  intro hall
  have hmet : Takes sampleA [] sampleMet :=
    Takes.refl.act (Env.calm 0) _ (peerMsg_enabled _) (Or.inl rfl) sampleMet_act
  have henter : Event.enter (hex sampleUuid) ['B'] "tcp://10.0.0.2:4002".toList ∈
      [] ++ sampleMet.queue.take 1 := by decide +kernel
  have hv : Visits (fun _ _ _ => True) sampleA := .init _
  obtain ⟨n, n', a, hrun, hlive, ha, hact, hk, hgone, hlost⟩ :=
    Loner.unheard hv hmet sampleMet_loner (by decide +kernel)
  exact hlost (hall _ _ n n' (Env.calm 0) a _ 0 hrun ⟨_, _, henter⟩ hlive ha hact hk hgone)

end Node

end Zre
