import Zre.Proofs.Partaking
import Zre.Proofs.RoundTrip

/-!
# Proofs: elections after a departure

A member of a group departs by its LEAVE, or because it is given up. Either way one decision follows,
which looks the recorded leader up in the peer table: not in the table of the group, and not at the
node itself.
-/

namespace Zre

open Fallible

namespace Node

/-! ## The acts of a departure -/

section Departure

variable {n : Node} {env : Env} {a : Act} {k : Str} {r : Ref}

/-- The message of a ready peer is dispatched after some book-keeping. -/
theorem act_receives (env : Env) {msg : Msg} (h : n.Receives a k r msg) (hcmd : msg.cmd ≠ Cmd.hello) :
    ∃ extra, n.act env a = (n.arrive env k r msg).dispatch env k r msg extra := by
  obtain ⟨frames, uuid, extra, rfl, rfl, ⟨rid, data, rfl, hu, hd⟩, hk, hr⟩ := h
  refine ⟨extra, handlePeerMsg_traffic env hu hd (fun h hf => hcmd ?_) hk hr extra⟩
  have hfields := (Codec.decode_fields hd).2
  rw [hf] at hfields
  exact hfields.1

/-- Whoever is given up is forgotten, and then the elections of its groups are looked after. -/
theorem act_departs (ht : Tables n) (h : n.Departs env a k r) :
    ∃ n0, Prelude n n0 ∧ n.act env a =
      (n0.forgotten k r (n.gone env r)).restartElections env (n.gone env r) := by
  obtain ⟨hk, ⟨msg, hr, hcmd⟩ | ⟨data, host, uuid, rfl, rfl, hh⟩ | ⟨rfl, hexp⟩⟩ := h
  · obtain ⟨extra, hact⟩ := act_receives env hr (by rw [hcmd]; decide)
    have h0 := prelude_arrive env n k r msg
    refine ⟨_, h0, hact.trans ?_⟩
    unfold dispatch
    rw [hcmd, if_neg (by decide), if_pos rfl,
      removePeer_eq env ((h0.tables ht).key k r (by rw [h0.peers]; exact hk)), (h0.keeps r).groups]
    rfl
  · have hbeacon := handleBeacon_heard env hh host
    have hown : uuid ≠ n.cfg.peerId := by
      rintro rfl
      rw [show n.peers.get (hex n.cfg.peerId) = none from ht.foreign] at hk
      cases hk
    obtain ⟨keys, hkeys⟩ := learnBeaconKey_rest n (hex uuid) host ((0 : Nat) : Int) (n.beaconKey data)
    refine ⟨{ n with peerServerKeys := keys }, prelude_keys n keys, hbeacon.trans ?_⟩
    unfold acceptBeacon
    rw [if_neg hown]
    simp only [hkeys, if_true]
    exact beaconExit_eq env (n := { n with peerServerKeys := keys }) hk
  · refine ⟨n, Prelude.refl n, ?_⟩
    show n.reapPeer env r = _
    unfold reapPeer
    simp only []
    rw [if_pos hexp, removePeer_eq env (ht.key k r hk)]
    rfl

/-- After a LEAVE the election of the group is looked after. A LEAVE without a name is ignored. -/
theorem act_leaves (env : Env) {g : Bytes} (h : n.Leaves a k r g) (hg : g ≠ []) :
    ∃ n0, Prelude n n0 ∧ n.act env a = (n0.left k r g).restartElectionIfNeeded env g := by
  obtain ⟨msg, status, hr, hcmd, hfields⟩ := h
  obtain ⟨extra, hact⟩ := act_receives env hr (by rw [hcmd]; decide)
  refine ⟨_, prelude_arrive env n k r msg, hact.trans ?_⟩
  rw [← handleLeave_eq env _ k r hg]
  unfold dispatch
  rw [hcmd, hfields]
  simp [Cmd.leave, Cmd.whisper, Cmd.goodbye, Cmd.ping, Cmd.pingOk, Cmd.join]

end Departure

/-! ## Running an election again -/

/-- A new election of `g` was run since `n`: it is open, with the node as the candidate, or it has ended
with the node as the leader. -/
def Rerun (n n' : Node) (g : Bytes) : Prop :=
  ((∃ e, (n'.group g).election = some e ∧ e.caw = n.ownWireId) ∧ (n'.group g).leader = none) ∨
    ((n'.group g).election = none ∧ (n'.group g).leader = some (n.cfg.rt.lower n.ownWireId) ∧
      ∃ l, n'.events = n.events ++ l ∧ ∃ e ∈ l, e.LeaderOf g)

section Rerun

variable {n m m' : Node} {g : Bytes}

/-- Only the books of the group and the growth of the events matter. -/
theorem Rerun.later (h : n.Rerun m g) (he : (m'.group g).election = (m.group g).election)
    (hl : (m'.group g).leader = (m.group g).leader) (hev : ∃ l, m'.events = m.events ++ l) :
    n.Rerun m' g := by
  obtain ⟨l', hev'⟩ := hev
  rcases h with ⟨hopen, hlead⟩ | ⟨hclosed, hlead, l, hev, e, hmem, hof⟩
  · exact Or.inl ⟨by rw [he]; exact hopen, hl.trans hlead⟩
  · exact Or.inr ⟨he.trans hclosed, hl.trans hlead, l ++ l',
      by rw [hev', hev, List.append_assoc], e, List.mem_append_left _ hmem, hof⟩

/-- An election that was run since a later state was run since an earlier one. -/
theorem Rerun.earlier (h : m.Rerun m' g) (hcfg : m.cfg = n.cfg) (hev : ∃ l, m.events = n.events ++ l) :
    n.Rerun m' g := by
  obtain ⟨l', hev'⟩ := hev
  have hown : m.ownWireId = n.ownWireId := by
    unfold ownWireId wireId
    rw [hcfg]
  rcases h with ⟨⟨e, he, hcaw⟩, hlead⟩ | ⟨hclosed, hlead, l, hev, e, hmem, hof⟩
  · exact Or.inl ⟨⟨e, he, hcaw.trans hown⟩, hlead⟩
  · exact Or.inr ⟨hclosed, by rw [hlead, hcfg, hown], l' ++ l, by rw [hev, hev', List.append_assoc], e,
      List.mem_append_right _ hmem, hof⟩

theorem finishElection_rerun (hn : n.Named) (g : Bytes) : n.Rerun (n.finishElection g n.ownWireId) g := by
  have hgroup : (n.finishElection g n.ownWireId).group g =
      { n.group g with leader := some (n.cfg.rt.lower n.ownWireId), election := none } :=
    group_setGroup n g _
  refine Or.inr ⟨by rw [hgroup], by rw [hgroup], [_], rfl, _, List.mem_singleton_self _, ?_⟩
  rw [group_setGroup]
  exact ⟨_, _, congrArg _ (congrArg bdec (hn.group g))⟩

/-- Starting an election of a contested group that the node is in. -/
theorem startElection_rerun (env : Env) (hn : n.Named) (hown : g ∈ n.ownGroups)
    (hc : (n.group g).contest = true) : Ensures (n.startElection env g) (n.Rerun · g) := by
  have h0 : Campaign (At g True) (fun _ _ => True) n (n.requireGroup g) := campaign_requireGroup n g
  have hev : (n.requireGroup g).events = n.events := by rw [requireGroup_rest]
  unfold startElection
  simp only []
  rw [if_neg (by rw [h0.contest g hc, h0.fixed.2.1]; simp [hown])]
  have h1 := h0.trans (campaign_setBooks (n.requireGroup g) ⟨rfl, trivial⟩
    (some (newElection (n.requireGroup g).ownWireId none env.now)) none fun _ _ => Or.inr trivial)
  split
  · -- nobody to exchange waves with
    exact Ensures.ok ((finishElection_rerun (h1.named hn) g).earlier h1.fixed.1
      ⟨[], by rw [List.append_nil]; exact hev⟩)
  · refine (sendElections_groups env _ _ g _ _).mono fun m hm => Or.inl ?_
    have hgroup : m.group g = { (n.requireGroup g).group g with
        election := some (newElection (n.requireGroup g).ownWireId none env.now), leader := none } := by
      unfold Node.group at hm ⊢
      rw [hm]
      exact group_setGroup (n.requireGroup g) g _
    rw [hgroup]
    refine ⟨⟨_, rfl, ?_⟩, rfl⟩
    unfold newElection ownWireId wireId
    rw [h0.fixed.1]

theorem restart_contested (env : Env) (hc : (n.group g).contest = true) :
    n.restartElectionIfNeeded env g =
      if n.leaderGone (n.group g).leader then n.startElection env g
      else if (n.group g).election.isSome ∧ n.electionNeighbors g = [] then
        .ok (n.finishElection g n.ownWireId)
      else if (n.group g).election.isSome ∧ (n.group g).leader.isSome then .ok (n.setElection g none)
      else .ok n := by
  unfold restartElectionIfNeeded
  cases hg : n.groups.get g with
  | none =>
    have hnew : n.group g = Group.new g := by unfold Node.group; rw [hg]; rfl
    rw [hnew] at hc
    cases hc
  | some group =>
    have hgroup : n.group g = group := by unfold Node.group; rw [hg]; rfl
    simp only []
    rw [← hgroup, hc]
    rfl

/-- When the recorded leader is gone, the election of the group is run again. -/
theorem restart_rerun (env : Env) (hn : n.Named) (hown : g ∈ n.ownGroups)
    (hc : (n.group g).contest = true) (hgone : n.leaderGone (n.group g).leader = true) :
    Ensures (n.restartElectionIfNeeded env g) (n.Rerun · g) := by
  rw [restart_contested env hc, if_pos hgone]
  exact startElection_rerun env hn hown hc

/-- An election that was run again stays so when the group is looked at once more. -/
theorem Rerun.restart (env : Env) (h : n.Rerun m g) (hm : m.Named) (hcfg : m.cfg = n.cfg)
    (hown : g ∈ m.ownGroups) (hc : (m.group g).contest = true) (hev : ∃ l, m.events = n.events ++ l) :
    Ensures (m.restartElectionIfNeeded env g) (n.Rerun · g) := by
  rw [restart_contested env hc]
  split
  · exact (startElection_rerun env hm hown hc).mono fun _ h' => h'.earlier hcfg hev
  · split
    · exact Ensures.ok ((finishElection_rerun hm g).earlier hcfg hev)
    · split
      · -- the election would have to be open with a leader recorded
        rename_i hboth
        rcases h with ⟨-, hlead⟩ | ⟨hclosed, -⟩
        · rw [hlead] at hboth
          cases hboth.2
        · rw [hclosed] at hboth
          cases hboth.1
      · exact Ensures.ok h

/-- The loop over the groups of a departed peer, seen from the group `g` of the node: its election has
not been touched so far, or was run again. -/
structure Watch (n m : Node) (g : Bytes) : Prop where
  campaign : Campaign (fun _ => True) (fun _ _ => True) n m
  peers : m.peers = n.peers
  books : ((m.group g).election = (n.group g).election ∧ (m.group g).leader = (n.group g).leader) ∨
    n.Rerun m g

theorem watch_step (env : Env) (hn : n.Named) (hown : g ∈ n.ownGroups) (hc : (n.group g).contest = true)
    (hgone : n.leaderGone (n.group g).leader = true) (h : n.Watch m g) (x : Bytes) :
    Ensures (m.restartElectionIfNeeded env x) fun m' =>
      n.Watch m' g ∧ (x = g ∨ n.Rerun m g → n.Rerun m' g) := by
  intro m' hm'
  have hm := h.campaign.named hn
  have hstep := campaign_restartElectionIfNeeded env m x m' hm'
  have hlater : ∃ l, m.events = n.events ++ l := by
    obtain ⟨l, hl, -⟩ := h.campaign.emits hn
    exact ⟨l, hl⟩
  have hcampaign : Campaign (fun _ => True) (fun _ _ => True) n m' :=
    h.campaign.trans (hstep.mono (fun _ _ => trivial) fun _ _ _ => trivial)
  have hpeers : m'.peers = n.peers := (talk_restartElectionIfNeeded env m x m' hm').peers.trans h.peers
  by_cases hx : x = g
  · subst hx
    have hrerun : n.Rerun m' x := by
      rcases h.books with ⟨-, hlead⟩ | hrerun
      · have hgone' : m.leaderGone (m.group x).leader = true := by
          rw [hlead]
          unfold leaderGone at hgone ⊢
          rwa [h.peers]
        exact (restart_rerun env hm (h.campaign.fixed.2.1 ▸ hown) (h.campaign.contest x hc) hgone' m'
          hm').earlier h.campaign.fixed.1 hlater
      · exact hrerun.restart env hm h.campaign.fixed.1 (h.campaign.fixed.2.1 ▸ hown)
          (h.campaign.contest x hc) hlater m' hm'
    exact ⟨⟨hcampaign, hpeers, Or.inr hrerun⟩, fun _ => hrerun⟩
  · obtain ⟨he, hlead⟩ := hstep.books g fun h => hx h.1.symm
    have hev : ∃ l, m'.events = m.events ++ l := by
      obtain ⟨l, hl, -⟩ := hstep.emits hm
      exact ⟨l, hl⟩
    have hkeep : n.Rerun m g → n.Rerun m' g := fun hr => hr.later he hlead hev
    refine ⟨⟨hcampaign, hpeers, h.books.imp (fun hb => ⟨he.trans hb.1, hlead.trans hb.2⟩) hkeep⟩, ?_⟩
    exact fun hor => hkeep (hor.resolve_left hx)

/-- The leader of `g` has departed: once the groups were looked at, the election was run again. -/
theorem restarts_rerun (env : Env) (hn : n.Named) (hown : g ∈ n.ownGroups)
    (hc : (n.group g).contest = true) (hgone : n.leaderGone (n.group g).leader = true) {gs : List Bytes}
    (hg : g ∈ gs) : Ensures (n.restartElections env gs) (n.Rerun · g) :=
  Ensures.foldlM_reach (I := (n.Watch · g)) hg ⟨Campaign.refl n, rfl, Or.inl ⟨rfl, rfl⟩⟩
    (fun _ x _ h => (watch_step env hn hown hc hgone h x).mono fun _ h' => h'.1)
    (fun _ h => (watch_step env hn hown hc hgone h g).mono fun _ h' => h'.2 (Or.inl rfl))
    fun _ x _ h hr => (watch_step env hn hown hc hgone h x).mono fun _ h' => h'.2 (Or.inr hr)

end Rerun

/-! ## Exactly when the leader is gone -/

/-- The act is the departure of the member `k` from `g`: its LEAVE, or it is given up. -/
def Parts (n : Node) (env : Env) (a : Act) (k : Str) (r : Ref) (g : Bytes) : Prop :=
  n.member g k = some r ∧ ((n.Leaves a k r g ∧ g ≠ []) ∨ n.Departs env a k r)

/-- Nothing has happened in the election of `g`: none is open, and what was sent and told about
elections is about other groups. -/
structure Quiet (n n' : Node) (g : Bytes) : Prop where
  closed : (n'.group g).election = none
  frames : ∃ l, n'.outbox = n.outbox ++ l ∧ ∀ h ∈ l, h.IsElection → ∃ x, x ≠ g ∧ h.ElectionOf x
  leaders : ∃ l, n'.events = n.events ++ l ∧ ∀ e ∈ l, e.IsLeader → ∃ x, x ≠ g ∧ e.LeaderOf x

/-- The departure of `k` from `g`, whose leader was `leader`, has led to a new election exactly when it
had to. -/
structure Reelects (n n' : Node) (g : Bytes) (k leader : Str) : Prop where
  anew : k = leader → (n'.group g).leader ≠ some leader ∧
    ((n'.group g).election.isSome = true ∨ (n'.group g).leader.isSome = true)
  quiet : k ≠ leader → leader = n.cfg.peerIdHex ∨ (∃ s, n.member g leader = some s) → n.Quiet n' g

section Reelects

variable {P : Node → Env → Act → Prop} {G : Bytes → Prop} {A : Bytes → Str → Prop} {n n' : Node}
  {env : Env} {a : Act} {k leader : Str} {r : Ref} {g : Bytes}

theorem Campaign.quiet (h : Campaign G A n n') (hn : n.Named) (hg : ¬ G g)
    (he : (n.group g).election = none) : n.Quiet n' g := by
  obtain ⟨l, ho, hl⟩ := h.outbox
  obtain ⟨es, hev, -, hes⟩ := h.emits hn
  refine ⟨(h.books g hg).1.trans he, ⟨l, ho, fun x hx hel => ?_⟩, ⟨es, hev, fun e hx hel => ?_⟩⟩
  · obtain ⟨y, hy, hof⟩ := hl x hx hel
    exact ⟨y, fun h => hg (h ▸ hy), hof⟩
  · obtain ⟨y, hy, hof⟩ := hes e hx hel
    exact ⟨y, fun h => hg (h ▸ hy), hof⟩

/-- An election that was run again has another leader than somebody who is not the node. -/
theorem Rerun.anew (h : n.Rerun n' g) (hk : k ≠ n.cfg.peerIdHex) :
    (n'.group g).leader ≠ some k ∧
      ((n'.group g).election.isSome = true ∨ (n'.group g).leader.isSome = true) := by
  rcases h with ⟨⟨e, he, -⟩, hlead⟩ | ⟨-, hlead, -⟩
  · exact ⟨by rw [hlead]; simp, Or.inl (by rw [he]; rfl)⟩
  · rw [lower_ownWireId] at hlead
    exact ⟨by rw [hlead]; simpa using hk.symm, Or.inr (by rw [hlead]; rfl)⟩

theorem restartElections_singleton (env : Env) (n : Node) (g : Bytes) :
    n.restartElections env [g] = n.restartElectionIfNeeded env g := by
  unfold restartElections
  rw [List.foldlM_cons]
  cases n.restartElectionIfNeeded env g <;> rfl

theorem leaderGone_some (n : Node) (id : Str) : n.leaderGone (some id) = !(n.peers.get id).isSome := rfl

/-- A LEAVE is not the end of its sender. -/
theorem Leaves.not_departs (hl : n.Leaves a k r g) : ¬ n.Departs env a k r := by
  obtain ⟨msg, status, ⟨frames, uuid, extra, rfl, rfl, ⟨rid, data, rfl, -, hd⟩, -⟩, hcmd, -⟩ := hl
  rintro ⟨-, ⟨msg', ⟨frames', uuid', extra', ha, -, ⟨rid', data', hf, -, hd'⟩, -⟩, hcmd'⟩ |
    ⟨data', host, uuid', ha, -⟩ | ⟨ha, -⟩⟩
  · cases ha
    cases hf
    rw [hd] at hd'
    cases hd'
    rw [hcmd] at hcmd'
    exact absurd hcmd' (by decide)
  · cases ha
  · cases ha

/-- After a departure the groups that were left are looked at, in a state that differs from the one
before only in the tables. -/
theorem act_parts (ht : Tables n) (hp : n.Parts env a k r g) :
    ∃ m gs, Campaign Nowhere Nobody n m ∧ g ∈ gs ∧ n.act env a = m.restartElections env gs ∧
      ((n.Leaves a k r g ∧ m.peers = n.peers) ∨ (n.Departs env a k r ∧ m.peers = n.peers.pop k)) := by
  obtain ⟨hm, ⟨hl, hg⟩ | hd⟩ := hp
  · obtain ⟨n0, h0, hrun⟩ := act_leaves env hl hg
    refine ⟨n0.left k r g, [g], h0.aside.campaign.trans (campaign_left n0 k r g), by simp,
      hrun.trans (restartElections_singleton env _ g).symm,
      Or.inl ⟨hl, (left_rest n0 k r g).1.trans h0.peers⟩⟩
  · obtain ⟨n0, h0, hrun⟩ := act_departs ht hd
    refine ⟨_, _, h0.aside.campaign.trans (campaign_forgotten n0 k r (n.gone env r)), ?_, hrun,
      Or.inr ⟨hd, congrArg (Dict.pop · k) h0.peers⟩⟩
    exact (env.order_perm _).mem_iff.2 ((ht.member g k r).1 hm).2

section

variable {m : Node} {gs : List Bytes} (hn : n.Named) (h : Campaign Nowhere Nobody n m)
  (hl : (n.group g).leader = some leader) (hact : m.restartElections env gs = .ok n')
include hn h hl hact

/-- The recorded leader is not in the peer table: the election is run again. -/
theorem rerun_of_gone (hown : g ∈ n.ownGroups) (hc : (n.group g).contest = true) (hg : g ∈ gs)
    (hgone : m.peers.get leader = none) : n.Rerun n' g := by
  obtain ⟨l, hev, -⟩ := h.emits hn
  refine (restarts_rerun env (h.named hn) (h.fixed.2.1 ▸ hown) (h.contest g hc) ?_ hg n' hact).earlier
    h.fixed.1 ⟨l, hev⟩
  rw [(h.books g id).2, hl, leaderGone_some, hgone]
  rfl

/-- The recorded leader is in the peer table: nothing happens to a closed election. -/
theorem quiet_of_known (he : (n.group g).election = none) {s : Ref}
    (hs : m.peers.get leader = some s) : n.Quiet n' g ∧ (n'.group g).leader = some leader := by
  have hrest : ¬ m.Restless g := by
    rintro (hopen | ⟨-, hgone⟩)
    · rw [(h.books g id).1, he] at hopen
      cases hopen
    · rw [(h.books g id).2, hl, leaderGone_some, hs] at hgone
      cases hgone
  have hall : Campaign (fun x => x ∈ gs ∧ m.Restless x) m.Own n n' :=
    h.of_nobody.trans (campaign_restartElections env m gs n' hact)
  exact ⟨hall.quiet hn (fun hg => hrest hg.2) he, (hall.books g fun hg => hrest hg.2).2.trans hl⟩

end

/-- In a contested group of the node with a recorded leader and no open election, the departure of a
member leads to a new election exactly when it has to, if the node is not the leader itself and the
leader does not depart by a LEAVE. A node that leads runs an election again after every departure, and
a LEAVE of the leader leaves it the leader. -/
theorem Visits.reelects (hn : Visits P n) (hown : g ∈ n.ownGroups) (hc : (n.group g).contest = true)
    (hl : (n.group g).leader = some leader) (he : (n.group g).election = none)
    (hp : n.Parts env a k r g) (hact : n.act env a = .ok n') :
    (leader ≠ n.cfg.peerIdHex → (k = leader → ¬ n.Leaves a k r g) → n.Reelects n' g k leader) ∧
      (leader = n.cfg.peerIdHex → n.Rerun n' g) ∧
      (k = leader → n.Leaves a k r g → (n'.group g).leader = some leader) := by
  have ht := hn.tables
  obtain ⟨hk, -⟩ := (ht.member g k r).1 hp.1
  have hkown : k ≠ n.cfg.peerIdHex := by
    rintro rfl
    rw [ht.foreign] at hk
    cases hk
  obtain ⟨m, gs, hcamp, hg, hrun, hpeers⟩ := act_parts ht hp
  rw [hrun] at hact
  refine ⟨fun hnot hroute => ⟨fun hkl => ?_, fun hkl hor => ?_⟩, fun hself => ?_, fun hkl hleaves => ?_⟩
  · -- the leader was given up
    have hpop : m.peers = n.peers.pop k := (hpeers.resolve_left fun h => hroute hkl h.1).2
    refine hkl ▸ Rerun.anew (rerun_of_gone hn.named hcamp hl hact hown hc hg ?_) hkown
    rw [hpop, hkl, Dict.get_pop_self]
  · obtain ⟨s, hs⟩ := hor.resolve_left hnot
    refine (quiet_of_known hn.named hcamp hl hact he (s := s) ?_).1
    have hs' := ((ht.member g leader s).1 hs).1
    rcases hpeers with ⟨-, hp⟩ | ⟨-, hp⟩ <;> rw [hp]
    · exact hs'
    · rw [Dict.get_pop, if_neg hkl, hs']
  · -- the node is in no peer table
    refine rerun_of_gone hn.named hcamp hl hact hown hc hg ?_
    rcases hpeers with ⟨-, hp⟩ | ⟨-, hp⟩ <;> rw [hp, hself]
    · exact ht.foreign
    · rw [Dict.get_pop, if_neg hkown, ht.foreign]
  · refine (quiet_of_known hn.named hcamp hl hact he (s := r) ?_).2
    have hsame : m.peers = n.peers := (hpeers.resolve_right fun h => hleaves.not_departs h.1).2
    rw [hsame, ← hkl, hk]

end Reelects

/-! ## A leader that goes -/

/-- A LEADER for the group `g` in which the peer `00…02` announces itself. -/
def sampleLeader : List Bytes :=
  [1 :: sampleUuid,
    Codec.headBytes Cmd.leader 3 ++ Codec.shortBytes [0x67] ++ Codec.shortBytes (encodeStr (hex sampleUuid))]

/-- The node `00…03`. -/
def sampleC : Node := Node.init (Config.plain (List.replicate 15 0 ++ [3]) rfl ⟨[0x43], by decide⟩ 4003)

/-- The node `00…03` in the group `g`, in which the peer `00…02` was elected. -/
def sampleLed : Node :=
  ((((sampleC.after (Env.calm 0) (.setContestInGroup sampleGroup)).after (Env.calm 0)
    (.command (.join sampleGroup))).after (Env.calm 0) (.peerMsg sampleHello)).after (Env.calm 0)
    (.peerMsg sampleElect)).after (Env.calm 0) (.peerMsg sampleLeader)

theorem sampleLed_visits : Visits (fun _ _ _ => True) sampleLed := by
  have h0 : Visits (fun _ _ _ => True) sampleC := .init _
  have h1 := h0.input (Env.calm 0) (.setContestInGroup sampleGroup) nofun trivial (by decide +kernel)
  have h2 := h1.input (Env.calm 0) (.command (.join sampleGroup)) nofun trivial (by decide +kernel)
  have h3 := h2.input (Env.calm 0) (.peerMsg sampleHello) nofun trivial (by decide +kernel)
  have h4 := h3.input (Env.calm 0) (.peerMsg sampleElect) nofun trivial (by decide +kernel)
  exact h4.input (Env.calm 0) (.peerMsg sampleLeader) nofun trivial (by decide +kernel)

theorem sampleLed_books : [0x67] ∈ sampleLed.ownGroups ∧ (sampleLed.group [0x67]).contest = true ∧
    (sampleLed.group [0x67]).leader = some (hex sampleUuid) ∧
    (sampleLed.group [0x67]).election = none := by
  decide +kernel

theorem sampleLed_peer : sampleLed.peers.get (hex sampleUuid) = some 0 ∧
    sampleLed.member [0x67] (hex sampleUuid) = some 0 ∧ hex sampleUuid ≠ sampleLed.cfg.peerIdHex := by
  decide +kernel

theorem Leaves.not_round {n : Node} {k : Str} {r s : Ref} {g : Bytes} : ¬ n.Leaves (.round s) k r g := by
  rintro ⟨msg, status, ⟨frames, uuid, extra, ha, -⟩, -⟩
  cases ha

/-- The leader is silent for a thousand seconds: the node leads from then on. -/
theorem reelects_sampleLed : ∃ n', sampleLed.act (Env.calm 1000000000000) (.round 0) = .ok n' ∧
    sampleLed.Reelects n' [0x67] (hex sampleUuid) (hex sampleUuid) := by
  obtain ⟨hown, hc, hl, he⟩ := sampleLed_books
  obtain ⟨hk, hm, hother⟩ := sampleLed_peer
  have hexp : (sampleLed.obj 0).expiredAt ≠ 0 ∧ (sampleLed.obj 0).expiredAt < 1000000000000 := by
    decide +kernel
  have hp : sampleLed.Parts (Env.calm 1000000000000) (.round 0) (hex sampleUuid) 0 [0x67] :=
    ⟨hm, Or.inr ⟨hk, Or.inr (Or.inr ⟨rfl, hexp⟩)⟩⟩
  cases hact : sampleLed.act (Env.calm 1000000000000) (.round 0) with
  | error e =>
    have hraised : raised (sampleLed.reapPeer (Env.calm 1000000000000) 0) = none := by decide +kernel
    rw [show sampleLed.reapPeer (Env.calm 1000000000000) 0 = .error e from hact] at hraised
    cases hraised
  | ok n' =>
    exact ⟨n', rfl, (sampleLed_visits.reelects hown hc hl he hp hact).1 hother
      fun _ => Leaves.not_round⟩

/-- The peer `00…02` leaves the group `g`. -/
def sampleLeave : List Bytes :=
  [1 :: sampleUuid, Codec.headBytes Cmd.leave 4 ++ Codec.simpleBytes (some [0x67]) (some 2)]

/-- The peer that was elected leaves the group and stays its leader. -/
theorem not_reelects :
    ¬ ∀ (n n' : Node) (env : Env) (a : Act) (k leader : Str) (r : Ref) (g : Bytes),
      Visits (fun _ _ _ => True) n → g ∈ n.ownGroups → (n.group g).contest = true →
      (n.group g).leader = some leader → (n.group g).election = none → n.Parts env a k r g →
      n.act env a = .ok n' → n.Reelects n' g k leader := by
  intro hall
  obtain ⟨hown, hc, hl, he⟩ := sampleLed_books
  obtain ⟨hk, hm, -⟩ := sampleLed_peer
  have hready : (sampleLed.obj 0).ready = true := by decide +kernel
  have hleaves : sampleLed.Leaves (.input (.peerMsg sampleLeave)) (hex sampleUuid) 0 [0x67] :=
    ⟨_, 2, ⟨sampleLeave, sampleUuid, [], rfl, rfl, ⟨_, _, rfl, by decide +kernel,
      Codec.decode_groupStatus (by decide) (Or.inr rfl) (by decide) (by decide)⟩, hk, hready⟩, rfl, rfl⟩
  have hact : sampleLed.act (Env.calm 0) (.input (.peerMsg sampleLeave)) =
      .ok (sampleLed.after (Env.calm 0) (.peerMsg sampleLeave)) :=
    act_after (.peerMsg sampleLeave) (by decide +kernel)
  have hre := hall _ _ _ _ _ _ _ _ sampleLed_visits hown hc hl he ⟨hm, Or.inl ⟨hleaves, by decide⟩⟩ hact
  have hstill : ((sampleLed.after (Env.calm 0) (.peerMsg sampleLeave)).group [0x67]).leader =
      some (hex sampleUuid) := by decide +kernel
  exact (hre.anew rfl).1 hstill

end Node

end Zre
