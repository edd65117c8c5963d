import Zre.Proofs.Hub
import Zre.Proofs.Crash

/-!
# Proofs: gossip rediscovery

A node dials what a hub announces when the tuple is new to its cache. The cache is not cleared when a
peer leaves, so a peer that is announced again is only dialled again when its tuple has changed.
-/

namespace Zre

open Fallible

namespace Node

/-- Adopting a pending dial or opening a new one files the peer, and greeting it leaves it filed. -/
theorem meetPeer_files {env : Env} {n : Node} {rhex addr : Str} {port : Int}
    (hdial : n.CanDial env rhex addr port) :
    Ensures (n.meetPeer env rhex addr port) fun n' => n'.peers.contains rhex = true := by
  have hgreet : ∀ (m : Node) (r : Ref), m.peers.get rhex = some r →
      Ensures (m.sendHello env r) fun n' => n'.peers.contains rhex = true := by
    intro m r hr n' hn'
    have htalk := talk_sendHello env m r n' hn'
    rw [htalk.rest]
    exact Dict.contains_iff.2 ⟨r, hr⟩
  unfold meetPeer
  cases ha : n.adoptPending env addr port rhex with
  | mk o n1 =>
    cases o with
    | some r =>
      obtain ⟨k, rfl, -⟩ := adoptPending_some ha
      exact hgreet _ r (adoptUnder_peers env n k r rhex)
    | none =>
      obtain ⟨rfl, -⟩ := adoptPending_none ha
      simp only []
      have hsome := (dialPeer_isSome env n1 rhex addr port).2 hdial
      cases hd : n1.dialPeer env rhex addr port with
      | mk o n2 =>
        rw [hd] at hsome
        cases o with
        | none => cases hsome
        | some r =>
          refine hgreet n2 r ?_
          unfold dialPeer at hd
          split at hd
          · cases hd
            exact Dict.get_set_self _ _ _
          · cases hd

/-- A delivered tuple of another node, with an endpoint that can be dialled, files its peer. -/
theorem gossipRequire_files {env : Env} {n : Node} (hrun : n.running = true) {uuidHex endpoint addr : Str}
    {port : Int} (hown : n.cfg.rt.lower uuidHex ≠ n.cfg.peerIdHex)
    (hs : splitEndpoint n.cfg.rt (partition '|' endpoint).1 = .ok (addr, port))
    (hplain : n.cfg.curveSecret = none) (hc : env.connect n.sockets = true) :
    Ensures (n.gossipRequire env uuidHex endpoint) fun n' =>
      n'.peers.contains (n.cfg.rt.lower uuidHex) = true := by
  obtain ⟨keys, hkeys⟩ := learnTupleKey_rest n (n.cfg.rt.lower uuidHex) endpoint
  unfold gossipRequire
  simp only [hrun, hkeys, hs, Bool.not_true, Bool.false_eq_true, if_false, if_neg hown]
  split
  · rename_i r hr
    exact Ensures.ok (Dict.contains_iff.2 ⟨r, hr⟩)
  · exact meetPeer_files ⟨hc, Or.inl hplain⟩

end Node

namespace Client

/-- What the node of a gossip client does is a step of the node. -/
theorem step_node {env : GossipEnv} {c c' : Client} {event : Client.Event}
    (h : c.step env event = .ok c') :
    c'.node = c.node ∨ ∃ input, c.node.step env.toEnv input = .ok c'.node := by
  have hnode : ∀ (x : Except PyError Node) (d : Client),
      (do return { d with node := ← x } : Except PyError Client) = .ok c' → x = .ok c'.node := by
    rintro x d hd
    obtain ⟨n', hx, hd⟩ := bind_eq_ok_iff.1 hd
    cases hd
    exact hx
  cases event with
  | unpublish key =>
    cases h
    exact Or.inl rfl
  | node input =>
    cases input with
    | reap =>
      obtain ⟨c1, hc1, h⟩ := bind_eq_ok_iff.1 h
      have hsame := (chats_maintain env c c1 hc1).1
      exact Or.inr ⟨.reap, hsame ▸ hnode _ c1 h⟩
    | _ => exact Or.inr ⟨_, hnode _ c h⟩
  | hub link body =>
    obtain ⟨m, -, h⟩ := bind_eq_ok_iff.1 h
    split at h
    · rename_i key value ttl
      split at h
      · obtain ⟨n', hn', h⟩ := bind_eq_ok_iff.1 h
        cases h
        exact Or.inr ⟨.gossip (bdec key) (bdec value), hn'⟩
      · cases h
        exact Or.inl rfl
    · exact Or.inl (chats_announce env _ link c' h).1
    · cases h
      exact Or.inl rfl

/-- The node of a gossip client is in a state that a node can reach. -/
theorem ReachableBy.node {P : Client → GossipEnv → Client.Event → Prop} {c : Client}
    (hc : ReachableBy P c) : c.node.Reachable := by
  induction hc with
  | @start c env cfg endpoint hubs hlen h =>
    have hsame : Ensures (Client.start env cfg endpoint hubs) fun d => d.node = Node.init cfg := by
      refine Ensures.foldlM rfl fun c _ _ hc => ?_
      exact (chats_announce env (c.openLink env.now) c.nextLink).mono fun _ hchat => hchat.1.trans hc
    exact hsame c h ▸ Node.Reachable.init cfg
  | step env event _ _ h ih =>
    rcases step_node h with hsame | ⟨input, hstep⟩
    · exact hsame ▸ ih
    · exact Node.Reachable.step env.toEnv input ih hstep

/-- The body is a PUBLISH about another node, with an endpoint that can be dialled in plain mode. -/
structure Offers (env : GossipEnv) (c : Client) (body key value : Bytes) : Prop where
  decoded : ∃ ttl, Zgs.decode body = .ok (some (.publish key value ttl))
  foreign : c.node.cfg.rt.lower (bdec key) ≠ c.node.cfg.peerIdHex
  endpoint : ∃ addr port,
    splitEndpoint c.node.cfg.rt (partition '|' (bdec value)).1 = .ok (addr, port)
  plain : c.node.cfg.curveSecret = none
  dials : env.connect c.node.sockets = true

/-- The peer of a key is in the peer table. -/
def Knows (c : Client) (key : Bytes) : Prop :=
  c.node.peers.contains (c.node.cfg.rt.lower (bdec key)) = true

/-- After a PUBLISH that can be dialled its peer is in the table exactly when the tuple was new to the
cache, or the peer was in the table already. -/
theorem Reachable.rediscovers_iff {c c' : Client} (hc : c.Reachable) {env : GossipEnv} {link : Nat}
    {body key value : Bytes} (ho : c.Offers env body key value)
    (h : c.receive env link body = .ok c') : c'.Knows key ↔ c.isNews key value = true ∨ c.Knows key := by
  obtain ⟨ttl, hdec⟩ := ho.decoded
  obtain ⟨addr, port, hs⟩ := ho.endpoint
  have hrun := hc.node.running
  unfold receive at h
  simp only [hdec, bind_ok] at h
  split at h
  · rename_i hnew
    obtain ⟨n', hn', h⟩ := bind_eq_ok_iff.1 h
    cases h
    have hcfg : n'.cfg = c.node.cfg :=
      Node.moves_cfg ((Node.moves_gossipRequire env.toEnv c.node (bdec key) (bdec value)) n' hn')
    have hfiled := Node.gossipRequire_files hrun ho.foreign hs ho.plain ho.dials n' hn'
    refine iff_of_true ?_ (Or.inl hnew)
    unfold Knows
    rw [hcfg]
    exact hfiled
  · rename_i hold
    cases h
    exact ⟨Or.inr, fun hor => hor.resolve_left hold⟩

theorem Reachable.after {c : Client} (hc : c.Reachable) (env : GossipEnv) (event : Client.Event) :
    (c.after env event).Reachable := by
  unfold Client.after
  cases hs : c.step env event with
  | ok c' => exact ReachableBy.step env event hc trivial hs
  | error e => exact hc

theorem step_after {c : Client} {env : GossipEnv} (event : Client.Event)
    (h : Node.raised (c.step env event) = none) : c.step env event = .ok (c.after env event) := by
  unfold Client.after
  cases hs : c.step env event with
  | ok c' => rfl
  | error e =>
    rw [hs] at h
    cases h

/-- The endpoint that the node of the examples announces. -/
def sampleEndpoint : Bytes := encodeStr "tcp://10.0.0.1:4001".toList

/-- The node of the examples, linked to one hub. -/
def sample : Client :=
  match Client.start (GossipEnv.calm 0) Node.sampleA.cfg sampleEndpoint 1 with
  | .ok c => c
  | .error _ => ⟨Node.sampleA, Dict.empty, [], 0, Dict.empty, 0, []⟩

theorem sample_reachable : sample.Reachable := by
  have hstart : Node.raised (Client.start (GossipEnv.calm 0) Node.sampleA.cfg sampleEndpoint 1) = none := by
    decide +kernel
  unfold sample
  cases hs : Client.start (GossipEnv.calm 0) Node.sampleA.cfg sampleEndpoint 1 with
  | ok c => exact ReachableBy.start _ _ _ _ (by decide +kernel) hs
  | error e =>
    rw [hs] at hstart
    cases hstart

/-- The key and the value under which the peer `00…02` announces itself. -/
def sampleKey : Bytes := encodeStr (hex sampleUuid)

def sampleValue : Bytes := encodeStr "tcp://10.0.0.2:4002".toList

def samplePublish : Bytes := Zgs.publishBytes sampleKey sampleValue 0

theorem decode_samplePublish :
    Zgs.decode samplePublish = .ok (some (.publish sampleKey sampleValue 0)) := by decide +kernel

/-- A node dials the first announcement of a peer. -/
theorem rediscovers_sample : (sample.after (GossipEnv.calm 0) (.hub 0 samplePublish)).Knows sampleKey := by
  have hsplit : splitEndpoint sample.node.cfg.rt (partition '|' (bdec sampleValue)).1 =
      .ok ("10.0.0.2".toList, 4002) := by decide +kernel
  have ho : sample.Offers (GossipEnv.calm 0) samplePublish sampleKey sampleValue :=
    ⟨⟨0, decode_samplePublish⟩, by decide +kernel, ⟨_, _, hsplit⟩, by decide +kernel, by decide +kernel⟩
  have hr : sample.receive (GossipEnv.calm 0) 0 samplePublish =
      .ok (sample.after (GossipEnv.calm 0) (.hub 0 samplePublish)) :=
    step_after (.hub 0 samplePublish) (by decide +kernel)
  exact (sample_reachable.rediscovers_iff ho hr).2 (Or.inl (by decide +kernel))

/-- The peer is announced, and expires while the hub is silent. -/
def sampleOutage : Client :=
  (sample.after (GossipEnv.calm 0) (.hub 0 samplePublish)).after (GossipEnv.calm 31000000000)
    (.node .reap)

/-- The snapshot of the redialled hub announces the expired peer again, and it is not dialled. -/
theorem not_rediscovers : ¬ ∀ c : Client, c.Reachable →
    ∀ (env : GossipEnv) (link : Nat) (body key value : Bytes) (c' : Client),
      c.Offers env body key value → c.receive env link body = .ok c' → c'.Knows key := by
  intro hall
  have hreach : sampleOutage.Reachable := (sample_reachable.after _ _).after _ _
  have hsplit : splitEndpoint sampleOutage.node.cfg.rt (partition '|' (bdec sampleValue)).1 =
      .ok ("10.0.0.2".toList, 4002) := by decide +kernel
  have ho : sampleOutage.Offers (GossipEnv.calm 31000000000) samplePublish sampleKey sampleValue :=
    ⟨⟨0, decode_samplePublish⟩, by decide +kernel, ⟨_, _, hsplit⟩, by decide +kernel, by decide +kernel⟩
  have hr : sampleOutage.receive (GossipEnv.calm 31000000000) 1 samplePublish =
      .ok (sampleOutage.after (GossipEnv.calm 31000000000) (.hub 1 samplePublish)) :=
    step_after (.hub 1 samplePublish) (by decide +kernel)
  have hknows := hall sampleOutage hreach _ _ _ _ _ _ ho hr
  have hnot : (sampleOutage.after (GossipEnv.calm 31000000000) (.hub 1 samplePublish)).node.peers.contains
      ((sampleOutage.after (GossipEnv.calm 31000000000) (.hub 1 samplePublish)).node.cfg.rt.lower
        (bdec sampleKey)) = false := by decide +kernel
  rw [Knows, hnot] at hknows
  cases hknows

end Client

end Zre
