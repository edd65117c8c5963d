import Zre.Proofs.Simulation

/-!
# Proofs: two strangers meet

Two plain-mode nodes that do not know each other, and any interleaving of beacons, dials and deliveries.
Once one of them has looked or dialled and no frame is on the way, each holds the other one as ready. A
HELLO of a peer that is in the table is never answered with a HELLO.
-/

namespace Zre

open Fallible

/-- Whoever sends a HELLO or anything else and is in the peer table is not sent a HELLO. -/
theorem Node.Reachable.known_not_greeted {n : Node} (hn : n.Reachable) {env : Env}
    {rid uuid : Bytes} {frames : List Bytes} (hu : Node.routingUuid rid = some uuid)
    (hk : n.peers.get (hex uuid) ≠ none) :
    Ensures (n.handlePeerMsg env (rid :: frames)) fun n' =>
      ∃ l, n'.outbox = n.outbox ++ l ∧ ∀ h ∈ l, ¬ h.Is Cmd.hello := by
  intro n' hn'
  rcases Node.handlePeerMsg_cases env n _ n' hn' with
    rfl | ⟨uuid', msg, extra, ⟨rid', data, hfr, hu', -⟩, ⟨h, -, hh⟩ | ⟨-, r, hr, -, hh⟩⟩
  · exact ⟨[], by simp⟩
  · cases hfr
    rw [hu] at hu'
    cases hu'
    obtain ⟨hm0, hp0, -⟩ := Node.moves_resetSeq anything (fun _ => False) n (hex uuid)
    obtain ⟨l0, hl0, hno⟩ := hm0.outbox
    have hl0' : l0 = [] := by
      cases l0 with
      | nil => rfl
      | cons h l => exact (hno h (by simp)).elim
    obtain ⟨l, hl, hall⟩ := (Node.moves_handleHello env (hm0.invariant Tables.move hn.tables) _ h _ n'
      hh).outbox
    refine ⟨l, by rw [hl, hl0, hl0', List.append_nil], fun x hx => ?_⟩
    rcases hall x hx with ⟨hnone, -⟩ | he
    · rw [hp0] at hnone
      exact absurd hnone hk
    · exact (Handed.chat_of_election he).1
  · obtain ⟨l, hl, hall⟩ := (Node.moves_handleTraffic env hn.tables hr msg extra n' hh).outbox
    refine ⟨l, hl, fun x hx => ?_⟩
    exact (hall x hx).elim (fun he => (Handed.chat_of_election he).1)
      fun hp => (Handed.chat_of_is hp (by decide) (by decide)).1

namespace Duo

/-- The configurations of the two nodes. -/
def cfgs (d : Duo) (s : Bool) : Config := (d.node s).cfg

/-- The id under which the other node is filed. -/
def otherId (d : Duo) (s : Bool) : Str := hex (d.node !s).cfg.peerId

/-- Two different plain nodes which can reach each other, of which neither has an entry for the other
one's id or a dial to its address, and nothing is on the way between them. -/
structure Strangers (net : Net) (d : Duo) : Prop where
  reachable : ∀ s, (d.node s).Reachable
  pair : Pair net d.cfgs
  unknown : ∀ s, (d.node s).peers.get (d.otherId s) = none
  elsewhere : ∀ s k r, (d.node s).peers.get k = some r →
    ¬ (((d.node s).obj r).addr = net.host (!s) ∧ ((d.node s).obj r).port = d.port !s)
  undialled : ∀ s k r, (d.node s).pending.get k = some r →
    k ≠ Node.pendingKey (net.host !s) (d.port !s) ∧ ((d.node s).obj r).port ≠ d.port !s
  silent : ∀ s, d.link s = []

/-- No entry is given up, sends and connects succeed, and a node's HELLOs name the address under which
it is seen. -/
def Meets (net : Net) (cfg : Bool → Config) (d : Duo) (env : Env) (a : Act) : Prop :=
  Serves net cfg d env a ∧ match a with
    | .reap _ | .restart _ _ => False
    | _ => True

/-- A beacon that is handled, or a dial. -/
def Act.Discovers : Act → Prop
  | beacon _ | dial _ => True
  | _ => False

/-- Node `s` holds the other one as ready, has nothing else at its address, and has announced it once
since it had announced it `e` times. -/
structure Acquainted (net : Net) (d : Duo) (s : Bool) (e : Nat) : Prop where
  entry : ∃ r, (d.node s).peers.get (d.otherId s) = some r ∧ ((d.node s).obj r).ready = true
  only : ∀ k r, (d.node s).peers.get k = some r → ((d.node s).obj r).addr = net.host (!s) →
    ((d.node s).obj r).port = d.port (!s) → k = d.otherId s
  nonePending : ∀ k r, (d.node s).pending.get k = some r → ((d.node s).obj r).port ≠ d.port !s
  announced : (d.node s).enters (d.otherId s) = e + 1

section

variable {net : Net} {d d' : Duo}

theorem Strangers.sound (h : Strangers net d) : Sound net d.cfgs d := by
  refine ⟨h.reachable, fun s => ⟨⟨rfl, rfl, rfl⟩, h.pair.plain s⟩, fun s => ?_, fun s x hx => ?_⟩
  · constructor
    · intro r hr
      rw [show (d.node s).peers.get (hex (d.cfgs !s).peerId) = none from h.unknown s] at hr
      cases hr
    · exact fun k r hr ha hp => absurd ⟨ha, hp⟩ (h.elsewhere s k r hr)
    · exact fun k r hr hp => absurd hp (h.undialled s k r hr).2
    · exact fun r hr => absurd rfl (h.undialled s _ r hr).1
  · rw [h.silent s] at hx
    simp at hx

theorem Strangers.view (h : Strangers net d) (s : Bool) :
    (meeting net d.cfgs d).view s = .unknown := by
  show (d.node s).view (d.otherId s) (net.host !s) (d.port !s) = .unknown
  rw [Node.view_new (h.unknown s), if_neg]
  intro hc
  obtain ⟨r, hr⟩ := Dict.contains_iff.1 hc
  exact (h.undialled s _ r hr).1 rfl

/-- No abstract act of such a run loses anything. -/
theorem keeps_of_shows {bs : List Meeting.Act} {as : List Act} (h : List.Forall₂ Act.Shows bs as)
    (ha : ∀ a ∈ as, match a with
      | Act.reap _ | Act.restart _ _ => False
      | _ => True) : ∀ b ∈ bs, b.Keeps := by
  induction h with
  | nil => simp
  | @cons b a bs as hb _ ih =>
    intro c hc
    rcases List.mem_cons.1 hc with rfl | hc
    · have h1 := ha a (by simp)
      cases a with
      | deliver s => rcases hb with rfl | rfl <;> trivial
      | reap s | restart s c => exact h1.elim
      | _ => cases hb; trivial
    · exact ih (fun a' ha' => ha a' (by simp [ha'])) c hc

theorem discovers_of_shows {bs : List Meeting.Act} {as : List Act} (h : List.Forall₂ Act.Shows bs as)
    (ha : ∃ a ∈ as, a.Discovers) : ∃ b ∈ bs, b.Discovers := by
  induction h with
  | nil => simp at ha
  | @cons b a bs as hb _ ih =>
    obtain ⟨c, hc, hd⟩ := ha
    rcases List.mem_cons.1 hc with rfl | hc
    · refine ⟨b, by simp, ?_⟩
      cases c with
      | beacon s | dial s => cases hb; trivial
      | _ => exact hd.elim
    · obtain ⟨b', hb', hd'⟩ := ih ⟨c, hc, hd⟩
      exact ⟨b', by simp [hb'], hd'⟩

/-- The ids, ports and so the addresses stay what they were. -/
theorem Sound.otherId {cfg : Bool → Config} (hs : Sound net cfg d) (s : Bool) :
    d.otherId s = hex (cfg !s).peerId := by
  unfold Duo.otherId
  rw [(hs.same !s).1.peerId]

theorem Sound.port {cfg : Bool → Config} (hs : Sound net cfg d) (s : Bool) :
    d.port s = (cfg s).inboxPort := (hs.same s).1.inboxPort

theorem Run.acts {P : Duo → Env → Act → Prop} {Q : Act → Prop} {as : List Act}
    (h : Run net P d as d') (hP : ∀ d env a, P d env a → Q a) : ∀ a ∈ as, Q a := by
  induction h with
  | start => simp
  | step hr hp _ ih =>
    intro b hb
    rcases List.mem_append.1 hb with hb | hb
    · exact ih b hb
    · rw [List.mem_singleton.1 hb]; exact hP _ _ _ hp

/-- Two strangers that have discovered each other are acquainted once nothing is on the way, and at no
time is a message of a known node answered with a HELLO. -/
theorem converges {as : List Act} (h0 : Strangers net d) (hrun : Run net (Meets net d.cfgs) d as d') :
    ((∃ a ∈ as, a.Discovers) → (∀ s, d'.link s = []) →
      ∀ s, Acquainted net d' s ((d.node s).enters (d.otherId s))) ∧
    ∀ s env d'', d'.act net env (.deliver s) = .ok d'' →
      (d'.node s).peers.get (d'.otherId s) ≠ none →
      ∀ h ∈ (d''.node s).outbox.drop (d'.node s).outbox.length, ¬ h.Is Cmd.hello := by
  obtain ⟨hs', bs, hbs, hrun'⟩ := hrun.simulates h0.pair (fun _ _ _ hp => hp.1) h0.sound
  constructor
  · intro hd hq s
    have hkeep := keeps_of_shows hbs (hrun.acts fun _ _ _ hp => hp.2)
    have hsilent : ∀ t, ¬ (meeting net d.cfgs d').Saying t := fun t => by
      simp [Meeting.Saying, meeting, hq t]
    obtain ⟨hview, henters⟩ := hrun'.settles hkeep h0.view rfl (discovers_of_shows hbs hd) hsilent s
    obtain ⟨r, hr, hready⟩ := Node.peers_of_view (Or.inr hview)
    have hF := hs'.facing s
    refine ⟨⟨r, by rw [hs'.otherId]; exact hr, hready.2 hview⟩, fun k r' hk ha hp => ?_,
      fun k r' hk hp => ?_, ?_⟩
    · rw [hs'.otherId]
      rw [hs'.port] at hp
      exact hF.sole k r' hk ha hp
    · rw [hs'.port] at hp
      have hkey := hF.dial k r' hk hp
      obtain ⟨-, -, -, -, hnone⟩ := hF.wait r' (hkey ▸ hk)
      rw [hr] at hnone
      cases hnone
    · rw [hs'.otherId]
      exact henters
  · intro s env d'' hact hk
    simp only [act] at hact
    cases hl : d'.link !s with
    | nil =>
      rw [hl] at hact
      cases hact
      simp
    | cons hd rest =>
      rw [hl] at hact
      obtain ⟨n', hn', rfl⟩ := feed_eq_ok hact
      obtain ⟨l, hl, hno⟩ := (hs'.reachable s).known_not_greeted
        (Node.routingUuid_cons (d'.node !s).cfg.peerId_length) hk n' hn'
      simp only [put, Function.update_self]
      rw [hl, List.drop_left]
      exact hno

end

/-! ## A dial -/

/-- A network of one machine, with node `false` on port 4001 and node `true` on port 4002. -/
def sampleNet : Net where
  host _ := "127.0.0.1".toList
  leads s _ port := port = if s then 4001 else 4002

/-- The nodes `00…01` and `00…02`, which have just started. -/
def samplePair : Duo where
  node s := if s then Node.init (Config.plain sampleUuid rfl ⟨[0x42], by decide⟩ 4002) else Node.sampleA
  link _ := []

theorem samplePair_strangers : Strangers sampleNet samplePair := by
  refine ⟨fun s => ?_, ⟨fun s => ?_, by decide, by decide⟩, fun s => ?_, fun s k r hr => ?_,
    fun s k r hr => ?_, fun s => rfl⟩
  · cases s <;> exact Node.Reachable.init _
  · cases s <;> exact ⟨rfl, rfl, by decide⟩
  · cases s <;> rfl
  · cases s <;> cases hr
  · cases s <;> cases hr

/-- What the sample nodes say about themselves names their addresses. -/
theorem sample_names {n : Node} {s : Bool} (hn : n.cfg = samplePair.cfgs s) (endpoint : Bytes)
    (h : n.publicEndpointFor (Env.calm 0) (sampleNet.host !s) = .ok endpoint) :
    Node.Names (samplePair.cfgs !s).rt endpoint (sampleNet.host s) (samplePair.cfgs s).inboxPort := by
  change (Node.init n.cfg).publicEndpointFor (Env.calm 0) (sampleNet.host !s) = .ok endpoint at h
  rw [hn] at h
  have hcalc : ∀ s, (Node.init (samplePair.cfgs s)).publicEndpointFor (Env.calm 0)
      (sampleNet.host !s) = .ok (encodeStr (tcpAddress "127.0.0.1".toList (if s then 4002 else 4001))) := by
    decide +kernel
  rw [hcalc s] at h
  rw [← Except.ok.inj h]
  cases s
  · exact ⟨by decide +kernel, "127.0.0.1".toList, by decide +kernel, by decide +kernel⟩
  · exact ⟨by decide +kernel, "127.0.0.1".toList, by decide +kernel, by decide +kernel⟩

/-- The states of the sample nodes: they are reachable and were not reconfigured. -/
def Sampled (d : Duo) : Prop := ∀ s, (d.node s).Reachable ∧ (d.node s).cfg = samplePair.cfgs s

theorem samplePair_sampled : Sampled samplePair := fun s => ⟨samplePair_strangers.reachable s, rfl⟩

/-- An act that restarts a sample node as it was, if it restarts one. -/
def Act.Sampled : Act → Prop
  | restart s c => c = samplePair.cfgs s
  | _ => True

theorem sampled_serves {d : Duo} (a : Act) (ha : a.Sampled) (hd : d.Sampled) :
    Serves sampleNet samplePair.cfgs d (Env.calm 0) a := by
  refine ⟨⟨fun _ => rfl, fun _ => rfl⟩, sample_names (hd a.side).2, ?_⟩
  rintro s c rfl
  rw [show c = samplePair.cfgs s from ha]
  exact ⟨⟨rfl, rfl, rfl⟩, samplePair_strangers.pair.plain s⟩

theorem sampled_step {d d' : Duo} (a : Act) (ha : a.Sampled) (hd : d.Sampled)
    (h : d.act sampleNet (Env.calm 0) a = .ok d') : d'.Sampled := by
  by_cases hres : ∃ s c, a = .restart s c
  · obtain ⟨s, c, rfl⟩ := hres
    cases h
    intro t
    by_cases hts : t = s
    · subst hts
      simp only [Function.update_self]
      exact ⟨Node.Reachable.init c, ha⟩
    · simpa [Function.update_of_ne hts] using hd t
  · push Not at hres
    intro t
    obtain ⟨hr, hc⟩ := act_keeps (fun s => (hd s).1) hres h t
    exact ⟨hr, hc.trans (hd t).2⟩

/-- Acts of the sample nodes that return are a run. -/
theorem sampled_run {P : Duo → Env → Act → Prop} {d d1 d2 : Duo} {as as' : List Act}
    (h : Run sampleNet P d as d1) (hd : d1.Sampled) (ha : ∀ a ∈ as', a.Sampled)
    (hP : ∀ d1 a, a ∈ as' → Serves sampleNet samplePair.cfgs d1 (Env.calm 0) a →
      P d1 (Env.calm 0) a) (hacts : d1.acts sampleNet (Env.calm 0) as' = .ok d2) :
    Run sampleNet P d (as ++ as') d2 ∧ d2.Sampled :=
  h.of_acts hd (fun d a hm hs => hP d a hm (sampled_serves a (ha a hm) hs))
    (fun _ a _ hm hs h => sampled_step a (ha a hm) hs h) hacts

/-- A dial, its delivery and the delivery of the answer. -/
def dialled : List Act := [.dial false, .deliver true, .deliver false]

/-- After a dial, its delivery and the delivery of the answer the sample nodes are acquainted. -/
theorem converges_dial :
    Acquainted sampleNet (samplePair.after sampleNet (Env.calm 0) dialled) false 0 ∧
    Acquainted sampleNet (samplePair.after sampleNet (Env.calm 0) dialled) true 0 := by
  have hraised : Node.raised (samplePair.acts sampleNet (Env.calm 0) dialled) = none := by decide +kernel
  have hacts := acts_after hraised
  obtain ⟨hrun, -⟩ := sampled_run (P := Meets sampleNet samplePair.cfgs) Run.start samplePair_sampled
    (by simp [dialled, Act.Sampled]) (fun d a ha hs => ⟨hs, by
      simp only [dialled, List.mem_cons, List.not_mem_nil, or_false] at ha
      rcases ha with rfl | rfl | rfl <;> trivial⟩) hacts
  have hmet := (converges samplePair_strangers hrun).1 ⟨.dial false, by simp [dialled], trivial⟩
    (by decide +kernel)
  exact ⟨hmet false, hmet true⟩

end Duo

end Zre
