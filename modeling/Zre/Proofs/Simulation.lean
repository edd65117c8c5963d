import Zre.Duo
import Zre.Proofs.RoundTrip
import Zre.Proofs.Turns

/-!
# Proofs: two nodes simulate two parties

Two plain-mode nodes, whatever else they hold, do what the two parties of the abstract handshake do: the
view of a party is what its node holds of the other one, and a message is a HELLO or not.
-/

namespace Zre

open Fallible

/-- A node without Curve that listens on a port. -/
structure Config.Plain (c : Config) : Prop where
  secret : c.curveSecret = none
  version : c.beaconVersion = Node.beaconVersionV1
  port : 0 < c.inboxPort ∧ c.inboxPort < 65536

/-- The same uuid and the same port, in the same Python. -/
structure Config.SameNode (c c' : Config) : Prop where
  peerId : c'.peerId = c.peerId
  inboxPort : c'.inboxPort = c.inboxPort
  rt : c'.rt = c.rt

/-! ## One node -/

namespace Node

/-- A plain node handles the beacon of another plain node. -/
theorem handleBeacon_plain (env : Env) {n m : Node} {data : Bytes} (hn : n.cfg.Plain)
    (hm : m.cfg.Plain) (hrun : n.running = true) (host : Str)
    (hb : m.buildBeacon m.cfg.inboxPort = .ok data) :
    n.handleBeacon env data host = n.acceptBeacon env m.cfg.peerId m.cfg.inboxPort none host := by
  have hv : ¬ beaconVersionV1 = beaconVersionV3 := by decide
  obtain ⟨p, hp, hb⟩ := bind_eq_ok_iff.1 hb
  rw [hm.version, if_neg hv] at hb
  cases hb
  have hunpack : unpackH p = .ok m.cfg.inboxPort ∧ p.length = 2 := by
    rw [packH_ok hm.port.2] at hp
    cases hp
    exact ⟨unpackH_pack hm.port.2, rfl⟩
  obtain ⟨hunpack, hplen⟩ := hunpack
  have hlen := m.cfg.peerId_length
  generalize m.cfg.peerId = uuid at hlen ⊢
  have hslice : slice (beaconMagic ++ [beaconVersionV1] ++ uuid ++ p) 4 20 = uuid := by
    have h := slice_middle (beaconMagic ++ [beaconVersionV1]) uuid p
    rw [hlen] at h
    exact h
  have hport : slice (beaconMagic ++ [beaconVersionV1] ++ uuid ++ p) 20 22 = p := by
    have h := slice_middle (beaconMagic ++ [beaconVersionV1] ++ uuid) p []
    rw [List.append_nil, hplen, List.length_append, hlen] at h
    exact h
  have hbool : (!n.running) = false := by rw [hrun]; rfl
  have hmagic : (beaconMagic ++ [beaconVersionV1] ++ uuid ++ p).take 3 = beaconMagic := rfl
  have hver : byteAt (beaconMagic ++ [beaconVersionV1] ++ uuid ++ p) 3 = .ok beaconVersionV1 := rfl
  have hsize : beaconSize beaconVersionV1 =
      some (beaconMagic ++ [beaconVersionV1] ++ uuid ++ p).length := by
    simp [hlen, hplen, beaconSize, hv, beaconMagic]
  unfold handleBeacon
  simp only [hbool, Bool.false_eq_true, if_false, hmagic, ne_eq, not_true, hver, bind_ok, hsize, hport,
    hunpack, hslice, hn.version, if_neg hv]

/-- A received frame that is neither a HELLO nor a GOODBYE leaves the tables steady. -/
theorem handlePeerMsg_chat {env : Env} (hl : env.Lossless) {n : Node} (ht : Tables n) {rid : Bytes}
    {h : Handed} (hc : h.Chat) :
    Ensures (n.handlePeerMsg env (rid :: h.frames)) fun n' =>
      Steady n n' ∧ ∃ l, n'.outbox = n.outbox ++ l ∧ ∀ x ∈ l, x.Chat := by
  have hstay : ∀ {n' : Node}, n' = n →
      Steady n n' ∧ ∃ l, n'.outbox = n.outbox ++ l ∧ ∀ x ∈ l, Handed.Chat x := by
    rintro _ rfl
    exact ⟨Steady.refl _, [], by simp⟩
  intro n' hn'
  cases hfr : h.frames with
  | nil =>
    rw [hfr] at hn'
    cases hn'
    exact hstay rfl
  | cons data extra =>
    rw [hfr] at hn'
    cases hu : routingUuid rid with
    | none =>
      unfold handlePeerMsg at hn'
      simp only [hu] at hn'
      cases hn'
      exact hstay rfl
    | some uuid =>
      cases hd : Codec.decode data with
      | error e =>
        unfold handlePeerMsg at hn'
        simp [hu, hd] at hn'
      | ok o =>
        cases o with
        | none =>
          unfold handlePeerMsg at hn'
          simp only [hu, hd, bind_ok] at hn'
          cases hn'
          exact hstay rfl
        | some msg =>
          obtain ⟨hcmd, hfields⟩ := Codec.decode_fields hd
          have hcmd' : h.Is msg.cmd := Handed.is_of_frames hfr hcmd
          have hnot : ∀ f, msg.fields ≠ .hello f := by
            intro f hf
            rw [hf] at hfields
            exact hc.1 (hfields.1 ▸ hcmd')
          by_cases hr : ∃ r, n.peers.get (hex uuid) = some r ∧ (n.obj r).ready = true
          · obtain ⟨r, hk, hr⟩ := hr
            rw [handlePeerMsg_traffic env hu hd hnot hk hr] at hn'
            have hm := moves_handleTraffic env ht hk msg extra n' hn'
            have hks : trafficKinds msg.cmd ⊆ [.enter, .leave] := by
              unfold trafficKinds
              rw [if_neg fun e : msg.cmd = Cmd.goodbye => hc.2 (by rw [← e]; exact hcmd')]
              split
              · simp
              · split <;> simp
            refine ⟨(hm.mono (may_mono hks) fun _ => id).steady hl (by simp) (by simp) (by simp) (by simp),
              ?_⟩
            obtain ⟨l, hout, hans⟩ := hm.outbox
            exact ⟨l, hout, fun x hx => (hans x hx).elim Handed.chat_of_election fun h =>
              Handed.chat_of_is h (by decide) (by decide)⟩
          · push Not at hr
            rw [handlePeerMsg_dropped env hu hd hnot fun r hk => Bool.eq_false_iff.2 (hr r hk)] at hn'
            cases hn'
            exact hstay rfl

section

variable {n n' : Node} {x host : Str} {port : Int}

/-- The identity of a node's sockets names the node. -/
theorem routingUuid_cons {uuid : Bytes} (h : uuid.length = 16) :
    routingUuid (1 :: uuid) = some uuid := by
  simp [routingUuid, h]

/-- Where entries are only taken out, the peer is as it was or forgotten. -/
theorem view_fades (hF : n.Facing x host port) (h : Fades n n') :
    n'.Facing x host port ∧
      (n'.view x host port = n.view x host port ∨ n'.view x host port = .unknown) := by
  refine ⟨⟨fun r hr => ?_, fun k r hr => ?_, fun k r hr => ?_, fun r hr => ?_⟩, ?_⟩
  · rw [(h.address x r (Or.inl hr)).1, (h.address x r (Or.inl hr)).2, h.connected x r (Or.inl hr)]
    exact hF.home r (h.peers x r hr)
  · rw [(h.address k r (Or.inl hr)).1, (h.address k r (Or.inl hr)).2]
    exact hF.sole k r (h.peers k r hr)
  · rw [(h.address k r (Or.inr hr)).2]
    exact hF.dial k r (h.pending k r hr)
  · rw [(h.address _ r (Or.inr hr)).1, (h.address _ r (Or.inr hr)).2, h.connected _ r (Or.inr hr),
      h.ready _ r (Or.inr hr)]
    obtain ⟨h1, h2, h3, h4, h5⟩ := hF.wait r (h.pending _ r hr)
    refine ⟨h1, h2, h3, h4, ?_⟩
    cases hk : n'.peers.get x with
    | none => rfl
    | some s => rw [h.peers x s hk] at h5; cases h5
  · cases hk' : n'.peers.get x with
    | some r =>
      left
      rw [view_known hk', view_known (h.peers x r hk'), h.ready x r (Or.inl hk')]
    | none =>
      rw [view_new hk']
      split
      · rename_i hc
        obtain ⟨r, hr⟩ := Dict.contains_iff.1 hc
        have hw := h.pending _ r hr
        obtain ⟨-, -, -, -, hk⟩ := hF.wait r hw
        left
        rw [view_new hk, if_pos (Dict.contains_iff.2 ⟨r, hw⟩)]
      · exact Or.inr rfl

/-- One round of the reaper keeps the view of the peer or loses it. -/
theorem reap_view {env : Env} (hl : env.Lossless) (ht : Tables n) (hF : n.Facing x host port) :
    Ensures (n.reap env) fun n' => n'.Facing x host port ∧ n'.enters x = n.enters x ∧
      (n'.view x host port = n.view x host port ∨ n'.view x host port = .unknown) ∧
      ∃ l, n'.outbox = n.outbox ++ l ∧ ∀ h ∈ l, h.Chat := by
  refine (moves_reap env ht).mono fun n' hm => ?_
  have hfades := hm.fades hl ht (by simp) (by simp) (by simp)
  obtain ⟨hF', hview⟩ := view_fades hF hfades
  obtain ⟨l, hout, hprobe⟩ := hm.outbox
  exact ⟨hF', hfades.enters x, hview, l, hout, fun h hh => (hprobe h hh).elim Handed.chat_of_election
    fun hp => Handed.chat_of_is hp (by decide) (by decide)⟩

theorem facing_init (cfg : Config) (x host : Str) (port : Int) :
    (Node.init cfg).Facing x host port := by
  constructor <;> simp [Node.init]

end

end Node

/-! ## Two nodes -/

namespace Duo

/-- The node that an act is about. -/
def Act.side : Act → Bool
  | beacon s | dial s | deliver s | join s _ | leave s _ | reap s | restart s _ => s

/-- The abstract acts that an act of a node may be. A delivery from an empty link does nothing. -/
def Act.Shows (b : Meeting.Act) : Act → Prop
  | beacon s => b = .look s
  | dial s => b = .dial s
  | deliver s => b = .receive s ∨ b = .idle s
  | join s _ | leave s _ => b = .idle s
  | reap s => b = .idle s ∨ b = .lose s
  | restart s _ => b = .lose s

section

variable (net : Net) (cfg : Bool → Config)

/-- What a HELLO on the link of node `s` says: it can be read, and names the address of `s`. -/
def Reads (s : Bool) (h : Handed) : Prop :=
  ∃ frame msg f, h.frames = [frame] ∧ Codec.decode frame = .ok (some msg) ∧ msg.fields = .hello f ∧
    Node.Names (cfg !s).rt f.endpoint (net.host s) (cfg s).inboxPort

/-- Two different plain nodes, which can reach each other. -/
structure Pair : Prop where
  plain : ∀ s, (cfg s).Plain
  apart : (cfg true).peerId ≠ (cfg false).peerId
  leads : ∀ s, net.leads s (net.host !s) (cfg !s).inboxPort = true

/-- The invariant of two nodes with these ids and ports. -/
structure Sound (d : Duo) : Prop where
  reachable : ∀ s, (d.node s).Reachable
  same : ∀ s, (cfg s).SameNode (d.node s).cfg ∧ (d.node s).cfg.Plain
  facing : ∀ s, (d.node s).Facing (hex (cfg !s).peerId) (net.host !s) (cfg !s).inboxPort
  link : ∀ s, ∀ h ∈ d.link s, h.Chat ∨ h.Is Cmd.hello ∧ Reads net cfg s h

/-- Sends and connects succeed, a HELLO names the address of its sender, and a restart keeps the uuid
and the port. -/
structure Serves (d : Duo) (env : Env) (a : Act) : Prop where
  succeeds : env.Succeeds
  names : ∀ endpoint, (d.node a.side).publicEndpointFor env (net.host !a.side) = .ok endpoint →
    Node.Names (cfg !a.side).rt endpoint (net.host a.side) (cfg a.side).inboxPort
  again : ∀ s c, a = .restart s c → (cfg s).SameNode c ∧ c.Plain

/-- The two parties that the nodes are. -/
def meeting (d : Duo) : Meeting where
  view s := (d.node s).view (hex (cfg !s).peerId) (net.host !s) (cfg !s).inboxPort
  link s := (d.link s).map fun h => decide (h.Is Cmd.hello)
  enters s := (d.node s).enters (hex (cfg !s).peerId)

end

section

variable {net : Net} {cfg : Bool → Config}

/-- A handler's outcome at node `s`. -/
def put (net : Net) (d : Duo) (s : Bool) (n : Node) : Duo where
  node := Function.update d.node s n
  link := Function.update d.link s
    (d.link s ++ (n.outbox.drop (d.node s).outbox.length).filter (carried net s))

theorem feed_eq_ok {env : Env} {d d' : Duo} {s : Bool} {input : Input}
    (h : d.feed net env s input = .ok d') :
    ∃ n, (d.node s).step env input = .ok n ∧ d' = d.put net s n := by
  obtain ⟨n, hn, h⟩ := bind_eq_ok_iff.1 h
  cases h
  exact ⟨n, hn, rfl⟩

/-- The nodes stay reachable, and only a restart changes a configuration. -/
theorem act_keeps {env : Env} {d d' : Duo} {a : Act} (hr : ∀ s, (d.node s).Reachable)
    (ha : ∀ s c, a ≠ .restart s c) (h : d.act net env a = .ok d') (t : Bool) :
    (d'.node t).Reachable ∧ (d'.node t).cfg = (d.node t).cfg := by
  have hfeed : ∀ {d1 : Duo} {s : Bool} {input : Input}, d1.node = d.node →
      d1.feed net env s input = .ok d' →
      (d'.node t).Reachable ∧ (d'.node t).cfg = (d.node t).cfg := by
    intro d1 s input hd1 hf
    obtain ⟨n', hn', rfl⟩ := feed_eq_ok hf
    rw [hd1] at hn'
    by_cases hts : t = s
    · subst hts
      have hc := Node.moves_cfg (Node.moves_step env (hr t).tables input n' hn')
      simpa [put] using And.intro (Node.Reachable.step env input (hr t) hn') hc
    · simpa [put, Function.update_of_ne hts, hd1] using hr t
  cases a with
  | beacon s =>
    obtain ⟨data, -, h⟩ := bind_eq_ok_iff.1 h
    exact hfeed rfl h
  | deliver s =>
    simp only [act] at h
    cases hl : d.link !s with
    | nil => rw [hl] at h; cases h; exact ⟨hr t, rfl⟩
    | cons x rest =>
      rw [hl] at h
      have hpop : ({ d with link := Function.update d.link (!s) rest } : Duo).node = d.node := rfl
      exact hfeed hpop h
  | dial s | join s g | leave s g | reap s => exact hfeed rfl h
  | restart s c => exact absurd rfl (ha s c)

theorem Pair.other (hp : Pair net cfg) (s : Bool) : (cfg !s).peerId ≠ (cfg s).peerId := by
  cases s
  · exact hp.apart
  · exact hp.apart.symm

/-- A HELLO that a node says can be read, and names its address. -/
theorem reads_of_hello {s : Bool} {env : Env} {n : Node} {addr : Str} {h : Handed}
    (hnames : ∀ endpoint, n.publicEndpointFor env addr = .ok endpoint →
      Node.Names (cfg !s).rt endpoint (net.host s) (cfg s).inboxPort)
    (hh : n.SaysHello env addr h) : h.Is Cmd.hello ∧ Reads net cfg s h := by
  obtain ⟨seq, endpoint, frame, hfr, hep, henc⟩ := hh
  refine ⟨Handed.is_of_frames hfr (Codec.encodeHello_cmd _ _ _ _ _ _ frame henc), ?_⟩
  obtain ⟨hseq, hfits, hframe⟩ := Codec.encodeHello_eq_ok
    (h := ⟨endpoint, n.ownGroups, n.status, n.cfg.name.raw, n.headers⟩) henc
  exact ⟨frame, _, _, hfr, hframe ▸ Codec.decode_hello hseq hfits, rfl, hnames endpoint hep⟩

/-- What a turn of node `s` puts on its link. -/
theorem link_turn {s : Bool} (hp : Pair net cfg) {n n' : Node} {x : Str} {res : View × Bool}
    {hello : Handed → Prop} (hT : n.Turns n' x (net.host !s) (cfg !s).inboxPort res hello)
    (hhello : ∀ h, hello h → h.Is Cmd.hello ∧ Reads net cfg s h) :
    ∃ more, true ∉ more ∧
      ((n'.outbox.drop n.outbox.length).filter (carried net s)).map (fun h => decide (h.Is Cmd.hello)) =
        Meeting.said res.2 ++ more ∧
      ∀ h ∈ (n'.outbox.drop n.outbox.length).filter (carried net s),
        h.Chat ∨ h.Is Cmd.hello ∧ Reads net cfg s h := by
  obtain ⟨first, rest, hout, hchat, hfirst⟩ := hT.outbox
  rw [hout, List.drop_left]
  refine ⟨(rest.filter (carried net s)).map fun h => decide (h.Is Cmd.hello), ?_, ?_, ?_⟩
  · simp only [List.mem_map, List.mem_filter, decide_eq_true_eq, not_exists, not_and]
    exact fun h hh => (hchat h hh.1).1
  · rw [List.filter_append, List.map_append]
    congr 1
    split at hfirst
    · rename_i hres
      obtain ⟨h, rfl, hsent, haddr, hport, hh⟩ := hfirst
      have hcar : carried net s h = true := by simp [carried, hsent, haddr, hport, hp.leads]
      simp [hcar, Meeting.said, hres, (hhello h hh).1]
    · rename_i hres
      rw [hfirst]
      simp [Meeting.said, hres]
  · intro h hh
    rcases List.mem_append.1 (List.mem_filter.1 hh).1 with hf | hr
    · split at hfirst
      · obtain ⟨h', rfl, -, -, -, hh'⟩ := hfirst
        rw [List.mem_singleton.1 hf]
        exact Or.inr (hhello h' hh')
      · rw [hfirst] at hf; simp at hf
    · exact Or.inl (hchat h hr)

/-- A turn of a node is a turn of its party. -/
theorem meeting_put (hp : Pair net cfg) {d : Duo} {s : Bool} {n' : Node} {res : View × Bool}
    {hello : Handed → Prop}
    (hT : (d.node s).Turns n' (hex (cfg !s).peerId) (net.host !s) (cfg !s).inboxPort res hello)
    (hhello : ∀ h, hello h → h.Is Cmd.hello ∧ Reads net cfg s h) :
    ∃ more, true ∉ more ∧
      meeting net cfg (d.put net s n') = (meeting net cfg d).turn s res more := by
  obtain ⟨more, hmore, hlink, -⟩ := link_turn hp hT hhello
  refine ⟨more, hmore, ?_⟩
  unfold meeting Meeting.turn put
  simp only [Meeting.mk.injEq]
  refine ⟨funext fun t => ?_, funext fun t => ?_, funext fun t => ?_⟩ <;> by_cases hts : t = s
  · subst hts; simp [hT.view]
  · simp [Function.update_of_ne hts]
  · subst hts; simp [hlink]
  · simp [Function.update_of_ne hts]
  · subst hts; simp [hT.enters]
  · simp [Function.update_of_ne hts]

/-- A turn of a node keeps the invariant. -/
theorem sound_put (hp : Pair net cfg) {d : Duo} (hs : Sound net cfg d) {s : Bool} {n' : Node}
    {res : View × Bool} {hello : Handed → Prop} (hr : n'.Reachable) (hc : n'.cfg = (d.node s).cfg)
    (hT : (d.node s).Turns n' (hex (cfg !s).peerId) (net.host !s) (cfg !s).inboxPort res hello)
    (hhello : ∀ h, hello h → h.Is Cmd.hello ∧ Reads net cfg s h) :
    Sound net cfg (d.put net s n') := by
  obtain ⟨-, -, -, hnew⟩ := link_turn hp hT hhello
  refine ⟨fun t => ?_, fun t => ?_, fun t => ?_, fun t => ?_⟩ <;> by_cases hts : t = s
  · subst hts; simpa [put] using hr
  · simpa [put, Function.update_of_ne hts] using hs.reachable t
  · subst hts; simpa [put, hc] using hs.same t
  · simpa [put, Function.update_of_ne hts] using hs.same t
  · subst hts; simpa [put] using hT.facing
  · simpa [put, Function.update_of_ne hts] using hs.facing t
  · subst hts
    simp only [put, Function.update_self]
    intro h hh
    exact (List.mem_append.1 hh).elim (hs.link t h) (hnew h)
  · simpa [put, Function.update_of_ne hts] using hs.link t

/-- A handler that is a turn of its node. -/
theorem sound_step (hp : Pair net cfg) {d : Duo} (hs : Sound net cfg d) {s : Bool} {env : Env}
    {input : Input} {n' : Node} {res : View × Bool} {hello : Handed → Prop}
    (hstep : (d.node s).step env input = .ok n')
    (hT : (d.node s).Turns n' (hex (cfg !s).peerId) (net.host !s) (cfg !s).inboxPort res hello)
    (hhello : ∀ h, hello h → h.Is Cmd.hello ∧ Reads net cfg s h) :
    Sound net cfg (d.put net s n') ∧ ∃ more, true ∉ more ∧
      meeting net cfg (d.put net s n') = (meeting net cfg d).turn s res more := by
  have hr := hs.reachable s
  exact ⟨sound_put hp hs (Node.Reachable.step env input hr hstep)
    (Node.moves_cfg (Node.moves_step env hr.tables input n' hstep)) hT hhello, meeting_put hp hT hhello⟩

/-- The pair after a frame was taken from the link. -/
def pop (d : Duo) (s : Bool) (rest : List Handed) : Duo :=
  { d with link := Function.update d.link s rest }

theorem meeting_pop (net : Net) (cfg : Bool → Config) {d : Duo} {s : Bool} {h : Handed} {rest : List Handed}
    (hl : d.link s = h :: rest) :
    (meeting net cfg d).link s = decide (h.Is Cmd.hello) :: rest.map (fun h => decide (h.Is Cmd.hello)) ∧
    meeting net cfg (d.pop s rest) = { meeting net cfg d with
      link := Function.update (meeting net cfg d).link s
        (rest.map fun h => decide (h.Is Cmd.hello)) } := by
  refine ⟨by simp [meeting, hl], ?_⟩
  unfold meeting pop
  simp only [Meeting.mk.injEq, true_and, and_true]
  funext t
  by_cases hts : t = s
  · subst hts; simp
  · simp [Function.update_of_ne hts]

theorem sound_pop {d : Duo} (hs : Sound net cfg d) {s : Bool} {h : Handed} {rest : List Handed}
    (hl : d.link s = h :: rest) : Sound net cfg (d.pop s rest) := by
  refine ⟨hs.reachable, hs.same, hs.facing, fun t x hx => ?_⟩
  by_cases hts : t = s
  · subst hts
    simp only [pop, Function.update_self] at hx
    exact hs.link t x (by rw [hl]; simp [hx])
  · simp only [pop, Function.update_of_ne hts] at hx
    exact hs.link t x hx

section Acts

variable (hp : Pair net cfg) {d d' : Duo} (hs : Sound net cfg d) {env : Env} {s : Bool}
include hp hs

theorem foreign : (cfg !s).peerId ≠ (d.node s).cfg.peerId := by
  rw [(hs.same s).1.peerId]
  exact hp.other s

/-- A beacon is a look. -/
theorem simulates_beacon (hsv : Serves net cfg d env (.beacon s))
    (h : d.act net env (.beacon s) = .ok d') : Sound net cfg d' ∧
      Meeting.Step (meeting net cfg d) (.look s) (meeting net cfg d') := by
  obtain ⟨data, hdata, h⟩ := bind_eq_ok_iff.1 h
  obtain ⟨n', hn', rfl⟩ := feed_eq_ok h
  have hr := hs.reachable s
  have hstep : (d.node s).acceptBeacon env (cfg !s).peerId (cfg !s).inboxPort none (net.host !s) =
      .ok n' := by
    rw [← (hs.same !s).1.peerId, ← (hs.same !s).1.inboxPort,
      ← Node.handleBeacon_plain env (hs.same s).2 (hs.same !s).2 hr.running (net.host !s) hdata]
    exact hn'
  have hT := Node.acceptBeacon_turn hsv.succeeds (hs.same s).2.secret hr.tables hr.links (hs.facing s)
    (foreign hp hs) (Nat.pos_iff_ne_zero.1 (hp.plain !s).port.1) n' hstep
  obtain ⟨hsound, more, hmore, hm⟩ := sound_step hp hs hn' hT fun h => reads_of_hello hsv.names
  exact ⟨hsound, hm ▸ Meeting.Step.look s hmore⟩

/-- A `connect_peer` is a dial. -/
theorem simulates_dial (hsv : Serves net cfg d env (.dial s))
    (h : d.act net env (.dial s) = .ok d') : Sound net cfg d' ∧
      Meeting.Step (meeting net cfg d) (.dial s) (meeting net cfg d') := by
  obtain ⟨n', hn', rfl⟩ := feed_eq_ok h
  have hr := hs.reachable s
  have hstep : (d.node s).doConnect env (net.host !s) (cfg !s).inboxPort = .ok n' := by
    rw [← (hs.same !s).1.inboxPort]
    exact hn'
  have hT := Node.doConnect_turn hsv.succeeds (hs.same s).2.secret hr.running hr.tables hr.links
    (hs.facing s) n' hstep
  obtain ⟨hsound, more, hmore, hm⟩ := sound_step hp hs hn' hT fun h => reads_of_hello hsv.names
  exact ⟨hsound, hm ▸ Meeting.Step.dial s hmore⟩

/-- A HELLO is heard; any other frame keeps the view. -/
theorem simulates_deliver (hsv : Serves net cfg d env (.deliver s))
    (h : d.act net env (.deliver s) = .ok d') : Sound net cfg d' ∧
      ∃ b, (b = .receive s ∨ b = .idle s) ∧
        Meeting.Step (meeting net cfg d) b (meeting net cfg d') := by
  simp only [act] at h
  cases hl : d.link !s with
  | nil =>
    rw [hl] at h
    cases h
    refine ⟨hs, _, Or.inr rfl, ?_⟩
    have hm : Meeting.Step (meeting net cfg d) (.idle s)
        ((meeting net cfg d).turn s ((meeting net cfg d).view s, false) []) := .idle s (by simp)
    have hid : (meeting net cfg d).turn s ((meeting net cfg d).view s, false) [] = meeting net cfg d := by
      simp [Meeting.turn, Meeting.said]
    rw [hid] at hm
    exact hm
  | cons hd rest =>
    rw [hl] at h
    obtain ⟨n', hn', rfl⟩ := feed_eq_ok h
    change (d.node s).step env _ = .ok n' at hn'
    have hr := hs.reachable s
    have hs1 := sound_pop hs hl
    obtain ⟨hlink, hpop⟩ := meeting_pop net cfg hl
    have hu : Node.routingUuid (1 :: (d.node !s).cfg.peerId) = some (cfg !s).peerId := by
      rw [(hs.same !s).1.peerId]
      exact Node.routingUuid_cons (cfg !s).peerId_length
    rcases hs.link (!s) hd (by simp [hl]) with hchat | ⟨hhello, frame, msg, f, hfr, hdec, hf, hname⟩
    · -- anything but a HELLO
      obtain ⟨hsteady, hout⟩ := Node.handlePeerMsg_chat hsv.succeeds.lossless hr.tables hchat n' hn'
      have hT : (d.node s).Turns n' (hex (cfg !s).peerId) (net.host !s) (cfg !s).inboxPort
          ((meeting net cfg d).view s, false) fun _ => False :=
        Node.Turns.of_steady (hs.facing s) hr.tables hsteady hout
      obtain ⟨hsound, more, hmore, hm⟩ := sound_step hp hs1 hn' hT fun _ h => h.elim
      refine ⟨hsound, _, Or.inl rfl, ?_⟩
      rw [decide_eq_false hchat.1] at hlink
      have hstep := Meeting.Step.skip s hlink hmore
      rw [← hpop] at hstep
      exact hm ▸ hstep
    · -- a HELLO, which is handled after the counter is reset
      have hn1 : ((d.node s).resetSeq (hex (cfg !s).peerId)).handleHello env (hex (cfg !s).peerId) f
          ((d.node s).peers.get (hex (cfg !s).peerId)) = .ok n' := by
        rw [← Node.handlePeerMsg_hello env hu hdec hf [], ← hfr]
        exact hn'
      obtain ⟨hm0, hp0, hello0⟩ := Node.moves_resetSeq (may env []) (fun _ => False)
        (d.node s) (hex (cfg !s).peerId)
      have hsteady := hm0.steady hsv.succeeds.lossless (by simp) (by simp) (by simp) (by simp)
      rw [← hp0] at hn1
      have ht0 := hm0.invariant Tables.move hr.tables
      have hnames : Node.Names ((d.node s).resetSeq (hex (cfg !s).peerId)).cfg.rt f.endpoint
          (net.host !s) (cfg !s).inboxPort := by
        rw [Node.moves_cfg hm0, (hs.same s).1.rt]
        rw [Bool.not_not] at hname
        exact hname
      have hT := Node.handleHello_turn hsv.succeeds
        (by rw [Node.moves_cfg hm0]; exact (hs.same s).2.secret) (hsteady.running.trans hr.running) ht0
        (hm0.invariant Links.move hr.links) ((hs.facing s).steady hr.tables hsteady)
        (by rw [Node.moves_cfg hm0]; exact fun e => foreign hp hs (Node.hex_injective e)) hnames n' hn1
      have hview : ((d.node s).resetSeq (hex (cfg !s).peerId)).view (hex (cfg !s).peerId) (net.host !s)
          ((cfg !s).inboxPort : Int) = (meeting net cfg d).view s := Node.view_steady hr.tables hsteady
      have hgreets : ∀ h, ((d.node s).resetSeq (hex (cfg !s).peerId)).SaysHello env (net.host !s) h →
          h.Is Cmd.hello ∧ Reads net cfg s h := fun h hh => by
        refine reads_of_hello (fun endpoint hep => hsv.names endpoint ?_) hh
        rw [← hep]
        unfold Node.resetSeq
        cases (d.node s).peers.get (hex (cfg !s).peerId) <;> rfl
      rw [hview] at hT
      have hT1 := hT.earlier (hsteady.enters _) (by rw [hview]; rfl) (by
        obtain ⟨l, hl, hno⟩ := hm0.outbox
        cases l with
        | nil => simpa using hl
        | cons h l => exact (hno h (by simp)).elim)
      obtain ⟨hsound, more, hmore, hm⟩ := sound_step hp hs1 hn' hT1 hgreets
      refine ⟨hsound, _, Or.inl rfl, ?_⟩
      rw [decide_eq_true hhello] at hlink
      have hstep := Meeting.Step.hear s hlink hmore
      rw [← hpop] at hstep
      exact hm ▸ hstep

/-- A `join` or a `leave` keeps the view. -/
theorem simulates_books {c : UInt8} (hc : c ≠ Cmd.hello ∧ c ≠ Cmd.goodbye) (hl : env.Lossless)
    (input : Input) (hm : Ensures ((d.node s).step env input)
      (Moves (may env [.books]) (Handed.Is c) (d.node s)))
    (h : d.feed net env s input = .ok d') : Sound net cfg d' ∧
      Meeting.Step (meeting net cfg d) (.idle s) (meeting net cfg d') := by
  obtain ⟨n', hn', rfl⟩ := feed_eq_ok h
  have hmoves := hm n' hn'
  obtain ⟨l, hout, his⟩ := hmoves.outbox
  have hT : (d.node s).Turns n' (hex (cfg !s).peerId) (net.host !s) (cfg !s).inboxPort
      ((meeting net cfg d).view s, false) fun _ => False :=
    Node.Turns.of_steady (hs.facing s) (hs.reachable s).tables
      (hmoves.steady hl (by simp) (by simp) (by simp) (by simp))
    ⟨l, hout, fun x hx => Handed.chat_of_is (his x hx) hc.1 hc.2⟩
  obtain ⟨hsound, more, hmore, hm⟩ := sound_step hp hs hn' hT fun _ h => h.elim
  exact ⟨hsound, hm ▸ Meeting.Step.idle s hmore⟩

/-- A round of the reaper keeps the view or loses it. -/
theorem simulates_reap (hsv : Serves net cfg d env (.reap s))
    (h : d.act net env (.reap s) = .ok d') : Sound net cfg d' ∧
      ∃ b, (b = .idle s ∨ b = .lose s) ∧ Meeting.Step (meeting net cfg d) b (meeting net cfg d') := by
  obtain ⟨n', hn', rfl⟩ := feed_eq_ok h
  obtain ⟨hF, henters, hview, l, hout, hchat⟩ := Node.reap_view hsv.succeeds.lossless
    (hs.reachable s).tables (hs.facing s) n' hn'
  rcases hview with hview | hview
  · have hT : (d.node s).Turns n' (hex (cfg !s).peerId) (net.host !s) (cfg !s).inboxPort
        ((meeting net cfg d).view s, false) fun _ => False :=
      ⟨hF, hview, henters.trans (by rw [if_neg fun h => h.2 h.1, Nat.add_zero]), [], l, hout, hchat,
        by simp⟩
    obtain ⟨hsound, more, hmore, hm⟩ := sound_step hp hs hn' hT fun _ h => h.elim
    exact ⟨hsound, _, Or.inl rfl, hm ▸ Meeting.Step.idle s hmore⟩
  · have hT : (d.node s).Turns n' (hex (cfg !s).peerId) (net.host !s) (cfg !s).inboxPort
        (.unknown, false) fun _ => False :=
      ⟨hF, hview, henters.trans (by simp), [], l, hout, hchat, by simp⟩
    obtain ⟨hsound, more, hmore, hm⟩ := sound_step hp hs hn' hT fun _ h => h.elim
    exact ⟨hsound, _, Or.inr rfl, hm ▸ Meeting.Step.lose s _ hmore⟩

omit hp in
/-- A restart loses the view. -/
theorem simulates_restart {c : Config} (hsv : Serves net cfg d env (.restart s c))
    (h : d.act net env (.restart s c) = .ok d') : Sound net cfg d' ∧
      Meeting.Step (meeting net cfg d) (.lose s) (meeting net cfg d') := by
  cases h
  obtain ⟨hsame, hplain⟩ := hsv.again s c rfl
  constructor
  · refine ⟨fun t => ?_, fun t => ?_, fun t => ?_, hs.link⟩ <;> by_cases hts : t = s
    · subst hts; simpa using Node.Reachable.init c
    · simpa [Function.update_of_ne hts] using hs.reachable t
    · subst hts; simpa [Node.init] using ⟨hsame, hplain⟩
    · simpa [Function.update_of_ne hts] using hs.same t
    · subst hts; simpa using Node.facing_init c _ _ _
    · simpa [Function.update_of_ne hts] using hs.facing t
  · have hstep : Meeting.Step (meeting net cfg d) (.lose s)
        { (meeting net cfg d).turn s (.unknown, false) [] with
          enters := Function.update (meeting net cfg d).enters s 0 } := .lose s 0 (by simp)
    convert hstep using 1
    unfold meeting Meeting.turn
    simp only [Meeting.mk.injEq]
    refine ⟨funext fun t => ?_, funext fun t => ?_, funext fun t => ?_⟩ <;> by_cases hts : t = s
    · subst hts; simp [Node.view, Node.init, Dict.contains]
    · simp [Function.update_of_ne hts]
    · subst hts; simp [Meeting.said]
    · simp [Function.update_of_ne hts]
    · subst hts; simp [Node.enters, Node.init]
    · simp [Function.update_of_ne hts]

end Acts

/-- Two nodes simulate two parties. -/
theorem simulates (hp : Pair net cfg) {d d' : Duo} (hs : Sound net cfg d) {env : Env} {a : Act}
    (hsv : Serves net cfg d env a) (h : d.act net env a = .ok d') : Sound net cfg d' ∧
      ∃ b, a.Shows b ∧ Meeting.Step (meeting net cfg d) b (meeting net cfg d') := by
  cases a with
  | beacon s =>
    obtain ⟨hs', hm⟩ := simulates_beacon hp hs hsv h
    exact ⟨hs', _, rfl, hm⟩
  | dial s =>
    obtain ⟨hs', hm⟩ := simulates_dial hp hs hsv h
    exact ⟨hs', _, rfl, hm⟩
  | deliver s => exact simulates_deliver hp hs hsv h
  | join s g =>
    obtain ⟨hs', hm⟩ := simulates_books hp hs (by decide) hsv.succeeds.lossless
      (.command (.join g)) (Node.moves_joinGroup env (d.node s) g) h
    exact ⟨hs', _, rfl, hm⟩
  | leave s g =>
    obtain ⟨hs', hm⟩ := simulates_books hp hs (by decide) hsv.succeeds.lossless
      (.command (.leave g)) (Node.moves_leaveGroup env (d.node s) g.raw) h
    exact ⟨hs', _, rfl, hm⟩
  | reap s => exact simulates_reap hp hs hsv h
  | restart s c =>
    obtain ⟨hs', hm⟩ := simulates_restart hs hsv h
    exact ⟨hs', _, rfl, hm⟩

/-- The acts of a run are shown by those of an abstract run, one by one. -/
theorem Run.simulates (hp : Pair net cfg) {P : Duo → Env → Act → Prop}
    (hP : ∀ d env a, P d env a → Serves net cfg d env a) {d d' : Duo} {as : List Act}
    (h : Run net P d as d') (hs : Sound net cfg d) : Sound net cfg d' ∧
      ∃ bs, List.Forall₂ Act.Shows bs as ∧ Meeting.Run (meeting net cfg d) bs (meeting net cfg d') := by
  induction h with
  | start => exact ⟨hs, [], List.Forall₂.nil, Meeting.Run.start⟩
  | step hr hpe hact ih =>
    obtain ⟨hs1, bs, hbs, hrun⟩ := ih
    obtain ⟨hs2, b, hb, hstep⟩ := Duo.simulates hp hs1 (hP _ _ _ hpe) hact
    exact ⟨hs2, bs ++ [b], List.rel_append hbs (List.Forall₂.cons hb List.Forall₂.nil),
      Meeting.Run.step hrun hstep⟩

end

end Duo

end Zre
