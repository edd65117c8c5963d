import Zre.Conversation
import Zre.Proofs.Replication

/-!
# Proofs: the conversation of two applications

What a node hands over says exactly what its commands say, and each frame that a ready peer receives is reported
once. Nothing comes in between: so what was reported and what is on the way are together what was said.
-/

namespace Zre

open Fallible

namespace Handed

theorem saying_of_decode {h : Handed} {frame : Bytes} {more : List Bytes} {m : Msg} (hf : h.frames = frame :: more)
    (hd : Codec.decode frame = .ok (some m)) : h.saying = m.saying more := by
  unfold saying
  rw [(msg_eq_some hf).2 hd, hf]
  rfl

/-- Frames other than whispers and shouts say what is news. -/
theorem saying_of_quiet {h : Handed} (hw : ¬ h.Is Cmd.whisper) (hs : ¬ h.Is Cmd.shout) :
    h.saying = h.news.bind News.saying := by
  unfold saying news
  cases hm : h.msg with
  | none => rfl
  | some m =>
    obtain ⟨his, hfields⟩ := is_of_msg hm
    have hcmd : m.cmd ≠ Cmd.whisper := fun e => hw (e ▸ his)
    rw [Option.bind_some, Option.bind_some, Msg.saying, if_neg hcmd]
    cases hf : m.fields with
    | group g =>
      rw [hf] at hfields
      exact absurd (hfields.1 ▸ his) hs
    | none | hello | groupStatus | election => rfl

/-- A HELLO, an answer to a PING or a frame of an election. -/
def Mute (h : Handed) : Prop := h.Is Cmd.hello ∨ Node.Answer h

theorem Mute.saying {h : Handed} (hm : h.Mute) : h.saying = none := by
  rcases hm with hc | (hc | hc) | hc
  · rw [saying_of_quiet (not_is hc (by decide)) (not_is hc (by decide))]
    unfold news
    cases hm : h.msg with
    | none => rfl
    | some m =>
      obtain ⟨his, hfields⟩ := is_of_msg hm
      rw [Option.bind_some]
      unfold Msg.news
      cases hf : m.fields with
      | groupStatus g status =>
        rw [hf] at hfields
        rcases hfields.1 with hj | hj <;> rw [hj] at his
        · exact absurd his (not_is hc (by decide))
        · exact absurd his (not_is hc (by decide))
      | none | hello | group | election => rfl
  all_goals
    rw [saying_of_quiet (not_is hc (by decide)) (not_is hc (by decide)), news_of_plain (plain_of_is hc (by decide))]
    rfl

end Handed

namespace Node

/-! ## What is said -/

/-- What the node hands over says `us` to the application of the other node. -/
def Utters (net : Net) (t : Bool) (us : List Saying) (n n' : Node) : Prop :=
  ∃ l, n'.outbox = n.outbox ++ l ∧ gist Handed.saying net t l = us

section Utters

variable {env : Env} {net : Net} {t : Bool} {x : Str} {n n' : Node}

theorem gist_mute {l : List Handed} (h : ∀ f ∈ l, f.Mute) : gist Handed.saying net t l = [] :=
  List.filterMap_eq_nil_iff.2 fun f hf => (h f (List.mem_filter.1 hf).1).saying

theorem gist_quiet {l : List Handed} (h : ∀ f ∈ l, ¬ f.Is Cmd.whisper ∧ ¬ f.Is Cmd.shout) :
    gist Handed.saying net t l = (Node.heard net t l).filterMap News.saying := by
  unfold Node.heard gist
  rw [List.filterMap_filterMap]
  refine List.filterMap_congr fun f hf => ?_
  obtain ⟨hw, hs⟩ := h f (List.mem_filter.1 hf).1
  exact Handed.saying_of_quiet hw hs

theorem utters_mute {allow : Kind → Prop} {hands : Handed → Prop} (hh : ∀ f, hands f → f.Mute)
    (h : Moves allow hands n n') : Utters net t [] n n' := by
  obtain ⟨l, hout, hall⟩ := h.outbox
  exact ⟨l, hout, gist_mute fun f hf => hh f (hall f hf)⟩

theorem mute_of_ownHello {f : Handed} (h : n.OwnHello f) : f.Mute := Or.inl (Handed.news_of_ownHello h).2

theorem handleBeacon_utters (ht : Tables n) (data : Bytes) (host : Str) :
    Ensures (n.handleBeacon env data host) (Utters net t [] n) :=
  (moves_handleBeacon env ht data host).mono fun _ hm =>
    utters_mute (fun _ hf => hf.elim mute_of_ownHello fun he => Or.inr (Or.inl he)) hm

theorem handlePeerMsg_utters (ht : Tables n) (frames : List Bytes) :
    Ensures (n.handlePeerMsg env frames) (Utters net t [] n) := by
  intro n' hn'
  rcases handlePeerMsg_cases env n frames n' hn' with
    rfl | ⟨uuid, msg, extra, -, ⟨h, -, hh⟩ | ⟨-, r, hk, -, hh⟩⟩
  · exact ⟨[], by simp, rfl⟩
  · obtain ⟨hm0, -, -⟩ := moves_resetSeq anything (fun _ => False) n (hex uuid)
    obtain ⟨l0, hout0, hall0⟩ := hm0.outbox
    obtain rfl := List.eq_nil_iff_forall_not_mem.2 hall0
    obtain ⟨l, hout, hl⟩ := utters_mute
      (fun f (hf : Greeting _ _ f) => hf.elim (fun hx => mute_of_ownHello hx.2) fun he => Or.inr (Or.inl he))
      (moves_handleHello env (hm0.invariant Tables.move ht) _ h _ n' hh)
    exact ⟨l, by rw [hout, hout0, List.append_nil], hl⟩
  · exact utters_mute (fun _ hf => Or.inr hf) (moves_handleTraffic env ht hk msg extra n' hh)

/-- A change of the groups, which the entry of the other node is told. -/
theorem Alters.utters {v : News} {own : List Bytes} {allow : Kind → Prop} {hands : Handed → Prop}
    (h : Alters net t x v own n n') (hm : Moves allow hands n n')
    (hq : ∀ f, hands f → ¬ f.Is Cmd.whisper ∧ ¬ f.Is Cmd.shout) (hk : n.peers.get x ≠ none) :
    Utters net t v.saying.toList n n' := by
  obtain ⟨l, hout, hheard⟩ := h.outbox
  obtain ⟨l', hout', hall⟩ := hm.outbox
  obtain rfl := List.append_cancel_left (hout.symm.trans hout')
  obtain ⟨r, hr⟩ := Option.ne_none_iff_exists'.1 hk
  refine ⟨l, hout, ?_⟩
  rw [gist_quiet fun f hf => hq f (hall f hf), hheard, hr]
  cases hv : v.saying <;> simp [hv]

theorem joinGroup_utters (hl : env.Lossless) (hc : n.Contact x (net.leads t)) (ht : Tables n) (hlinks : Links n)
    (hk : n.peers.get x ≠ none) (g : WireString) :
    Ensures (n.joinGroup env g.raw) (Utters net t (n.utters x (.join g)) n) := by
  intro n' hn'
  by_cases hg : g.raw ∈ n.ownGroups
  · rw [joinGroup, if_pos hg] at hn'
    cases hn'
    exact ⟨[], by simp, by simp [utters, hg, gist]⟩
  · have h := (joinGroup_alters hl hc ht hlinks hg n' hn').utters (moves_joinGroup env n g n' hn')
      (fun f hf => ⟨Handed.not_is hf (by decide), Handed.not_is hf (by decide)⟩) hk
    have hsame : (News.join g.raw ((n.status + 1) % 256)).saying.toList = n.utters x (.join g) := by
      unfold News.saying utters
      by_cases hne : g.raw = [] <;> simp [hg, hne]
    exact hsame ▸ h

theorem leaveGroup_utters (hl : env.Lossless) (hc : n.Contact x (net.leads t)) (ht : Tables n) (hlinks : Links n)
    (hk : n.peers.get x ≠ none) (g : WireString) :
    Ensures (n.leaveGroup env g.raw) (Utters net t (n.utters x (.leave g)) n) := by
  intro n' hn'
  by_cases hg : g.raw ∈ n.ownGroups
  · have h := (leaveGroup_alters hl hc ht hlinks hg n' hn').utters (moves_leaveGroup env n g.raw n' hn')
      (fun f hf => ⟨Handed.not_is hf (by decide), Handed.not_is hf (by decide)⟩) hk
    have hsame : (News.leave g.raw ((n.status + 1) % 256)).saying.toList = n.utters x (.leave g) := by
      unfold News.saying utters
      by_cases hne : g.raw = [] <;> simp [hg, hne]
    exact hsame ▸ h
  · rw [leaveGroup, if_pos hg] at hn'
    cases hn'
    exact ⟨[], by simp, by simp [utters, hg, gist]⟩

/-- A frame of a whisper or a shout says what it was made of. -/
theorem saying_of_simple {cmd : UInt8} {group : Option Bytes} (fields : Fields) {payload : Bytes} {v : Saying}
    (hsuits : Codec.Suits cmd fields)
    (henc : ∀ seq, Codec.encodeSimple cmd seq group none = Codec.encodeMessage ⟨cmd, zreVersion, seq, fields⟩)
    (hv : ∀ seq, Msg.saying ⟨cmd, zreVersion, seq, fields⟩ [payload] = some v) (seq : ℕ) (frame : Bytes)
    (dealer : Dealer) (outcome : SendOutcome) (h : Codec.encodeSimple cmd seq group none = .ok frame) :
    Handed.saying ⟨dealer, [frame, payload], outcome⟩ = some v := by
  rw [henc] at h
  exact (Handed.saying_of_decode rfl (Codec.decode_encoded fields hsuits h).1).trans (hv seq)

/-- The entry of the other node is reached, and no other entry. -/
theorem reaches_iff (hc : n.Contact x (net.leads t)) {k : Str} {r : Ref} (hk : n.peers.get k = some r) :
    n.reaches net t r = true ↔ k = x := by
  unfold reaches
  constructor
  · intro h
    exact hc.sole k r hk (Bool.and_eq_true_iff.1 h).2
  · rintro rfl
    obtain ⟨hlead, hconn⟩ := hc.home r hk
    rw [hlead, hconn]
    rfl

/-- A whisper gets onto the link where it is for the other node. -/
theorem doWhisper_utters (hl : env.Lossless) (hc : n.Contact x (net.leads t)) (hlinks : Links n)
    (hk : n.peers.get x ≠ none) (peerHex payload : Bytes) :
    Ensures (n.doWhisper env peerHex payload) (Utters net t (n.utters x (.whisper peerHex payload)) n) := by
  intro n' hn'
  obtain ⟨peerId, hid, hn'⟩ := bind_eq_ok_iff.1 hn'
  have hus : n.utters x (.whisper peerHex payload) = if peerId = x then [.whisper payload] else [] := by
    simp [utters, hid, Except.toOption]
  rw [hus]
  cases hp : n.peers.get peerId with
  | none =>
    rw [hp] at hn'
    cases hn'
    rw [if_neg fun e : peerId = x => hk (e ▸ hp)]
    exact ⟨[], by simp, rfl⟩
  | some r =>
    simp only [hp] at hn'
    have hreach := reaches_iff hc hp
    split at hn'
    · obtain ⟨l, hout, hgist⟩ := sendCmd_gist (v := .whisper payload) hl hlinks r
        (saying_of_simple .none ⟨by decide, by decide, by decide⟩ (fun _ => rfl) fun _ => rfl) n' hn'
      exact ⟨l, hout, by rw [hgist, if_congr hreach rfl rfl]⟩
    · rename_i hconn
      cases hn'
      refine ⟨[], by simp, ?_⟩
      rw [if_neg]
      · rfl
      · rintro rfl
        exact hconn (hc.home r hp).2

/-- A shout gets onto the link where the other node is in the table of the group. -/
theorem doShout_utters (hl : env.Lossless) (hc : n.Contact x (net.leads t)) (ht : Tables n) (hlinks : Links n)
    (g : WireString) (payload : Bytes) :
    Ensures (n.doShout env g.raw payload) (Utters net t (n.utters x (.shout g payload)) n) := by
  unfold doShout
  cases hg : n.groups.get g.raw with
  | none => exact Ensures.ok ⟨[], by simp, by simp [utters, member, hg, gist]⟩
  | some group =>
    have hread : ∀ seq frame dealer outcome, Codec.encodeSimple Cmd.shout seq (some g.raw) none = .ok frame →
        Handed.saying ⟨dealer, [frame, payload], outcome⟩ = some (.shout (bdec g.raw) payload) :=
      saying_of_simple (.group g.raw) rfl (fun _ => rfl) fun _ => rfl
    have hsend : ∀ (m : Node) (r : Ref), Links m → Ensures
        (if (m.obj r).connected then
          m.sendEncoded env r (fun seq => Codec.encodeSimple Cmd.shout seq (some g.raw) none) [payload] >>=
            fun sent => .ok sent.2
        else .ok m) fun m' => Talk env.Lossless anything m m' ∧ ∃ l, m'.outbox = m.outbox ++ l ∧
          gist Handed.saying net t l = if m.reaches net t r then [.shout (bdec g.raw) payload] else [] := by
      intro m r hm
      split
      · exact ((talk_sendEncoded env m r fun _ _ _ _ _ => trivial).and (sendEncoded_gist hl hm r hread)).bind
          fun _ h => Ensures.ok h
      · rename_i hconn
        refine Ensures.ok ⟨Talk.refl _ _ m, [], by simp, ?_⟩
        have hno : m.reaches net t r = false := by simp [reaches, hconn]
        rw [hno]
        rfl
    refine (sends_gist hl hlinks hsend (n.group g.raw).peers.values).mono fun n' hn' => ?_
    obtain ⟨l, hout, hgist⟩ := hn'
    refine ⟨l, hout, ?_⟩
    have hmember : ∀ k r, (n.group g.raw).peers.get k = some r → n.peers.get k = some r := fun k r hr =>
      ((ht.member g.raw k r).1 ((member_eq n g.raw k).trans hr)).1
    rw [hgist, filter_reaches ht hc hmember, ← member_eq]
    cases hm : n.member g.raw x <;> simp [utters, hm]

theorem runCommand_utters (hl : env.Lossless) (hn : n.Reachable) (hc : n.Contact x (net.leads t))
    (hk : n.peers.get x ≠ none) (c : Command) : Ensures (n.runCommand env c) (Utters net t (n.utters x c) n) := by
  cases c with
  | join g => exact joinGroup_utters hl hc hn.tables hn.links hk g
  | leave g => exact leaveGroup_utters hl hc hn.tables hn.links hk g
  | whisper peerHex payload => exact doWhisper_utters hl hc hn.links hk peerHex payload
  | shout g payload => exact doShout_utters hl hc hn.tables hn.links g payload
  | connect host port =>
    exact (moves_doConnect env n host port).mono fun _ hm => utters_mute (fun _ => mute_of_ownHello) hm

end Utters

/-! ## What is heard -/

section Hearing

variable {env : Env} {n n' : Node} {y : Str}

theorem heardFrom_report (n : Node) (y : Str) : n.heardFrom y = n.report.filterMap (Event.saying y) := by
  unfold heardFrom report
  rw [List.filterMap_filter]
  refine List.filterMap_congr fun e _ => ?_
  cases e <;> rfl

/-- The event of a message says what the message says. -/
theorem told_saying {msg : Msg} (hf : Codec.FieldsOf msg.cmd msg.fields) (name : Str) (extra : List Bytes) :
    (told y name msg extra).filterMap (Event.saying y) = (msg.saying extra).toList := by
  unfold told Msg.saying
  by_cases hw : msg.cmd = Cmd.whisper
  · simp [hw, Event.saying]
  rw [if_neg hw, if_neg hw]
  cases hfields : msg.fields with
  | group g =>
    rw [hfields] at hf
    simp [hf.1, Event.saying, Cmd.shout, Cmd.goodbye, Cmd.ping, Cmd.pingOk]
  | groupStatus g status =>
    rw [hfields] at hf
    rcases hf.1 with hc | hc <;> by_cases hg : g = [] <;>
      simp [hc, hg, Event.saying, Msg.news, News.saying, hfields, Cmd.goodbye, Cmd.ping, Cmd.pingOk, Cmd.join,
        Cmd.leave]
  | none | hello | election =>
    simp only [Msg.news, hfields]
    split
    · rfl
    split <;> rfl

/-- The HELLO of a peer that is ready is not reported. -/
theorem handleHello_live {r : Ref} (hk : n.peers.get y = some r) (hr : (n.obj r).ready = true) (h : HelloFields) :
    Ensures (n.handleHello env y h (n.peers.get y)) fun n' => n'.report = n.report := by
  unfold handleHello
  split
  · exact Ensures.ok rfl
  split
  · split
    · exact Ensures.ok rfl
    · exact Ensures.error
  split
  · exact Ensures.ok rfl
  simp only [hk, hr]
  exact Ensures.ok rfl

/-- A frame of a ready peer is reported. -/
theorem handlePeerMsg_heardFrom (ht : Tables n) {rid uuid : Bytes} (hu : routingUuid rid = some uuid)
    (hready : (n.groupsOf (hex uuid)).isSome) (f : Handed) :
    Ensures (n.handlePeerMsg env (rid :: f.frames)) fun n' =>
      n'.heardFrom (hex uuid) = n.heardFrom (hex uuid) ++ f.saying.toList := by
  obtain ⟨r, hk, hr⟩ : ∃ r, n.peers.get (hex uuid) = some r ∧ (n.obj r).ready = true := by
    cases hk : n.peers.get (hex uuid) with
    | none => simp [groupsOf_none hk] at hready
    | some r =>
      rw [groupsOf_some hk] at hready
      exact ⟨r, rfl, by by_contra hr; simp [hr] at hready⟩
  intro n' hn'
  simp only [heardFrom_report]
  cases hframes : f.frames with
  | nil =>
    rw [hframes] at hn'
    cases hn'
    simp [Handed.saying, Handed.msg, hframes]
  | cons data extra =>
    rw [hframes] at hn'
    cases hd : Codec.decode data with
    | error e =>
      unfold handlePeerMsg at hn'
      simp [hu, hd] at hn'
    | ok o =>
      cases o with
      | none =>
        unfold handlePeerMsg at hn'
        simp only [hu, hd, bind_ok] at hn'
        cases hn'
        simp [Handed.saying, Handed.msg, hframes, hd, Except.toOption]
      | some msg =>
        have hfields := (Codec.decode_fields hd).2
        rw [Handed.saying_of_decode hframes hd]
        by_cases hhello : ∃ h, msg.fields = .hello h
        · obtain ⟨h, hf⟩ := hhello
          rw [handlePeerMsg_hello env hu hd hf] at hn'
          have hreset : n.resetSeq (hex uuid) = n.setObj r { n.obj r with wantSeq := 1 } := by
            unfold resetSeq
            rw [hk]
          have hr' : ((n.resetSeq (hex uuid)).obj r).ready = true := by rw [hreset, setObj_obj_self]; exact hr
          have hp' : (n.resetSeq (hex uuid)).peers = n.peers := by rw [hreset]; rfl
          rw [← hp'] at hn' hk
          rw [handleHello_live hk hr' h n' hn', hreset]
          rw [hf] at hfields
          simp [Msg.saying, hf, hfields.1, Cmd.hello, Cmd.whisper, Msg.news, News.saying, report, setObj]
        · push Not at hhello
          rw [handlePeerMsg_traffic env hu hd hhello hk hr] at hn'
          obtain ⟨name, hreport⟩ := handleTraffic_report (ht.key _ r hk) msg extra n' hn'
          rw [hreport, List.filterMap_append, told_saying hfields]

end Hearing

end Node

/-! ## Two nodes -/

namespace Duo

variable {net : Net} {d₀ d d' : Duo} {s : Bool}

theorem Kept.across (h : Kept net d₀ d) (s : Bool) : d.across s = d₀.across s := by
  unfold Duo.across
  rw [h.cfg]

section Took

variable {env : Env} {a : Deed} {t : Bool} {n' : Node} {f : Option Handed} {rest : List Handed}

/-- Only the node whose deed it is says something. -/
theorem Took.other (h : Took d env t n' a f rest) : d.utters (!t) a = [] := by
  have hne : t ≠ !t := by cases t <;> decide
  cases h with
  | beacon | idle | deliver => rfl
  | command => exact if_neg hne

theorem Took.utters (h : Took d env t n' a f rest) (hkept : Kept net d₀ d) (hc : Connects net d env a)
    (hk : (d.node t).peers.get (d₀.across t) ≠ none) : Node.Utters net t (d.utters t a) (d.node t) n' := by
  have hn := hkept.reachable t
  cases h with
  | beacon _ h => exact Node.handleBeacon_utters hn.tables _ _ n' h
  | idle _ h => exact ⟨[], by simp [h], rfl⟩
  | deliver _ h => exact Node.handlePeerMsg_utters hn.tables _ n' h
  | @command c h =>
    have hsame : d.utters t (.command t c) = (d.node t).utters (d₀.across t) c := by
      rw [← hkept.across]
      exact if_pos rfl
    rw [hsame]
    exact Node.runCommand_utters hc.1 hn (hkept.contact t) hk c n' h

theorem Took.hears (h : Took d env t n' a f rest) (hkept : Kept net d₀ d) (hap : Apart d₀)
    (hready : ((d.node t).groupsOf (d₀.across t)).isSome) :
    n'.heardFrom (d₀.across t) = (d.node t).heardFrom (d₀.across t) ++ (f.bind Handed.saying).toList := by
  have hn := hkept.reachable t
  have hnone : ∀ {m : Node}, m.report = (d.node t).report →
      m.heardFrom (d₀.across t) = (d.node t).heardFrom (d₀.across t) ++ [] := fun h => by
    rw [Node.heardFrom_report, h, ← Node.heardFrom_report, List.append_nil]
  cases h with
  | @beacon host data hdata h =>
    have hport : d.port (!t) ≠ 0 := by
      unfold Duo.port
      rw [hkept.cfg]
      exact Nat.pos_iff_ne_zero.1 (hap.port _)
    change (d.node t).handleBeacon env data host = .ok n' at h
    rcases Node.handleBeacon_built env (d.node t) hdata host with hsame | ⟨key, haccept⟩
    · rw [hsame] at h
      exact hnone (by cases h; rfl)
    · rw [haccept] at h
      exact hnone (Node.acceptBeacon_report _ hport _ _ n' h)
  | idle _ h => exact hnone (by rw [h])
  | deliver _ h =>
    rw [← hkept.across] at hready ⊢
    exact Node.handlePeerMsg_heardFrom hn.tables (Node.routingUuid_cons (d.node !t).cfg.peerId_length) hready _ n' h
  | command h => exact hnone (Node.runCommand_report _ n' h)

end Took

/-- What gets onto the link of `t` is what it says. -/
theorem put_unheard {t : Bool} {n' : Node} {l rest : List Handed} (hout : n'.outbox = (d.node t).outbox ++ l) :
    ((d.pop (!t) rest).put net t n').unheard t = d.unheard t ++ Node.gist Handed.saying net t l ∧
      ((d.pop (!t) rest).put net t n').unheard (!t) = rest.filterMap Handed.saying := by
  constructor
  · simp [unheard, put, pop, hout, Node.gist]
  · simp [unheard, put, pop]

/-- One deed: what it says goes onto the link, and what is received from the link is reported. -/
theorem Kept.exchanges (h : Kept net d₀ d) (hap : Apart d₀) {env : Env} {a : Deed} (hc : Connects net d env a)
    (hs : d.deed net env a = .ok d') (hj : d.Joined s) :
    d'.Joined s ∧ d'.reported s ++ d'.unheard s = d.reported s ++ d.unheard s ++ d.utters s a := by
  have hkept' := (h.deed hap hc hs).1
  obtain ⟨t, n', f, rest, htook, rfl⟩ := deed_took hs
  obtain ⟨vs, hturn⟩ := htook.turn (K := ∅) h hap hc
  have hself : ((d.pop (!t) rest).put net t n').node t = n' := by simp [put]
  have hother : ((d.pop (!t) rest).put net t n').node (!t) = d.node !t := by simp [put, pop]
  unfold Joined record at hj ⊢
  unfold reported
  simp only [hkept'.across, h.across] at hj ⊢
  obtain ⟨hk, hready⟩ := hj
  by_cases hst : s = t
  · subst hst
    obtain ⟨l, hout, hus⟩ := htook.utters h hc hk
    rw [hself, hother, (put_unheard hout).1, hus, List.append_assoc]
    exact ⟨⟨hturn.entry hk, hready⟩, rfl⟩
  · obtain rfl := Bool.eq_not_of_ne hst
    obtain ⟨l, hout, -⟩ := hturn.outbox
    rw [Bool.not_not] at hready ⊢
    have hunheard : d.unheard (!t) = (f.bind Handed.saying).toList ++ rest.filterMap Handed.saying := by
      unfold unheard
      rw [htook.link, List.filterMap_append]
      cases f with
      | none => rfl
      | some f => cases hf : f.saying <;> simp [hf]
    rw [hself, hother, (put_unheard hout).2, htook.hears h hap hready, htook.other, hunheard, List.append_nil,
      List.append_assoc]
    exact ⟨⟨hk, hturn.copies.keeps hready⟩, rfl⟩

/-- Several deeds. -/
theorem Kept.exchange (h : Kept net d₀ d) (hap : Apart d₀) (hj : d.Joined s) {past : List (Duo × Deed)}
    (hrun : Deeds net (Connects net) d past d') :
    d'.reported s ++ d'.unheard s = d.reported s ++ d.unheard s ++ uttered s past := by
  have hall : Kept net d₀ d' ∧ d'.Joined s ∧
      d'.reported s ++ d'.unheard s = d.reported s ++ d.unheard s ++ uttered s past := by
    induction hrun with
    | start => exact ⟨h, hj, by simp [uttered]⟩
    | step _ hp hs ih =>
      obtain ⟨hkept, hj1, hsame⟩ := ih
      obtain ⟨hj2, hstep⟩ := hkept.exchanges hap hp hs hj1
      refine ⟨(hkept.deed hap hp hs).1, hj2, ?_⟩
      rw [hstep, hsame]
      simp [uttered]
  exact hall.2.2

/-- Two nodes that did not know each other, and a state in which `s` has the other one in its peer table and is ready
there: however beacons, dials, commands and deliveries go on from it, what the other node passes to `_emit` about `s`
is what `s` says, in this order, each once, but for what is still on the way. -/
theorem Unmet.converses (h : Unmet net d₀) {past past' : List (Duo × Deed)}
    (hrun : Deeds net (Connects net) d₀ past d) (hj : d.Joined s) (hrun' : Deeds net (Connects net) d past' d') :
    d'.reported s ++ d'.unheard s = d.reported s ++ d.unheard s ++ uttered s past' :=
  (h.keeps hrun).exchange h.isApart hj hrun'

/-- Who is in the table of a group is recorded with the group. -/
theorem member_isSome {n : Node} (ht : Tables n) {x : Str} {gs : List Bytes} (hgs : n.groupsOf x = some gs)
    (g : Bytes) : (n.member g x).isSome ↔ g ∈ gs := by
  cases hk : n.peers.get x with
  | none => rw [Node.groupsOf_none hk] at hgs; cases hgs
  | some r =>
    rw [Node.groupsOf_some hk] at hgs
    split at hgs <;> cases hgs
    rw [Option.isSome_iff_exists]
    constructor
    · rintro ⟨r', hr'⟩
      obtain ⟨hk', hg⟩ := (ht.member g x r').1 hr'
      rw [hk] at hk'
      cases hk'
      exact hg
    · intro hg
      exact ⟨r, (ht.member g x r).2 ⟨hk, hg⟩⟩

/-- A shout is passed to `_emit` at the other node if that is in the group, and else it is not; where `s` has heard
all that the other node has told about its groups. -/
theorem Unmet.shout_reaches (h : Unmet net d₀) {past past' : List (Duo × Deed)} {d₁ : Duo} {env : Env} {g : WireString}
    {payload : Bytes} (hrun : Deeds net (fun d env a => Connects net d env a ∧ Tells d (!s) a) d₀ past d)
    (hj : d.Joined s) (hknown : (d.record !s).isSome) (hquiet : d.link (!s) = []) (hl : ∀ i, env.send i = .sent)
    (hs : d.deed net env (.command s (.shout g payload)) = .ok d₁) (hrun' : Deeds net (Connects net) d₁ past' d') :
    d'.reported s ++ d'.unheard s = d.reported s ++ d.unheard s ++
      (if g.raw ∈ (d.node !s).ownGroups then [.shout (bdec g.raw) payload] else []) ++ uttered s past' := by
  obtain ⟨hkept, hm⟩ := h.runs hrun.tells
  obtain ⟨gs, hgs⟩ := Option.isSome_iff_exists.1 hknown
  have hrecord : ∀ g, g ∈ gs ↔ g ∈ (d.node !s).ownGroups := fun g =>
    hm.settled hkept hquiet hgs (Set.mem_univ g)
  have hutters : d.utters s (.command s (.shout g payload)) =
      if g.raw ∈ (d.node !s).ownGroups then [.shout (bdec g.raw) payload] else [] := by
    unfold record at hgs
    rw [Bool.not_not] at hgs
    refine (if_pos rfl).trans (if_congr ?_ rfl rfl)
    rw [member_isSome (hkept.reachable s).tables hgs, hrecord]
  have hconnects : Connects net d env (.command s (.shout g payload)) := ⟨hl, trivial⟩
  obtain ⟨hj₁, hstep⟩ := hkept.exchanges h.isApart hconnects hs hj
  rw [(hkept.deed h.isApart hconnects hs).1.exchange h.isApart hj₁ hrun', hstep, hutters]

/-! ## A sample -/

/-- The sample nodes after node `true` has shouted into the group, and after the shout has arrived. -/
def sampleShouted : Duo :=
  (sampleAfter 5).did sampleNet (Env.calm 0) (.command true (.shout sampleGroup [0x68, 0x69]))

def sampleHeard : Duo := sampleShouted.did sampleNet (Env.calm 0) (.deliver false)

theorem sample_shouts :
    (sampleAfter 5).deed sampleNet (Env.calm 0) (.command true (.shout sampleGroup [0x68, 0x69])) = .ok sampleShouted :=
  deed_did (by decide +kernel)

theorem sample_hears : sampleShouted.deed sampleNet (Env.calm 0) (.deliver false) = .ok sampleHeard :=
  deed_did (by decide +kernel)

theorem sample_delivers : Connects sampleNet sampleShouted (Env.calm 0) (.deliver false) :=
  (sample_deliver (by decide +kernel) false).1

theorem sample_joined : (sampleAfter 5).Joined true := by
  refine ⟨?_, by decide +kernel⟩
  have hk : ((sampleAfter 5).node true).peers.get ((sampleAfter 5).across true) = some 0 := by decide +kernel
  rw [hk]
  simp

theorem sample_converses :
    sampleHeard.unheard true = [] ∧ sampleHeard.reported true ++ sampleHeard.unheard true =
      (sampleAfter 5).reported true ++ (sampleAfter 5).unheard true ++
        uttered true [(sampleAfter 5, .command true (.shout sampleGroup [0x68, 0x69])),
          (sampleShouted, .deliver false)] := by
  obtain ⟨past, hrun⟩ := sample_run
  have hconnects : Deeds sampleNet (Connects sampleNet) samplePair past (sampleAfter 5) :=
    hrun.mono fun _ _ _ => And.left
  have hshout : Connects sampleNet (sampleAfter 5) (Env.calm 0) (.command true (.shout sampleGroup [0x68, 0x69])) :=
    ⟨fun _ => rfl, trivial⟩
  exact ⟨by decide +kernel, samplePair_unmet.converses hconnects sample_joined
    ((Deeds.start.step hshout sample_shouts).step sample_delivers sample_hears)⟩

theorem sample_shout_reaches :
    sampleHeard.unheard true = [] ∧ sampleHeard.reported true ++ sampleHeard.unheard true =
      (sampleAfter 5).reported true ++ (sampleAfter 5).unheard true ++
        (if sampleGroup.raw ∈ ((sampleAfter 5).node !true).ownGroups then
          [.shout (bdec sampleGroup.raw) [0x68, 0x69]] else []) ++
        uttered true [(sampleShouted, .deliver false)] := by
  obtain ⟨past, hrun⟩ := sample_run
  have hknown : ((sampleAfter 5).record !true).isSome := by decide +kernel
  have hquiet : (sampleAfter 5).link (!true) = [] := by decide +kernel
  exact ⟨by decide +kernel, samplePair_unmet.shout_reaches (s := true) hrun sample_joined hknown hquiet (fun _ => rfl)
    sample_shouts (Deeds.start.step sample_delivers sample_hears)⟩

end Duo

end Zre
