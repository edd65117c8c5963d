import Zre.Lib.EchoCalls
import Zre.Proofs.Seats

/-!
# Proofs: the election of a full mesh

Every node has just started an election, and the frames are delivered in any order. The mesh follows `Echo`, step
by step.
-/

namespace Zre

open Fallible

section Mesh

variable {ι : Type} {leads : ι → Dealer → Option ι} {g : Bytes} {uuid : ι → Bytes} {ref : ι → ι → Ref}

/-- The frame is a LEADER. -/
def Handed.IsLeader (h : Handed) : Prop :=
  ∃ frame msg, h.frames = [frame] ∧ Codec.decode frame = .ok (some msg) ∧ msg.cmd = Cmd.leader

/-- The candidate of the group's open election. -/
def Node.Supports (n : Node) (g : Bytes) (id : Str) : Prop := ∃ e, (n.group g).election = some e ∧ e.caw = id

namespace Mesh

/-- The nodes hold each other as connected members of the contested group `g`, and nobody else. -/
structure Fellows (leads : ι → Dealer → Option ι) (g : Bytes) (d : Mesh ι) : Prop where
  distinct : Function.Injective fun i => (d.node i).cfg.peerId
  /-- As in every reachable state. -/
  named : ∀ i, (d.node i).Named
  contest : ∀ i, ((d.node i).group g).contest = true
  joined : ∀ i, g ∈ (d.node i).ownGroups
  meets : ∀ i j, j ≠ i → ∃ r, (d.node i).Meets leads g (d.node j).cfg.peerId i j r
  only : ∀ i p r, (d.node i).member g p = some r → ∃ j, j ≠ i ∧ p = (d.node j).cfg.peerIdHex

/-- From `d₀` to `d` a node has sent a LEADER frame. -/
def Led (d₀ d : Mesh ι) : Prop :=
  ∃ i, ∃ h ∈ (d.node i).outbox.drop (d₀.node i).outbox.length, h.IsLeader

theorem not_led_self (d : Mesh ι) : ¬ d.Led d := by
  rintro ⟨i, x, hx, -⟩
  rw [List.drop_length] at hx
  cases hx

variable [DecidableEq ι]

/-- Every node of `d₀` has just run `_start_election`, and its frames are in flight. -/
structure Begun (leads : ι → Dealer → Option ι) (g : Bytes) (d₀ d : Mesh ι) : Prop where
  start : ∀ i, ∃ env : Env, env.Lossless ∧ (d₀.node i).startElection env g = .ok (d.node i)
  link : ∀ i c, d.link i c =
    ((d.node i).outbox.drop (d₀.node i).outbox.length).filter (carried leads i c)

/-- A handler that returns. -/
theorem feed_yields (leads : ι → Dealer → Option ι) (d : Mesh ι) (i : ι) {handler : Node → Except PyError Node}
    {P : Node → Prop} (hy : Yields (handler (d.node i)) P) : Yields (d.feed leads i handler) fun d' =>
      P (d'.node i) ∧ (∀ j, j ≠ i → d'.node j = d.node j) ∧
        (∀ c, d'.link i c =
          d.link i c ++ ((d'.node i).outbox.drop (d.node i).outbox.length).filter (carried leads i c)) ∧
        ∀ a c, a ≠ i → d'.link a c = d.link a c := by
  unfold feed
  refine hy.bind fun n' hn' => Yields.ok ⟨?_, fun j hj => ?_, fun c => ?_, fun a c ha => ?_⟩
  · simp only [Function.update_self]
    exact hn'
  · exact Function.update_of_ne hj ..
  · simp only [Function.update_self, if_true]
  · exact if_neg ha

/-- The mesh is in the state `s` of an election, which began in `d₀`. -/
structure Follows (leads : ι → Dealer → Option ι) (g : Bytes) (uuid : ι → Bytes) (ref : ι → ι → Ref)
    (d₀ : Mesh ι) (s : Echo.State ι) (d : Mesh ι) : Prop where
  seat : ∀ i, (d.node i).Seat leads g uuid i (ref i)
  tallies : ∀ i, Tallies uuid i ((d.node i).group g).election (s.ballot i)
  link : ∀ i c, List.Forall₂ (Stands g uuid) (s.link i c) (d.link i c)
  self : ∀ i, d.link i i = []
  books : ∀ i x, x ≠ g → ((d.node i).group x).election = ((d₀.node i).group x).election
  outbox : ∀ i, ∃ l, (d.node i).outbox = (d₀.node i).outbox ++ l
  events : ∀ i, ∃ l, (d.node i).events = (d₀.node i).events ++ l ∧ List.Forall₂ (Names g uuid) (s.told i) l

/-- What was sent from `d` to `d'` lies on the links of `s'`. -/
def Sends (g : Bytes) (uuid : ι → Bytes) (s' : Echo.State ι) (d d' : Mesh ι) : Prop :=
  ∀ i, ∃ l, (d'.node i).outbox = (d.node i).outbox ++ l ∧
    ∀ x ∈ l, ∃ c msg, msg ∈ s'.link i c ∧ Stands g uuid msg x

namespace Follows

variable {d₀ d : Mesh ι} {s : Echo.State ι}

theorem take (h : Follows leads g uuid ref d₀ s d) (u i : ι) :
    Follows leads g uuid ref d₀ (s.take u i) (d.take u i) := by
  refine ⟨h.seat, h.tallies, fun a c => ?_, fun j => ?_, h.books, h.outbox, h.events⟩
  · have hlink := h.link a c
    by_cases hac : a = u ∧ c = i
    · simp only [Echo.State.take, Mesh.take, hac, and_self, if_true]
      rw [hac.1, hac.2] at hlink
      have htail := List.forall₂_drop 1 hlink
      rwa [List.drop_one, List.drop_one] at htail
    · simp only [Echo.State.take, Mesh.take, hac, if_false]
      exact hlink
  · have hself := h.self j
    unfold Mesh.take
    simp only []
    split
    · rw [hself]
      rfl
    · exact hself

omit [DecidableEq ι] in
theorem quiet (h : Follows leads g uuid ref d₀ s d) (hq : d.Quiet) : s.Quiet := by
  intro u v
  have hlink := h.link u v
  rw [hq u v] at hlink
  exact List.forall₂_nil_right_iff.1 hlink

/-- A handler of the node `i` does what `R` says. -/
theorem feed (h : Follows leads g uuid ref d₀ s d) {i : ι} {handler : Node → Except PyError Node}
    {R : Echo.State ι → Prop} (honly : ∀ s', R s' → Echo.Only i s s')
    (hy : Yields (handler (d.node i)) fun n' => ∃ s', R s' ∧ Node.Plays leads g uuid i (ref i) s s' (d.node i) n') :
    Yields (d.feed leads i handler) fun d' =>
      ∃ s', R s' ∧ Follows leads g uuid ref d₀ s' d' ∧ Sends g uuid s' d d' := by
  refine (feed_yields leads d i hy).mono ?_
  rintro d' ⟨⟨s', hR, hplays⟩, hnode, hlinki, hlink⟩
  have ho := honly s' hR
  obtain ⟨l, out, hl, hout, hmails⟩ := hplays.outbox
  rw [hl, List.drop_left] at hlinki
  refine ⟨s', hR, ⟨fun j => ?_, fun j => ?_, fun a c => ?_, fun j => ?_, fun j x hx => ?_, fun j => ?_,
    fun j => ?_⟩, fun j => ?_⟩
  · by_cases hj : j = i
    · exact hj ▸ hplays.seat
    · rw [hnode j hj]
      exact h.seat j
  · by_cases hj : j = i
    · exact hj ▸ hplays.tallies
    · rw [hnode j hj, ho.ballot j hj]
      exact h.tallies j
  · by_cases ha : a = i
    · subst ha
      rw [hlinki, hout]
      exact List.rel_append (h.link a c) (hmails.stand c)
    · rw [hlink a c ha, ho.link a c ha]
      exact h.link a c
  · by_cases hj : j = i
    · subst hj
      rw [hlinki, hmails.self, h.self, List.append_nil]
    · rw [hlink j j hj]
      exact h.self j
  · by_cases hj : j = i
    · subst hj
      rw [hplays.books x hx, h.books j x hx]
    · rw [hnode j hj]
      exact h.books j x hx
  · obtain ⟨l0, hl0⟩ := h.outbox j
    by_cases hj : j = i
    · subst hj
      exact ⟨l0 ++ l, by rw [hl, hl0, List.append_assoc]⟩
    · rw [hnode j hj]
      exact ⟨l0, hl0⟩
  · obtain ⟨l0, hl0, hnames0⟩ := h.events j
    by_cases hj : j = i
    · subst hj
      obtain ⟨l1, ws, hl1, hws, hnames⟩ := hplays.events
      rw [hws]
      exact ⟨l0 ++ l1, by rw [hl1, hl0, List.append_assoc], List.rel_append hnames0 hnames⟩
    · rw [hnode j hj, ho.told j hj]
      exact ⟨l0, hl0, hnames0⟩
  · by_cases hj : j = i
    · subst hj
      refine ⟨l, hl, fun x hx => ?_⟩
      obtain ⟨c, msg, hmsg, hstand⟩ := hmails.mem hx
      exact ⟨c, msg, by rw [hout]; exact List.mem_append_right _ hmsg, hstand⟩
    · rw [hnode j hj]
      exact ⟨[], by simp, by simp⟩

variable [Fintype ι] {env : Env} (hl : env.Lossless) (hg : g.length ≤ maxStringBytes)
  (huuid : ∀ j, (uuid j).length = 16) (hinj : Function.Injective uuid)

include hl hg huuid hinj

/-- A frame is delivered. -/
theorem deliver (h : Follows leads g uuid ref d₀ s d) {u i : ι} (hne : d.link u i ≠ []) :
    Yields (d.deliver leads env u i) fun d' =>
      ∃ s', Echo.Receives (fun j => upperHex (uuid j)) u i s s' ∧ Follows leads g uuid ref d₀ s' d' ∧
        Sends g uuid s' d d' := by
  have hui : u ≠ i := by
    rintro rfl
    exact hne (h.self u)
  obtain ⟨x, rest, hx⟩ := List.exists_cons_of_ne_nil hne
  have hlink := h.link u i
  rw [hx] at hlink
  obtain ⟨msg, srest, hstand, -, hs⟩ := List.forall₂_cons_right_iff.1 hlink
  have hhead : (s.link u i).head? = some msg := by rw [hs]; rfl
  unfold Mesh.deliver
  rw [hx]
  simp only [(h.seat u).own]
  refine (h.take u i).feed (R := fun s' => Echo.Receives (fun j => upperHex (uuid j)) u i s s')
    (fun s' hs' => hs'.only) ?_
  refine ((h.seat i).receive hl hg huuid hinj hui (h.tallies i) hstand hhead).mono ?_
  rintro n' ⟨s', hs', hplays⟩
  exact ⟨s', hs', hplays.of_link (fun c => Echo.State.take_link_ne _ _ _ fun e => hui e.1.symm) rfl⟩

end Follows

omit [DecidableEq ι] in
/-- As long as there are waves only, no LEADER frame was sent. -/
theorem Sends.not_led {s' : Echo.State ι} {d₀ d d' : Mesh ι} (h : Sends g uuid s' d d')
    (hout : ∀ i, ∃ l, (d.node i).outbox = (d₀.node i).outbox ++ l) (hno : ¬ d₀.Led d)
    (helect : ∀ u v msg, msg ∈ s'.link u v → ∃ w, msg = .elect w) : ¬ d₀.Led d' := by
  rintro ⟨i, x, hx, hleader⟩
  obtain ⟨l, hl⟩ := hout i
  obtain ⟨l', hl', hnew⟩ := h i
  rw [hl', hl, List.append_assoc, List.drop_left, List.mem_append] at hx
  rcases hx with hx | hx
  · exact hno ⟨i, x, by rw [hl, List.drop_left]; exact hx, hleader⟩
  · obtain ⟨c, msg, hmsg, hstand⟩ := hnew x hx
    obtain ⟨w, rfl⟩ := helect i c msg hmsg
    obtain ⟨frame, seq, hframe, hdecode⟩ := hstand.decode
    obtain ⟨frame', msg', hframe', hdecode', hcmd⟩ := hleader
    cases hframe.symm.trans hframe'
    cases hdecode.symm.trans hdecode'
    exact absurd hcmd (show Cmd.elect ≠ Cmd.leader by decide)

section Election

variable [Fintype ι] {d₀ d : Mesh ι}

/-- When everybody has started, the waves begin. -/
theorem Begun.follows (hb : Begun leads g d₀ d) (hf : Fellows leads g d₀) (hg : g.length ≤ maxStringBytes)
    (hcard : 2 ≤ Fintype.card ι) :
    ∃ ref, Follows leads g (fun i => (d₀.node i).cfg.peerId) ref d₀ .start d ∧ Sends g
      (fun i => (d₀.node i).cfg.peerId) .start d₀ d := by
  choose r hr using hf.meets
  have hseat : ∀ i, (d₀.node i).Seat leads g (fun i => (d₀.node i).cfg.peerId) i
      fun j => if h : j ≠ i then r i j h else 0 := by
    intro i
    refine ⟨rfl, hf.named i, fun j hj => ?_, hf.only i⟩
    rw [dif_pos hj]
    exact hr i j hj
  have hplays : ∀ i, Node.Plays leads g (fun i => (d₀.node i).cfg.peerId) i
      (fun j => if h : j ≠ i then r i j h else 0) .blank .start (d₀.node i) (d.node i) := by
    intro i
    obtain ⟨env, hl, hstart⟩ := hb.start i
    obtain ⟨n', hn', hplays⟩ := (hseat i).startElection hl hg (fun j => (d₀.node j).cfg.peerId_length) hf.distinct
      hcard (hf.contest i) (hf.joined i)
    cases hn'.symm.trans hstart
    exact hplays
  refine ⟨_, ⟨fun i => (hplays i).seat, fun i => (hplays i).tallies, fun i c => ?_, fun i => ?_,
    fun i => (hplays i).books, fun i => ?_, fun i => ?_⟩, fun i => ?_⟩
  · obtain ⟨l, out, hl, hout, hmails⟩ := (hplays i).outbox
    rw [hb.link, hl, List.drop_left, hout]
    exact hmails.stand c
  · obtain ⟨l, out, hl, hout, hmails⟩ := (hplays i).outbox
    rw [hb.link, hl, List.drop_left, hmails.self]
  · obtain ⟨l, out, hl, -⟩ := (hplays i).outbox
    exact ⟨l, hl⟩
  · obtain ⟨l, ws, hl, hws, hnames⟩ := (hplays i).events
    exact ⟨l, hl, hws ▸ hnames⟩
  · obtain ⟨l, out, hl, hout, hmails⟩ := (hplays i).outbox
    refine ⟨l, hl, fun x hx => ?_⟩
    obtain ⟨c, msg, hmsg, hstand⟩ := hmails.mem hx
    exact ⟨c, msg, by rw [hout]; exact List.mem_append_right _ hmsg, hstand⟩

/-- Before the first LEADER frame there are waves only. From the first one on there is a state to look back to,
in which everybody supported `m`. -/
inductive Stage (leads : ι → Dealer → Option ι) (g : Bytes) (uuid : ι → Bytes) (ref : ι → ι → Ref) (m : ι)
    (d₀ d d' : Mesh ι) : Prop where
  | waves {s : Echo.State ι} (hf : Follows leads g uuid ref d₀ s d')
      (hw : Echo.Waving (fun j => upperHex (uuid j)) m s) (hno : ¬ d₀.Led d')
  | calls {s : Echo.State ι} {got : ι → Finset ι} (hf : Follows leads g uuid ref d₀ s d') (hc : Echo.Flood m s got)
      {d1 : Mesh ι} (h1 : Delivers leads d d1) (h2 : Delivers leads d1 d') (hno : ¬ d₀.Led d1)
      (hall : ∀ i, (d1.node i).Supports g (upperHex (uuid m)))

/-- A frame is delivered, and its handler returns. -/
theorem Stage.deliver {ref : ι → ι → Ref} {m : ι} {d' : Mesh ι} (h : Stage leads g uuid ref m d₀ d d')
    (hd : Delivers leads d d') (hg : g.length ≤ maxStringBytes) (huuid : ∀ j, (uuid j).length = 16)
    (hinj : Function.Injective uuid) (hm : ∀ j, upperHex (uuid m) ≤ upperHex (uuid j)) {env : Env}
    (hl : env.Lossless) (u i : ι) :
    ∃ d2, d'.deliver leads env u i = .ok d2 ∧ Stage leads g uuid ref m d₀ d d2 := by
  have hkey : Function.Injective fun j => upperHex (uuid j) := upperHex_injective.comp hinj
  by_cases hne : d'.link u i = []
  · refine ⟨d', ?_, h⟩
    unfold Mesh.deliver
    rw [hne]
  · cases h with
    | @waves s hf hw hno =>
      obtain ⟨d2, hd2, s', hr, hf', hsends⟩ := hf.deliver hl hg huuid hinj hne
      refine ⟨d2, hd2, ?_⟩
      rcases hw.receives hkey hm hr with hw' | ⟨hall, hflood⟩
      · exact .waves hf' hw' (hsends.not_led hf.outbox hno fun u v msg hmsg => hw'.elect hmsg)
      · refine .calls hf' hflood hd (Run.start.step hl ⟨u, i, rfl⟩ hd2) hno fun j => ?_
        obtain ⟨b, hb, hcaw⟩ := hall j
        have ht := hf.tallies j
        rw [hb] at ht
        obtain ⟨e, he, hecaw⟩ := ht.open
        exact ⟨e, he, hecaw.trans (by rw [hcaw])⟩
    | calls hf hc h1 h2 hno hall =>
      obtain ⟨d2, hd2, s', hr, hf', -⟩ := hf.deliver hl hg huuid hinj hne
      obtain ⟨got', hc'⟩ := hc.receives hr
      exact ⟨d2, hd2, .calls hf' hc' h1 (h2.step hl ⟨u, i, rfl⟩ hd2) hno hall⟩

omit [DecidableEq ι] [Fintype ι] in
theorem names_singleton {w : ι} {l : List Event} (h : List.Forall₂ (Names g uuid) [w] l) :
    ∃ e, l = [e] ∧ Names g uuid w e := by
  cases h with
  | cons hname hnil =>
    cases hnil
    exact ⟨_, rfl, hname⟩

theorem Stage.told {ref : ι → ι → Ref} {m : ι} {d' : Mesh ι} (h : Stage leads g uuid ref m d₀ d d') (i : ι) :
    ∃ s, Follows leads g uuid ref d₀ s d' ∧ (s.told i = [] ∨ s.told i = [m]) := by
  cases h with
  | waves hf hw _ => exact ⟨_, hf, Or.inl (hw.told i)⟩
  | calls hf hc _ _ _ _ => exact ⟨_, hf, hc.told i⟩

/-- When no frame is in flight, the calls are over. -/
theorem Stage.quiet {ref : ι → ι → Ref} {m : ι} {d' : Mesh ι} (h : Stage leads g uuid ref m d₀ d d')
    (hkey : Function.Injective fun j => upperHex (uuid j)) (hm : ∀ j, upperHex (uuid m) ≤ upperHex (uuid j))
    (hq : d'.Quiet) (i : ι) :
    ∃ s, Follows leads g uuid ref d₀ s d' ∧ s.ballot i = none ∧ s.told i = [m] := by
  cases h with
  | waves hf hw _ => exact absurd (hf.quiet hq) (hw.not_quiet hkey hm)
  | calls hf hc _ _ _ _ => exact ⟨_, hf, hc.quiet (hf.quiet hq) i⟩

/-- An election that all nodes of a full mesh start at once, where the frames are delivered in any order. Before
the first LEADER frame is sent, everybody supports the node `m` of the lowest uuid. Nobody announces another
leader, or a leader twice, and when no frame is in flight everybody has announced `m` and closed the election.
Every delivery returns. -/
theorem Begun.lowest_leads {g : WireString} {d₀ d d' : Mesh ι} (hcard : 2 ≤ Fintype.card ι)
    (hf : Fellows leads g.raw d₀) (hb : Begun leads g.raw d₀ d) {m : ι}
    (hm : ∀ j, ¬ (d₀.node j).cfg.peerId < (d₀.node m).cfg.peerId) (hd : Delivers leads d d') :
    (d₀.Led d' → ∃ d1, Delivers leads d d1 ∧ Delivers leads d1 d' ∧ ¬ d₀.Led d1 ∧
      ∀ i, (d1.node i).Supports g.raw (upperHex (d₀.node m).cfg.peerId)) ∧
    (∀ i, ∃ l, (d'.node i).events = (d₀.node i).events ++ l ∧ l.length ≤ 1 ∧
      ∀ e ∈ l, ∃ name, e = .leader (d₀.node m).cfg.peerIdHex name (bdec g.raw)) ∧
    (d'.Quiet → ∀ i, (∃ name, (d'.node i).events =
      (d₀.node i).events ++ [.leader (d₀.node m).cfg.peerIdHex name (bdec g.raw)]) ∧
      ((d'.node i).group g.raw).election = none) ∧
    ∀ env : Env, env.Lossless → ∀ s t, ∃ d2, d'.deliver leads env s t = .ok d2 := by
  have huuid : ∀ j, (d₀.node j).cfg.peerId.length = 16 := fun j => (d₀.node j).cfg.peerId_length
  have hlow : ∀ j, upperHex (d₀.node m).cfg.peerId ≤ upperHex (d₀.node j).cfg.peerId := fun j =>
    not_lt.1 fun hlt => hm j ((upperHex_lt_iff _ _).1 hlt)
  have hkey : Function.Injective fun j => upperHex (d₀.node j).cfg.peerId := upperHex_injective.comp hf.distinct
  obtain ⟨ref, hfollows, hsends⟩ := hb.follows hf g.le hcard
  have hwaving : Echo.Waving (fun j => upperHex (d₀.node j).cfg.peerId) m Echo.State.start :=
    Echo.waving_start hcard
  have hstage : Stage leads g.raw (fun j => (d₀.node j).cfg.peerId) ref m d₀ d d' := by
    induction hd with
    | start =>
      have hno := hsends.not_led (fun i => ⟨[], by simp⟩) (not_led_self d₀) fun u v msg hmsg => hwaving.elect hmsg
      exact .waves hfollows hwaving hno
    | @step d1 d2 env a hd hl ha hs ih =>
      obtain ⟨s, t, rfl⟩ := ha
      obtain ⟨d3, hd3, hstage⟩ := ih.deliver hd g.le huuid hf.distinct hlow hl s t
      cases hd3.symm.trans hs
      exact hstage
  refine ⟨fun hled => ?_, fun i => ?_, fun hq i => ?_, fun env hl s t => ?_⟩
  · cases hstage with
    | waves hf' hw hno => exact absurd hled hno
    | @calls s got hf' hc d1 h1 h2 hno hall => exact ⟨d1, h1, h2, hno, hall⟩
  · obtain ⟨s, hf', htold⟩ := hstage.told i
    obtain ⟨l, hl, hnames⟩ := hf'.events i
    refine ⟨l, hl, ?_⟩
    rcases htold with htold | htold
    · rw [htold] at hnames
      cases hnames
      exact ⟨Nat.zero_le 1, by simp⟩
    · rw [htold] at hnames
      obtain ⟨e, rfl, hname⟩ := names_singleton hnames
      exact ⟨le_rfl, fun e' he' => List.mem_singleton.1 he' ▸ hname⟩
  · obtain ⟨s, hf', hclosed, htold⟩ := hstage.quiet hkey hlow hq i
    obtain ⟨l, hl, hnames⟩ := hf'.events i
    have ht := hf'.tallies i
    rw [htold] at hnames
    rw [hclosed] at ht
    obtain ⟨e, rfl, name, rfl⟩ := names_singleton hnames
    refine ⟨⟨name, hl⟩, ?_⟩
    generalize ((d'.node i).group g.raw).election = o at ht
    cases ht
    rfl
  · obtain ⟨d2, hd2, -⟩ := hstage.deliver hd g.le huuid hf.distinct hlow hl s t
    exact ⟨d2, hd2⟩

end Election

/-! ## Three nodes -/

def sampleFirst : Fin 3 := 0

def sampleSecond : Fin 3 := 1

def sampleLast : Fin 3 := 2

/-- The uuids `00…01`, `00…02` and `00…03`. -/
def sampleUuids (i : Fin 3) : Bytes := List.replicate 15 0 ++ [UInt8.ofNat (i + 1)]

theorem sampleUuids_length (i : Fin 3) : (sampleUuids i).length = 16 := rfl

def sampleName (i : Fin 3) : Bytes := [UInt8.ofNat (65 + i)]

theorem sampleName_short (i : Fin 3) : (sampleName i).length ≤ maxStringBytes := by
  rw [sampleName, List.length_singleton]
  decide

/-- What each of them says, as a member of the group `g`. -/
def sampleHellos (i : Fin 3) : List Bytes :=
  [1 :: sampleUuids i, Codec.helloBytes 1 ⟨encodeStr ("tcp://10.0.0.1:400".toList ++ [Char.ofNat (49 + i)]),
    [[0x67]], 1, sampleName i, Dict.empty⟩]

/-- One of them in the contested group `g`, after the HELLO of the others. -/
def sampleSeat (i : Fin 3) : Node :=
  ((List.finRange 3).filter (· ≠ i)).foldl (fun n j => n.after (Env.calm 0) (.peerMsg (sampleHellos j)))
    (((Node.init (Config.plain (sampleUuids i) (sampleUuids_length i) ⟨sampleName i, sampleName_short i⟩
      (4001 + i))).after (Env.calm 0) (.setContestInGroup sampleGroup)).after (Env.calm 0)
      (.command (.join sampleGroup)))

/-- The ports lead to the nodes. -/
def sampleLeads (_ : Fin 3) (d : Dealer) : Option (Fin 3) :=
  if d.port = 4001 then some 0 else if d.port = 4002 then some 1 else if d.port = 4003 then some 2 else none

def sampleTrio : Mesh (Fin 3) := ⟨sampleSeat, fun _ _ => []⟩

/-- Each has started an election. -/
def sampleBegun : Mesh (Fin 3) where
  node i := (((sampleSeat i).startElection (Env.calm 0) [0x67]).toOption).getD (sampleSeat i)
  link i c := (((((sampleSeat i).startElection (Env.calm 0) [0x67]).toOption).getD (sampleSeat i)).outbox.drop
    (sampleSeat i).outbox.length).filter (carried sampleLeads i c)

/-- The object that a node keeps for another one. -/
def sampleRef (i j : Fin 3) : Ref := if j < i then j else j - 1

theorem sampleTrio_fellows : Fellows sampleLeads sampleGroup.raw sampleTrio where
  distinct := by
    have hdec : ∀ i j, (sampleSeat i).cfg.peerId = (sampleSeat j).cfg.peerId → i = j := by decide +kernel
    exact fun i j => hdec i j
  named i := by
    have hdec : ∀ i, ∀ e ∈ (sampleSeat i).groups.entries, e.2.name = e.1 := by decide +kernel
    intro x group hx
    exact hdec i _ ((Dict.get_eq_some_iff _).1 hx)
  contest := by
    have hdec : ∀ i, ((sampleSeat i).group [0x67]).contest = true := by decide +kernel
    exact hdec
  joined := by
    have hdec : ∀ i, [0x67] ∈ (sampleSeat i).ownGroups := by decide +kernel
    exact hdec
  meets i j hj := by
    have hpeer : ∀ i j, j ≠ i → (sampleSeat i).peers.get (hex (sampleSeat j).cfg.peerId) = some (sampleRef i j) ∧
        (sampleSeat i).member [0x67] (hex (sampleSeat j).cfg.peerId) = some (sampleRef i j) := by decide +kernel
    have hobj : ∀ i j, j ≠ i → ((sampleSeat i).obj (sampleRef i j)).uuidHex = hex (sampleSeat j).cfg.peerId ∧
        ((sampleSeat i).obj (sampleRef i j)).connected = true ∧
        ((sampleSeat i).obj (sampleRef i j)).ready = true := by decide +kernel
    have hdealer : ∀ i j, j ≠ i →
        (((sampleSeat i).obj (sampleRef i j)).dealer.bind (sampleLeads i)) = some j := by decide +kernel
    obtain ⟨d, hd, hleads⟩ := Option.bind_eq_some_iff.1 (hdealer i j hj)
    exact ⟨sampleRef i j, (hpeer i j hj).1, (hpeer i j hj).2, (hobj i j hj).1, (hobj i j hj).2.1, (hobj i j hj).2.2,
      d, hd, hleads⟩
  only i p r hr := by
    have hdec : ∀ i, ∀ e ∈ ((sampleSeat i).group [0x67]).peers.entries, ∃ j, j ≠ i ∧
        e.1 = (sampleSeat j).cfg.peerIdHex := by decide +kernel
    rw [Node.member_eq] at hr
    exact hdec i _ ((Dict.get_eq_some_iff _).1 hr)

theorem sampleTrio_lowest (j : Fin 3) : ¬ (sampleTrio.node j).cfg.peerId < (sampleTrio.node 0).cfg.peerId := by
  revert j
  decide +kernel

theorem sampleBegun_begun : Begun sampleLeads sampleGroup.raw sampleTrio sampleBegun where
  start i := by
    have hdec : ∀ i, ((sampleSeat i).startElection (Env.calm 0) [0x67]).toOption.isSome = true := by decide +kernel
    exact ⟨Env.calm 0, fun _ => rfl, eq_ok_getD (hdec i)⟩
  link _ _ := rfl

/-- Every frame is delivered. -/
def sampleRounds : List (Int × Act (Fin 3)) :=
  (List.replicate 4 [(0, 1), (0, 2), (1, 0), (1, 2), (2, 0), (2, 1)]).flatten.map fun p => (0, .deliver p.1 p.2)

theorem lowest_leads_sample : ∃ d', Delivers sampleLeads sampleBegun d' ∧ d'.Quiet ∧
    ∀ i, ∃ name, (d'.node i).events =
      (sampleTrio.node i).events ++ [.leader (hex (sampleUuids 0)) name (bdec sampleGroup.raw)] := by
  have hacts : (sampleBegun.acts sampleLeads sampleRounds).toOption.isSome = true := by decide +kernel
  have hquiet : ∀ i j, ((sampleBegun.acts sampleLeads sampleRounds).toOption.getD sampleTrio).link i j = [] := by
    decide +kernel
  have hrun : Delivers sampleLeads sampleBegun
      ((sampleBegun.acts sampleLeads sampleRounds).toOption.getD sampleTrio) := by
    refine Run.start.of_acts (fun p hp => ?_) (eq_ok_getD hacts)
    obtain ⟨q, -, rfl⟩ := List.mem_map.1 hp
    exact ⟨_, _, rfl⟩
  have hwho : (sampleTrio.node 0).cfg.peerIdHex = hex (sampleUuids 0) := by decide +kernel
  have hdone := (sampleBegun_begun.lowest_leads (by decide) sampleTrio_fellows sampleTrio_lowest hrun).2.2.1 hquiet
  rw [hwho] at hdone
  exact ⟨_, hrun, hquiet, fun i => (hdone i).1⟩

end Mesh

end Mesh

end Zre
