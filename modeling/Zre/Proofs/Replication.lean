import Zre.Proofs.Convergence
import Zre.Proofs.Copies

/-!
# Proofs: what two nodes know of each other's groups

Each deed tells the other node the truth about the groups of the node that does it, and the other node's record
follows what it hears. So the link of a node, as a list of notes, leads every record from its state to the node's
groups. The one thing that no note tells is a change while the other node is only dialled, and a record does not follow
a change of the group without a name. Each group goes its own way: `K` stands for those all of whose changes are told.
-/

namespace Zre

open Fallible

namespace Node

section

variable {env : Env} {net : Net} {t : Bool} {K : Set Bytes} {x : Str} {n n' : Node}

/-- The frames are the node's HELLO, and they are there if it has just found `x`. -/
theorem Acquaints.heard (h : Acquaints x (net.leads t) n n') :
    ∃ l, n'.outbox = n.outbox ++ l ∧ (∀ f ∈ l, ¬ f.Is Cmd.goodbye) ∧
      (∀ v ∈ Node.heard net t l, v = .hello n.ownGroups n.status ∧ n'.Greets x) ∧
      (¬ n.Greets x → n'.Greets x → Node.heard net t l ≠ []) := by
  obtain ⟨l, hout, hall⟩ := h.outbox
  refine ⟨l, hout, fun f hf => ?_, fun v hv => ?_, fun hno hyes => ?_⟩
  · rcases hall f hf with ⟨hhello, -⟩ | hplain
    · exact Handed.not_is (Handed.news_of_ownHello hhello).2 (by decide)
    · exact hplain.2.2.2
  · obtain ⟨f, hf, hnews⟩ := List.mem_filterMap.1 hv
    rcases hall f (List.mem_filter.1 hf).1 with ⟨hhello, hg⟩ | hplain
    · rw [(Handed.news_of_ownHello hhello).1] at hnews
      exact ⟨(Option.some.inj hnews).symm, hg⟩
    · rw [Handed.news_of_plain hplain] at hnews
      cases hnews
  · obtain ⟨l', hout', f, hf, hhello, hsent, hlead⟩ := h.hails hno hyes
    obtain rfl := List.append_cancel_left (hout.symm.trans hout')
    refine List.ne_nil_of_mem (a := .hello n.ownGroups n.status) (List.mem_filterMap.2 ⟨f, ?_, ?_⟩)
    · exact List.mem_filter.2 ⟨hf, by simp [Duo.carried, hsent, hlead]⟩
    · exact (Handed.news_of_ownHello hhello).1

/-- What a step says is true of the groups in `K` and the status of the node: it repeats them, or tells a change of
them, or changes them before anybody was greeted. If `K` is not all, the change of another group can be missed. -/
inductive Truth (K : Set Bytes) (x : Str) (n n' : Node) : List News → Prop where
  | repeated {vs : List News} (hown : n'.ownGroups = n.ownGroups) (hstatus : n'.status = n.status)
      (hkeep : n.Greets x → n'.Greets x) (hvs : ∀ v ∈ vs, v = .hello n.ownGroups n.status ∧ n'.Greets x)
      (hfirst : ¬ n.Greets x → n'.Greets x → vs ≠ []) : Truth K x n n' vs
  | changed {v : News} (hold : n.Greets x) (hnew : n'.Greets x) (hv : v.Changes)
      (hnamed : v.Named ∨ v.note.Aside K) (hown : {g | g ∈ n'.ownGroups} = v.note.revise {g | g ∈ n.ownGroups})
      (hstatus : n'.status = (n.status + 1) % 256 ∧ v.status = n'.status) : Truth K x n n' [v]
  | untold (hold : ¬ n.Greets x) (hnew : ¬ n'.Greets x) : Truth K x n n' []
  | missed (hold : n.Greets x) (hnew : n'.Greets x) (hsome : K ≠ Set.univ)
      (hown : {g | g ∈ n'.ownGroups} ∩ K = {g | g ∈ n.ownGroups} ∩ K) : Truth K x n n' []

/-- A step of node `t`, which says `vs` to the other node `x` and takes up `v` from it. It says the truth if it
`tells`. -/
structure Turn (net : Net) (t : Bool) (K : Set Bytes) (x : Str) (tells : Prop) (vs : List News) (v : Option News)
    (n n' : Node) : Prop where
  contact : n'.Contact x (net.leads t)
  entry : n.peers.get x ≠ none → n'.peers.get x ≠ none
  outbox : ∃ l, n'.outbox = n.outbox ++ l ∧ (∀ f ∈ l, ¬ f.Is Cmd.goodbye) ∧ Node.heard net t l = vs
  truth : tells → Truth K x n n' vs
  copies : Copies x v n n'

theorem Acquaints.turn (h : Acquaints x (net.leads t) n n') {v : Option News} (hcopies : Copies x v n n')
    (tells : Prop) : ∃ vs, Turn net t K x tells vs v n n' := by
  obtain ⟨l, hout, hbye, hvs, hfirst⟩ := h.heard
  exact ⟨_, h.contact, h.entry, ⟨l, hout, hbye, rfl⟩,
    fun _ => .repeated h.ownGroups h.status h.greets hvs hfirst, hcopies⟩

/-- A step that brings no news leaves the record alone. -/
theorem copies_of_moves (hl : env.Lossless) {ks : List Kind} (hks : ks ⊆ [.meet, .books]) {hands : Handed → Prop}
    (ht : Tables n) (hb : n.Blank x) (h : Moves (may env ks) hands n n') : Copies x none n n' := by
  obtain ⟨hb', hsame⟩ := h.record hl hks ht hb
  exact ⟨hb'.entry, fun _ => hsame, by simp, by simp, by rw [hsame]; exact id⟩

/-- A beacon of the other node. -/
theorem beacon_turn (hl : env.Lossless) (hn : n.Reachable) {m : Node} (hc : n.Contact (hex m.cfg.peerId) (net.leads t))
    (hb : n.Blank (hex m.cfg.peerId)) (hown : m.cfg.peerId ≠ n.cfg.peerId) {port : ℕ} (hport : 0 < port)
    {host : Str} (hlead : net.leads t host port = true) {data : Bytes} (hdata : m.buildBeacon port = .ok data)
    (tells : Prop) :
    Ensures (n.handleBeacon env data host) fun n' => ∃ vs, Turn net t K (hex m.cfg.peerId) tells vs none n n' := by
  rcases handleBeacon_built env n hdata host with hsame | ⟨key, haccept⟩
  · rw [hsame]
    have hm : Moves (may env []) (fun _ => False) n n := Moves.refl n
    exact Ensures.ok ((acquaints_quiet hl hc hn.tables hm).turn (copies_of_moves hl (by simp) hn.tables hb hm) tells)
  · rw [haccept]
    intro n' hn'
    have hm := moves_acceptBeacon env hn.tables m.cfg.peerId port key host n' hn'
    rw [beaconKinds, if_neg (Nat.pos_iff_ne_zero.1 hport)] at hm
    exact (acceptBeacon_acquaints hl hc hn.tables hn.links hown hport hlead key n' hn').turn
      (copies_of_moves hl (by simp) hn.tables hb hm) tells

/-- A frame of the other node. -/
theorem deliver_turn (hl : env.Lossless) (hn : n.Reachable) {uuid : Bytes}
    (hc : n.Contact (hex uuid) (net.leads t)) (hb : n.Blank (hex uuid)) (hown : uuid ≠ n.cfg.peerId) {rid : Bytes}
    (hu : routingUuid rid = some uuid) {f : Handed} (hno : ¬ f.Is Cmd.goodbye)
    (hlead : ∀ msg h addr port, f.msg = some msg → msg.fields = .hello h →
      splitEndpoint n.cfg.rt (endpointText h.endpoint) = .ok (addr, port) → net.leads t (dialHost addr) port = true)
    (tells : Prop) :
    Ensures (n.handlePeerMsg env (rid :: f.frames)) fun n' => ∃ vs, Turn net t K (hex uuid) tells vs f.news n n' := by
  intro n' hn'
  exact (handlePeerMsg_acquaints hl hc hn.tables hn.links hown hu hno hlead n' hn').turn
    (handlePeerMsg_copy hl hn.tables hb hown hu hno n' hn') tells

/-- A change of the groups, which an entry is told. -/
theorem Alters.turn {g : Bytes} {v : News} {own : List Bytes} (h : Alters net t x v own n n') (hv : v.Changes)
    (hnamed : g ≠ [] → v.Named) (haside : g ∉ K → v.note.Aside K)
    (hown : {g | g ∈ own} = v.note.revise {g | g ∈ n.ownGroups}) (hstatus : v.status = (n.status + 1) % 256)
    {hands : Handed → Prop} (hbye : ∀ f, hands f → ¬ f.Is Cmd.goodbye) (hm : Moves (may env [.books]) hands n n')
    (hl : env.Lossless) (ht : Tables n) (hb : n.Blank x) :
    ∃ vs, Turn net t K x (g ∈ K → n.CanTell x g) vs none n n' := by
  obtain ⟨l, hout, hheard⟩ := h.outbox
  obtain ⟨l', hout', hall⟩ := hm.outbox
  obtain rfl := List.append_cancel_left (hout.symm.trans hout')
  refine ⟨_, h.contact, h.entry, ⟨l, hout, fun f hf => hbye f (hall f hf), hheard⟩, fun htell => ?_,
    copies_of_moves hl (by simp) ht hb hm⟩
  unfold CanTell at htell
  cases hk : n.peers.get x with
  | none =>
    rw [hk] at htell
    by_cases hg : n.Greets x
    · -- The other node is only dialled, and nobody is told.
      obtain ⟨k, r, hq⟩ : ∃ k r, n.pending.get k = some r := hg.resolve_left fun hp => hp hk
      have hgK : g ∉ K := fun hgK => by
        rw [htell hgK k] at hq
        cases hq
      refine .missed hg (h.greets.2 hg) (fun hall => hgK (hall ▸ Set.mem_univ g)) ?_
      rw [h.ownGroups, hown]
      exact haside hgK _
    · exact .untold hg (mt h.greets.1 hg)
  | some r =>
    rw [hk] at htell
    have hg : n.Greets x := greets_of_peers hk
    have hheeded : v.Named ∨ v.note.Aside K := by
      by_cases hgK : g ∈ K
      · exact Or.inl (hnamed (htell hgK))
      · exact Or.inr (haside hgK)
    exact .changed hg (h.greets.2 hg) hv hheeded (by rw [h.ownGroups]; exact hown)
      ⟨h.status, by rw [h.status]; exact hstatus⟩

/-- A group is joined. -/
theorem join_turn (hl : env.Lossless) (hn : n.Reachable) (hc : n.Contact x (net.leads t)) (hb : n.Blank x)
    (g : WireString) :
    Ensures (n.joinGroup env g.raw) fun n' =>
      ∃ vs, Turn net t K x (g.raw ∈ K → g.raw ∉ n.ownGroups → n.CanTell x g.raw) vs none n n' := by
  intro n' hn'
  have hm := moves_joinGroup env n g n' hn'
  by_cases hg : g.raw ∈ n.ownGroups
  · rw [joinGroup, if_pos hg] at hn'
    cases hn'
    exact (acquaints_quiet hl hc hn.tables (Moves.refl n)).turn (copies_of_moves hl (by simp) hn.tables hb hm) _
  · have hown : {a | a ∈ n.ownGroups ++ [g.raw]} = insert g.raw {a | a ∈ n.ownGroups} := Set.ext fun a => by
      simp [or_comm]
    obtain ⟨vs, hturn⟩ := (joinGroup_alters hl hc hn.tables hn.links hg n' hn').turn (K := K) (g := g.raw) trivial id
      Replica.Note.aside_add hown rfl (fun f hf => Handed.not_is hf (by decide)) hm hl hn.tables hb
    exact ⟨vs, hturn.contact, hturn.entry, hturn.outbox, fun h => hturn.truth fun hgK => h hgK hg, hturn.copies⟩

/-- A group is left. -/
theorem leave_turn (hl : env.Lossless) (hn : n.Reachable) (hc : n.Contact x (net.leads t)) (hb : n.Blank x)
    (g : WireString) :
    Ensures (n.leaveGroup env g.raw) fun n' =>
      ∃ vs, Turn net t K x (g.raw ∈ K → g.raw ∈ n.ownGroups → n.CanTell x g.raw) vs none n n' := by
  intro n' hn'
  have hm := moves_leaveGroup env n g.raw n' hn'
  by_cases hg : g.raw ∈ n.ownGroups
  · have hown : {a | a ∈ n.ownGroups.erase g.raw} = {a | a ∈ n.ownGroups} \ {g.raw} := Set.ext fun a => by
      simp [hn.books.ownNodup.mem_erase_iff, and_comm]
    obtain ⟨vs, hturn⟩ := (leaveGroup_alters hl hc hn.tables hn.links hg n' hn').turn (K := K) (g := g.raw) trivial id
      Replica.Note.aside_drop hown rfl (fun f hf => Handed.not_is hf (by decide)) hm hl hn.tables hb
    exact ⟨vs, hturn.contact, hturn.entry, hturn.outbox, fun h => hturn.truth fun hgK => h hgK hg, hturn.copies⟩
  · rw [leaveGroup, if_pos hg] at hn'
    cases hn'
    exact (acquaints_quiet hl hc hn.tables (Moves.refl n)).turn (copies_of_moves hl (by simp) hn.tables hb hm) _

/-- Payloads are sent on the sockets that there are. -/
theorem chat_turn (hl : env.Lossless) (hn : n.Reachable) (hc : n.Contact x (net.leads t)) (hb : n.Blank x)
    {hands : Handed → Prop} (hplain : ∀ f, hands f → f.Plain) (hm : Moves (may env []) hands n n') (tells : Prop) :
    ∃ vs, Turn net t K x tells vs none n n' :=
  (acquaints_of_moves hl hc hn.tables (by simp) (fun f hf => Or.inr (hplain f hf)) hm).turn
    (copies_of_moves hl (by simp) hn.tables hb hm) tells

/-- Every JOIN and LEAVE of a group in `K` that is performed can be told. -/
def TellsCommand (K : Set Bytes) (x : Str) (n : Node) (c : Command) : Prop :=
  ∀ g, g.raw ∈ K → (c = .join g ∧ g.raw ∉ n.ownGroups ∨ c = .leave g ∧ g.raw ∈ n.ownGroups) → n.CanTell x g.raw

theorem command_turn (hl : env.Lossless) (hn : n.Reachable) (hc : n.Contact x (net.leads t)) (hb : n.Blank x)
    {c : Command} (hdial : ∀ host port, c = .connect host port → net.leads t host port = true) :
    Ensures (n.runCommand env c) fun n' => ∃ vs, Turn net t K x (n.TellsCommand K x c) vs none n n' := by
  cases c with
  | join g =>
    refine (join_turn (K := K) hl hn hc hb g).mono fun n' h => ?_
    obtain ⟨vs, hturn⟩ := h
    exact ⟨vs, hturn.contact, hturn.entry, hturn.outbox, fun h => hturn.truth fun hgK hg => h g hgK (Or.inl ⟨rfl, hg⟩),
      hturn.copies⟩
  | leave g =>
    refine (leave_turn (K := K) hl hn hc hb g).mono fun n' h => ?_
    obtain ⟨vs, hturn⟩ := h
    exact ⟨vs, hturn.contact, hturn.entry, hturn.outbox, fun h => hturn.truth fun hgK hg => h g hgK (Or.inr ⟨rfl, hg⟩),
      hturn.copies⟩
  | whisper peerHex payload =>
    exact (moves_doWhisper env n peerHex payload).mono fun _ hm =>
      chat_turn hl hn hc hb (fun f hf => Handed.plain_of_is hf (by decide)) hm _
  | shout g payload =>
    exact (moves_doShout env n g.raw payload).mono fun _ hm =>
      chat_turn hl hn hc hb (fun f hf => Handed.plain_of_is hf (by decide)) hm _
  | connect host port =>
    intro n' hn'
    exact (doConnect_acquaints hl hc hn.tables hn.links (hdial host port rfl) n' hn').turn
      (copies_of_moves hl (by simp) hn.tables hb (moves_doConnect env n host port n' hn')) _

end

end Node

/-! ## One direction -/

/-- What `s` has told, what of it is on the way, and what the other node made of it. `greets` says whether `s` has
found the other node. -/
structure Mirror (K : Set Bytes) (greets : Prop) (own : Set Bytes) (status : ℕ) (told link : List News)
    (copy : Option (Set Bytes)) : Prop where
  untold : ¬ greets → told = []
  fresh : told = [] → link = [] ∧ copy = none
  current : K = Set.univ → greets → ∃ v, told.getLast? = some v ∧ v.status = status
  counted : K = Set.univ → Replica.Counted 256 News.Changes News.status told
  named : ∀ v ∈ link, v.Named ∨ v.note.Aside K
  traced : Replica.Traced K own (link.map News.note) copy

namespace Mirror

variable {K : Set Bytes} {greets : Prop} {own : Set Bytes} {status : ℕ} {told link : List News}
  {copy copy' : Option (Set Bytes)} {v : News}

theorem init (K own : Set Bytes) (status : ℕ) : Mirror K False own status [] [] none :=
  ⟨fun _ => rfl, fun _ => ⟨rfl, rfl⟩, fun _ => False.elim, fun _ => Replica.Counted.nil _ _ _, by simp,
    Replica.Traced.of_untold K own⟩

/-- The node says what is true. -/
theorem speaks {x : Str} {n n' : Node} {vs : List News}
    (h : Mirror K (n.Greets x) {g | g ∈ n.ownGroups} n.status told link copy) (ht : Node.Truth K x n n' vs) :
    Mirror K (n'.Greets x) {g | g ∈ n'.ownGroups} n'.status (told ++ vs) (link ++ vs) copy := by
  cases ht with
  | repeated hown hstatus hkeep hvs hfirst =>
    rw [hown, hstatus]
    refine ⟨fun hno => ?_, fun htold => ?_, fun hall hyes => ?_, fun hall => ?_, ?_, ?_⟩
    · have hnil : vs = [] := List.eq_nil_iff_forall_not_mem.2 fun v hv => hno (hvs v hv).2
      rw [hnil, List.append_nil]
      exact h.untold fun hg => hno (hkeep hg)
    · obtain ⟨hnil, rfl⟩ := List.append_eq_nil_iff.1 htold
      rw [List.append_nil]
      exact h.fresh hnil
    · cases hlast : vs.getLast? with
      | none =>
        obtain rfl := List.getLast?_eq_none_iff.1 hlast
        rw [List.append_nil]
        exact h.current hall (Classical.byContradiction fun hno => hfirst hno hyes rfl)
      | some v =>
        refine ⟨v, by rw [List.getLast?_append, hlast]; rfl, ?_⟩
        rw [(hvs v (List.mem_of_getLast? hlast)).1]
        rfl
    · exact (h.counted hall).extend fun v hv hch => by rw [(hvs v hv).1] at hch; exact hch
    · intro v hv
      rcases List.mem_append.1 hv with hv | hv
      · exact h.named v hv
      · rw [(hvs v hv).1]
        exact Or.inl trivial
    · rw [List.map_append]
      refine h.traced.retell fun y hy => ?_
      obtain ⟨v, hv, rfl⟩ := List.mem_map.1 hy
      rw [(hvs v hv).1]
      rfl
  | @changed v hold hnew hv hnamed hown hstatus =>
    refine ⟨fun hno => absurd hnew hno, fun hnil => ?_, fun _ _ => ⟨v, ?_, hstatus.2⟩, fun hall => ?_, ?_, ?_⟩
    · simp at hnil
    · simp
    · obtain ⟨w, hlast, hw⟩ := h.current hall hold
      exact (h.counted hall).append fun _ => ⟨w, hlast, by rw [hstatus.2, hstatus.1, hw]⟩
    · intro u hu
      rcases List.mem_append.1 hu with hu | hu
      · exact h.named u hu
      · rw [List.mem_singleton.1 hu]
        exact hnamed
    · rw [List.map_append, hown]
      refine h.traced.tell fun s hs => ?_
      cases v with
      | hello => exact hv.elim
      | join | leave => cases hs
  | untold hold hnew =>
    have htold := h.untold hold
    obtain ⟨hlink, hcopy⟩ := h.fresh htold
    rw [htold, hlink, hcopy]
    exact ⟨fun _ => rfl, fun _ => ⟨rfl, rfl⟩, fun _ hyes => absurd hyes hnew, fun _ => Replica.Counted.nil _ _ _,
      by simp, Replica.Traced.of_untold _ _⟩
  | missed hold hnew hsome hown =>
    rw [List.append_nil, List.append_nil]
    exact ⟨fun hno => absurd hnew hno, h.fresh, fun hall => absurd hall hsome, fun hall => absurd hall hsome, h.named,
      h.traced.untell hown⟩

/-- The other node hears the first of what is on the way. -/
theorem hears (h : Mirror K greets own status told (v :: link) copy)
    (hnamed : v.Named → Replica.Hears copy v.note copy') (hunnamed : ¬ v.Named → copy' = copy) :
    Mirror K greets own status told link copy' := by
  refine ⟨h.untold, fun htold => ?_, h.current, h.counted, fun u hu => h.named u (List.mem_cons_of_mem v hu), ?_⟩
  · obtain ⟨hlink, -⟩ := h.fresh htold
    cases hlink
  · by_cases hv : v.Named
    · exact h.traced.hear (hnamed hv)
    · rw [hunnamed hv]
      exact h.traced.ignore ((h.named v List.mem_cons_self).resolve_left hv)

end Mirror

/-! ## Two nodes -/

namespace Duo

variable {net : Net} {K : Set Bytes} {d₀ d d' : Duo}

/-- The news on the link of `s`. -/
def linkNews (d : Duo) (s : Bool) : List News := (d.link s).filterMap Handed.news

/-- The invariant of two nodes that know of each other what they were told. -/
structure Kept (net : Net) (d₀ d : Duo) : Prop where
  reachable : ∀ s, (d.node s).Reachable
  cfg : ∀ s, (d.node s).cfg = (d₀.node s).cfg
  contact : ∀ s, (d.node s).Contact (d₀.across s) (net.leads s)
  blank : ∀ s, (d.node s).Blank (d₀.across s)
  polite : ∀ s, ∀ f ∈ d.link s, ¬ f.Is Cmd.goodbye
  grows : ∀ s, ∃ l, (d.node s).outbox = (d₀.node s).outbox ++ l

/-- The other node's record of `s`, and what `s` has told it. -/
def Mirrors (K : Set Bytes) (net : Net) (d₀ d : Duo) (s : Bool) : Prop :=
  Mirror K ((d.node s).Greets (d₀.across s)) {g | g ∈ (d.node s).ownGroups} (d.node s).status (d.told net d₀ s)
    (d.linkNews s) ((d.node !s).copyOf (d₀.across !s))

theorem Unmet.kept (h : Unmet net d) : Kept net d d := by
  refine ⟨h.reachable, fun _ => rfl, fun s => ⟨fun r hr => ?_, fun k r hr hlead => ?_, fun k r hr => ?_⟩,
    fun s => ⟨fun r hr => ?_, fun k r hr => ?_⟩, fun s f hf => ?_, fun s => ⟨[], by simp⟩⟩
  · rw [h.unknown s] at hr
    cases hr
  · rw [h.elsewhere s k r hr] at hlead
    cases hlead
  · rw [h.undialled s k] at hr
    cases hr
  · rw [h.unknown s] at hr
    cases hr
  · rw [h.undialled s k] at hr
    cases hr
  · rw [h.silent s] at hf
    cases hf

theorem Unmet.mirrors (h : Unmet net d) (K : Set Bytes) (s : Bool) : Mirrors K net d d s := by
  have hno : ¬ (d.node s).Greets (d.across s) := by
    rintro (hp | ⟨k, r, hq⟩)
    · exact hp (h.unknown s)
    · rw [h.undialled s k] at hq
      cases hq
  have hrecord : (d.node !s).groupsOf (d.across !s) = none := Node.groupsOf_none (h.unknown !s)
  have hcopy : (d.node !s).copyOf (d.across !s) = none := by rw [Node.copyOf, hrecord]; rfl
  unfold Mirrors
  rw [eq_false hno, hcopy]
  unfold told linkNews
  rw [h.silent s, List.drop_length]
  exact Mirror.init K _ _

/-- What `t` hands over gets onto its link. -/
theorem put_news {t : Bool} {n' : Node} {l : List Handed} (hout : n'.outbox = (d.node t).outbox ++ l) :
    (d.put net t n').linkNews t = d.linkNews t ++ Node.heard net t l := by
  unfold linkNews put
  simp only [Function.update_self, hout, List.drop_left]
  rw [List.filterMap_append]
  rfl

theorem put_told {t : Bool} {n' : Node} {l : List Handed} (hgrows : ∃ l, (d.node t).outbox = (d₀.node t).outbox ++ l)
    (hout : n'.outbox = (d.node t).outbox ++ l) :
    (d.put net t n').told net d₀ t = d.told net d₀ t ++ Node.heard net t l := by
  obtain ⟨l0, hl0⟩ := hgrows
  unfold told put
  simp only [Function.update_self]
  rw [hout, hl0, List.append_assoc, List.drop_left, List.drop_left, List.filter_append, List.filterMap_append]
  rfl

/-- A step of node `t`, which receives `f` from the other one. -/
theorem Kept.turn {t : Bool} {tells : Prop} {f : Option Handed} {vs : List News} {n' : Node} (h : Kept net d₀ d)
    (hturn : Node.Turn net t K (d₀.across t) tells vs (f.bind Handed.news) (d.node t) n') (hr : n'.Reachable)
    (hcfg : n'.cfg = (d.node t).cfg) {rest : List Handed} (hlink : d.link (!t) = f.toList ++ rest) :
    Kept net d₀ ((d.pop (!t) rest).put net t n') ∧
      ∀ s, Mirrors K net d₀ d s → (s = t → tells) → Mirrors K net d₀ ((d.pop (!t) rest).put net t n') s := by
  obtain ⟨l, hout, hbye, rfl⟩ := hturn.outbox
  have hne : ∀ {u}, u ≠ t → u = !t := Bool.eq_not_of_ne
  have hnot : (!t) ≠ t := by cases t <;> decide
  have hself : ((d.pop (!t) rest).put net t n').node t = n' := by simp [put]
  have hother : ((d.pop (!t) rest).put net t n').node (!t) = d.node !t := by
    simp [put, pop]
  have hlinkself : ((d.pop (!t) rest).put net t n').link t = d.link t ++ l.filter (carried net t) := by
    simp [put, pop, hout]
  have hlinkother : ((d.pop (!t) rest).put net t n').link (!t) = rest := by
    simp [put, pop]
  refine ⟨⟨fun s => ?_, fun s => ?_, fun s => ?_, fun s => ?_, fun s => ?_, fun s => ?_⟩, fun s hm htells => ?_⟩ <;>
    by_cases hs : s = t
  · subst hs; rw [hself]; exact hr
  · obtain rfl := hne hs; rw [hother]; exact h.reachable _
  · subst hs; rw [hself, hcfg]; exact h.cfg s
  · obtain rfl := hne hs; rw [hother]; exact h.cfg _
  · subst hs; rw [hself]; exact hturn.contact
  · obtain rfl := hne hs; rw [hother]; exact h.contact _
  · subst hs; rw [hself]; exact ⟨hturn.copies.entry, fun k r hk => (hr.unheard.pending k r hk).2⟩
  · obtain rfl := hne hs; rw [hother]; exact h.blank _
  · subst hs
    rw [hlinkself]
    intro f hf
    rcases List.mem_append.1 hf with hf | hf
    · exact h.polite s f hf
    · exact hbye f (List.mem_filter.1 hf).1
  · obtain rfl := hne hs
    rw [hlinkother]
    exact fun g hg => h.polite _ g (by rw [hlink]; exact List.mem_append_right _ hg)
  · subst hs
    obtain ⟨l0, hl0⟩ := h.grows s
    rw [hself]
    exact ⟨l0 ++ l, by rw [hout, hl0, List.append_assoc]⟩
  · obtain rfl := hne hs; rw [hother]; exact h.grows _
  · subst hs
    have htold : ((d.pop (!s) rest).put net s n').told net d₀ s = d.told net d₀ s ++ Node.heard net s l :=
      put_told (d := d.pop (!s) rest) (h.grows s) hout
    have hlink : ((d.pop (!s) rest).put net s n').linkNews s = d.linkNews s ++ Node.heard net s l := by
      rw [put_news (d := d.pop (!s) rest) hout]
      simp [linkNews, pop]
    unfold Mirrors
    rw [htold, hlink, hself, hother]
    exact Mirror.speaks hm (hturn.truth (htells rfl))
  · obtain rfl := hne hs
    have htold : ((d.pop (!t) rest).put net t n').told net d₀ (!t) = d.told net d₀ !t := by
      unfold told
      rw [hother]
    have hcopy : ((d.pop (!t) rest).put net t n').node (!!t) = n' := by rw [Bool.not_not, hself]
    have hpop : d.linkNews (!t) = (f.bind Handed.news).toList ++ rest.filterMap Handed.news := by
      unfold linkNews
      rw [hlink, List.filterMap_append]
      cases f <;> rfl
    unfold Mirrors at hm ⊢
    rw [hpop] at hm
    unfold linkNews
    rw [htold, hother, hlinkother, hcopy]
    have hback : d₀.across (!!t) = d₀.across t := by rw [Bool.not_not]
    have hnode : d.node (!!t) = d.node t := by rw [Bool.not_not]
    rw [hback, hnode] at hm
    rw [hback]
    cases hv : f.bind Handed.news with
    | none =>
      rw [hv] at hm
      rw [Node.copyOf, hturn.copies.still hv]
      exact hm
    | some w =>
      rw [hv] at hm
      refine hm.hears (hturn.copies.hears w hv) fun hno => ?_
      rw [Node.copyOf, hturn.copies.ignores w hv hno]
      rfl

/-- Two different nodes, which listen on ports of their own. -/
structure Apart (d : Duo) : Prop where
  ids : ∀ s, (d.node !s).cfg.peerId ≠ (d.node s).cfg.peerId
  port : ∀ s, 0 < d.port s

theorem Unmet.isApart (h : Unmet net d) : Apart d := by
  refine ⟨fun s => ?_, h.port⟩
  cases s
  · exact h.apart
  · exact h.apart.symm

/-- What node `t` does with a deed, and what it receives for it: a frame, or nothing. -/
inductive Took (d : Duo) (env : Env) (t : Bool) (n' : Node) : Deed → Option Handed → List Handed → Prop where
  | beacon {host : Str} {data : Bytes} (hdata : (d.node !t).buildBeacon (d.port !t) = .ok data)
      (h : (d.node t).step env (.beacon data host) = .ok n') : Took d env t n' (.beacon t host) none (d.link !t)
  | idle (hlink : d.link (!t) = []) (h : n' = d.node t) : Took d env t n' (.deliver t) none []
  | deliver {f : Handed} {rest : List Handed} (hlink : d.link (!t) = f :: rest)
      (h : (d.node t).step env (.peerMsg ((1 :: (d.node !t).cfg.peerId) :: f.frames)) = .ok n') :
      Took d env t n' (.deliver t) (some f) rest
  | command {c : Node.Command} (h : (d.node t).step env (.command c) = .ok n') :
      Took d env t n' (.command t c) none (d.link !t)

section Took

variable {env : Env} {a : Deed} {t : Bool} {n' : Node} {f : Option Handed} {rest : List Handed}

theorem deed_took (hs : d.deed net env a = .ok d') :
    ∃ t n' f rest, Took d env t n' a f rest ∧ d' = (d.pop (!t) rest).put net t n' := by
  have hpop : ∀ t, d.pop (!t) (d.link !t) = d := fun t => by simp [pop]
  cases a with
  | beacon t host =>
    obtain ⟨data, hdata, hs⟩ := bind_eq_ok_iff.1 hs
    obtain ⟨n', hn', rfl⟩ := feed_eq_ok hs
    exact ⟨t, n', none, _, .beacon hdata hn', by rw [hpop]⟩
  | deliver t =>
    unfold Duo.deed at hs
    simp only [act] at hs
    cases hlink : d.link !t with
    | nil =>
      rw [hlink] at hs
      cases hs
      refine ⟨t, d.node t, none, [], .idle hlink rfl, ?_⟩
      rw [← hlink, hpop]
      simp [put]
    | cons f rest =>
      rw [hlink] at hs
      obtain ⟨n', hn', rfl⟩ := feed_eq_ok hs
      exact ⟨t, n', some f, rest, .deliver hlink hn', rfl⟩
  | command t c =>
    obtain ⟨n', hn', rfl⟩ := feed_eq_ok hs
    exact ⟨t, n', none, _, .command hn', by rw [hpop]⟩

theorem Took.link (h : Took d env t n' a f rest) : d.link (!t) = f.toList ++ rest := by
  cases h with
  | beacon | command => rfl
  | idle hlink | deliver hlink => exact hlink

theorem Took.reachable (h : Took d env t n' a f rest) (hn : (d.node t).Reachable) : n'.Reachable := by
  cases h with
  | idle _ h => exact h ▸ hn
  | beacon _ h | deliver _ h | command h => exact hn.step env _ h

theorem Took.cfg (h : Took d env t n' a f rest) (hn : (d.node t).Reachable) : n'.cfg = (d.node t).cfg := by
  cases h with
  | idle _ h => rw [h]
  | beacon _ h | deliver _ h | command h => exact Node.moves_cfg (Node.moves_step env hn.tables _ n' h)

/-- The node says what is true, and takes up what it receives. -/
theorem Took.turn (h : Took d env t n' a f rest) (hkept : Kept net d₀ d) (hap : Apart d₀) (hc : Connects net d env a) :
    ∃ vs, Node.Turn net t K (d₀.across t) (TellsOf K d t a) vs (f.bind Handed.news) (d.node t) n' := by
  have hid : ∀ s, (d.node s).cfg.peerId = (d₀.node s).cfg.peerId := fun s => by rw [hkept.cfg]
  have hacross : d₀.across t = hex (d.node !t).cfg.peerId := by rw [hid]; rfl
  have hown : (d.node !t).cfg.peerId ≠ (d.node t).cfg.peerId := by rw [hid, hid]; exact hap.ids t
  have hcontact := hkept.contact t
  have hblank := hkept.blank t
  rw [hacross] at hcontact hblank ⊢
  have hn := hkept.reachable t
  obtain ⟨hl, hlead⟩ := hc
  cases h with
  | beacon hdata h =>
    have hport : 0 < d.port !t := by
      unfold Duo.port
      rw [hkept.cfg]
      exact hap.port !t
    exact Node.beacon_turn hl hn hcontact hblank hown hport hlead hdata _ n' h
  | idle _ h =>
    have hm : Moves (may env []) (fun _ => False) (d.node t) (d.node t) := Moves.refl _
    rw [h]
    exact (Node.acquaints_quiet hl hcontact hn.tables hm).turn (Node.copies_of_moves hl (by simp) hn.tables hblank hm) _
  | deliver hlink h =>
    rename_i g
    have hg : g ∈ d.link !t := by rw [hlink]; exact List.mem_cons_self
    refine Node.deliver_turn hl hn hcontact hblank hown (Node.routingUuid_cons (d.node !t).cfg.peerId_length)
      (hkept.polite _ g hg) (fun msg x addr port hmsg hfields hsplit => ?_) _ n' h
    exact hlead (Node.dialHost addr, port)
      (by simp [nextAddress, hlink, hmsg, hfields, hsplit, Except.toOption])
  | command h =>
    rename_i c
    have hdial : ∀ host port, c = .connect host port → net.leads t host port = true := by
      rintro host port rfl
      exact hlead
    obtain ⟨vs, hturn⟩ := Node.command_turn hl hn hcontact hblank hdial n' h
    refine ⟨vs, hturn.contact, hturn.entry, hturn.outbox, fun htells => hturn.truth fun g hgK hg => ?_, hturn.copies⟩
    exact htells g hgK (hg.imp (fun hj => ⟨by rw [hj.1], hj.2⟩) fun hj => ⟨by rw [hj.1], hj.2⟩)

end Took

/-- One deed. -/
theorem Kept.deed (h : Kept net d₀ d) (hap : Apart d₀) {env : Env} {a : Deed} (hc : Connects net d env a)
    (hs : d.deed net env a = .ok d') :
    Kept net d₀ d' ∧ ∀ K s, Mirrors K net d₀ d s → TellsOf K d s a → Mirrors K net d₀ d' s := by
  obtain ⟨t, n', f, rest, htook, rfl⟩ := deed_took hs
  have hafter : ∀ K, Kept net d₀ ((d.pop (!t) rest).put net t n') ∧ ∀ s, Mirrors K net d₀ d s →
      TellsOf K d s a → Mirrors K net d₀ ((d.pop (!t) rest).put net t n') s := by
    intro K
    obtain ⟨vs, hturn⟩ := htook.turn (K := K) h hap hc
    obtain ⟨hkept, hmirrors⟩ := h.turn hturn (htook.reachable (h.reachable t)) (htook.cfg (h.reachable t)) htook.link
    refine ⟨hkept, fun s hm htells => hmirrors s hm ?_⟩
    rintro rfl
    exact htells
  exact ⟨(hafter ∅).1, fun K => (hafter K).2⟩

theorem Deeds.mono {P Q : Duo → Env → Deed → Prop} (h : ∀ d env a, P d env a → Q d env a) {past : List (Duo × Deed)}
    (hrun : Deeds net P d past d') : Deeds net Q d past d' := by
  induction hrun with
  | start => exact .start
  | step _ hp hs ih => exact ih.step (h _ _ _ hp) hs

/-- In a run of two nodes that did not know each other. -/
theorem Unmet.keeps (h : Unmet net d₀) {past : List (Duo × Deed)} (hrun : Deeds net (Connects net) d₀ past d) :
    Kept net d₀ d := by
  induction hrun with
  | start => exact h.kept
  | step _ hp hs ih => exact (ih.deed h.isApart hp hs).1

/-- In a run of two nodes that did not know each other, of which `s` tells every change of the groups in `K`. -/
theorem Unmet.runs (h : Unmet net d₀) {s : Bool} {past : List (Duo × Deed)}
    (hrun : Deeds net (fun d env a => Connects net d env a ∧ TellsOf K d s a) d₀ past d) :
    Kept net d₀ d ∧ Mirrors K net d₀ d s := by
  induction hrun with
  | start => exact ⟨h.kept, h.mirrors K s⟩
  | step _ hp hs ih =>
    obtain ⟨hkept, hmirrors⟩ := ih.1.deed h.isApart hp.1 hs
    exact ⟨hkept, hmirrors K s ih.2 hp.2⟩

theorem Tells.tellsOf {s : Bool} {a : Deed} (h : Tells d s a) (K : Set Bytes) : TellsOf K d s a := fun g _ => h g

/-- To tell every change is to tell those of all groups. -/
theorem Deeds.tells {s : Bool} {past : List (Duo × Deed)}
    (hrun : Deeds net (fun d env a => Connects net d env a ∧ Tells d s a) d₀ past d) :
    Deeds net (fun d env a => Connects net d env a ∧ TellsOf Set.univ d s a) d₀ past d :=
  hrun.mono fun _ _ _ hp => ⟨hp.1, hp.2.tellsOf _⟩

/-- Once nothing of `s` is on the way, the other node's record is right about the groups in `K`. -/
theorem Mirrors.settled {s : Bool} (hm : Mirrors K net d₀ d s) (hkept : Kept net d₀ d) (hquiet : d.link s = [])
    {gs : List Bytes} (hgs : d.record s = some gs) {g : Bytes} (hg : g ∈ K) :
    g ∈ gs ↔ g ∈ (d.node s).ownGroups := by
  have hacross : d.across (!s) = d₀.across !s := by
    unfold across
    rw [hkept.cfg]
  have hcopy : (d.node !s).copyOf (d₀.across !s) = some {g | g ∈ gs} := by
    unfold record at hgs
    rw [Node.copyOf, ← hacross, hgs]
    rfl
  have htraced := hm.traced
  have hnil : d.linkNews s = [] := by rw [linkNews, hquiet]; rfl
  rw [hcopy, hnil] at htraced
  exact htraced.settles hg

/-- Two nodes that did not know each other, where `s` changes the groups in `K` only when it can tell the other node:
however beacons, dials, commands and deliveries interleave, and whatever becomes of the other groups, the other node's
record of the groups in `K` is right once nothing of `s` is on the way. -/
theorem Unmet.records (h : Unmet net d₀) {s : Bool} {past : List (Duo × Deed)}
    (hrun : Deeds net (fun d env a => Connects net d env a ∧ TellsOf K d s a) d₀ past d) (hquiet : d.link s = [])
    {gs : List Bytes} (hgs : d.record s = some gs) : ∀ g ∈ K, g ∈ gs ↔ g ∈ (d.node s).ownGroups := by
  obtain ⟨hkept, hm⟩ := h.runs hrun
  exact fun g hg => hm.settled hkept hquiet hgs hg

/-- Two nodes that did not know each other, where `s` changes its groups only when it can tell the other node:
however beacons, dials, commands and deliveries interleave, the other node's record of the groups of `s` is right
once nothing of `s` is on the way, and every JOIN and LEAVE carries the status after the one told last. -/
theorem Unmet.replicates (h : Unmet net d₀) {s : Bool} {past : List (Duo × Deed)}
    (hrun : Deeds net (fun d env a => Connects net d env a ∧ Tells d s a) d₀ past d) : Replicates net d₀ d s := by
  obtain ⟨hkept, hm⟩ := h.runs hrun.tells
  exact ⟨fun hquiet gs hgs g => hm.settled hkept hquiet hgs (Set.mem_univ g), hm.counted rfl⟩

/-! ## A sample -/

/-- The pair after a deed; a handler that raises is not followed. -/
def did (net : Net) (env : Env) (d : Duo) (a : Deed) : Duo := (d.deed net env a).toOption.getD d

theorem deed_did {net : Net} {env : Env} {d : Duo} {a : Deed} (h : Node.raised (d.deed net env a) = none) :
    d.deed net env a = .ok (d.did net env a) := by
  unfold did
  cases hs : d.deed net env a with
  | ok d' => rfl
  | error e => rw [hs] at h; cases h

/-- The sample nodes after some deeds. -/
def sampleDone (deeds : List Deed) : Duo := deeds.foldl (did sampleNet (Env.calm 0)) samplePair

/-- Node `false` dials, is answered, joins a group, and the other node hears of it. -/
def sampleDeeds : List Deed :=
  [.command false (.connect "127.0.0.1".toList 4002), .deliver true, .deliver false,
    .command false (.join sampleGroup), .deliver true]

/-- The sample nodes after the first of these deeds. -/
def sampleAfter (k : ℕ) : Duo := sampleDone (sampleDeeds.take k)

theorem samplePair_unmet : Unmet sampleNet samplePair := by
  refine ⟨samplePair_strangers.reachable, by decide, fun s => ?_, fun s => ?_, fun s k r hr => ?_, fun s k => ?_,
    fun s => rfl⟩
  · cases s <;> decide
  · cases s <;> rfl
  · cases s <;> cases hr
  · cases s <;> rfl

/-- A delivery to a sample node. -/
theorem sample_deliver {d : Duo} {s : Bool}
    (h : (d.nextAddress s).all (fun p => sampleNet.leads s p.1 p.2) = true) (t : Bool) :
    Connects sampleNet d (Env.calm 0) (.deliver s) ∧ Tells d t (.deliver s) := by
  refine ⟨⟨fun _ => rfl, fun p hp => ?_⟩, fun g hg => ?_⟩
  · rw [hp] at h
    exact h
  · rcases hg with ⟨h, -⟩ | ⟨h, -⟩ <;> cases h

/-- A dial of a sample node. -/
theorem sample_dial {d : Duo} {s : Bool} {host : Str} {port : Int} (h : sampleNet.leads s host port = true) (t : Bool) :
    Connects sampleNet d (Env.calm 0) (.command s (.connect host port)) ∧
      Tells d t (.command s (.connect host port)) := by
  refine ⟨⟨fun _ => rfl, h⟩, fun g hg => ?_⟩
  rcases hg with ⟨h, -⟩ | ⟨h, -⟩ <;> cases h

/-- A sample node joins a group when it knows the other one. -/
theorem sample_join {d : Duo} {s : Bool} {r : Ref} {g : WireString}
    (hk : (d.node s).peers.get (d.across s) = some r) (hg : g.raw ≠ []) :
    Connects sampleNet d (Env.calm 0) (.command s (.join g)) ∧ Tells d s (.command s (.join g)) := by
  refine ⟨⟨fun _ => rfl, trivial⟩, fun g' hg' => ?_⟩
  rcases hg' with ⟨h, -⟩ | ⟨h, -⟩
  · cases h
    unfold Node.CanTell
    rw [hk]
    exact hg
  · cases h

/-- A run of the sample nodes goes on with its next deed. -/
theorem sample_step {P : Duo → Env → Deed → Prop} (deeds : List Deed) {k : ℕ} {a : Deed} (ha : deeds[k]? = some a)
    (hrun : ∃ past, Deeds sampleNet P samplePair past (sampleDone (deeds.take k)))
    (hp : P (sampleDone (deeds.take k)) (Env.calm 0) a)
    (hs : Node.raised ((sampleDone (deeds.take k)).deed sampleNet (Env.calm 0) a) = none) :
    ∃ past, Deeds sampleNet P samplePair past (sampleDone (deeds.take (k + 1))) := by
  obtain ⟨past, hrun⟩ := hrun
  have hnext : sampleDone (deeds.take (k + 1)) = (sampleDone (deeds.take k)).did sampleNet (Env.calm 0) a := by
    unfold sampleDone
    rw [List.take_add_one, ha, List.foldl_append]
    rfl
  rw [hnext]
  exact ⟨_, hrun.step hp (deed_did hs)⟩

theorem sample_run : ∃ past, Deeds sampleNet
    (fun d env a => Connects sampleNet d env a ∧ Tells d false a) samplePair past (sampleAfter 5) := by
  have h1 := sample_step (P := fun d env a => Connects sampleNet d env a ∧ Tells d false a) sampleDeeds (k := 0) rfl
    ⟨_, Deeds.start⟩ (sample_dial rfl false) (by decide +kernel)
  have h2 := sample_step sampleDeeds (k := 1) rfl h1 (sample_deliver (by decide +kernel) false) (by decide +kernel)
  have h3 := sample_step sampleDeeds (k := 2) rfl h2 (sample_deliver (by decide +kernel) false) (by decide +kernel)
  have hknown : ((sampleAfter 3).node false).peers.get ((sampleAfter 3).across false) = some 0 := by decide +kernel
  have hnamed : sampleGroup.raw ≠ [] := by decide
  have h4 := sample_step sampleDeeds (k := 3) rfl h3 (sample_join (d := sampleAfter 3) (s := false) hknown hnamed)
    (by decide +kernel)
  exact sample_step sampleDeeds (k := 4) rfl h4 (sample_deliver (by decide +kernel) false) (by decide +kernel)

theorem sample_replicates :
    (sampleAfter 5).record false = some [[0x67]] ∧ Replicates sampleNet samplePair (sampleAfter 5) false := by
  obtain ⟨past, hrun⟩ := sample_run
  exact ⟨by decide +kernel, samplePair_unmet.replicates hrun⟩

/-! ## A hasty sample -/

/-- Another group. -/
def sampleOther : WireString := ⟨[0x68], by decide⟩

/-- Node `false` dials, and joins a group before it is answered, so that it tells nobody; then it joins the sample
group, and the other node hears of that. -/
def sampleHasty : List Deed :=
  [.command false (.connect "127.0.0.1".toList 4002), .command false (.join sampleOther), .deliver true,
    .deliver false, .command false (.join sampleGroup), .deliver true]

/-- The deeds of the hasty node tell the sample group. -/
def TellsSample (d : Duo) (env : Env) (a : Deed) : Prop :=
  Connects sampleNet d env a ∧ TellsOf {sampleGroup.raw} d false a

theorem tellsSample {d : Duo} {env : Env} {a : Deed} (h : Connects sampleNet d env a ∧ Tells d false a) :
    TellsSample d env a := ⟨h.1, h.2.tellsOf _⟩

theorem sample_answered : ∃ past, Deeds sampleNet TellsSample samplePair past (sampleDone (sampleHasty.take 4)) := by
  have hother : ∀ d, TellsSample d (Env.calm 0) (.command false (.join sampleOther)) := by
    refine fun d => ⟨⟨fun _ => rfl, trivial⟩, fun g hg hjoin => ?_⟩
    rcases hjoin with ⟨h, -⟩ | ⟨h, -⟩
    · cases h
      exact absurd hg (by decide)
    · cases h
  have h1 := sample_step sampleHasty (k := 0) rfl ⟨_, Deeds.start⟩ (tellsSample (sample_dial rfl false))
    (by decide +kernel)
  have h2 := sample_step sampleHasty (k := 1) rfl h1 (hother _) (by decide +kernel)
  have h3 := sample_step sampleHasty (k := 2) rfl h2 (tellsSample (sample_deliver (by decide +kernel) false))
    (by decide +kernel)
  exact sample_step sampleHasty (k := 3) rfl h3 (tellsSample (sample_deliver (by decide +kernel) false))
    (by decide +kernel)

/-- The group that was joined before the answer came is missing from the record. -/
theorem not_replicates : ¬ ∀ (net : Net) (d₀ d : Duo) (s : Bool) (past : List (Duo × Deed)), Unmet net d₀ →
    Deeds net (Connects net) d₀ past d → Replicates net d₀ d s := by
  intro hall
  obtain ⟨past, hrun⟩ := sample_answered
  have hreplicates := hall sampleNet samplePair _ false past samplePair_unmet (hrun.mono fun _ _ _ h => h.1)
  have hmem := hreplicates.groups (by decide +kernel) [] (by decide +kernel) [0x68]
  exact absurd (hmem.2 (by decide +kernel)) List.not_mem_nil

theorem sample_heard : ∃ past, Deeds sampleNet TellsSample samplePair past (sampleDone (sampleHasty.take 6)) := by
  have hknown : ((sampleDone (sampleHasty.take 4)).node false).peers.get
      ((sampleDone (sampleHasty.take 4)).across false) = some 0 := by decide +kernel
  have hnamed : sampleGroup.raw ≠ [] := by decide
  have h5 := sample_step sampleHasty (k := 4) rfl sample_answered (tellsSample (sample_join hknown hnamed))
    (by decide +kernel)
  exact sample_step sampleHasty (k := 5) rfl h5 (tellsSample (sample_deliver (by decide +kernel) false))
    (by decide +kernel)

/-- The other one is recorded all the same. -/
theorem sample_records : (sampleDone (sampleHasty.take 6)).record false = some [[0x67]] ∧
    ((sampleDone (sampleHasty.take 6)).node false).ownGroups = [[0x68], [0x67]] ∧
    ∀ g ∈ ({sampleGroup.raw} : Set Bytes), g ∈ [[0x67]] ↔
      g ∈ ((sampleDone (sampleHasty.take 6)).node false).ownGroups := by
  obtain ⟨past, hrun⟩ := sample_heard
  have hquiet : (sampleDone (sampleHasty.take 6)).link false = [] := by decide +kernel
  have hrecord : (sampleDone (sampleHasty.take 6)).record false = some [[0x67]] := by decide +kernel
  exact ⟨hrecord, by decide +kernel, samplePair_unmet.records hrun hquiet hrecord⟩

end Duo

end Zre
