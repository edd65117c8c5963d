import Zre.Proofs.Reelection

/-!
# Proofs: the candidate of an open election

A candidate is copied from an ELECT, and the membership of its group changes afterwards. `Headed` says
that every open election of the node has a candidate who is there; the acts that can break it are the
adoption of a stranger, the departure of the candidate, and taking over an election of others.
-/

namespace Zre

open Fallible

namespace Node

/-- The id `c` is that of the node or of a member of `g`. -/
def Live (n : Node) (g : Bytes) (c : Str) : Prop :=
  c = n.ownWireId ∨ ∃ p r, n.member g p = some r ∧ c = n.wireId p

/-- The node is in `g`, and the group is contested. -/
def Contests (n : Node) (g : Bytes) : Prop := g ∈ n.ownGroups ∧ (n.group g).contest = true

/-- Every open election of a contested group of the node has a candidate who is there. -/
def Headed (n : Node) : Prop :=
  ∀ g e, n.Contests g → (n.group g).election = some e → n.Live g e.caw

/-- The groups of the node exist, with their contest flags. -/
def Flagged (n : Node) : Prop :=
  ∀ g ∈ n.ownGroups, (∃ group, n.groups.get g = some group) ∧
    (g ∈ n.contestGroups → (n.group g).contest = true)

/-- No member of a group was lost. -/
def Gains (n n' : Node) : Prop := ∀ g p r, n.member g p = some r → ∃ s, n'.member g p = some s

section Gains

variable {n n' n'' : Node}

theorem Gains.of_member (h : ∀ g p, n'.member g p = n.member g p) : Gains n n' := fun g p r hm =>
  ⟨r, (h g p).trans hm⟩

theorem Gains.of_talk {L : Prop} {K : Handed → Prop} (h : Talk L K n n') : Gains n n' :=
  Gains.of_member h.member

theorem Gains.of_groups (h : n'.groups = n.groups) : Gains n n' :=
  Gains.of_member fun g p => by unfold member; rw [h]

theorem Gains.trans (h : Gains n n') (h' : Gains n' n'') : Gains n n'' := by
  intro g p r hm
  obtain ⟨s, hs⟩ := h g p r hm
  exact h' g p s hs

theorem gains_joinTable (n : Node) (g : Bytes) (r : Ref) : Gains n (n.joinTable g r) := by
  intro g' p s hm
  rw [member_joinTable]
  split
  · exact ⟨r, rfl⟩
  · exact ⟨s, hm⟩

theorem gains_enterGroups (n : Node) (r : Ref) (gs : List Bytes) :
    Gains n (gs.foldl (fun n g => n.enterGroup r g) n) := by
  induction gs generalizing n with
  | nil => exact Gains.of_groups rfl
  | cons g gs ih =>
    have hopen : Gains n (n.openGroup g) := Gains.of_talk (talk_openGroup True anything n g)
    exact (hopen.trans (gains_joinTable _ g r)).trans (Gains.trans (Gains.of_groups rfl) (ih (n.enterGroup r g)))

theorem gains_startElections (env : Env) (n : Node) (gs : List Bytes) :
    Ensures (gs.foldlM (fun n g => n.startElection env g) n) (Gains n) :=
  Ensures.foldlM_rel (fun _ => Gains.of_groups rfl) (fun _ _ _ => Gains.trans)
    fun m g _ => (talk_startElection env m g).mono fun _ h => Gains.of_talk h

theorem gains_enterPeer (env : Env) (n : Node) (rhex : Str) (r : Ref) (h : HelloFields)
    (epStr : Str) (helloReply : Bool) :
    Ensures (n.enterPeer env rhex r h epStr helloReply) (Gains n) := by
  refine (talk_replyHello env _ r helloReply).bind fun n2 ht => ?_
  have h1 : Gains n (n.setObj r { (n.obj r).announce h with ready := true, endpointStr := epStr }) :=
    Gains.of_groups rfl
  have h2 := (h1.trans (Gains.of_talk ht)).trans (gains_enterGroups n2 r h.groups)
  simp only []
  generalize h.groups.foldl (fun n g => n.enterGroup r g) n2 = n3 at h2 ⊢
  rw [emits_rest]
  exact (gains_startElections env _ h.groups).mono fun _ h' =>
    h2.trans (Gains.trans (Gains.of_groups rfl) h')

theorem gains_handleJoin (env : Env) (n : Node) (rhex : Str) (r : Ref) (g : Bytes) :
    Ensures (n.handleJoin env rhex r g) (Gains n) := by
  unfold handleJoin
  split
  · exact Ensures.ok (Gains.of_groups rfl)
  · simp only []
    generalize { n.obj r with groups := addGroup (n.obj r).groups g } = p
    have h1 : Gains n (n.setObj r p) := Gains.of_groups rfl
    have h2 := (h1.trans (Gains.of_talk (talk_requireGroup True anything _ g))).trans
      (gains_joinTable _ g r)
    refine (talk_startElection env _ g).mono fun _ h => (h2.trans ?_).trans (Gains.of_talk h)
    exact Gains.of_groups rfl

end Gains

/-! ## What keeps a candidate -/

section Headed

variable {P : Node → Env → Act → Prop} {G : Bytes → Prop} {A : Bytes → Str → Prop} {n n' m : Node}
  {env : Env} {a : Act} {g : Bytes} {k c : Str} {r : Ref}

theorem Live.gains (h : n.Live g c) (hg : Gains n n') (hcfg : n'.cfg = n.cfg) : n'.Live g c := by
  have hwire : ∀ p, n'.wireId p = n.wireId p := fun p => by
    unfold wireId
    rw [hcfg]
  rcases h with h | ⟨p, r, hm, h⟩
  · refine Or.inl (h.trans ?_)
    unfold ownWireId
    rw [hwire, hcfg]
  · obtain ⟨s, hs⟩ := hg g p r hm
    exact Or.inr ⟨p, s, hs, h.trans (hwire p).symm⟩

/-- A group that is contested after a campaign was contested before it. -/
theorem Campaign.contests (h : Campaign G A n n') (hf : n.Flagged) (hc : n'.Contests g) : n.Contests g := by
  have hown : g ∈ n.ownGroups := h.fixed.2.1 ▸ hc.1
  exact ⟨hown, (h.fresh g hc.2).elim id (hf g hown).2⟩

/-- A campaign that only takes up ids that are there, and loses no members. -/
theorem Campaign.stays_headed (h : Campaign G A n n') (hA : ∀ g c, A g c → n.Contests g → n.Live g c)
    (hg : Gains n n') (hf : n.Flagged) (hn : n.Headed) : n'.Headed := by
  intro g e' hc he'
  have hc' := h.contests hf hc
  have hlive : n.Live g e'.caw := by
    rcases h.caw g e' he' with ⟨e, he, hcaw⟩ | ha
    · exact hcaw ▸ hn g e hc' he
    · exact hA g e'.caw ha hc'
  exact hlive.gains hg h.fixed.1

/-- What leaves the groups alone leaves their elections headed. -/
theorem Aside.stays_headed (h : Aside n n') (hf : n.Flagged) (hn : n.Headed) : n'.Headed :=
  (h.campaign (G := Nowhere) (A := Nobody)).stays_headed (fun _ _ => False.elim) (Gains.of_groups h.groups) hf hn

theorem Campaign.flagged (h : Campaign G A n n') (hf : n.Flagged) : n'.Flagged := by
  intro g hg
  obtain ⟨⟨group, hget⟩, hflag⟩ := hf g (h.fixed.2.1 ▸ hg)
  exact ⟨h.kept g group hget, fun hc => h.contest g (hflag (h.fixed.2.2 ▸ hc))⟩

/-! ## Departures -/

/-- An open election of `g` has the node as its candidate. -/
def Settled (n m : Node) (g : Bytes) : Prop :=
  ∀ e, (m.group g).election = some e → e.caw = n.ownWireId

theorem electionNeighbors_eq_nil :
    n.electionNeighbors g = [] ↔ ∀ p s, n.member g p = some s → (n.obj s).connected = false := by
  unfold electionNeighbors
  rw [List.filter_eq_nil_iff]
  constructor
  · intro h p s hm
    rw [member_eq] at hm
    exact Bool.eq_false_iff.2 (h s ((Dict.mem_values _).2 ⟨p, hm⟩))
  · intro h s hs
    obtain ⟨p, hp⟩ := (Dict.mem_values _).1 hs
    rw [h p s ((member_eq n g p).trans hp)]
    simp

/-- A departure settles the election when a leader is recorded or nobody is left to talk to. -/
theorem restart_settles (env : Env) (hn : n.Named) (hc : n.Contests g)
    (h : (n.group g).leader.isSome = true ∨ n.electionNeighbors g = []) :
    Ensures (n.restartElectionIfNeeded env g) (n.Settled · g) := by
  rw [restart_contested env hc.2]
  split
  · refine (startElection_rerun env hn hc.1 hc.2).mono fun m hr e he => ?_
    rcases hr with ⟨⟨e', he', hcaw⟩, -⟩ | ⟨hclosed, -⟩
    · rw [he'] at he
      cases he
      exact hcaw
    · rw [hclosed] at he
      cases he
  · split
    · refine Ensures.ok fun e he => ?_
      rw [show ((n.finishElection g n.ownWireId).group g).election = none by
        show ((n.setGroup g _).group g).election = none
        rw [group_setGroup]] at he
      cases he
    · split
      · refine Ensures.ok fun e he => ?_
        unfold setElection at he
        rw [group_setGroup] at he
        cases he
      · rename_i hnobody hleader
        refine Ensures.ok fun e he => ?_
        rcases h with h | h
        · exact absurd ⟨by rw [he]; rfl, h⟩ hleader
        · exact absurd ⟨by rw [he]; rfl, h⟩ hnobody

/-- The loop over the groups of a departed peer keeps what settles the election of `g`, or has settled
it. -/
structure Settling (n m : Node) (g : Bytes) : Prop where
  campaign : Campaign (fun _ => True) n.Own n m
  member : ∀ g p, m.member g p = n.member g p
  connected : ∀ r, (m.obj r).connected = true → (n.obj r).connected = true
  books : ((m.group g).election = (n.group g).election ∧ (m.group g).leader = (n.group g).leader) ∨
    n.Settled m g

theorem Settled.later (h : n.Settled m g) (hcamp : Campaign (fun _ => True) n.Own m n') : n.Settled n' g := by
  intro e' he'
  rcases hcamp.caw g e' he' with ⟨e, he, hcaw⟩ | hown
  · rw [← hcaw]
    exact h e he
  · exact hown

theorem settling_step (env : Env) (hn : n.Named) (hc : n.Contests g)
    (hs : (n.group g).leader.isSome = true ∨ n.electionNeighbors g = []) (h : n.Settling m g) (x : Bytes) :
    Ensures (m.restartElectionIfNeeded env x) fun m' => n.Settling m' g ∧ (x = g → n.Settled m' g) := by
  intro m' hm'
  have hstep : Campaign (At x (m.Restless x)) n.Own m m' :=
    (campaign_restartElectionIfNeeded env m x m' hm').mono (fun _ => id) fun _ _ => h.campaign.own
  have hany : Campaign (fun _ => True) n.Own m m' := hstep.mono (fun _ _ => trivial) fun _ _ => id
  have htalk := talk_restartElectionIfNeeded env m x m' hm'
  have hcampaign := h.campaign.trans hany
  have hmember : ∀ g p, m'.member g p = n.member g p := fun g p => (htalk.member g p).trans (h.member g p)
  have hconnected : ∀ r, (m'.obj r).connected = true → (n.obj r).connected = true := fun r hr =>
    h.connected r ((htalk.obj r).of_connected hr)
  have hhit : x = g → n.Settled m' g := by
    rintro rfl
    rcases h.books with ⟨-, hlead⟩ | hsettled
    · have hs' : (m.group x).leader.isSome = true ∨ m.electionNeighbors x = [] := by
        rw [hlead]
        refine hs.imp id fun hnil => electionNeighbors_eq_nil.2 fun p s hp => ?_
        rw [h.member] at hp
        have hoff := electionNeighbors_eq_nil.1 hnil p s hp
        by_contra hon
        rw [h.connected s (by simpa using hon)] at hoff
        cases hoff
      have hm := restart_settles env (h.campaign.named hn)
        ⟨h.campaign.fixed.2.1 ▸ hc.1, h.campaign.contest x hc.2⟩ hs' m' hm'
      exact fun e he => h.campaign.own (x := x) (hm e he)
    · exact hsettled.later hany
  refine ⟨⟨hcampaign, hmember, hconnected, ?_⟩, hhit⟩
  by_cases hx : x = g
  · exact Or.inr (hhit hx)
  · obtain ⟨he, hlead⟩ := hstep.books g fun h => hx h.1.symm
    exact h.books.imp (fun hb => ⟨he.trans hb.1, hlead.trans hb.2⟩) fun hset => hset.later hany

theorem restarts_settle (env : Env) (hn : n.Named) (hc : n.Contests g)
    (hs : (n.group g).leader.isSome = true ∨ n.electionNeighbors g = []) {gs : List Bytes} (hg : g ∈ gs) :
    Ensures (n.restartElections env gs) (n.Settled · g) :=
  Ensures.foldlM_reach (I := (n.Settling · g)) hg
    ⟨Campaign.refl n, fun _ _ => rfl, fun _ => id, Or.inl ⟨rfl, rfl⟩⟩
    (fun _ x _ h => (settling_step env hn hc hs h x).mono fun _ h' => h'.1)
    (fun _ h => (settling_step env hn hc hs h g).mono fun _ h' => h'.2 rfl)
    fun m x _ h hset m' hm' => hset.later
      ((campaign_restartElectionIfNeeded env m x m' hm').mono (fun _ _ => trivial) fun _ _ => h.campaign.own)

/-- The id `c` is that of the node or of a member of `g` other than `k`. -/
def LiveWithout (n : Node) (g : Bytes) (k : Str) (c : Str) : Prop :=
  c = n.ownWireId ∨ ∃ p r, p ≠ k ∧ n.member g p = some r ∧ c = n.wireId p

/-- The departure of `k` does not leave `g` without a candidate: the candidate is somebody else, a leader
is recorded, or nobody else is connected. -/
def Survives (n : Node) (k : Str) (g : Bytes) : Prop :=
  n.Contests g → ∀ e, (n.group g).election = some e →
    n.LiveWithout g k e.caw ∨ (n.group g).leader.isSome = true ∨
      ∀ p s, p ≠ k → n.member g p = some s → (n.obj s).connected = false

/-- A peer leaves the groups `gs`, and their elections are looked after. -/
theorem headed_of_departure {gs : List Bytes} (hnamed : n.Named) (hf : n.Flagged) (hn : n.Headed)
    (h : Campaign Nowhere Nobody n m)
    (hmember : ∀ g p, m.member g p = if g ∈ gs ∧ p = k then none else n.member g p)
    (hconn : ∀ r, (m.obj r).connected = true → (n.obj r).connected = true)
    (hk : ∀ g ∈ gs, n.Survives k g) (hact : m.restartElections env gs = .ok n') : n'.Headed := by
  have hstep := campaign_restartElections env m gs n' hact
  have hall : Campaign (fun x => x ∈ gs ∧ m.Restless x) n.Own n n' :=
    h.of_nobody.trans (hstep.mono (fun _ => id) fun _ _ => h.own)
  have htalk : Gains m n' := by
    refine Ensures.foldlM_rel (R := Gains) (fun _ => Gains.of_groups rfl) (fun _ _ _ => Gains.trans)
      (fun x g _ => ?_) n' hact
    exact (talk_restartElectionIfNeeded env x g).mono fun _ h' => Gains.of_talk h'
  intro g e' hc he'
  have hc' := hall.contests hf hc
  -- a candidate who is still a member is there afterwards
  have hstays : ∀ p r, n.member g p = some r → (g ∈ gs → p ≠ k) → e'.caw = n.wireId p → n'.Live g e'.caw := by
    intro p r hm hp hcaw
    have hm' : m.member g p = some r := by
      rw [hmember, if_neg, hm]
      rintro ⟨hg, rfl⟩
      exact hp hg rfl
    refine Live.gains (n := m) (Or.inr ⟨p, r, hm', ?_⟩) htalk (hall.fixed.1.trans h.fixed.1.symm)
    unfold wireId
    rw [h.fixed.1]
    exact hcaw
  have hself : e'.caw = n.ownWireId → n'.Live g e'.caw := fun hcaw => Or.inl (by
    unfold ownWireId wireId at hcaw ⊢
    rw [hcaw, hall.fixed.1])
  rcases hall.caw g e' he' with ⟨e, he, hcaw⟩ | hown
  · by_cases hg : g ∈ gs
    · rcases hk g hg hc' e he with (hown | ⟨p, r, hp, hm, hwire⟩) | hsettle
      · exact hself (hcaw ▸ hown)
      · exact hstays p r hm (fun _ => hp) (hcaw ▸ hwire)
      · have hs : (m.group g).leader.isSome = true ∨ m.electionNeighbors g = [] := by
          rw [(h.books g id).2]
          refine hsettle.imp id fun halone => electionNeighbors_eq_nil.2 fun p s hp => ?_
          rw [hmember] at hp
          split at hp
          · cases hp
          · rename_i hnot
            have hoff := halone p s (fun hpk => hnot ⟨hg, hpk⟩) hp
            by_contra hon
            rw [hconn s (by simpa using hon)] at hoff
            cases hoff
        have hsettled := restarts_settle env (h.named hnamed)
          ⟨h.fixed.2.1 ▸ hc'.1, h.contest g hc'.2⟩ hs hg n' hact
        exact hself (h.own (x := g) (hsettled e' he'))
    · rcases hn g e hc' he with hown | ⟨p, r, hm, hwire⟩
      · exact hself (hcaw ▸ hown)
      · exact hstays p r hm (fun hmem => absurd hmem hg) (hcaw ▸ hwire)
  · exact hself hown

/-! ## Every run -/

/-- The act leaves no open election without a candidate: a challenger is adopted only if it is there,
the departure of a member is survived by the elections of its groups, and a group is joined or
contested only if the candidate of its open election is there. -/
structure Heads (n : Node) (env : Env) (a : Act) : Prop where
  elect : ∀ k r g id, n.Elects a k r g id → n.Contests g → n.Adopts g (n.wireId (bdec id)) →
    n.Live g (n.wireId (bdec id))
  departs : ∀ k r g, (n.Leaves a k r g ∧ g ≠ []) ∨ (n.Departs env a k r ∧ g ∈ (n.obj r).groups) →
    n.Survives k g
  join : ∀ g : WireString, a = .input (.command (.join g)) → g.raw ∉ n.ownGroups →
    (n.group g.raw).contest = true ∨ g.raw ∈ n.contestGroups →
    ∀ e, (n.group g.raw).election = some e → n.Live g.raw e.caw
  contest : ∀ g : WireString, a = .input (.setContestInGroup g) → g.raw ∈ n.ownGroups →
    ∀ e, (n.group g.raw).election = some e → n.Live g.raw e.caw

theorem own_live {x : Bytes} (hc : n.Own x c) : n.Live x c := Or.inl hc

theorem requireGroup_get (n : Node) (g : Bytes) : ∃ group, (n.requireGroup g).groups.get g = some group := by
  have hopen : ∃ group, (n.openGroup g).groups.get g = some group := by
    unfold openGroup
    cases hg : n.groups.get g with
    | none => exact ⟨_, Dict.get_set_self n.groups g _⟩
    | some group => exact ⟨group, hg⟩
  unfold requireGroup
  simp only []
  split
  · exact ⟨_, Dict.get_set_self (n.openGroup g).groups g _⟩
  · exact hopen

theorem flagged_owning_require (hf : n.Flagged) (g : Bytes) :
    ((n.owning (n.ownGroups ++ [g])).requireGroup g).Flagged := by
  have hreq : Campaign Nowhere Nobody (n.owning (n.ownGroups ++ [g]))
      ((n.owning (n.ownGroups ++ [g])).requireGroup g) := campaign_requireGroup _ g
  intro x hx
  rw [hreq.fixed.2.1] at hx
  rw [hreq.fixed.2.2]
  rcases List.mem_append.1 hx with hx | hx
  · obtain ⟨⟨group, hget⟩, hflag⟩ := hf x hx
    exact ⟨hreq.kept x group hget, fun hc => hreq.contest x (hflag hc)⟩
  · cases List.mem_singleton.1 hx
    refine ⟨requireGroup_get _ g, fun hc => ?_⟩
    have hc' : g ∈ (n.owning (n.ownGroups ++ [g])).contestGroups := hc
    rw [requireGroup_group]
    simp [hc']

theorem flagged_setContest (hf : n.Flagged) (g : WireString) : (n.setContestInGroup g).Flagged := by
  intro x hx
  have hown : x ∈ n.ownGroups := by
    unfold setContestInGroup at hx
    simp only [] at hx
    split at hx <;> exact hx
  obtain ⟨⟨group, hget⟩, hflag⟩ := hf x hown
  unfold setContestInGroup
  simp only []
  cases hg : n.groups.get g.raw with
  | none =>
    refine ⟨⟨group, hget⟩, fun hc => ?_⟩
    rcases (mem_addGroup _ _ _).1 hc with hc | hc
    · exact hflag hc
    · rw [hc, hg] at hget
      cases hget
  | some gr =>
    by_cases hxg : g.raw = x
    · cases hxg
      refine ⟨⟨_, Dict.get_set_self n.groups g.raw _⟩, fun _ => ?_⟩
      rw [group_setGroup]
    · refine ⟨⟨group, (Dict.get_set_ne n.groups _ hxg).trans hget⟩, fun hc => ?_⟩
      rw [group_setGroup_ne _ _ hxg]
      exact hflag (((mem_addGroup _ _ _).1 hc).resolve_right fun h => hxg h.symm)

theorem Visits.flagged (h : Visits P n) : n.Flagged := by
  refine h.invariant (fun cfg g hg => by cases hg) fun n env a n' ht hn ha _ hact => ?_
  rcases act_campaign (act_stirs env ht ha n' hact) with hc | hr
  · exact hc.flagged hn
  · cases hr with
    | join g _ h => exact (h.campaign (G := Nowhere) (A := Nobody)).flagged (flagged_owning_require hn g.raw)
    | leave g _ h =>
      refine (h.campaign (G := Nowhere) (A := Nobody)).flagged fun x hx => ?_
      exact hn x (List.mem_of_mem_erase hx)
    | contest g _ h => exact h ▸ flagged_setContest hn g
    | recv _ h => exact h ▸ hn

/-- Taking over the elections of a group that is joined. -/
theorem headed_owning_require (hf : n.Flagged) (hn : n.Headed) (g : Bytes)
    (hg : g ∉ n.ownGroups → (n.group g).contest = true ∨ g ∈ n.contestGroups →
      ∀ e, (n.group g).election = some e → n.Live g e.caw) :
    ((n.owning (n.ownGroups ++ [g])).requireGroup g).Headed := by
  have hreq : Campaign Nowhere Nobody (n.owning (n.ownGroups ++ [g]))
      ((n.owning (n.ownGroups ++ [g])).requireGroup g) := campaign_requireGroup _ g
  have hown : Gains n (n.owning (n.ownGroups ++ [g])) := Gains.of_groups rfl
  have hgains := hown.trans (Gains.of_talk (talk_requireGroup True anything _ g))
  intro x e hc he
  rw [(requireGroup_books _ g x).1] at he
  have hflag : (n.group x).contest = true ∨ x ∈ n.contestGroups := hreq.fresh x hc.2
  refine Live.gains (n := n) ?_ hgains hreq.fixed.1
  by_cases hx : x ∈ n.ownGroups
  · exact hn x e ⟨hx, hflag.elim id (hf x hx).2⟩ he
  · have hxg : x = g := by
      have hown := hc.1
      rw [hreq.fixed.2.1] at hown
      exact List.mem_singleton.1 ((List.mem_append.1 hown).resolve_left hx)
    subst hxg
    exact hg hx hflag e he

theorem headed_setContest (hn : n.Headed) (g : WireString)
    (hg : g.raw ∈ n.ownGroups → ∀ e, (n.group g.raw).election = some e → n.Live g.raw e.caw) :
    (n.setContestInGroup g).Headed := by
  unfold setContestInGroup
  simp only []
  cases hget : n.groups.get g.raw with
  | none => exact hn
  | some group =>
    have hgroup : n.group g.raw = group := by unfold Node.group; rw [hget]; rfl
    have hgains : Gains n (setGroup { n with contestGroups := addGroup n.contestGroups g.raw } g.raw
        { group with contest := true }) := by
      refine Gains.of_member fun x p => ?_
      rw [member_setGroup]
      split
      · rename_i hx
        rw [← hx, member_eq, hgroup]
      · rfl
    intro x e hc he
    refine Live.gains (n := n) ?_ hgains rfl
    by_cases hx : g.raw = x
    · subst hx
      rw [group_setGroup] at he
      exact hg hc.1 e (by rw [hgroup]; exact he)
    · have hother : (setGroup { n with contestGroups := addGroup n.contestGroups g.raw } g.raw
          { group with contest := true }).group x = n.group x := group_setGroup_ne _ _ hx
      rw [hother] at he
      exact hn x e ⟨hc.1, hother ▸ hc.2⟩ he

theorem headed_act (ht : Tables n) (hnamed : n.Named) (hf : n.Flagged) (hn : n.Headed)
    (hp : n.Heads env a) (h : Stir env n a n') : n'.Headed := by
  cases h with
  | aside h => exact h.stays_headed hf hn
  | hello k r h epStr helloReply n0 h0 hk hs =>
    have hc0 := h0.campaign (G := fun _ => True) (A := n.Own)
    refine (hc0.trans ((campaign_enterPeer env n0 k r h epStr helloReply n' hs).mono (fun _ _ => trivial)
      fun _ _ => hc0.own)).stays_headed (fun _ _ hc _ => own_live hc) ?_ hf hn
    exact (Gains.of_groups h0.groups).trans (gains_enterPeer env n0 k r h epStr helloReply n' hs)
  | join k r g n0 hk h0 hs =>
    have hc0 := h0.aside.campaign (G := fun _ => True) (A := n.Own)
    refine (hc0.trans ((campaign_handleJoin env n0 k r g n' hs).mono (fun _ _ => trivial)
      fun _ _ => hc0.own)).stays_headed (fun _ _ hc _ => own_live hc) ?_ hf hn
    exact (Gains.of_groups h0.aside.groups).trans (gains_handleJoin env n0 k r g n' hs)
  | depart k r n0 hd h0 hs =>
    have hk0 : (n0.obj r).uuidHex = k := (h0.keeps r).uuidHex.trans (ht.key k r hd.1)
    refine headed_of_departure (k := k) hnamed hf hn
      (h0.aside.campaign.trans (campaign_forgotten n0 k r (n.gone env r))) (fun g p => ?_) (fun s hs => ?_)
      (fun g hg => hp.departs k r g (Or.inr ⟨hd, (env.order_perm _).mem_iff.1 hg⟩)) hs
    · show (n0.leaveTables r (n.gone env r)).member g p = _
      rw [member_leaveTables, hk0, h0.member]
      rfl
    · rw [← (h0.keeps s).connected]
      exact forgotten_connected hs
  | leave k r g n0 hl h0 hs =>
    by_cases hg : g = []
    · unfold handleLeave at hs
      rw [if_pos hg] at hs
      cases hs
      exact h0.aside.stays_headed hf hn
    · rw [handleLeave_eq env n0 k r hg, ← restartElections_singleton] at hs
      have hk : n.peers.get k = some r := by
        obtain ⟨msg, status, hr, -⟩ := hl
        exact hr.peer
      have hk0 : (n0.obj r).uuidHex = k := (h0.keeps r).uuidHex.trans (ht.key k r hk)
      refine headed_of_departure (k := k) hnamed hf hn (h0.aside.campaign.trans (campaign_left n0 k r g))
        (fun x p => ?_) (fun s hs => ?_) (fun x hx => ?_) hs
      · rw [member_left, hk0, h0.member]
        simp only [List.mem_singleton]
      · rwa [(left_rest n0 k r g).2, (h0.keeps s).connected] at hs
      · cases List.mem_singleton.1 hx
        exact hp.departs k r g (Or.inl ⟨hl, hg⟩)
  | elect k r g id n0 he h0 hs =>
    refine (campaign_elects env h0 r g id n' hs).stays_headed ?_ ?_ hf hn
    · rintro x c ⟨rfl, rfl, hadopt⟩ hc
      exact hp.elect k r x id he hc hadopt
    · exact (Gains.of_groups h0.aside.groups).trans (Gains.of_talk (talk_handleElect env n0 r g id n' hs))
  | leader k r g leader n0 hl h0 hs =>
    have hc0 := h0.aside.campaign (G := fun _ => True) (A := Nobody)
    refine (hc0.trans ((campaign_handleLeader env n0 g leader n' hs).mono (fun _ _ => trivial)
      fun _ _ => id)).stays_headed (fun _ _ => False.elim) ?_ hf hn
    exact (Gains.of_groups h0.aside.groups).trans (Gains.of_talk (talk_handleLeader env n0 g leader n' hs))
  | maintain ha hs =>
    exact (campaign_maintainElections env n n' hs).stays_headed (fun _ _ => False.elim)
      (Gains.of_talk (talk_maintainElections env n n' hs)) hf hn
  | joinGroup g ha hs =>
    rcases joinGroup_aside env n g.raw n' hs with rfl | h
    · exact hn
    · exact h.stays_headed (flagged_owning_require hf g.raw) (headed_owning_require hf hn g.raw (hp.join g ha))
  | leaveGroup g ha hs =>
    rcases leaveGroup_aside env n g.raw n' hs with rfl | h
    · exact hn
    · refine h.stays_headed (fun x hx => hf x (List.mem_of_mem_erase hx)) fun x e hc he => ?_
      exact hn x e ⟨List.mem_of_mem_erase hc.1, hc.2⟩ he
  | contest g ha hs => exact hs ▸ headed_setContest hn g (hp.contest g ha)
  | recv ha hs => exact hs ▸ hn

/-- In every run in which strangers are not adopted and the departures of candidates are survived, every
open election of the node has a candidate who is there. -/
theorem Visits.headed (h : Visits Heads n) : n.Headed := by
  induction h with
  | init cfg =>
    intro g e hc
    cases hc.1
  | act env a hn ha hp h ih =>
    exact headed_act hn.tables hn.named hn.flagged ih hp (act_stirs env hn.tables ha _ h)

end Headed

/-! ## A candidate that goes -/

/-- While nobody is known and no election is open, no candidate is at stake. -/
theorem heads_of_alone {n : Node} (h : n.peers.entries = [])
    (hg : ∀ e ∈ n.groups.entries, e.2.election = none) (env : Env) (a : Act) : n.Heads env a := by
  have hnone : ∀ {k r}, n.peers.get k ≠ some r := by
    intro k r hk
    rw [Dict.get_eq_some_iff, h] at hk
    cases hk
  have hclosed : ∀ g e, (n.group g).election ≠ some e := by
    intro g e he
    unfold Node.group at he
    cases hget : n.groups.get g with
    | none =>
      rw [hget] at he
      cases he
    | some group =>
      rw [hget, Option.getD_some, hg _ ((Dict.get_eq_some_iff _).1 hget)] at he
      cases he
  constructor
  case elect =>
    rintro k r g id ⟨msg, hr, -⟩ - -
    exact absurd hr.peer hnone
  case departs =>
    rintro k r g h
    obtain ⟨⟨msg, status, hr, -⟩, -⟩ | ⟨⟨hk, -⟩, -⟩ := h
    · exact absurd hr.peer hnone
    · exact absurd hk hnone
  case join => exact fun g _ _ _ e he => absurd he (hclosed g.raw e)
  case contest => exact fun g _ _ e he => absurd he (hclosed g.raw e)

/-- The member of `g` meets the peer `00…02` and stands for itself in the election. -/
theorem headed_sampleMember :
    (sampleMember.after (Env.calm 0) (.peerMsg sampleHello)).Headed ∧
      ((sampleMember.after (Env.calm 0) (.peerMsg sampleHello)).group [0x67]).election.isSome = true := by
  have hrun0 : Visits Heads sampleA := .init _
  have hrun1 := hrun0.input (Env.calm 0) (.setContestInGroup sampleGroup) nofun
    (heads_of_alone (by decide +kernel) (by decide +kernel) _ _) (by decide +kernel)
  have hrun2 : Visits Heads sampleMember :=
    hrun1.input (Env.calm 0) (.command (.join sampleGroup)) nofun
      (heads_of_alone (by decide +kernel) (by decide +kernel) _ _) (by decide +kernel)
  have hrun3 := hrun2.input (Env.calm 0) (.peerMsg sampleHello) nofun
    (heads_of_alone (by decide +kernel) (by decide +kernel) _ _) (by decide +kernel)
  exact ⟨hrun3.headed, by decide +kernel⟩

/-- The HELLO of the peer `00…01`, a member of the group `g`. -/
def sampleThird : List Bytes :=
  [1 :: (List.replicate 15 0 ++ [1]),
    Codec.helloBytes 1 ⟨encodeStr "tcp://10.0.0.1:4001".toList, [[0x67]], 1, [0x44], Dict.empty⟩]

/-- The node `00…03` in the group `g` with the peers `00…01` and `00…02`, of which it supports the
second. -/
def sampleWave : Node :=
  ((((sampleC.after (Env.calm 0) (.setContestInGroup sampleGroup)).after (Env.calm 0)
    (.command (.join sampleGroup))).after (Env.calm 0) (.peerMsg sampleThird)).after (Env.calm 0)
    (.peerMsg sampleHello)).after (Env.calm 0) (.peerMsg sampleElect)

/-- The peer `00…02` leaves the group `g` before a leader is announced. -/
def sampleQuit : List Bytes :=
  [1 :: sampleUuid, Codec.headBytes Cmd.leave 3 ++ Codec.simpleBytes (some [0x67]) (some 2)]

theorem sampleWave_visits : Visits (fun _ _ _ => True) sampleWave := by
  have h0 : Visits (fun _ _ _ => True) sampleC := .init _
  have h1 := h0.input (Env.calm 0) (.setContestInGroup sampleGroup) nofun trivial (by decide +kernel)
  have h2 := h1.input (Env.calm 0) (.command (.join sampleGroup)) nofun trivial (by decide +kernel)
  have h3 := h2.input (Env.calm 0) (.peerMsg sampleThird) nofun trivial (by decide +kernel)
  have h4 := h3.input (Env.calm 0) (.peerMsg sampleHello) nofun trivial (by decide +kernel)
  exact h4.input (Env.calm 0) (.peerMsg sampleElect) nofun trivial (by decide +kernel)

/-- The candidate leaves the group while a third peer is in it: the election stays open, with a candidate
who is not there. -/
theorem not_headed : ¬ ∀ n : Node, Visits (fun _ _ _ => True) n → n.Headed := by
  intro hall
  have hn := hall _ (sampleWave_visits.input (Env.calm 0) (.peerMsg sampleQuit) nofun trivial
    (by decide +kernel))
  have hc : (sampleWave.after (Env.calm 0) (.peerMsg sampleQuit)).Contests [0x67] :=
    ⟨by decide +kernel, by decide +kernel⟩
  have hcaw : ((sampleWave.after (Env.calm 0) (.peerMsg sampleQuit)).group [0x67]).election.map
      (fun e => e.caw) = some (hex sampleUuid) := by decide +kernel
  have hself : hex sampleUuid ≠ (sampleWave.after (Env.calm 0) (.peerMsg sampleQuit)).ownWireId := by
    decide +kernel
  have hnobody : ∀ e ∈ ((sampleWave.after (Env.calm 0) (.peerMsg sampleQuit)).group [0x67]).peers.entries,
      hex sampleUuid ≠ (sampleWave.after (Env.calm 0) (.peerMsg sampleQuit)).wireId e.1 := by
    decide +kernel
  obtain ⟨e, he, hwho⟩ := Option.map_eq_some_iff.1 hcaw
  rcases hn [0x67] e hc he with hown | ⟨p, r, hm, hwire⟩
  · exact hself (hwho ▸ hown)
  · rw [member_eq] at hm
    exact hnobody _ ((Dict.get_eq_some_iff _).1 hm) (hwho ▸ hwire)

end Node

end Zre
