import Zre.Proofs.Campaigns

/-!
# Proofs: who takes part in elections

Every act is a campaign for the groups that the node is in, and for those that an ELECT, a LEADER or a
departure concerns. A node that never answers for a group that it is not in speaks of its own groups
only.
-/

namespace Zre

open Fallible

namespace Node

/-- The groups whose elections an act may touch: those of the node, those of an ELECT that has an
effect, and those with an open election that a LEADER or a departure concerns. -/
def Speaks (n : Node) (env : Env) (a : Act) (g : Bytes) : Prop :=
  g ∈ n.ownGroups ∨
    (∃ k r id, n.Elects a k r g id ∧ n.Answers g (n.wireId (bdec id))) ∨
    ((n.group g).election.isSome = true ∧ ∃ k r, (∃ id, n.Leads a k r g id) ∨ n.Leaves a k r g ∨
      (n.Departs env a k r ∧ g ∈ (n.obj r).groups))

/-- The candidates that an act may take up: the node itself, and an adopted challenger. -/
def TakesUp (n : Node) (a : Act) (g : Bytes) (c : Str) : Prop :=
  c = n.ownWireId ∨ ∃ k r id, n.Elects a k r g id ∧ c = n.wireId (bdec id) ∧ n.Adopts g c

/-- The acts that elections wait for, but that say nothing about them. -/
inductive Rules (n : Node) (a : Act) (n' : Node) : Prop where
  | join (g : WireString) (ha : a = .input (.command (.join g)))
      (h : Aside ((n.owning (n.ownGroups ++ [g.raw])).requireGroup g.raw) n')
  | leave (g : WireString) (ha : a = .input (.command (.leave g)))
      (h : Aside (n.owning (n.ownGroups.erase g.raw)) n')
  | contest (g : WireString) (ha : a = .input (.setContestInGroup g)) (h : n' = n.setContestInGroup g)
  | recv (ha : a = .input .recv) (h : n' = { n with queue := n.queue.tail })

section Partaking

variable {G : Bytes → Prop} {A : Bytes → Str → Prop} {n n' : Node} {env : Env} {a : Act}

/-- The books of the groups are those from before the record-keeping. -/
theorem Prelude.books (h : Prelude n n') (g : Bytes) : n'.group g = n.group g := by
  unfold Node.group
  rw [h.aside.groups]

theorem Prelude.member (h : Prelude n n') (g : Bytes) (p : Str) : n'.member g p = n.member g p := by
  rw [member_eq, member_eq, h.books]

theorem Prelude.own (h : Prelude n n') {x : Bytes} {c : Str} (hc : n'.Own x c) : n.Own x c :=
  (h.aside.campaign (G := Nowhere) (A := Nobody)).own hc

/-- An ELECT, seen from before the record-keeping. -/
theorem campaign_elects (env : Env) {n0 : Node} (h0 : Prelude n n0) (r : Ref) (g challenger : Bytes) :
    Ensures (n0.handleElect env r g challenger)
      (Campaign (At g (n.Answers g (n.wireId (bdec challenger))))
        (n.Adopted g (n.wireId (bdec challenger))) n) := by
  have hwire : n0.wireId (bdec challenger) = n.wireId (bdec challenger) := by
    unfold wireId
    rw [h0.aside.cfg]
  refine (campaign_handleElect env n0 r g challenger).mono fun m h => h0.aside.campaign.trans (h.mono ?_ ?_)
  · unfold Answers Adopts
    rw [hwire, h0.books]
    exact fun _ => id
  · unfold Adopted Adopts
    rw [hwire, h0.books]
    exact fun _ _ => id

theorem act_campaign (h : Stir env n a n') : Campaign (n.Speaks env a) (n.TakesUp a) n n' ∨ Rules n a n' := by
  cases h with
  | aside h => exact Or.inl h.campaign
  | hello k r h epStr helloReply n0 h0 hk hs =>
    refine Or.inl (h0.campaign.trans ((campaign_enterPeer env n0 k r h epStr helloReply n' hs).mono ?_ ?_))
    · rintro g ⟨-, hg⟩
      exact Or.inl (h0.ownGroups ▸ hg)
    · exact fun g c hc => Or.inl ((h0.campaign (G := Nowhere) (A := Nobody)).own hc)
  | depart k r n0 hd h0 hs =>
    refine Or.inl (h0.aside.campaign.trans ((campaign_depart _ n' hs).mono ?_ fun _ _ hc => Or.inl (h0.own hc)))
    rintro g ⟨hg, hrest⟩
    have hbooks := (campaign_forgotten (G := Nowhere) (A := Nobody) n0 k r (n.gone env r)).books g id
    rcases hrest with hopen | ⟨hown, -⟩
    · rw [hbooks.1, h0.books] at hopen
      exact Or.inr (Or.inr ⟨hopen, k, r, Or.inr (Or.inr ⟨hd, (env.order_perm _).mem_iff.1 hg⟩)⟩)
    · exact Or.inl (h0.aside.ownGroups ▸ hown)
  | join k r g n0 hk h0 hs =>
    refine Or.inl (h0.aside.campaign.trans ((campaign_handleJoin env n0 k r g n' hs).mono ?_
      fun _ _ hc => Or.inl (h0.own hc)))
    rintro x ⟨rfl, hx⟩
    exact Or.inl (h0.aside.ownGroups ▸ hx)
  | leave k r g n0 hl h0 hs =>
    refine Or.inl (h0.aside.campaign.trans ?_)
    by_cases hg : g = []
    · unfold handleLeave at hs
      rw [if_pos hg] at hs
      cases hs
      exact Campaign.refl _
    · rw [handleLeave_eq env n0 k r hg] at hs
      have hleft := campaign_left (G := Nowhere) (A := Nobody) n0 k r g
      refine (campaign_left n0 k r g).trans ((campaign_restartElectionIfNeeded env _ g n' hs).mono ?_
        fun _ _ hc => Or.inl (h0.own (hleft.own hc)))
      rintro x ⟨rfl, hopen | ⟨hown, -⟩⟩
      · rw [(hleft.books x id).1, h0.books] at hopen
        exact Or.inr (Or.inr ⟨hopen, k, r, Or.inr (Or.inl hl)⟩)
      · rw [hleft.fixed.2.1, h0.aside.ownGroups] at hown
        exact Or.inl hown
  | elect k r g id n0 he h0 hs =>
    refine Or.inl ((campaign_elects env h0 r g id n' hs).mono ?_ ?_)
    · rintro x ⟨rfl, hans⟩
      exact Or.inr (Or.inl ⟨k, r, id, he, hans⟩)
    · rintro x c ⟨rfl, rfl, hadopt⟩
      exact Or.inr ⟨k, r, id, he, rfl, hadopt⟩
  | leader k r g id n0 hl h0 hs =>
    refine Or.inl (h0.aside.campaign.trans ((campaign_handleLeader env n0 g id n' hs).mono ?_
      fun _ _ => False.elim))
    rintro x ⟨rfl, hopen⟩
    rw [h0.books] at hopen
    exact Or.inr (Or.inr ⟨hopen, k, r, Or.inl ⟨id, hl⟩⟩)
  | maintain ha hs =>
    exact Or.inl ((campaign_maintainElections env n n' hs).mono (fun g hg => Or.inl hg) fun _ _ => False.elim)
  | joinGroup g ha hs =>
    rcases joinGroup_aside env n g.raw n' hs with rfl | h
    · exact Or.inl (Campaign.refl n')
    · exact Or.inr (.join g ha h)
  | leaveGroup g ha hs =>
    rcases leaveGroup_aside env n g.raw n' hs with rfl | h
    · exact Or.inl (Campaign.refl n')
    · exact Or.inr (.leave g ha h)
  | contest g ha hs => exact Or.inr (.contest g ha hs)
  | recv ha hs => exact Or.inr (.recv ha hs)

/-! ## Who speaks of a group -/

/-- Every group of a visited node is filed under its name. -/
theorem Visits.named {P : Node → Env → Act → Prop} (h : Visits P n) : n.Named := by
  refine h.invariant (fun cfg g group hg => by cases hg) fun n env a n' ht hn ha _ hact => ?_
  rcases act_campaign (act_stirs env ht ha n' hact) with hc | hr
  · exact hc.named hn
  · cases hr with
    | join g _ h =>
      have hreq := (campaign_requireGroup (G := Nowhere) (A := Nobody)
        (n.owning (n.ownGroups ++ [g.raw])) g.raw).named hn
      exact (h.campaign (G := Nowhere) (A := Nobody)).named hreq
    | leave g _ h => exact (h.campaign (G := Nowhere) (A := Nobody)).named hn
    | contest g _ h =>
      rw [h]
      unfold setContestInGroup
      simp only []
      cases hg : n.groups.get g.raw with
      | none => exact hn
      | some group =>
        intro x gr hx
        simp only [setGroup, Dict.get_set] at hx
        split at hx
        · rename_i hxg
          cases hx
          rw [← hxg]
          exact hn g.raw group hg
        · exact hn x gr hx
    | recv _ h =>
      rw [h]
      exact hn

/-- Every ELECT and LEADER that is sent, and every LEADER event, is for a group that the node is in. -/
structure MembersOnly (n n' : Node) : Prop where
  frames : ∃ l, n'.outbox = n.outbox ++ l ∧ ∀ h ∈ l, h.IsElection →
    ∃ g, g ∈ n.ownGroups ∧ g ∈ n'.ownGroups ∧ h.ElectionOf g
  leaders : ∃ l, n'.events = n.events ++ l ∧ ∀ e ∈ l, e.IsLeader →
    ∃ g, g ∈ n.ownGroups ∧ g ∈ n'.ownGroups ∧ e.LeaderOf g

theorem MembersOnly.of_aside {n0 : Node} (h : Aside n0 n') (ho : n0.outbox = n.outbox)
    (he : n0.events = n.events) : n.MembersOnly n' := by
  obtain ⟨l, hout, hl⟩ := h.outbox
  obtain ⟨es, hev, -, hes⟩ := h.emits
  exact ⟨⟨l, by rw [hout, ho], fun x hx hel => absurd hel (hl x hx)⟩,
    ⟨es, by rw [hev, he], fun e hx hel => absurd hel (hes e hx)⟩⟩

/-- What the act is about concerns the node. In a group that it is not in, an ELECT is ignored, and a
LEADER or a departure finds no open election. -/
def Concerned (n : Node) (env : Env) (a : Act) : Prop :=
  ∀ g k r, g ∉ n.ownGroups →
    (∀ id, n.Elects a k r g id → ¬ n.Answers g (n.wireId (bdec id))) ∧
    ((∃ id, n.Leads a k r g id) ∨ n.Leaves a k r g ∨ (n.Departs env a k r ∧ g ∈ (n.obj r).groups) →
      (n.group g).election = none)

theorem Concerned.own (h : n.Concerned env a) {g : Bytes} (hg : n.Speaks env a g) : g ∈ n.ownGroups := by
  by_contra hown
  rcases hg with hg | ⟨k, r, id, he, hans⟩ | ⟨hopen, k, r, hact⟩
  · exact hown hg
  · exact (h g k r hown).1 id he hans
  · rw [(h g k r hown).2 hact] at hopen
    cases hopen

theorem membersOnly_act (hn : n.Named) (hp : n.Concerned env a) (h : Stir env n a n') :
    n.MembersOnly n' := by
  rcases act_campaign h with hc | hr
  · obtain ⟨l, hout, hl⟩ := hc.outbox
    obtain ⟨es, hev, -, hes⟩ := hc.emits hn
    refine ⟨⟨l, hout, fun x hx hel => ?_⟩, ⟨es, hev, fun e hx hel => ?_⟩⟩
    · obtain ⟨g, hg, hof⟩ := hl x hx hel
      exact ⟨g, hp.own hg, hc.fixed.2.1 ▸ hp.own hg, hof⟩
    · obtain ⟨g, hg, hof⟩ := hes e hx hel
      exact ⟨g, hp.own hg, hc.fixed.2.1 ▸ hp.own hg, hof⟩
  · cases hr with
    | join g _ h =>
      have hrest := requireGroup_rest (n.owning (n.ownGroups ++ [g.raw])) g.raw
      exact MembersOnly.of_aside h (by rw [hrest]; rfl) (by rw [hrest]; rfl)
    | leave g _ h => exact MembersOnly.of_aside h rfl rfl
    | contest g _ h =>
      rw [h]
      unfold setContestInGroup
      simp only []
      split <;> exact ⟨⟨[], by simp [setGroup], by simp⟩, ⟨[], by simp [setGroup], by simp⟩⟩
    | recv _ h =>
      rw [h]
      exact ⟨⟨[], by simp, by simp⟩, ⟨[], by simp, by simp⟩⟩

/-- In every run of a node that is only spoken to about its own groups, it takes part only in the
elections of groups that it is in. -/
theorem Chronicle.members_only {l : List (Node × Node)} (h : Chronicle Concerned l n) :
    ∀ m m', (m, m') ∈ l → m.MembersOnly m' :=
  h.steps fun _ env _ _ hv ha hp hact =>
    membersOnly_act hv.named hp (act_stirs env hv.tables ha _ hact)

end Partaking

/-- A node that has joined the group `g` and contests its elections. -/
def sampleMember : Node :=
  (sampleA.after (Env.calm 0) (.setContestInGroup sampleGroup)).after (Env.calm 0)
    (.command (.join sampleGroup))

/-- Nobody is known, so nobody says anything. -/
theorem concerned_of_alone {n : Node} (h : n.peers.entries = []) (env : Env) (a : Act) :
    n.Concerned env a := by
  have hnone : ∀ {k r}, n.peers.get k ≠ some r := by
    intro k r hk
    rw [Dict.get_eq_some_iff, h] at hk
    cases hk
  refine fun g k r _ => ⟨fun id ⟨msg, hr, _⟩ => absurd hr.peer hnone, ?_⟩
  rintro (⟨id, msg, hr, -⟩ | ⟨msg, status, hr, -⟩ | ⟨⟨hk, -⟩, -⟩)
  · exact absurd hr.peer hnone
  · exact absurd hr.peer hnone
  · exact absurd hk hnone

/-- The member meets the peer `00…02`, which is in the group too, and sends it an ELECT. -/
theorem members_only_sampleMember :
    sampleMember.MembersOnly (sampleMember.after (Env.calm 0) (.peerMsg sampleHello)) ∧
      (sampleMember.after (Env.calm 0) (.peerMsg sampleHello)).outbox.any
        (fun h => h.cmd = some Cmd.elect) = true := by
  have hrun0 : Chronicle Concerned [] sampleA := .init _
  have hrun1 := hrun0.input (Env.calm 0) (.setContestInGroup sampleGroup) nofun
    (concerned_of_alone (by decide +kernel) _ _) (by decide +kernel)
  have hrun2 : Chronicle Concerned _ sampleMember :=
    hrun1.input (Env.calm 0) (.command (.join sampleGroup)) nofun
    (concerned_of_alone (by decide +kernel) _ _) (by decide +kernel)
  have hrun3 := hrun2.input (Env.calm 0) (.peerMsg sampleHello) nofun
    (concerned_of_alone (by decide +kernel) _ _) (by decide +kernel)
  exact ⟨hrun3.members_only _ _ (List.mem_append_right _ (List.mem_singleton_self _)),
    by decide +kernel⟩

/-- An ELECT for the group `g` in which the peer `00…02` stands for itself. -/
def sampleElect : List Bytes :=
  [1 :: sampleUuid,
    Codec.headBytes Cmd.elect 2 ++ Codec.shortBytes [0x67] ++ Codec.shortBytes (encodeStr (hex sampleUuid))]

/-- A node that is in no group answers an ELECT with one of its own. -/
theorem not_members_only :
    ¬ ∀ (l : List (Node × Node)) (n : Node), Chronicle (fun _ _ _ => True) l n →
      ∀ m m', (m, m') ∈ l → m.MembersOnly m' := by
  intro hall
  have hrun0 : Chronicle (fun _ _ _ => True) [] sampleA := .init _
  have hrun1 := hrun0.input (Env.calm 0) (.peerMsg sampleHello) nofun trivial (by decide +kernel)
  have hrun2 := hrun1.input (Env.calm 0) (.peerMsg sampleElect) nofun trivial (by decide +kernel)
  obtain ⟨⟨l, hout, hl⟩, -⟩ := hall _ _ hrun2 _ _
    (List.mem_append_right _ (List.mem_singleton_self _))
  have hown : (sampleA.after (Env.calm 0) (.peerMsg sampleHello)).ownGroups = [] := by decide +kernel
  have hsent : (((sampleA.after (Env.calm 0) (.peerMsg sampleHello)).after (Env.calm 0)
      (.peerMsg sampleElect)).outbox.drop
      (sampleA.after (Env.calm 0) (.peerMsg sampleHello)).outbox.length).any
      (fun h => h.cmd = some Cmd.elect) = true := by decide +kernel
  rw [hout, List.drop_left, List.any_eq_true] at hsent
  obtain ⟨h, hh, hcmd⟩ := hsent
  obtain ⟨g, hg, -⟩ := hl h hh (Or.inl (show h.cmd = some Cmd.elect from of_decide_eq_true hcmd))
  rw [hown] at hg
  cases hg

end Node

end Zre
