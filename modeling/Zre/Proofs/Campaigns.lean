import Zre.Proofs.Crash
import Zre.Proofs.Stirs

/-!
# Proofs: what the election methods say and keep

`Campaign` bounds what a stretch of a run does in elections: the groups whose books it may touch and
which it may send frames and emit events for, and the candidates that it may take up. Every election
method has one lemma.
-/

namespace Zre

open Fallible

/-- An ELECT or a LEADER for the group `g`. -/
def Handed.ElectionOf (g : Bytes) (h : Handed) : Prop :=
  ∃ cmd seq id frame, (cmd = Cmd.elect ∨ cmd = Cmd.leader) ∧
    Codec.encodeElection cmd seq g id = .ok frame ∧ h.frames = [frame]

/-- A LEADER event for the group `g`. -/
def Event.LeaderOf (g : Bytes) (e : Event) : Prop := ∃ id name, e = .leader id name (bdec g)

namespace Node

/-- Every group is filed under its name. -/
def Named (n : Node) : Prop := ∀ g group, n.groups.get g = some group → group.name = g

theorem Named.group {n : Node} (h : n.Named) (g : Bytes) : (n.group g).name = g := by
  unfold Node.group
  cases hg : n.groups.get g with
  | none => rfl
  | some group => exact h g group hg

/-- The books of the groups outside `G` are kept, and only elections of the groups `G` are spoken of. An
open election has the candidate of before or one that `A` admits. -/
structure Campaign (G : Bytes → Prop) (A : Bytes → Str → Prop) (n n' : Node) : Prop where
  fixed : n'.cfg = n.cfg ∧ n'.ownGroups = n.ownGroups ∧ n'.contestGroups = n.contestGroups
  books : ∀ g, ¬ G g →
    (n'.group g).election = (n.group g).election ∧ (n'.group g).leader = (n.group g).leader
  kept : ∀ g group, n.groups.get g = some group → ∃ group', n'.groups.get g = some group'
  contest : ∀ g, (n.group g).contest = true → (n'.group g).contest = true
  fresh : ∀ g, (n'.group g).contest = true → (n.group g).contest = true ∨ g ∈ n.contestGroups
  caw : ∀ g e', (n'.group g).election = some e' →
    (∃ e, (n.group g).election = some e ∧ e.caw = e'.caw) ∨ A g e'.caw
  named : n.Named → n'.Named
  outbox : ∃ l, n'.outbox = n.outbox ++ l ∧ ∀ h ∈ l, h.IsElection → ∃ g, G g ∧ h.ElectionOf g
  emits : n.Named → Emits (fun e => e.IsLeader → ∃ g, G g ∧ e.LeaderOf g) n n'

/-- The group `g`, under a condition. -/
def At (g : Bytes) (c : Prop) (x : Bytes) : Prop := x = g ∧ c

/-- No group, and no candidate. -/
def Nowhere (_ : Bytes) : Prop := False

def Nobody (_ : Bytes) (_ : Str) : Prop := False

section Campaign

variable {G G' : Bytes → Prop} {A A' : Bytes → Str → Prop} {n n' n'' : Node}

/-- The group books are as before, and nothing was said about elections. -/
theorem Campaign.of_groups
    (hf : n'.cfg = n.cfg ∧ n'.ownGroups = n.ownGroups ∧ n'.contestGroups = n.contestGroups)
    (hg : n'.groups = n.groups) (ho : ∃ l, n'.outbox = n.outbox ++ l ∧ ∀ h ∈ l, ¬ h.IsElection)
    (he : Emits (fun e => ¬ e.IsLeader) n n') : Campaign G A n n' := by
  have hgroup : ∀ g, n'.group g = n.group g := fun g => by unfold Node.group; rw [hg]
  obtain ⟨l, ho, hl⟩ := ho
  refine ⟨hf, fun g _ => by rw [hgroup]; exact ⟨rfl, rfl⟩,
    fun g group h => ⟨group, by rw [hg]; exact h⟩, fun g h => by rw [hgroup]; exact h,
    fun g h => by rw [hgroup] at h; exact Or.inl h,
    fun g e h => Or.inl ⟨e, by rw [← hgroup]; exact h, rfl⟩, fun hn g group h => hn g group (hg ▸ h),
    ⟨l, ho, fun x hx he => absurd he (hl x hx)⟩, fun _ => he.mono fun e hno he => absurd he hno⟩

theorem Campaign.of_eq
    (hf : n'.cfg = n.cfg ∧ n'.ownGroups = n.ownGroups ∧ n'.contestGroups = n.contestGroups)
    (hg : n'.groups = n.groups) (ho : n'.outbox = n.outbox) (he : n'.events = n.events)
    (hq : n'.queue = n.queue) : Campaign G A n n' :=
  Campaign.of_groups hf hg ⟨[], by simp [ho], by simp⟩ (Emits.of_eq he hq)

theorem Campaign.refl (n : Node) : Campaign G A n n := Campaign.of_eq ⟨rfl, rfl, rfl⟩ rfl rfl rfl rfl

theorem Campaign.mono (h : Campaign G A n n') (hG : ∀ g, G g → G' g) (hA : ∀ g c, A g c → A' g c) :
    Campaign G' A' n n' := by
  obtain ⟨l, ho, hl⟩ := h.outbox
  refine ⟨h.fixed, fun g hg => h.books g fun hG' => hg (hG g hG'), h.kept, h.contest, h.fresh,
    fun g e he => (h.caw g e he).imp id (hA g e.caw), h.named, ⟨l, ho, fun x hx hel => ?_⟩,
    fun hn => (h.emits hn).mono fun e he hl => ?_⟩
  · obtain ⟨g, hg, hof⟩ := hl x hx hel
    exact ⟨g, hG g hg, hof⟩
  · obtain ⟨g, hg, hof⟩ := he hl
    exact ⟨g, hG g hg, hof⟩

/-- A campaign for nobody is one for anybody. -/
theorem Campaign.of_nobody (h : Campaign Nowhere Nobody n n') : Campaign G A n n' :=
  h.mono (fun _ => False.elim) fun _ _ => False.elim

theorem Campaign.trans (h : Campaign G A n n') (h' : Campaign G A n' n'') : Campaign G A n n'' := by
  obtain ⟨l, ho, hl⟩ := h.outbox
  obtain ⟨l', ho', hl'⟩ := h'.outbox
  obtain ⟨hcfg, hown, hcg⟩ := h.fixed
  obtain ⟨hcfg', hown', hcg'⟩ := h'.fixed
  refine ⟨⟨hcfg'.trans hcfg, hown'.trans hown, hcg'.trans hcg⟩, fun g hg => ?_, fun g group hgr => ?_,
    fun g hc => h'.contest g (h.contest g hc), fun g hc => ?_, fun g e he => ?_,
    fun hn => h'.named (h.named hn), ⟨l ++ l', by rw [ho', ho, List.append_assoc], fun x hx => ?_⟩,
    fun hn => (h.emits hn).trans (h'.emits (h.named hn))⟩
  · obtain ⟨he, hlead⟩ := h.books g hg
    obtain ⟨he', hlead'⟩ := h'.books g hg
    exact ⟨he'.trans he, hlead'.trans hlead⟩
  · obtain ⟨group', hgr'⟩ := h.kept g group hgr
    exact h'.kept g group' hgr'
  · rcases h'.fresh g hc with hc | hc
    · exact h.fresh g hc
    · exact Or.inr (hcg ▸ hc)
  · rcases h'.caw g e he with ⟨e', he', hcaw'⟩ | ha
    · rcases h.caw g e' he' with ⟨e'', he'', hcaw''⟩ | ha
      · exact Or.inl ⟨e'', he'', hcaw''.trans hcaw'⟩
      · exact Or.inr (hcaw' ▸ ha)
    · exact Or.inr ha
  · exact (List.mem_append.1 hx).elim (hl x) (hl' x)

/-- What elections do not notice is a campaign for nobody. -/
theorem Aside.campaign (h : Aside n n') : Campaign G A n n' :=
  Campaign.of_groups ⟨h.cfg, h.ownGroups, h.contestGroups⟩ h.groups h.outbox h.emits

/-! ## Single writes -/

theorem campaign_setGroup (n : Node) (g : Bytes) {group : Group}
    (hbooks : G g ∨ (group.election = (n.group g).election ∧ group.leader = (n.group g).leader))
    (hname : group.name = (n.group g).name)
    (hcontest : (n.group g).contest = true → group.contest = true)
    (hfresh : group.contest = true → (n.group g).contest = true ∨ g ∈ n.contestGroups)
    (hcaw : ∀ e', group.election = some e' →
      (∃ e, (n.group g).election = some e ∧ e.caw = e'.caw) ∨ A g e'.caw) :
    Campaign G A n (n.setGroup g group) := by
  have hother : ∀ {x}, g ≠ x → (n.setGroup g group).group x = n.group x :=
    fun hx => group_setGroup_ne n group hx
  refine ⟨⟨rfl, rfl, rfl⟩, fun x hx => ?_, fun x gr hgr => ?_, fun x hc => ?_, fun x hc => ?_,
    fun x e he => ?_, fun hn x gr hgr => ?_, ⟨[], by simp [setGroup], by simp⟩,
    fun _ => Emits.of_eq rfl rfl⟩
  · by_cases hxg : g = x
    · subst hxg
      rw [group_setGroup]
      exact hbooks.resolve_left hx
    · rw [hother hxg]
      exact ⟨rfl, rfl⟩
  · simp only [setGroup, Dict.get_set]
    split
    · exact ⟨group, rfl⟩
    · exact ⟨gr, hgr⟩
  · by_cases hxg : g = x
    · subst hxg
      rw [group_setGroup]
      exact hcontest hc
    · rw [hother hxg]
      exact hc
  · by_cases hxg : g = x
    · subst hxg
      rw [group_setGroup] at hc
      exact hfresh hc
    · rw [hother hxg] at hc
      exact Or.inl hc
  · by_cases hxg : g = x
    · subst hxg
      rw [group_setGroup] at he
      exact hcaw e he
    · rw [hother hxg] at he
      exact Or.inl ⟨e, he, rfl⟩
  · simp only [setGroup, Dict.get_set] at hgr
    split at hgr
    · rename_i hxg
      cases hgr
      rw [hname, hn.group, hxg]
    · exact hn x gr hgr

/-- Writing the books of a group that the campaign is about. -/
theorem campaign_setBooks (n : Node) {g : Bytes} (hG : G g) (e : Option Election) (leader : Option Str)
    (hcaw : ∀ e', e = some e' → (∃ e, (n.group g).election = some e ∧ e.caw = e'.caw) ∨ A g e'.caw) :
    Campaign G A n (n.setGroup g { n.group g with election := e, leader := leader }) :=
  campaign_setGroup n g (Or.inl hG) rfl id Or.inl hcaw

theorem campaign_setElection (n : Node) {g : Bytes} (hG : G g) (e : Option Election)
    (hcaw : ∀ e', e = some e' → (∃ e, (n.group g).election = some e ∧ e.caw = e'.caw) ∨ A g e'.caw) :
    Campaign G A n (n.setElection g e) := campaign_setBooks n hG e _ hcaw

theorem campaign_openGroup (n : Node) (g : Bytes) : Campaign G A n (n.openGroup g) := by
  unfold openGroup
  cases hg : n.groups.get g with
  | none =>
    have hnew : n.group g = Group.new g := by unfold Node.group; rw [hg]; rfl
    exact campaign_setGroup n g (Or.inr (by rw [hnew]; exact ⟨rfl, rfl⟩)) (by rw [hnew])
      (by rw [hnew]; exact id) (fun h => by cases h) fun e' he => by cases he
  | some group => exact Campaign.refl n

theorem campaign_requireGroup (n : Node) (g : Bytes) : Campaign G A n (n.requireGroup g) := by
  unfold requireGroup
  simp only []
  split
  · rename_i hc
    exact (campaign_openGroup n g).trans (campaign_setGroup _ g (Or.inr ⟨rfl, rfl⟩) rfl (fun _ => rfl)
      (fun _ => Or.inr hc) fun e he => Or.inl ⟨e, he, rfl⟩)
  · exact campaign_openGroup n g

/-- The books of the groups after `_require_group`. -/
theorem requireGroup_books (n : Node) (g x : Bytes) :
    ((n.requireGroup g).group x).election = (n.group x).election ∧
      ((n.requireGroup g).group x).leader = (n.group x).leader :=
  (campaign_requireGroup (G := Nowhere) (A := Nobody) n g).books x id

theorem campaign_emit (n : Node) {e : Event} (he : n.Named → e.IsLeader → ∃ g, G g ∧ e.LeaderOf g) :
    Campaign G A n (n.emit e) :=
  ⟨⟨rfl, rfl, rfl⟩, fun _ _ => ⟨rfl, rfl⟩, fun _ group h => ⟨group, h⟩, fun _ h => h, fun _ h => Or.inl h,
    fun _ e he => Or.inl ⟨e, he, rfl⟩, fun hn => hn, ⟨[], by simp [emit], by simp⟩,
    fun hn => emits_emit n (he hn)⟩

theorem campaign_finishElection (n : Node) {g : Bytes} (hG : G g) (id : Str) :
    Campaign G A n (n.finishElection g id) := by
  refine (campaign_setBooks n hG none (some (n.cfg.rt.lower id)) fun e he => by cases he).trans ?_
  refine campaign_emit _ fun hn _ => ⟨g, hG, ?_⟩
  rw [hn.group]
  exact ⟨_, _, rfl⟩

/-! ## Sending -/

theorem campaign_sendElection (env : Env) (n : Node) (r : Ref) {cmd : UInt8}
    (hcmd : cmd = Cmd.elect ∨ cmd = Cmd.leader) {g : Bytes} (hG : G g) (id : Bytes) :
    Ensures (n.sendElection env r cmd g id) (Campaign G A n) := by
  intro n' hn'
  obtain ⟨res, hres, hn'⟩ := bind_eq_ok_iff.1 hn'
  cases hn'
  obtain ⟨h, -⟩ | ⟨dealer, frame, -, -, hframe, h⟩ :=
    sendEncoded_cases env n r (fun seq => Codec.encodeElection cmd seq g id) [] res hres
  · rw [h]
    exact Campaign.refl n
  · rw [h]
    refine ⟨⟨rfl, rfl, rfl⟩, fun _ _ => ⟨rfl, rfl⟩, fun _ group h => ⟨group, h⟩, fun _ h => h,
      fun _ h => Or.inl h, fun _ e he => Or.inl ⟨e, he, rfl⟩, fun hn => hn, ⟨_, rfl, ?_⟩,
      fun _ => Emits.of_eq rfl rfl⟩
    simp only [List.mem_singleton, forall_eq]
    exact fun _ => ⟨g, hG, cmd, _, id, frame, hcmd, hframe, rfl⟩

theorem campaign_sendElections (env : Env) (n : Node) {cmd : UInt8}
    (hcmd : cmd = Cmd.elect ∨ cmd = Cmd.leader) {g : Bytes} (hG : G g) (id : Bytes) (refs : List Ref) :
    Ensures (sendElections env cmd g id n refs) (Campaign G A n) :=
  Ensures.foldlM_rel (R := Campaign G A) Campaign.refl (fun _ _ _ => Campaign.trans)
    fun m r _ => campaign_sendElection env m r hcmd hG id

/-- Sending an election frame leaves the groups alone. -/
theorem sendElection_groups (env : Env) (n : Node) (r : Ref) (cmd : UInt8) (g id : Bytes) :
    Ensures (n.sendElection env r cmd g id) fun m => m.groups = n.groups := by
  intro m hm
  obtain ⟨res, hres, hm⟩ := bind_eq_ok_iff.1 hm
  cases hm
  obtain ⟨h, -⟩ | ⟨dealer, frame, -, -, -, h⟩ := sendEncoded_cases env n r _ [] res hres
  · rw [h]
  · rw [h]
    rfl

theorem sendElections_groups (env : Env) (n : Node) (cmd : UInt8) (g id : Bytes) (refs : List Ref) :
    Ensures (sendElections env cmd g id n refs) fun m => m.groups = n.groups :=
  Ensures.foldlM_rel (R := fun n m : Node => m.groups = n.groups) (fun _ => rfl)
    (fun _ _ _ h h' => h'.trans h) fun m r _ => sendElection_groups env m r cmd g id

/-! ## Starting and stopping -/

/-- The node's own id is the candidate. -/
def Own (n : Node) (_ : Bytes) (c : Str) : Prop := c = n.ownWireId

theorem Campaign.own (h : Campaign G A n n') {x : Bytes} {c : Str} (hc : n'.Own x c) : n.Own x c := by
  unfold Own ownWireId wireId at hc ⊢
  rw [hc, h.fixed.1]

/-- A new election is the node's own. -/
theorem campaign_startElection (env : Env) (n : Node) (g : Bytes) :
    Ensures (n.startElection env g) (Campaign (At g (g ∈ n.ownGroups)) n.Own n) := by
  have h0 : Campaign (At g (g ∈ n.ownGroups)) n.Own n (n.requireGroup g) := campaign_requireGroup n g
  have hown : (n.requireGroup g).ownWireId = n.ownWireId := by
    unfold ownWireId wireId
    rw [h0.fixed.1]
  unfold startElection
  simp only []
  split
  · exact Ensures.ok h0
  · rename_i hg
    have hG : At g (g ∈ n.ownGroups) g := by
      refine ⟨rfl, ?_⟩
      rw [not_or, not_not, h0.fixed.2.1] at hg
      exact hg.2
    have h1 := h0.trans (campaign_setBooks (n.requireGroup g) hG
      (some (newElection (n.requireGroup g).ownWireId none env.now)) none
      fun e' he => Or.inr (by cases he; exact hown))
    split
    · exact Ensures.ok (h1.trans (campaign_finishElection _ hG _))
    · exact (campaign_sendElections env _ (Or.inl rfl) hG _ _).mono fun _ h => h1.trans h

/-- The group has an open election, or its recorded leader is gone and the node would run a new one. -/
def Restless (n : Node) (g : Bytes) : Prop :=
  (n.group g).election.isSome = true ∨
    (g ∈ n.ownGroups ∧ n.leaderGone (n.group g).leader = true)

theorem campaign_restartElectionIfNeeded (env : Env) (n : Node) (g : Bytes) :
    Ensures (n.restartElectionIfNeeded env g) (Campaign (At g (n.Restless g)) n.Own n) := by
  unfold restartElectionIfNeeded
  split
  · exact Ensures.ok (Campaign.refl n)
  · rename_i group hget
    have hgroup : n.group g = group := by unfold Node.group; rw [hget]; rfl
    split
    · exact Ensures.ok (Campaign.refl n)
    · split
      · rename_i hgone
        refine (campaign_startElection env n g).mono fun _ h => h.mono ?_ fun _ _ => id
        rintro x ⟨rfl, hx⟩
        exact ⟨rfl, Or.inr ⟨hx, hgroup ▸ hgone⟩⟩
      · split
        · rename_i hopen
          exact Ensures.ok (campaign_finishElection n ⟨rfl, Or.inl (hgroup ▸ hopen.1)⟩ _)
        · split
          · rename_i hopen
            exact Ensures.ok (campaign_setElection n ⟨rfl, Or.inl (hgroup ▸ hopen.1)⟩ none
              fun e he => by cases he)
          · exact Ensures.ok (Campaign.refl n)

/-- A group whose books are as before is as restless as before. -/
theorem Restless.congr {g : Bytes} (he : (n'.group g).election = (n.group g).election)
    (hl : (n'.group g).leader = (n.group g).leader) (ho : n'.ownGroups = n.ownGroups)
    (hp : n'.peers = n.peers) : n'.Restless g ↔ n.Restless g := by
  unfold Restless leaderGone
  rw [he, hl, ho, hp]

theorem campaign_restartElections (env : Env) (n : Node) (gs : List Bytes) :
    Ensures (n.restartElections env gs) (Campaign (fun x => x ∈ gs ∧ n.Restless x) n.Own n) := by
  refine Ensures.mono (P := fun m =>
    Campaign (fun x => x ∈ gs ∧ n.Restless x) n.Own n m ∧ m.peers = n.peers) ?_ fun _ h => h.1
  refine Ensures.foldlM ⟨Campaign.refl n, rfl⟩ fun m g hg hm => ?_
  obtain ⟨hm, hp⟩ := hm
  refine (Ensures.and (campaign_restartElectionIfNeeded env m g)
    (talk_restartElectionIfNeeded env m g)).mono fun m' h => ?_
  obtain ⟨hm', ht⟩ := h
  refine ⟨hm.trans (hm'.mono ?_ fun _ _ => hm.own), ht.peers.trans hp⟩
  -- a group that was not restless has not been touched so far
  rintro x ⟨rfl, hx⟩
  refine ⟨hg, ?_⟩
  by_contra hrest
  obtain ⟨he, hl⟩ := hm.books x fun h => hrest h.2
  exact hrest ((Restless.congr he hl hm.fixed.2.1 hp).1 hx)

theorem campaign_startElections (env : Env) (n : Node) (gs : List Bytes) :
    Ensures (gs.foldlM (fun n g => n.startElection env g) n)
      (Campaign (fun x => x ∈ gs ∧ x ∈ n.ownGroups) n.Own n) := by
  refine Ensures.foldlM (Campaign.refl n) fun m g hg hm => ?_
  refine (campaign_startElection env m g).mono fun m' h => hm.trans (h.mono ?_ fun _ _ => hm.own)
  rintro x ⟨rfl, hx⟩
  exact ⟨hg, hm.fixed.2.1 ▸ hx⟩

/-! ## Frames of others -/

/-- An ELECT for the id `c` has an effect: `c` is adopted, or is the candidate already. -/
def Answers (n : Node) (g : Bytes) (c : Str) : Prop :=
  n.Adopts g c ∨ ∃ e, (n.group g).election = some e ∧ c = e.caw

/-- The challenger `c` is adopted as the candidate of `g`. -/
def Adopted (n : Node) (g : Bytes) (c : Str) (x : Bytes) (d : Str) : Prop :=
  x = g ∧ d = c ∧ n.Adopts g c

theorem campaign_adoptChallenger (env : Env) (n : Node) (r : Ref) (g : Bytes) (c : Str) :
    Ensures (n.adoptChallenger env r g c) fun m =>
      (n.Adopts g c → Campaign (At g True) (n.Adopted g c) n m) ∧ (¬ n.Adopts g c → m = n) := by
  classical
  rw [adoptChallenger_eq]
  split
  · rename_i ha
    have hG : At g True g := ⟨rfl, trivial⟩
    refine (campaign_sendElections (A := n.Adopted g c) env _ (Or.inl rfl) hG _ _).mono fun m h =>
      ⟨fun _ => ?_, fun hna => absurd ha hna⟩
    refine (campaign_setElection n hG _ fun e' he => Or.inr ?_).trans h
    cases he
    exact ⟨rfl, rfl, ha⟩
  · rename_i hna
    exact Ensures.ok ⟨fun ha => absurd ha hna, fun _ => rfl⟩

theorem campaign_countChallenger (env : Env) (n : Node) (g : Bytes) (c : Str) :
    Ensures (n.countChallenger env g c) (Campaign (At g (n.Answers g c)) Nobody n) := by
  unfold countChallenger
  split
  · exact Ensures.ok (Campaign.refl n)
  · rename_i e he
    split
    · exact Ensures.ok (Campaign.refl n)
    · rename_i hc
      have hG : At g (n.Answers g c) g := ⟨rfl, Or.inr ⟨e, he, not_not.1 hc⟩⟩
      have h1 : Campaign (At g (n.Answers g c)) Nobody n
          (n.setElection g (some { e with erec := e.erec + 1 })) :=
        campaign_setElection n hG _ fun e' he' => Or.inl ⟨e, he, by cases he'; rfl⟩
      simp only []
      split
      · exact Ensures.ok h1
      · split
        · exact (campaign_sendElections env _ (Or.inr rfl) hG _ _).mono fun _ h => h1.trans h
        · split
          · exact Ensures.ok h1
          · split
            · exact Ensures.ok h1
            · exact (campaign_sendElection env _ _ (Or.inl rfl) hG _).mono fun _ h => h1.trans h

/-- An ELECT speaks of its group only, and only its challenger can be taken up. -/
theorem campaign_handleElect (env : Env) (n : Node) (r : Ref) (g challenger : Bytes) :
    Ensures (n.handleElect env r g challenger)
      (Campaign (At g (n.Answers g (n.wireId (bdec challenger))))
        (n.Adopted g (n.wireId (bdec challenger))) n) := by
  have h0 : Campaign Nowhere Nobody n (n.requireGroup g) := campaign_requireGroup n g
  have hc : (n.requireGroup g).wireId (bdec challenger) = n.wireId (bdec challenger) := by
    unfold wireId
    rw [h0.fixed.1]
  have hadopts : (n.requireGroup g).Adopts g (n.wireId (bdec challenger)) ↔
      n.Adopts g (n.wireId (bdec challenger)) := by
    unfold Adopts
    rw [(requireGroup_books n g g).1]
  unfold handleElect
  simp only [hc]
  refine (campaign_adoptChallenger env _ r g _).bind fun m hm => ?_
  refine (campaign_countChallenger env m g _).mono fun m' h => ?_
  have h0' : Campaign (At g (n.Answers g (n.wireId (bdec challenger))))
      (n.Adopted g (n.wireId (bdec challenger))) n (n.requireGroup g) := h0.of_nobody
  by_cases ha : n.Adopts g (n.wireId (bdec challenger))
  · refine (h0'.trans ((hm.1 (hadopts.2 ha)).mono ?_ ?_)).trans (h.mono ?_ fun _ _ => False.elim)
    · rintro x ⟨rfl, -⟩
      exact ⟨rfl, Or.inl ha⟩
    · rintro x d ⟨rfl, rfl, -⟩
      exact ⟨rfl, rfl, ha⟩
    · rintro x ⟨rfl, -⟩
      exact ⟨rfl, Or.inl ha⟩
  · -- the challenger is not adopted, so it is counted only if it is the candidate
    cases hm.2 fun h => ha (hadopts.1 h)
    refine h0'.trans (h.mono ?_ fun _ _ => False.elim)
    rintro x ⟨rfl, h | ⟨e, he, hce⟩⟩
    · exact absurd (hadopts.1 h) ha
    · exact ⟨rfl, Or.inr ⟨e, (requireGroup_books n x x).1 ▸ he, hce⟩⟩

/-- A LEADER only matters to an open election. -/
theorem campaign_handleLeader (env : Env) (n : Node) (g leader : Bytes) :
    Ensures (n.handleLeader env g leader)
      (Campaign (At g ((n.group g).election.isSome = true)) Nobody n) := by
  have h0 : Campaign (At g ((n.group g).election.isSome = true)) Nobody n (n.requireGroup g) :=
    campaign_requireGroup n g
  unfold handleLeader
  simp only []
  split
  · exact Ensures.ok h0
  · rename_i e he
    have he' : (n.group g).election = some e := (requireGroup_books n g g).1 ▸ he
    have hG : At g ((n.group g).election.isSome = true) g := ⟨rfl, by rw [he']; rfl⟩
    have hforward : Ensures ((n.requireGroup g).forwardLeader env g e.lrec
        ((n.requireGroup g).wireId (bdec leader))) fun m =>
        Campaign (At g ((n.group g).election.isSome = true)) Nobody n m ∧
          m.groups = (n.requireGroup g).groups := by
      unfold forwardLeader
      split
      · exact (Ensures.and (campaign_sendElections env _ (Or.inr rfl) hG _ _)
          (sendElections_groups env _ _ g _ _)).mono fun _ h => ⟨h0.trans h.1, h.2⟩
      · exact Ensures.ok ⟨h0, rfl⟩
    refine hforward.bind fun m hm => Ensures.ok ?_
    obtain ⟨hm, hgroups⟩ := hm
    have hopen : (m.group g).election = some e := by
      unfold Node.group at he ⊢
      rw [hgroups]
      exact he
    have h1 := hm.trans (campaign_setElection m hG
      (some { e with lrec := e.lrec + 1, leader := some ((n.requireGroup g).wireId (bdec leader)) })
      fun e' he' => Or.inl ⟨e, hopen, by cases he'; rfl⟩)
    unfold countLeader
    simp only []
    split
    · exact h1.trans (campaign_finishElection _ hG _)
    · exact h1

/-! ## Resending -/

/-- The resends are those of the node's own groups. -/
theorem campaign_maintainElection (env : Env) (n : Node) (g : Bytes) :
    Ensures (n.maintainElection env g) (Campaign (At g (g ∈ n.ownGroups)) Nobody n) := by
  unfold maintainElection
  split
  · exact Ensures.ok (Campaign.refl n)
  · rename_i e he
    split
    · exact Ensures.ok (Campaign.refl n)
    · rename_i hown
      rw [not_or, not_not] at hown
      have hG : At g (g ∈ n.ownGroups) g := ⟨rfl, hown.2⟩
      simp only []
      split
      · exact Ensures.ok (campaign_finishElection n hG _)
      · split
        · exact Ensures.ok (Campaign.refl n)
        · have h1 : Campaign (At g (g ∈ n.ownGroups)) Nobody n
              (n.setElection g (some { e with resentAt := env.now })) :=
            campaign_setElection n hG _ fun e' he' => Or.inl ⟨e, he, by cases he'; rfl⟩
          have hsend : ∀ (cmd : UInt8) (id : Bytes) (refs : List Ref), cmd = Cmd.elect ∨ cmd = Cmd.leader →
              Ensures (sendElections env cmd g id (n.setElection g (some { e with resentAt := env.now }))
                refs) (Campaign (At g (g ∈ n.ownGroups)) Nobody n) := fun cmd id refs hcmd =>
            (campaign_sendElections env _ hcmd hG id refs).mono fun _ h => h1.trans h
          split
          · split
            · exact hsend _ _ _ (Or.inr rfl)
            · exact hsend _ _ _ (Or.inl rfl)
          · exact hsend _ _ _ (Or.inl rfl)

theorem campaign_maintainElections (env : Env) (n : Node) :
    Ensures (n.maintainElections env) (Campaign (· ∈ n.ownGroups) Nobody n) := by
  refine Ensures.foldlM (Campaign.refl n) fun m g _ hm => ?_
  refine (campaign_maintainElection env m g).mono fun m' h => hm.trans (h.mono ?_ fun _ _ => id)
  rintro x ⟨rfl, hx⟩
  exact hm.fixed.2.1 ▸ hx

/-! ## Entering and leaving groups -/

theorem campaign_joinTable (n : Node) (g : Bytes) (r : Ref) : Campaign G A n (n.joinTable g r) :=
  campaign_setGroup n g (Or.inr ⟨rfl, rfl⟩) rfl id Or.inl fun e he => Or.inl ⟨e, he, rfl⟩

theorem campaign_leaveTable (n : Node) (g : Bytes) (r : Ref) : Campaign G A n (n.leaveTable g r) := by
  unfold leaveTable
  cases hg : n.groups.get g with
  | none => exact Campaign.refl n
  | some group =>
    have hgroup : n.group g = group := by unfold Node.group; rw [hg]; rfl
    subst hgroup
    exact campaign_setGroup n g (Or.inr ⟨rfl, rfl⟩) rfl id Or.inl fun e he => Or.inl ⟨e, he, rfl⟩

theorem campaign_leaveTables (n : Node) (r : Ref) (gs : List Bytes) :
    Campaign G A n (n.leaveTables r gs) := by
  induction gs generalizing n with
  | nil => exact Campaign.refl n
  | cons g gs ih => exact (campaign_leaveTable n g r).trans (ih (n.leaveTable g r))

theorem campaign_setObj (n : Node) (r : Ref) (p : Peer) : Campaign G A n (n.setObj r p) :=
  (aside_setObj n r p).campaign

theorem campaign_forgotten (n : Node) (k : Str) (r : Ref) (gone : List Bytes) :
    Campaign G A n (n.forgotten k r gone) := by
  have hrest := leaveTables_rest n r gone
  refine (campaign_leaveTables n r gone).trans (Campaign.trans ?_ (campaign_emit _ fun _ => False.elim))
  exact Campaign.of_eq (by rw [hrest]; exact ⟨rfl, rfl, rfl⟩) rfl (by rw [hrest]; rfl) (by rw [hrest]; rfl)
    (by rw [hrest]; rfl)

/-- A departure restarts the elections of the groups that were left. -/
theorem campaign_depart {env : Env} {n0 : Node} {k : Str} {r : Ref} (gone : List Bytes) :
    Ensures ((n0.forgotten k r gone).restartElections env gone)
      (Campaign (fun x => x ∈ gone ∧ (n0.forgotten k r gone).Restless x) n0.Own n0) :=
  (campaign_restartElections env _ gone).mono fun _ h =>
    (campaign_forgotten n0 k r gone).trans (h.mono (fun _ => id) fun _ _ => id)

theorem campaign_enterGroups (n : Node) (r : Ref) (gs : List Bytes) :
    Campaign G A n (gs.foldl (fun n g => n.enterGroup r g) n) := by
  induction gs generalizing n with
  | nil => exact Campaign.refl n
  | cons g gs ih =>
    have htable := (campaign_openGroup (G := G) (A := A) n g).trans (campaign_joinTable _ g r)
    exact (htable.trans (campaign_setObj _ r _)).trans (ih (n.enterGroup r g))

theorem campaign_emits (n : Node) {e : Bytes → Event} (he : ∀ g, ¬ (e g).IsLeader) (gs : List Bytes) :
    Campaign G A n (gs.foldl (fun n g => n.emit (e g)) n) := by
  induction gs generalizing n with
  | nil => exact Campaign.refl n
  | cons g gs ih => exact (campaign_emit n fun _ h => absurd h (he g)).trans (ih _)

/-- A peer that becomes ready starts an election in each of its groups that the node is in. -/
theorem campaign_enterPeer (env : Env) (n : Node) (rhex : Str) (r : Ref) (h : HelloFields)
    (epStr : Str) (helloReply : Bool) :
    Ensures (n.enterPeer env rhex r h epStr helloReply)
      (Campaign (fun x => x ∈ h.groups ∧ x ∈ n.ownGroups) n.Own n) := by
  have hreply : Ensures ((n.setObj r { (n.obj r).announce h with
      ready := true, endpointStr := epStr }).replyHello env r helloReply)
      (Campaign (fun x => x ∈ h.groups ∧ x ∈ n.ownGroups) n.Own n) := by
    unfold replyHello
    split
    · exact (aside_sendHello env _ r).mono fun _ ha => (campaign_setObj n r _).trans ha.campaign
    · exact Ensures.ok (campaign_setObj n r _)
  refine hreply.bind fun n2 h2 => ?_
  have h3 := h2.trans (campaign_enterGroups n2 r h.groups)
  simp only []
  generalize h.groups.foldl (fun n g => n.enterGroup r g) n2 = n3 at h3 ⊢
  have h4 := (h3.trans (campaign_emit n3 (e := .enter rhex (pname (n3.obj r)) epStr)
    fun _ => False.elim)).trans
    (campaign_emits _ (e := fun g => .join rhex (pname (n3.obj r)) (bdec g)) (fun _ => id) h.groups)
  refine (campaign_startElections env _ h.groups).mono fun n' h =>
    h4.trans (h.mono ?_ fun _ _ => h4.own)
  rintro x ⟨hx, hown⟩
  exact ⟨hx, h4.fixed.2.1 ▸ hown⟩

theorem campaign_handleJoin (env : Env) (n : Node) (rhex : Str) (r : Ref) (g : Bytes) :
    Ensures (n.handleJoin env rhex r g) (Campaign (At g (g ∈ n.ownGroups)) n.Own n) := by
  unfold handleJoin
  split
  · exact Ensures.ok (Campaign.refl n)
  · have h1 : Campaign (At g (g ∈ n.ownGroups)) n.Own n
        (n.setObj r { n.obj r with groups := addGroup (n.obj r).groups g }) := campaign_setObj n r _
    have h2 := (h1.trans (campaign_requireGroup _ g)).trans (campaign_joinTable _ g r)
    simp only []
    have h3 := h2.trans (campaign_emit _
      (e := .join rhex (pname ((((n.setObj r { n.obj r with
        groups := addGroup (n.obj r).groups g }).requireGroup g).joinTable g r).obj r)) (bdec g))
      fun _ => False.elim)
    refine (campaign_startElection env _ g).mono fun n' h => h3.trans (h.mono ?_ fun _ _ => h3.own)
    rintro x ⟨rfl, hown⟩
    exact ⟨rfl, h3.fixed.2.1 ▸ hown⟩

/-- The node after the peer `r`, known as `k`, has left `g`, before an election restarts. -/
def left (n : Node) (k : Str) (r : Ref) (g : Bytes) : Node :=
  let n := (n.setObj r { n.obj r with groups := discardGroup (n.obj r).groups g }).leaveTable g r
  n.emit (.leave k (pname (n.obj r)) (bdec g))

theorem handleLeave_eq (env : Env) (n : Node) (k : Str) (r : Ref) {g : Bytes} (hg : g ≠ []) :
    n.handleLeave env k r g = (n.left k r g).restartElectionIfNeeded env g := if_neg hg

theorem campaign_left (n : Node) (k : Str) (r : Ref) (g : Bytes) : Campaign G A n (n.left k r g) :=
  ((campaign_setObj n r _).trans (campaign_leaveTable _ g r)).trans (campaign_emit _ fun _ => False.elim)

theorem left_rest (n : Node) (k : Str) (r : Ref) (g : Bytes) :
    (n.left k r g).peers = n.peers ∧ ∀ s, ((n.left k r g).obj s).connected = (n.obj s).connected := by
  have hrest : (n.left k r g).peers = n.peers ∧ (n.left k r g).obj =
      (n.setObj r { n.obj r with groups := discardGroup (n.obj r).groups g }).obj := by
    unfold left
    simp only [emit]
    rw [leaveTable_rest]
    exact ⟨rfl, rfl⟩
  exact ⟨hrest.1, fun s => by rw [hrest.2]; exact setObj_congr Peer.connected n r (by rfl) s⟩

theorem member_left (n : Node) (k : Str) (r : Ref) (g x : Bytes) (p : Str) :
    (n.left k r g).member x p = if x = g ∧ p = (n.obj r).uuidHex then none else n.member x p := by
  show ((n.setObj r _).leaveTable g r).member x p = _
  rw [member_leaveTable, setObj_obj_self]
  rfl

theorem forgotten_connected {n : Node} {k : Str} {r s : Ref} {gone : List Bytes}
    (h : ((n.forgotten k r gone).obj s).connected = true) : (n.obj s).connected = true := by
  have hobj : (n.forgotten k r gone).obj s = if s = r then (n.obj r).disconnect else n.obj s :=
    setObj_obj n r s _
  rw [hobj] at h
  split at h
  · cases h
  · exact h

/-! ## The node's own groups -/

/-- The groups and the status of the node have changed. -/
def owning (n : Node) (gs : List Bytes) : Node :=
  { n with ownGroups := gs, status := (n.status + 1) % 256 }

theorem aside_sendToPeers (env : Env) (n : Node) {cmd : UInt8} (h1 : cmd ≠ Cmd.elect)
    (h2 : cmd ≠ Cmd.leader) (group : Option Bytes) (status : Option Nat) :
    Ensures (n.sendToPeers env cmd group status) (Aside n) :=
  Ensures.foldlM_rel Aside.refl (fun _ _ _ => Aside.trans)
    fun m r _ => aside_sendCmd env m r h1 h2 group status []

theorem joinGroup_aside (env : Env) (n : Node) (g : Bytes) :
    Ensures (n.joinGroup env g) fun n' =>
      n' = n ∨ Aside ((n.owning (n.ownGroups ++ [g])).requireGroup g) n' := by
  unfold joinGroup
  split
  · exact Ensures.ok (Or.inl rfl)
  · exact (aside_sendToPeers env _ (by decide) (by decide) _ _).mono fun _ h => Or.inr h

theorem leaveGroup_aside (env : Env) (n : Node) (g : Bytes) :
    Ensures (n.leaveGroup env g) fun n' => n' = n ∨ Aside (n.owning (n.ownGroups.erase g)) n' := by
  unfold leaveGroup
  split
  · exact Ensures.ok (Or.inl rfl)
  · exact (aside_sendToPeers env _ (by decide) (by decide) _ _).mono fun _ h => Or.inr h

end Campaign

end Node

end Zre
