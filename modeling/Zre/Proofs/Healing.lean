import Zre.Proofs.Convergence

/-!
# Proofs: a node that has lost its peer

Two plain-mode nodes in beacon mode, one of which has given the other one up or has restarted. Its next
beacon makes it send a HELLO, but the other one answers only if it has lost its entry as well: so the
pair heals exactly then, or when a HELLO of the other one was still on its way.
-/

namespace Zre

namespace Duo

/-- Beacon mode: nobody dials, sends and connects succeed, and a restart keeps the uuid and the port. -/
def Lives (net : Net) (cfg : Bool → Config) (d : Duo) (env : Env) (a : Act) : Prop :=
  Serves net cfg d env a ∧ ∀ s, a ≠ .dial s

/-- Beacons and deliveries, and whatever else gives up no entry. -/
def Drains (net : Net) (cfg : Bool → Config) (d : Duo) (env : Env) (a : Act) : Prop :=
  Serves net cfg d env a ∧ match a with
    | .dial _ | .reap _ | .restart _ _ => False
    | _ => True

/-- Node `s` holds the other one as ready. -/
def Holds (d : Duo) (s : Bool) : Prop :=
  ∃ r, (d.node s).peers.get (d.otherId s) = some r ∧ ((d.node s).obj r).ready = true

section

variable {net : Net} {cfg : Bool → Config} {d d' : Duo}

theorem Sound.holds_iff (hs : Sound net cfg d) (s : Bool) :
    d.Holds s ↔ (meeting net cfg d).view s = .ready := by
  unfold Holds
  rw [hs.otherId]
  constructor
  · rintro ⟨r, hr, hready⟩
    exact (Node.view_known hr).trans (if_pos hready)
  · intro hv
    obtain ⟨r, hr, hready⟩ := Node.peers_of_view (Or.inr hv)
    exact ⟨r, hr, hready.2 hv⟩

/-- Where nobody dials, a peer that is not in the table is unknown. -/
theorem Sound.unknown_iff (hs : Sound net cfg d) {s : Bool}
    (hv : (meeting net cfg d).view s ≠ .dialled) :
    (d.node s).peers.get (d.otherId s) = none ↔ (meeting net cfg d).view s = .unknown := by
  rw [hs.otherId]
  constructor
  · intro hk
    rcases Node.view_new_cases (net.host !s) ((cfg !s).inboxPort : Int) hk with h | h
    · exact h
    · exact absurd h hv
  · intro hu
    cases hk : (d.node s).peers.get (hex (cfg !s).peerId) with
    | none => rfl
    | some r =>
      have h : (meeting net cfg d).view s = if ((d.node s).obj r).ready then .ready else .known :=
        Node.view_known hk
      rw [hu] at h
      split at h <;> cases h

theorem saying_iff (cfg : Bool → Config) {s : Bool} :
    (meeting net cfg d).Saying s ↔ ∃ h ∈ d.link s, h.Is Cmd.hello := by
  simp [Meeting.Saying, meeting]

theorem undialled_of_shows {bs : List Meeting.Act} {as : List Act}
    (h : List.Forall₂ Act.Shows bs as) (ha : ∀ a ∈ as, ∀ s, a ≠ Act.dial s) :
    ∀ b ∈ bs, b.Undialled := by
  induction h with
  | nil => simp
  | @cons b a bs as hb _ ih =>
    intro c hc
    rcases List.mem_cons.1 hc with rfl | hc
    · cases a with
      | dial s => exact absurd rfl (ha _ (by simp) s)
      | deliver s | reap s => rcases hb with rfl | rfl <;> trivial
      | _ => cases hb; trivial
    · exact ih (fun a' ha' => ha a' (by simp [ha'])) c hc

theorem drains_of_shows {bs : List Meeting.Act} {as : List Act} (h : List.Forall₂ Act.Shows bs as)
    (ha : ∀ a ∈ as, match a with
      | Act.dial _ | Act.reap _ | Act.restart _ _ => False
      | _ => True) : ∀ b ∈ bs, b.Drains := by
  induction h with
  | nil => simp
  | @cons b a bs as hb _ ih =>
    intro c hc
    rcases List.mem_cons.1 hc with rfl | hc
    · have h1 := ha a (by simp)
      cases a with
      | deliver s => rcases hb with rfl | rfl <;> trivial
      | dial s | reap s | restart s c => exact h1.elim
      | _ => cases hb; trivial
    · exact ih (fun a' ha' => ha a' (by simp [ha'])) c hc

/-- In every state that two nodes in beacon mode can reach and in which `s` has no entry for the other
one: after a beacon of the other one, once nothing is on the way any more, both hold each other as ready
exactly when the other one had no entry for `s` either, or a HELLO of its own was on the way. -/
theorem heals_iff {d0 d1 d2 : Duo} {as as' : List Act} {s : Bool} {env : Env}
    (h0 : Strangers net d0) (hpre : Run net (Lives net d0.cfgs) d0 as d)
    (hgone : (d.node s).peers.get (d.otherId s) = none)
    (hsv : Serves net d0.cfgs d env (.beacon s)) (hb : d.act net env (.beacon s) = .ok d1)
    (hrun : Run net (Drains net d0.cfgs) d1 as' d2) (hq : ∀ t, d2.link t = []) :
    (d2.Holds s ∧ d2.Holds !s) ↔
      (d.node !s).peers.get (d.otherId !s) = none ∨ ∃ h ∈ d.link !s, h.Is Cmd.hello := by
  obtain ⟨hs, bs, hbs, hpre'⟩ := hpre.simulates h0.pair (fun _ _ _ hp => hp.1) h0.sound
  have hundialled : ∀ t, (meeting net d0.cfgs d).view t ≠ .dialled := by
    refine hpre'.invariant (undialled_of_shows hbs (hpre.acts fun _ _ _ hp => hp.2))
      (fun _ _ _ ha hstep => Meeting.undialled_step ha hstep) fun t => ?_
    rw [h0.view]
    simp
  obtain ⟨hs1, hlook⟩ := simulates_beacon h0.pair hs hsv hb
  obtain ⟨hs2, bs', hbs', hrun'⟩ := hrun.simulates h0.pair (fun _ _ _ hp => hp.1) hs1
  rw [hs2.holds_iff, hs2.holds_iff, hs.unknown_iff (hundialled _), ← saying_iff d0.cfgs]
  refine hrun'.ready_iff hlook (drains_of_shows hbs' (hrun.acts fun _ _ _ hp => hp.2))
    ((hs.unknown_iff (hundialled s)).1 hgone) (hundialled _) fun t => ?_
  rw [saying_iff, hq t]
  simp

end

/-! ## A restart -/

/-- Both nodes meet, and node `false` restarts. -/
def restarted : List Act :=
  [.beacon false, .deliver true, .deliver false, .restart false (samplePair.cfgs false)]

/-- Both nodes meet, and both restart. -/
def restartedBoth : List Act := restarted ++ [.restart true (samplePair.cfgs true)]

/-- Deliveries from both links. -/
def deliveries : List Act := [.deliver true, .deliver false]

/-- What the sample nodes do in beacon mode, when nothing is raised. -/
theorem sampled_lives (as : List Act) (hr : ∀ a ∈ as, a.Sampled) (ha : ∀ a ∈ as, ∀ s, a ≠ .dial s)
    (h : Node.raised (samplePair.acts sampleNet (Env.calm 0) as) = none) :
    Run sampleNet (Lives sampleNet samplePair.cfgs) samplePair as
      (samplePair.after sampleNet (Env.calm 0) as) ∧
    (samplePair.after sampleNet (Env.calm 0) as).Sampled :=
  sampled_run Run.start samplePair_sampled hr (fun _ a hm hs => ⟨hs, ha a hm⟩) (acts_after h)

/-- A beacon at node `false`, and then the deliveries, when nothing is raised. -/
theorem sampled_look {d : Duo} (hd : d.Sampled)
    (h1 : Node.raised (d.acts sampleNet (Env.calm 0) [.beacon false]) = none)
    (h2 : Node.raised ((d.after sampleNet (Env.calm 0) [.beacon false]).acts sampleNet (Env.calm 0)
      deliveries) = none) :
    d.act sampleNet (Env.calm 0) (.beacon false) = .ok (d.after sampleNet (Env.calm 0) [.beacon false]) ∧
    Run sampleNet (Drains sampleNet samplePair.cfgs) (d.after sampleNet (Env.calm 0) [.beacon false])
      deliveries ((d.after sampleNet (Env.calm 0) [.beacon false]).after sampleNet (Env.calm 0)
        deliveries) := by
  have hlook := acts_after h1
  rw [acts_singleton] at hlook
  refine ⟨hlook, (sampled_run Run.start (sampled_step (.beacon false) trivial hd hlook)
    (by simp [deliveries, Act.Sampled]) (fun _ a hm hs => ⟨hs, ?_⟩) (acts_after h2)).1⟩
  simp only [deliveries, List.mem_cons, List.not_mem_nil, or_false] at hm
  rcases hm with rfl | rfl <;> trivial

/-- The sample nodes after `as`, a beacon at node `false` and the deliveries. -/
def looked (as : List Act) : Duo :=
  ((samplePair.after sampleNet (Env.calm 0) as).after sampleNet (Env.calm 0) [.beacon false]).after
    sampleNet (Env.calm 0) deliveries

/-- After both nodes have restarted, one beacon makes both of them ready. -/
theorem heals_restartedBoth : (looked restartedBoth).Holds false ∧ (looked restartedBoth).Holds true := by
  obtain ⟨hpre, hd⟩ := sampled_lives restartedBoth
    (by simp [restartedBoth, restarted, Act.Sampled]) (by simp [restartedBoth, restarted])
    (by decide +kernel)
  obtain ⟨hlook, hrun⟩ := sampled_look hd (by decide +kernel) (by decide +kernel)
  have hiff : ((looked restartedBoth).Holds false ∧ (looked restartedBoth).Holds !false) ↔ _ :=
    heals_iff samplePair_strangers hpre (by decide +kernel)
      (sampled_serves (.beacon false) trivial hd) hlook hrun (by decide +kernel)
  rw [Bool.not_false] at hiff
  exact hiff.2 (Or.inl (by decide +kernel))

/-- Node `false` restarts and sees a beacon of node `true`, which still holds it as ready: after all
deliveries it has no ready entry. -/
theorem not_always_heals :
    ¬ ∀ (net : Net) (d0 d d1 d2 : Duo) (as as' : List Act) (s : Bool) (env : Env),
      Strangers net d0 → Run net (Lives net d0.cfgs) d0 as d →
      (d.node s).peers.get (d.otherId s) = none → Serves net d0.cfgs d env (.beacon s) →
      d.act net env (.beacon s) = .ok d1 → Run net (Drains net d0.cfgs) d1 as' d2 →
      (∀ t, d2.link t = []) → d2.Holds s ∧ d2.Holds !s := by
  intro hall
  obtain ⟨hpre, hd⟩ := sampled_lives restarted (by simp [restarted, Act.Sampled])
    (by simp [restarted]) (by decide +kernel)
  obtain ⟨hlook, hrun⟩ := sampled_look hd (by decide +kernel) (by decide +kernel)
  have hholds := hall sampleNet samplePair _ _ (looked restarted) restarted deliveries false (Env.calm 0)
    samplePair_strangers hpre (by decide +kernel) (sampled_serves (.beacon false) trivial hd) hlook
    hrun (by decide +kernel)
  have hentry : ((looked restarted).node false).peers.get ((looked restarted).otherId false) =
      some 0 := by decide +kernel
  have hidle : (((looked restarted).node false).obj 0).ready = false := by decide +kernel
  obtain ⟨r, hr, hready⟩ := hholds.1
  rw [hentry] at hr
  rw [← Option.some.inj hr, hidle] at hready
  exact Bool.false_ne_true hready

end Duo

end Zre
