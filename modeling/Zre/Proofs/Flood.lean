import Mathlib.Algebra.BigOperators.Group.Finset.Basic
import Mathlib.Algebra.Order.BigOperators.Group.Finset
import Zre.Proofs.Cluster

/-!
# Proofs: the flood of tuples ends

The hub answers what a client says, but a client answers nothing: only an INVALID makes it announce itself again, and
the hub sends an INVALID only to whoever has sent one. So every delivery brings the mail closer to its end.
-/

namespace Zre

open Fallible

namespace Hub

variable {env : Env} {h h' : Hub}

/-- What was sent to several clients is the message, to one of them. -/
theorem sendEach_mem {m : Zgs.Message} {ids : List Bytes} (hm : h.sendEach m ids = .ok h') {s : Bytes × Bytes}
    (hs : s ∈ h'.outbox) : s ∈ h.outbox ∨ s.1 ∈ ids ∧ Zgs.encode m = .ok s.2 := by
  cases hbody : Zgs.encode m with
  | ok body =>
    rw [sendEach_ok hbody] at hm
    cases hm
    rcases List.mem_append.1 hs with hold | hnew
    · exact Or.inl hold
    · obtain ⟨id, hid, rfl⟩ := List.mem_map.1 hnew
      exact Or.inr ⟨hid, rfl⟩
  | error e =>
    cases ids with
    | nil =>
      cases hm
      exact Or.inl hs
    | cons id ids =>
      rw [sendEach_error hbody h (List.cons_ne_nil id ids)] at hm
      cases hm

/-- A frame with an INVALID. -/
def Resets (s : Bytes × Bytes) : Prop := Zgs.decode s.2 = .ok (some .invalid)

/-- A message other than INVALID does not reset anybody. -/
theorem sendEach_resets {m : Zgs.Message} {ids : List Bytes} (hm : h.sendEach m ids = .ok h') (hne : m ≠ .invalid)
    {s : Bytes × Bytes} (hs : s ∈ h'.outbox) (hr : Resets s) : s ∈ h.outbox := by
  refine (sendEach_mem hm hs).resolve_right fun ⟨_, hbody⟩ => hne ?_
  rw [Resets, Zgs.decode_encode hbody] at hr
  cases hr
  rfl

theorem accept_resets {key value : Bytes} {ttl : Nat} (ha : h.accept env key value ttl = .ok h') {s : Bytes × Bytes}
    (hs : s ∈ h'.outbox) (hr : Resets s) : s ∈ h.outbox := by
  unfold accept at ha
  split at ha
  · cases ha
    exact hs
  · exact sendEach_resets ha (by rintro ⟨⟩) hs hr

/-- Only a client that has sent an INVALID gets one. -/
theorem handleMessage_resets (hsound : h.Sound) {frames : List Bytes} (hm : h.handleMessage env frames = .ok h')
    {s : Bytes × Bytes} (hs : s ∈ h'.outbox) (hr : Resets s) :
    s ∈ h.outbox ∨ ∃ body, frames = [s.1, body] ∧ Zgs.decode body = .ok (some .invalid) := by
  unfold handleMessage at hm
  split at hm
  swap
  · cases hm
    exact Or.inl hs
  rename_i id body
  obtain ⟨m, hdec, hm⟩ := bind_eq_ok_iff.1 hm
  cases m with
  | none =>
    cases hm
    exact Or.inl hs
  | some m =>
    cases m with
    | hello =>
      simp only [snapshot_ok (show (h.addClient id).Sound from hsound)] at hm
      cases hm
      rcases List.mem_append.1 hs with hold | hnew
      · exact Or.inl hold
      · obtain ⟨e, he, rfl⟩ := List.mem_map.1 hnew
        rw [Resets, Zgs.decode_publishBytes (hsound.of_mem he) (by decide)] at hr
        cases hr
    | publish key value ttl => exact Or.inl (accept_resets hm hs hr)
    | ping => exact Or.inl (sendEach_resets hm (by rintro ⟨⟩) hs hr)
    | pong =>
      cases hm
      exact Or.inl hs
    | invalid =>
      rcases sendEach_mem hm hs with hold | ⟨hid, -⟩
      · exact Or.inl hold
      · rw [List.mem_singleton.1 hid]
        exact Or.inr ⟨body, rfl, hdec⟩

end Hub

namespace Cluster

variable {ι : Type} [DecidableEq ι] {routes : Routes ι} {c c' : Cluster ι} {i : ι} {link : Nat}

/-- No client is reset. -/
def Calm (routes : Routes ι) (c : Cluster ι) : Prop :=
  ∀ s ∈ c.hub.outbox, Hub.Resets s → ∀ i link, s.1 ≠ routes.id i link

theorem Calm.step {env : GossipEnv} {event : Event ι} {greeted : List Bytes} (hc : c.Calm routes)
    (hw : c.Wired routes greeted) (hwelcome : Welcome routes event) (h : c.step routes env event = .ok c') :
    c'.Calm routes := by
  obtain ⟨accepted, returned, hruns⟩ := hw.runs
  cases event with
  | node i input =>
    obtain ⟨d, -, h⟩ := bind_eq_ok_iff.1 h
    cases h
    exact hc
  | host input =>
    simp only [Cluster.step] at h
    split at h
    · cases h
      exact hc
    · obtain ⟨n, -, h⟩ := bind_eq_ok_iff.1 h
      cases h
      exact hc
  | hear i link =>
    simp only [Cluster.step] at h
    cases hup : c.up i link with
    | nil =>
      simp only [hup] at h
      cases h
      exact hc
    | cons body rest =>
      simp only [hup] at h
      obtain ⟨hub, hm, h⟩ := bind_eq_ok_iff.1 h
      cases h
      intro s hs hr
      rcases Hub.handleMessage_resets hruns.sound hm hs hr with hold | ⟨b, heq, hdec⟩
      · exact hc s hold hr
      · obtain ⟨-, rfl⟩ : _ ∧ body = b := by simpa using heq
        have hmem : body ∈ (c.client i).spoken link := List.mem_of_mem_drop (hup ▸ List.mem_cons_self)
        obtain ⟨t, ht, -, -, rfl⟩ := Client.mem_spoken.1 hmem
        obtain ⟨-, m, hbody, hne⟩ := (hw.client i).sent t ht
        rw [Zgs.decode_encode hbody] at hdec
        cases hdec
        exact absurd rfl hne
  | take i link =>
    simp only [Cluster.step] at h
    split at h
    · cases h
      exact hc
    · split at h
      · obtain ⟨d, -, h⟩ := bind_eq_ok_iff.1 h
        cases h
        exact hc
      · cases h
        exact hc
  | lose i link =>
    simp only [Cluster.step] at h
    split at h <;> cases h <;> exact hc
  | stranger frames =>
    obtain ⟨hub, hm, h⟩ := bind_eq_ok_iff.1 h
    cases h
    intro s hs hr
    rcases Hub.handleMessage_resets hruns.sound hm hs hr with hold | ⟨b, heq, -⟩
    · exact hc s hold hr
    · exact hwelcome.2 s.1 b heq
  | reap =>
    cases h
    exact hc
  | collect =>
    simp only [Cluster.step, Hub.deliveries] at h
    split at h
    · cases h
      exact hc
    · obtain ⟨n, -, h⟩ := bind_eq_ok_iff.1 h
      cases h
      exact hc
  | publish key value ttl =>
    obtain ⟨hub, hm, h⟩ := bind_eq_ok_iff.1 h
    cases h
    exact fun s hs hr => hc s (Hub.accept_resets hm hs hr) hr
  | unpublish key =>
    cases h
    exact hc

/-! ## The mail that is on the way -/

/-- A delivery: a frame is taken from a link, or the host takes what waits for it. -/
inductive Delivers (routes : Routes ι) (c c' : Cluster ι) : Prop where
  | hear (env : GossipEnv) (i : ι) (link : Nat) (hup : c.up i link ≠ [])
      (h : c.step routes env (.hear i link) = .ok c')
  | take (env : GossipEnv) (i : ι) (link : Nat) (hopen : link ∈ (c.client i).links)
      (hdown : c.down routes i link ≠ []) (h : c.step routes env (.take i link) = .ok c')
  | collect (env : GossipEnv) (hpending : c.hub.pending ≠ []) (h : c.step routes env .collect = .ok c')

variable [Fintype ι]

/-- The number of frames on the links that were opened. -/
def outstanding (c : Cluster ι) (n : ι → Nat → Nat) : Nat :=
  ∑ i, ∑ link ∈ Finset.range (c.client i).nextLink, n i link

/-- The mail to the hub. -/
def outward (c : Cluster ι) : Nat := c.outstanding fun i link => (c.up i link).length

/-- The mail of the hub, to the clients and to its host. -/
def inward (routes : Routes ι) (c : Cluster ι) : Nat :=
  (c.outstanding fun i link => (c.down routes i link).length) + c.hub.pending.length

omit [DecidableEq ι] in
theorem outstanding_lt {n n' : ι → Nat → Nat} (hnext : ∀ j, (c'.client j).nextLink = (c.client j).nextLink)
    (hle : ∀ j l, n' j l ≤ n j l) (hlink : link < (c.client i).nextLink) (hlt : n' i link < n i link) :
    c'.outstanding n' < c.outstanding n := by
  unfold outstanding
  simp only [hnext]
  refine Finset.sum_lt_sum (fun j _ => Finset.sum_le_sum fun l _ => hle j l) ⟨i, Finset.mem_univ i, ?_⟩
  exact Finset.sum_lt_sum (fun l _ => hle i l) ⟨link, Finset.mem_range.2 hlink, hlt⟩

omit [Fintype ι] in
/-- One more frame was taken. -/
theorem length_drop_bump {α : Type*} (l : ι → Nat → List α) (n : ι → Nat → Nat)
    (hne : (l i link).drop (n i link) ≠ []) :
    (∀ j m, ((l j m).drop (bump n i link j m)).length ≤ ((l j m).drop (n j m)).length) ∧
      ((l i link).drop (bump n i link i link)).length < ((l i link).drop (n i link)).length := by
  have hlt : n i link < (l i link).length := by
    by_contra hge
    exact hne (List.drop_eq_nil_of_le (by omega))
  constructor
  · intro j m
    simp only [List.length_drop, bump_apply]
    split
    · rename_i hjm
      obtain ⟨rfl, rfl⟩ := hjm
      omega
    · omega
  · simp only [List.length_drop, bump_apply, and_self, if_true]
    omega

/-- A client that is not reset says nothing. -/
theorem receive_silent {env : GossipEnv} {d d' : Client} {body : Bytes} (hr : Zgs.decode body ≠ .ok (some .invalid))
    (h : d.receive env link body = .ok d') : d'.outbox = d.outbox ∧ d'.nextLink = d.nextLink := by
  obtain ⟨m, hdec, h⟩ := bind_eq_ok_iff.1 h
  split at h
  · split at h
    · obtain ⟨n, -, h⟩ := bind_eq_ok_iff.1 h
      cases h
      exact ⟨rfl, rfl⟩
    · cases h
      exact ⟨rfl, rfl⟩
  · exact absurd hdec hr
  · cases h
    exact ⟨rfl, rfl⟩

/-- Every delivery leaves less mail to the hub, or as much and less of the hub. -/
theorem Delivers.less {greeted : List Bytes} (hw : c.Wired routes greeted) (hc : c.Calm routes)
    (h : Delivers routes c c') :
    c'.outward < c.outward ∨ c'.outward = c.outward ∧ c'.inward routes < c.inward routes := by
  cases h with
  | hear env i link hup h =>
    left
    have hlink : link < (c.client i).nextLink := by
      by_contra hge
      refine hup ?_
      rw [up, (hw.client i).spoken_eq_nil (by omega), List.drop_nil]
    simp only [Cluster.step] at h
    cases hbody : c.up i link with
    | nil => exact absurd hbody hup
    | cons body rest =>
      simp only [hbody] at h
      obtain ⟨hub, -, h⟩ := bind_eq_ok_iff.1 h
      cases h
      obtain ⟨hle, hlt⟩ := length_drop_bump (fun j l => (c.client j).spoken l) c.heard hup
      exact outstanding_lt (fun _ => rfl) hle hlink hlt
  | take env i link hopen hdown h =>
    right
    obtain ⟨only, hsingle, honly⟩ := (hw.client i).single
    obtain rfl : link = only := by simpa [hsingle] using hopen
    simp only [Cluster.step] at h
    cases hs : c.down routes i link with
    | nil => exact absurd hs hdown
    | cons s rest =>
      simp only [hs, if_pos hopen] at h
      obtain ⟨d, hd, h⟩ := bind_eq_ok_iff.1 h
      cases h
      obtain ⟨hmem, hid⟩ := Hub.mem_posted.1 (List.mem_of_mem_drop (hs ▸ List.mem_cons_self))
      have hreset : Zgs.decode s.2 ≠ .ok (some .invalid) := fun hr => hc s hmem hr i link hid
      obtain ⟨hout, hnext⟩ := receive_silent hreset hd
      have hsame : ∀ j, (Function.update c.client i d j).outbox = (c.client j).outbox ∧
          (Function.update c.client i d j).nextLink = (c.client j).nextLink := by
        intro j
        by_cases hj : j = i
        · subst hj
          rw [Function.update_self]
          exact ⟨hout, hnext⟩
        · rw [Function.update_of_ne hj]
          exact ⟨rfl, rfl⟩
      constructor
      · unfold outward outstanding up Client.spoken
        simp only [(hsame _).1, (hsame _).2]
      · obtain ⟨hle, hlt⟩ := length_drop_bump (fun j l => c.hub.posted (routes.id j l)) c.read hdown
        exact Nat.add_lt_add_right (outstanding_lt (fun j => (hsame j).2) hle honly hlt) _
  | collect env hpending h =>
    right
    have hlt : 0 < c.hub.pending.length := List.length_pos_of_ne_nil hpending
    simp only [Cluster.step, Hub.deliveries] at h
    split at h
    · cases h
      exact ⟨rfl, Nat.add_lt_add_left hlt _⟩
    · obtain ⟨n, -, h⟩ := bind_eq_ok_iff.1 h
      cases h
      exact ⟨rfl, Nat.add_lt_add_left hlt _⟩

omit [Fintype ι] in
/-- In every run no client is reset. -/
theorem RunBy.calm {members : Members ι} (h : RunBy (fun _ => True) (fun _ _ => Welcome routes) routes members c) :
    c.Calm routes := by
  induction h with
  | start env envs hhost hhub hlen hs h =>
    obtain ⟨-, hout, -⟩ := openHub_runs hhost hhub
    intro s hs
    replace hs : s ∈ (_ : Hub).outbox := hs
    rw [hout] at hs
    cases hs
  | step env event hc hp h ih =>
    obtain ⟨greeted, hw⟩ := hc.wired fun _ _ _ hp => hp
    exact ih.step hw hp h

omit [Fintype ι] in
theorem RunBy.delivers {members : Members ι} (h : RunBy (fun _ => True) (fun _ _ => Welcome routes) routes members c)
    (hd : Delivers routes c c') : RunBy (fun _ => True) (fun _ _ => Welcome routes) routes members c' := by
  cases hd with
  | hear env i link _ hs => exact h.step env (.hear i link) trivial hs
  | take env i link _ _ hs => exact h.step env (.take i link) trivial hs
  | collect env _ hs => exact h.step env .collect trivial hs

/-- In every state of a run, whatever is delivered and in whatever order, the deliveries come to an end. -/
theorem RunBy.flood_ends {members : Members ι}
    (h : RunBy (fun _ => True) (fun _ _ => Welcome routes) routes members c) :
    Acc (fun c' c => Delivers routes c c') c := by
  have hall : ∀ a b, ∀ c : Cluster ι, RunBy (fun _ => True) (fun _ _ => Welcome routes) routes members c →
      c.outward = a → c.inward routes = b → Acc (fun c' c => Delivers routes c c') c := by
    intro a
    induction a using Nat.strong_induction_on with
    | _ a iha =>
      intro b
      induction b using Nat.strong_induction_on with
      | _ b ihb =>
        rintro c hc rfl rfl
        refine ⟨c, fun c' hd => ?_⟩
        obtain ⟨greeted, hw⟩ := hc.wired fun _ _ _ hp => hp
        rcases hd.less hw hc.calm with hless | ⟨hsame, hless⟩
        · exact iha _ hless _ c' (hc.delivers hd) rfl rfl
        · exact ihb _ hless c' (hc.delivers hd) hsame rfl
  exact hall _ _ c h rfl rfl

/-- The mail of the sample cluster comes to an end. -/
theorem sample_flood_ends : Acc (fun c' c => Delivers sampleRoutes c c') sampleStarted :=
  (sample_runs (k := 0) trivial (fun _ _ => Mail.welcome) (by omega)).flood_ends

end Cluster

end Zre
