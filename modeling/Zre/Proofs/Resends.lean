import Zre.Proofs.Fellows

/-!
# Proofs: elections with resends

`_maintain_elections` sends again what was said last, and the counters of an election do not tell a repetition
from a new voice. As long as nobody counts a repetition, the lowest uuid still wins.
-/

namespace Zre

open Fallible

namespace Node

variable {n : Node} {g : Bytes} {env : Env}

/-- Without an open election there is nothing to maintain. -/
theorem maintainElection_closed (h : (n.group g).election = none) : n.maintainElection env g = .ok n := by
  unfold maintainElection
  rw [h]

/-- `_maintain_elections`, when no election but that of `g` can be open. -/
theorem maintainElections_lone (h : ∀ x, x ≠ g → (n.group x).election = none) :
    n.maintainElections env = n.maintainElection env g := by
  have hbooks : ∀ n', n.maintainElection env g = .ok n' → ∀ x, x ≠ g → (n'.group x).election = none := by
    intro n' hn' x hx
    rw [((campaign_maintainElection env n g n' hn').books x fun e => hx e.1).1]
    exact h x hx
  have hrest : ∀ (ks : List Bytes) (m : Node), (∀ x, x ≠ g → (m.group x).election = none) → g ∉ ks →
      ks.foldlM (fun n x => n.maintainElection env x) m = .ok m := by
    intro ks m hm hks
    induction ks with
    | nil => rfl
    | cons k ks ih =>
      rw [List.foldlM_cons, maintainElection_closed (hm k fun e => hks (e ▸ List.mem_cons_self))]
      exact ih fun e => hks (List.mem_cons_of_mem k e)
  have hloop : ∀ ks : List Bytes, ks.Nodup → g ∈ ks →
      ks.foldlM (fun n x => n.maintainElection env x) n = n.maintainElection env g := by
    intro ks hnodup hks
    induction ks with
    | nil => cases hks
    | cons k ks ih =>
      rw [List.foldlM_cons]
      rw [List.nodup_cons] at hnodup
      by_cases hk : k = g
      · subst hk
        cases hn' : n.maintainElection env k with
        | error e => rfl
        | ok n' => exact hrest ks n' (hbooks n' hn') hnodup.1
      · rw [maintainElection_closed (h k hk)]
        exact ih hnodup.2 ((List.mem_cons.1 hks).resolve_left fun e => hk e.symm)
  unfold maintainElections
  by_cases hg : g ∈ n.groups.keys
  · exact hloop _ n.groups.nodup hg
  · rw [hrest _ n h hg, maintainElection_closed]
    unfold Node.group
    cases hget : n.groups.get g with
    | none => rfl
    | some group => exact absurd ((Dict.mem_keys _).2 ⟨group, hget⟩) hg

end Node

section Mesh

variable {ι : Type} {leads : ι → Dealer → Option ι} {g : Bytes} {uuid : ι → Bytes} {ref : ι → ι → Ref}

namespace Mesh

variable [DecidableEq ι]

/-- The candidate of the ELECT for `g` that `t` receives next from `s`. -/
def nextElect (d : Mesh ι) (g : Bytes) (s t : ι) : Option Str :=
  match d.link s t with
  | ⟨_, frame :: _, _⟩ :: _ =>
    match Codec.decode frame with
    | .ok (some ⟨cmd, _, _, .election x id⟩) =>
      if cmd = Cmd.elect ∧ x = g then some ((d.node t).wireId (bdec id)) else none
    | _ => none
  | _ => none

/-- From whom each node has counted an ELECT for the candidate that it supports, once `t` has received the next
frame of `s`. -/
def hears (d : Mesh ι) (g : Bytes) (s t : ι) (heard : ι → Finset ι) : ι → Finset ι :=
  match d.nextElect g s t, ((d.node t).group g).election with
  | some id, some e =>
    if id < e.caw then Function.update heard t {s}
    else if id = e.caw then Function.update heard t (insert s (heard t))
    else heard
  | some _, none => Function.update heard t {s}
  | none, _ => heard

/-- `t` would count an ELECT of `s` for its candidate a second time. -/
def Again (d : Mesh ι) (g : Bytes) (s t : ι) (heard : ι → Finset ι) : Prop :=
  s ∈ heard t ∧ ∃ e, ((d.node t).group g).election = some e ∧ d.nextElect g s t = some e.caw

/-- A run of deliveries and resends, in which no node counts an ELECT a second time before a LEADER frame was
sent. -/
inductive Watched (leads : ι → Dealer → Option ι) (g : Bytes) (d₀ d : Mesh ι) : (ι → Finset ι) → Mesh ι → Prop where
  | start : Watched leads g d₀ d (fun _ => ∅) d
  | deliver {heard : ι → Finset ι} {d1 d2 : Mesh ι} {env : Env} {s t : ι} (h : Watched leads g d₀ d heard d1)
      (hl : env.Lossless) (hnew : ¬ d₀.Led d1 → ¬ d1.Again g s t heard)
      (hs : d1.act leads env (.deliver s t) = .ok d2) : Watched leads g d₀ d (d1.hears g s t heard) d2
  | maintain {heard : ι → Finset ι} {d1 d2 : Mesh ι} {env : Env} {t : ι} (h : Watched leads g d₀ d heard d1)
      (hl : env.Lossless) (hs : d1.act leads env (.maintain t) = .ok d2) : Watched leads g d₀ d heard d2

/-- Since `d₀` nobody has announced another leader than `m`. -/
def AllName (g : Bytes) (d₀ d : Mesh ι) (m : ι) : Prop :=
  ∀ i, ∃ l, (d.node i).events = (d₀.node i).events ++ l ∧
    ∀ e ∈ l, ∃ name, e = .leader (d₀.node m).cfg.peerIdHex name (bdec g)

namespace Follows

variable {d₀ d : Mesh ι} {s : Echo.State ι}

omit [DecidableEq ι] in
theorem nextElect_eq (h : Follows leads g uuid ref d₀ s d) (u i : ι) :
    d.nextElect g u i = match (s.link u i).head? with
      | some (.elect w) => some (upperHex (uuid w))
      | _ => none := by
  have hlink := h.link u i
  unfold nextElect
  generalize d.link u i = l at hlink
  generalize s.link u i = l' at hlink
  cases hlink with
  | nil => rfl
  | @cons msg x _ _ hstand hrest =>
    obtain ⟨frame, seq, hframe, hdecode⟩ := hstand.decode
    obtain ⟨dealer, frames, outcome⟩ := x
    cases hframe
    simp only [hdecode, List.head?_cons, wireId_upperHex, and_true]
    cases msg with
    | elect w => rfl
    | lead w => rfl

variable (hinj : Function.Injective uuid)

include hinj

theorem hears_eq (h : Follows leads g uuid ref d₀ s d) (u i : ι) (heard : ι → Finset ι) :
    d.hears g u i heard = s.hears (fun j => upperHex (uuid j)) u i heard := by
  unfold hears Echo.State.hears
  rw [h.nextElect_eq]
  have ht := h.tallies i
  generalize ((d.node i).group g).election = o at ht
  generalize s.ballot i = c at ht
  generalize (s.link u i).head? = x
  cases ht with
  | closed =>
    cases x with
    | none => rfl
    | some msg => cases msg <;> rfl
  | @running e b hcaw =>
    cases x with
    | none => rfl
    | some msg =>
      cases msg with
      | elect w =>
        simp only [hcaw, upperHex_eq_iff hinj]
        by_cases hlow : upperHex (uuid w) < upperHex (uuid b.caw)
        · rw [if_pos hlow, if_pos hlow]
        · rw [if_neg hlow, if_neg hlow]
      | lead w => rfl

omit [DecidableEq ι] in
/-- What would be counted a second time was heard before. -/
theorem again_iff (h : Follows leads g uuid ref d₀ s d) {u i : ι} {heard : ι → Finset ι} {b : Echo.Ballot ι}
    (hb : s.ballot i = some b) :
    d.Again g u i heard ↔ u ∈ heard i ∧ (s.link u i).head? = some (.elect b.caw) := by
  have ht := h.tallies i
  rw [hb] at ht
  obtain ⟨e, he, hcaw⟩ := ht.open
  unfold Again
  rw [h.nextElect_eq, he]
  generalize (s.link u i).head? = x
  refine and_congr_right fun _ => ?_
  cases x with
  | none => simp
  | some msg =>
    cases msg with
    | elect w => simp [hcaw, upperHex_eq_iff hinj]
    | lead w => simp

omit hinj in
/-- A node looks after its elections. -/
theorem maintain [Fintype ι] {env : Env} (hl : env.Lossless) (hg : g.length ≤ maxStringBytes)
    (huuid : ∀ j, (uuid j).length = 16) (hinj : Function.Injective uuid) (hcard : 2 ≤ Fintype.card ι)
    (hlone : ∀ i x, x ≠ g → ((d₀.node i).group x).election = none) (h : Follows leads g uuid ref d₀ s d) (i : ι) :
    Yields (d.maintain leads env i) fun d' =>
      ∃ s', (s' = s ∨ Echo.Repeats i s s') ∧ Follows leads g uuid ref d₀ s' d' ∧ Sends g uuid s' d d' := by
  have honly : ∀ s', (s' = s ∨ Echo.Repeats i s s') → Echo.Only i s s' := by
    rintro s' (rfl | hr)
    · exact .refl i _
    · exact hr.only
  refine h.feed honly ?_
  rw [Node.maintainElections_lone fun x hx => (h.books i x hx).trans (hlone i x hx)]
  exact (h.seat i).maintainElection hl hg huuid hinj hcard (h.tallies i)

end Follows

section Election

variable [Fintype ι] {d₀ d : Mesh ι}

/-- Before the first LEADER frame nobody has counted a voice twice. From then on nobody speaks of another candidate
than `m`. -/
inductive Watch (leads : ι → Dealer → Option ι) (g : Bytes) (uuid : ι → Bytes) (ref : ι → ι → Ref) (m : ι)
    (d₀ : Mesh ι) (heard : ι → Finset ι) (d' : Mesh ι) : Prop where
  | waves {s : Echo.State ι} {b : ι → Echo.Ballot ι} {rank : ι → ℕ} (hf : Follows leads g uuid ref d₀ s d')
      (hw : Echo.Waves (fun j => upperHex (uuid j)) m s b heard rank) (hno : ¬ d₀.Led d')
  | settled {s : Echo.State ι} (hf : Follows leads g uuid ref d₀ s d') (hs : Echo.Settled m s)

omit [DecidableEq ι] in
theorem Watch.told {m : ι} {heard : ι → Finset ι} {d' : Mesh ι} (h : Watch leads g uuid ref m d₀ heard d') (i : ι) :
    ∃ s, Follows leads g uuid ref d₀ s d' ∧ ∀ w ∈ s.told i, w = m := by
  cases h with
  | waves hf hw hno =>
    refine ⟨_, hf, fun w hmem => ?_⟩
    rw [hw.told] at hmem
    cases hmem
  | settled hf hs => exact ⟨_, hf, hs.told i⟩

section Watch

variable {m : ι} {heard : ι → Finset ι} {d' : Mesh ι} (hg : g.length ≤ maxStringBytes)
  (huuid : ∀ j, (uuid j).length = 16) (hinj : Function.Injective uuid)
  (hm : ∀ j, upperHex (uuid m) ≤ upperHex (uuid j)) {env : Env} (hl : env.Lossless)

include hg huuid hinj hm hl

/-- A frame is delivered that is not counted a second time. -/
theorem Watch.deliver (h : Watch leads g uuid ref m d₀ heard d') (u i : ι)
    (hnew : ¬ d₀.Led d' → ¬ d'.Again g u i heard) :
    Yields (d'.deliver leads env u i) (Watch leads g uuid ref m d₀ (d'.hears g u i heard)) := by
  have hkey : Function.Injective fun j => upperHex (uuid j) := upperHex_injective.comp hinj
  by_cases hne : d'.link u i = []
  · have hstay : d'.deliver leads env u i = .ok d' := by
      unfold Mesh.deliver
      rw [hne]
    have hheard : d'.hears g u i heard = heard := by
      unfold Mesh.hears Mesh.nextElect
      rw [hne]
    rw [hstay, hheard]
    exact Yields.ok h
  · cases h with
    | @waves s b rank hf hw hno =>
      refine (hf.deliver hl hg huuid hinj hne).mono ?_
      rintro d2 ⟨s', hr, hf', hsends⟩
      have hfresh : (s.link u i).head? = some (.elect (b i).caw) → u ∉ heard i := fun hhead hu =>
        hnew hno ((hf.again_iff hinj (hw.ballot i)).2 ⟨hu, hhead⟩)
      rcases hw.receives hkey hm hfresh hr with ⟨b', rank', hw'⟩ | hs'
      · rw [hf.hears_eq hinj]
        exact .waves hf' hw' (hsends.not_led hf.outbox hno fun a c msg hmsg => hw'.elect hmsg)
      · exact .settled hf' hs'
    | settled hf hs =>
      refine (hf.deliver hl hg huuid hinj hne).mono ?_
      rintro d2 ⟨s', hr, hf', -⟩
      exact .settled hf' (hs.receives hr)

/-- What is sent again is counted by nobody yet. -/
theorem Watch.maintain (hcard : 2 ≤ Fintype.card ι)
    (hlone : ∀ i x, x ≠ g → ((d₀.node i).group x).election = none) (h : Watch leads g uuid ref m d₀ heard d')
    (i : ι) : Yields (d'.maintain leads env i) (Watch leads g uuid ref m d₀ heard) := by
  have hkey : Function.Injective fun j => upperHex (uuid j) := upperHex_injective.comp hinj
  cases h with
  | @waves s b rank hf hw hno =>
    refine (hf.maintain hl hg huuid hinj hcard hlone i).mono ?_
    rintro d2 ⟨s', hr, hf', hsends⟩
    have hw' : Echo.Waves (fun j => upperHex (uuid j)) m s' b heard rank := by
      rcases hr with rfl | hr
      · exact hw
      · exact hw.repeats hkey hm hr
    exact .waves hf' hw' (hsends.not_led hf.outbox hno fun a c msg hmsg => hw'.elect hmsg)
  | settled hf hs =>
    refine (hf.maintain hl hg huuid hinj hcard hlone i).mono ?_
    rintro d2 ⟨s', hr, hf', -⟩
    rcases hr with rfl | hr
    · exact .settled hf' hs
    · exact .settled hf' (hs.repeats hr)

end Watch

/-- In an election with resends, in which before the first LEADER frame no node counts an ELECT for its candidate
that comes from a member from which it has counted one before, nobody announces another leader than the node `m` of
the lowest uuid. -/
theorem Watched.all_name {g : WireString} {d₀ d d' : Mesh ι} {heard : ι → Finset ι} (hcard : 2 ≤ Fintype.card ι)
    (hf : Fellows leads g.raw d₀) (hlone : ∀ i x, x ≠ g.raw → ((d₀.node i).group x).election = none)
    (hb : Begun leads g.raw d₀ d) {m : ι} (hm : ∀ j, ¬ (d₀.node j).cfg.peerId < (d₀.node m).cfg.peerId)
    (hr : Watched leads g.raw d₀ d heard d') : AllName g.raw d₀ d' m := by
  have huuid : ∀ j, (d₀.node j).cfg.peerId.length = 16 := fun j => (d₀.node j).cfg.peerId_length
  have hlow : ∀ j, upperHex (d₀.node m).cfg.peerId ≤ upperHex (d₀.node j).cfg.peerId := fun j =>
    not_lt.1 fun hlt => hm j ((upperHex_lt_iff _ _).1 hlt)
  have hkey : Function.Injective fun j => upperHex (d₀.node j).cfg.peerId := upperHex_injective.comp hf.distinct
  obtain ⟨ref, hfollows, hsends⟩ := hb.follows hf g.le hcard
  have hwaves : Echo.Waves (fun j => upperHex (d₀.node j).cfg.peerId) m Echo.State.start
      (fun v => ⟨v, none, 0, 0⟩) (fun _ => ∅) fun _ => 0 := Echo.waves_start hcard
  have hwatch : Watch leads g.raw (fun j => (d₀.node j).cfg.peerId) ref m d₀ heard d' := by
    induction hr with
    | start =>
      have hno := hsends.not_led (fun i => ⟨[], by simp⟩) (not_led_self d₀) fun u v msg hmsg => hwaves.elect hmsg
      exact .waves hfollows hwaves hno
    | @deliver heard d1 d2 env s t hr hl hnew hs ih =>
      obtain ⟨d3, hd3, hwatch⟩ := ih.deliver g.le huuid hf.distinct hlow hl s t hnew
      cases hd3.symm.trans hs
      exact hwatch
    | @maintain heard d1 d2 env t hr hl hs ih =>
      obtain ⟨d3, hd3, hwatch⟩ := ih.maintain g.le huuid hf.distinct hlow hl hcard hlone t
      cases hd3.symm.trans hs
      exact hwatch
  intro i
  obtain ⟨s, hf', htold⟩ := hwatch.told i
  obtain ⟨l, hl, hnames⟩ := hf'.events i
  refine ⟨l, hl, fun e he => ?_⟩
  obtain ⟨w, hw, hname⟩ := exists_of_mem_right hnames he
  rw [htold w hw] at hname
  exact hname

end Election

theorem calm_lossless (now : Int) : (Env.calm now).Lossless := fun _ => rfl

instance (d : Mesh ι) (g : Bytes) (s t : ι) (heard : ι → Finset ι) : Decidable (d.Again g s t heard) :=
  decidable_of_iff (s ∈ heard t ∧ (d.nextElect g s t).isSome = true ∧
    d.nextElect g s t = ((d.node t).group g).election.map Election.caw) <| by
    unfold Again
    cases ((d.node t).group g).election with
    | none => cases d.nextElect g s t <;> simp
    | some e => cases d.nextElect g s t <;> simp

/-- An act at a given time, if it counts no ELECT a second time. -/
def watch (leads : ι → Dealer → Option ι) (g : Bytes) (p : (ι → Finset ι) × Mesh ι) (a : Int × Act ι) :
    Option ((ι → Finset ι) × Mesh ι) :=
  match a.2 with
  | .deliver s t =>
    if p.2.Again g s t p.1 then none
    else (p.2.act leads (Env.calm a.1) (.deliver s t)).toOption.map fun d => (p.2.hears g s t p.1, d)
  | .maintain t => (p.2.act leads (Env.calm a.1) (.maintain t)).toOption.map fun d => (p.1, d)

theorem Watched.of_watch {d₀ d : Mesh ι} {p q : (ι → Finset ι) × Mesh ι} (h : Watched leads g d₀ d p.1 p.2)
    {l : List (Int × Act ι)} (hs : l.foldlM (watch leads g) p = some q) : Watched leads g d₀ d q.1 q.2 := by
  induction l generalizing p with
  | nil =>
    cases hs
    exact h
  | cons a l ih =>
    rw [List.foldlM_cons] at hs
    obtain ⟨r, hr, hs⟩ := Option.bind_eq_some_iff.1 hs
    refine ih ?_ hs
    obtain ⟨now, act⟩ := a
    cases act with
    | deliver s t =>
      unfold watch at hr
      simp only [] at hr
      split at hr
      · cases hr
      · rename_i hnew
        obtain ⟨d2, hd2, rfl⟩ := Option.map_eq_some_iff.1 hr
        exact h.deliver (calm_lossless now) (fun _ => hnew) (eq_ok_of_toOption hd2)
    | maintain t =>
      obtain ⟨d2, hd2, rfl⟩ := Option.map_eq_some_iff.1 hr
      exact h.maintain (calm_lossless now) (eq_ok_of_toOption hd2)

/-! ## Three nodes -/

theorem sampleTrio_lone (i : Fin 3) (x : Bytes) (hx : x ≠ sampleGroup.raw) :
    ((sampleTrio.node i).group x).election = none := by
  have hdec : ∀ i, ∀ e ∈ (sampleSeat i).groups.entries, e.1 = [0x67] := by decide +kernel
  have hget : (sampleTrio.node i).groups.get x = none := by
    cases hget : (sampleTrio.node i).groups.get x with
    | none => rfl
    | some group => exact absurd (hdec i _ ((Dict.get_eq_some_iff _).1 hget)) hx
  unfold Node.group
  rw [hget]
  rfl

/-- The node `00…02` sends its ELECTs again before anything was delivered. -/
def sampleRepeated : List (Int × Act (Fin 3)) := (2000000000, .maintain sampleSecond) :: sampleRounds

theorem all_name_sample : ∃ heard d', Watched sampleLeads sampleGroup.raw sampleTrio sampleBegun heard d' ∧
    AllName sampleGroup.raw sampleTrio d' 0 ∧ ∀ i, (d'.node i).events ≠ (sampleTrio.node i).events := by
  have hwatch : (sampleRepeated.foldlM (watch sampleLeads [0x67]) ((fun _ => ∅), sampleBegun)).isSome = true := by
    decide +kernel
  have hevents : ∀ i, ((((sampleRepeated.foldlM (watch sampleLeads [0x67]) ((fun _ => ∅), sampleBegun)).map
      Prod.snd).getD sampleTrio).node i).events ≠ (sampleTrio.node i).events := by decide +kernel
  obtain ⟨q, hq⟩ := Option.isSome_iff_exists.1 hwatch
  rw [hq] at hevents
  have hrun : Watched sampleLeads sampleGroup.raw sampleTrio sampleBegun q.1 q.2 := Watched.start.of_watch hq
  exact ⟨q.1, q.2, hrun, hrun.all_name (by decide) sampleTrio_fellows sampleTrio_lone sampleBegun_begun
    sampleTrio_lowest, hevents⟩

/-- While the ELECTs of `00…01` are delayed, the node `00…02` sends its own twice again to `00…03`. Each is counted
and answered there, and the two answers are taken for those of two nodes. -/
def sampleResends : List (Int × Act (Fin 3)) :=
  [(0, .deliver sampleSecond sampleLast), (2000000000, .maintain sampleSecond),
    (2000000000, .deliver sampleSecond sampleLast), (4000000000, .maintain sampleSecond),
    (4000000000, .deliver sampleSecond sampleLast)] ++
    List.replicate 3 (4000000000, .deliver sampleLast sampleSecond) ++
    [(4000000000, .deliver sampleSecond sampleLast)] ++
    List.replicate 4 (4000000000, .deliver sampleSecond sampleFirst) ++
    List.replicate 3 (4000000000, .deliver sampleLast sampleFirst)

/-- The node of the lowest uuid itself announces another leader. -/
theorem not_resends_harmless : ¬ ∀ (ι : Type) [Fintype ι] [DecidableEq ι] (leads : ι → Dealer → Option ι)
    (g : WireString) (d₀ d d' : Mesh ι) (m : ι), 2 ≤ Fintype.card ι → Fellows leads g.raw d₀ →
    (∀ i x, x ≠ g.raw → ((d₀.node i).group x).election = none) → Begun leads g.raw d₀ d →
    (∀ j, ¬ (d₀.node j).cfg.peerId < (d₀.node m).cfg.peerId) → Run leads (fun _ => True) d d' →
    AllName g.raw d₀ d' m := by
  intro hall
  have hacts : (sampleBegun.acts sampleLeads sampleResends).toOption.isSome = true := by decide +kernel
  have hrun : Run sampleLeads (fun _ => True) sampleBegun
      ((sampleBegun.acts sampleLeads sampleResends).toOption.getD sampleTrio) :=
    Run.start.of_acts (fun _ _ => trivial) (eq_ok_getD hacts)
  have hnames := hall (Fin 3) sampleLeads sampleGroup sampleTrio sampleBegun _ 0 (by decide) sampleTrio_fellows
    sampleTrio_lone sampleBegun_begun sampleTrio_lowest hrun 0
  have hevents : (((sampleBegun.acts sampleLeads sampleResends).toOption.getD sampleTrio).node 0).events =
      (sampleTrio.node 0).events ++ [.leader (hex (sampleUuids 1)) (bdec (sampleName 1)) (bdec [0x67])] := by
    decide +kernel
  have hwho : (sampleTrio.node 0).cfg.peerIdHex = hex (sampleUuids 0) := by decide +kernel
  obtain ⟨l, hl, hname⟩ := hnames
  rw [hevents] at hl
  obtain ⟨name, heq⟩ := hname (.leader (hex (sampleUuids 1)) (bdec (sampleName 1)) (bdec [0x67])) (by
    rw [← List.append_cancel_left hl]
    exact List.mem_singleton_self _)
  rw [hwho] at heq
  injection heq with hid
  exact absurd hid (by decide +kernel)

end Mesh

end Mesh

end Zre
