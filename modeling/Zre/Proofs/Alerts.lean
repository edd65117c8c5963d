import Zre.Lib.Throttle
import Zre.Proofs.Expiry
import Zre.Proofs.Licences

/-!
# Proofs: when a quiet peer is reported

The reaper probes a quiet peer every time and reports it once in an interval. The throttle of a peer is lifted by
what the peer says and when it is removed, and by nothing else.
-/

namespace Zre

open Fallible

namespace Node

/-- How many EVASIVE events about `k` were emitted so far. -/
def alerts (n : Node) (k : Str) : Nat := n.events.countP fun e => decide (e.Alerts k)

/-- Neither the throttle nor the EVASIVE events of `k` have changed. -/
def SameAlerts (n n' : Node) (k : Str) : Prop :=
  n'.evasiveEmitAt.get k = n.evasiveEmitAt.get k ∧ n'.alerts k = n.alerts k

/-- What a step does to the throttle of `k` and to the EVASIVE events about it. -/
inductive Outcome (lift : Prop) (env : Env) (n n' : Node) (k : Str) : Prop where
  | stays (h : n.SameAlerts n' k)
  | reports (ht : n'.evasiveEmitAt.get k = some env.now)
      (hi : n.cfg.evasiveEmitInterval ≤ env.now - (n.evasiveEmitAt.get k).getD 0)
      (he : n'.alerts k = n.alerts k + 1)
  | lifted (hl : lift) (he : n'.alerts k = n.alerts k)

section Outcome

variable {env : Env} {n n' n'' : Node} {k : Str}

theorem SameAlerts.refl (n : Node) (k : Str) : n.SameAlerts n k := ⟨rfl, rfl⟩

theorem SameAlerts.trans (h1 : n.SameAlerts n' k) (h2 : n'.SameAlerts n'' k) : n.SameAlerts n'' k :=
  ⟨h2.1.trans h1.1, h2.2.trans h1.2⟩

theorem Outcome.mono {lift lift' : Prop} (h : Outcome lift env n n' k) (hl : lift → lift') :
    Outcome lift' env n n' k := by
  cases h with
  | stays h => exact .stays h
  | reports ht hi he => exact .reports ht hi he
  | lifted hlift he => exact .lifted (hl hlift) he

/-- A step that leaves the alerts alone may come first. -/
theorem SameAlerts.outcome {lift : Prop} (h1 : n.SameAlerts n' k) (hcfg : n'.cfg = n.cfg)
    (h2 : Outcome lift env n' n'' k) : Outcome lift env n n'' k := by
  cases h2 with
  | stays h => exact .stays (h1.trans h)
  | reports ht hi he =>
    rw [hcfg, h1.1] at hi
    rw [h1.2] at he
    exact .reports ht hi he
  | lifted hl he => exact .lifted hl (he.trans h1.2)

/-- Or last. -/
theorem Outcome.then_same {lift : Prop} (h1 : Outcome lift env n n' k) (h2 : n'.SameAlerts n'' k) :
    Outcome lift env n n'' k := by
  cases h1 with
  | stays h => exact .stays (h.trans h2)
  | reports ht hi he => exact .reports (h2.1.trans ht) hi (h2.2.trans he)
  | lifted hl he => exact .lifted hl (h2.2.trans he)

/-- Within a licence no alert is emitted. -/
theorem within_alerts {l : Licence} (h : Within l n n') (k : Str) : n'.alerts k = n.alerts k := by
  obtain ⟨es, he, hq⟩ := h.events
  unfold alerts
  have hnone : es.countP (fun e => decide (e.Alerts k)) = 0 :=
    List.countP_eq_zero.2 fun e hmem => by simpa using hq e hmem k
  rw [he, List.countP_append, hnone, Nat.add_zero]

theorem within_same {l : Licence} (h : Within l n n') (hk : ¬ l.lifts k) : n.SameAlerts n' k :=
  ⟨(h.throttle k).resolve_right fun hl => hk hl.1, within_alerts h k⟩

theorem within_outcome {l : Licence} (h : Within l n n') (env : Env) (k : Str) :
    Outcome (l.lifts k) env n n' k := by
  rcases h.throttle k with ht | ⟨hl, -⟩
  · exact .stays ⟨ht, within_alerts h k⟩
  · exact .lifted hl (within_alerts h k)

end Outcome

/-! ## The reaper -/

/-- The licence of a round that gives a peer up. -/
def mayLift (k : Str) : Licence := ⟨fun j => j = k, fun _ => False, fun _ => False⟩

/-- The licence of a handler that lifts, counts and readies nothing. -/
def mayNothing : Licence := ⟨fun _ => False, fun _ => False, fun _ => False⟩

/-- The state in which a quiet peer has been reported. -/
def reported (n : Node) (env : Env) (k : Str) (p : Peer) : Node :=
  { n with evasiveEmitAt := n.evasiveEmitAt.set k env.now }.emit (.evasive k (pname p))

theorem reported_alerts (n : Node) (env : Env) (k : Str) (p : Peer) :
    (∀ j, j ≠ k → n.SameAlerts (n.reported env k p) j) ∧
      (n.reported env k p).evasiveEmitAt.get k = some env.now ∧
      (n.reported env k p).alerts k = n.alerts k + 1 := by
  have hcount : ∀ j, (n.reported env k p).alerts j = n.alerts j + if k = j then 1 else 0 := by
    intro j
    show (n.events ++ [Event.evasive k (pname p)]).countP _ = _
    have hiff : decide ((Event.evasive k (pname p)).Alerts j) = true ↔ k = j := decide_eq_true_iff
    rw [List.countP_append, List.countP_singleton, if_congr hiff rfl rfl]
    rfl
  refine ⟨fun j hj => ⟨Dict.get_set_ne n.evasiveEmitAt _ fun h => hj h.symm, ?_⟩,
    Dict.get_set_self n.evasiveEmitAt k env.now, ?_⟩
  · rw [hcount, if_neg fun h => hj h.symm, Nat.add_zero]
  · rw [hcount, if_pos rfl]

/-- One round of the reaper: the others keep their alerts, and the peer is given up, reported, or left alone. -/
theorem reapPeer_outcome (env : Env) {n : Node} (ht : Tables n) {k : Str} {r : Ref}
    (hk : n.peers.get k = some r) :
    Ensures (n.reapPeer env r) fun n' => (∀ j, j ≠ k → n.SameAlerts n' j) ∧
      Outcome (n'.peers.get k = none) env n n' k := by
  have hkey := ht.key k r hk
  have hprobe : ∀ {m : Node}, (∀ j, j ≠ k → n.SameAlerts m j) → Outcome False env n m k →
      Ensures (m.sendCmd env r Cmd.ping none none [] >>= fun m =>
        Except.ok (m.setObj r { m.obj r with evasiveAt := env.now + msec m.cfg.evTimeout }))
        fun n' => (∀ j, j ≠ k → n.SameAlerts n' j) ∧ Outcome (n'.peers.get k = none) env n n' k := by
    intro m hothers hself
    refine (within_sendCmd (l := mayNothing) m r Cmd.ping none none []).bind fun m' hm' => Ensures.ok ?_
    have hw : Within mayNothing m (m'.setObj r { m'.obj r with evasiveAt := env.now + msec m'.cfg.evTimeout }) :=
      hm'.trans (Within.touch m' r rfl rfl)
    exact ⟨fun j hj => (hothers j hj).trans (within_same hw id),
      (hself.mono False.elim).then_same (within_same hw id)⟩
  unfold reapPeer
  simp only []
  split
  · refine ((within_removePeer (l := mayLift k) hkey rfl).and (moves_removePeer env ht hk)).mono fun n' h => ?_
    obtain ⟨hw, -, hpeers⟩ := h
    refine ⟨fun j hj => within_same hw hj, (within_outcome hw env k).mono fun _ => ?_⟩
    rw [hpeers, Dict.get_pop, if_pos rfl]
  · split
    · rw [hkey]
      by_cases hi : n.cfg.evasiveEmitInterval ≤ env.now - (n.evasiveEmitAt.get k).getD 0
      · rw [if_pos hi]
        obtain ⟨hothers, hself, hcount⟩ := reported_alerts n env k (n.obj r)
        exact hprobe (m := n.reported env k (n.obj r)) hothers (.reports hself hi hcount)
      · rw [if_neg hi]
        exact hprobe (fun j _ => SameAlerts.refl n j) (.stays (SameAlerts.refl n k))
    · exact Ensures.ok ⟨fun j _ => SameAlerts.refl n j, .stays (SameAlerts.refl n k)⟩

/-- The loop over the peers has one round for each of them. -/
theorem reapPeers_outcome (env : Env) (k : Str) {n : Node} (ht : Tables n) {refs : List Ref} (hnd : refs.Nodup)
    (hrefs : ∀ r ∈ refs, ∃ j, n.peers.get j = some r) :
    Ensures (refs.foldlM (fun n r => n.reapPeer env r) n) fun n' =>
      Outcome (n'.peers.get k = none) env n n' k ∧
      ((∀ r ∈ refs, n.peers.get k ≠ some r) → n.SameAlerts n' k) ∧
      ∀ s, n'.peers.get k = some s → n.peers.get k = some s := by
  induction refs generalizing n with
  | nil => exact Ensures.ok ⟨.stays (SameAlerts.refl n k), fun _ => SameAlerts.refl n k, fun _ => id⟩
  | cons r refs ih =>
    obtain ⟨j, hj⟩ := hrefs r (by simp)
    rw [List.nodup_cons] at hnd
    rw [List.foldlM_cons]
    refine (((reapPeer_peers env ht hj).and (moves_reapPeer env ht hj)).and (reapPeer_outcome env ht hj)).bind
      fun n1 hn1 => ?_
    obtain ⟨⟨hp, hm, -⟩, hothers, hself⟩ := hn1
    have hsub : ∀ {i s}, n1.peers.get i = some s → n.peers.get i = some s := fun h => ((hp _ _).1 h).1
    have hstill : ∀ s ∈ refs, ∃ i, n1.peers.get i = some s := by
      intro s hs
      obtain ⟨i, hi⟩ := hrefs s (by simp [hs])
      refine ⟨i, (hp i s).2 ⟨hi, ?_⟩⟩
      rintro rfl
      exact absurd hs hnd.1
    refine (ih (hm.invariant Tables.move ht) hnd.2 hstill).mono fun n' h => ?_
    obtain ⟨hout, hsame, hpeers⟩ := h
    have hcfg : n1.cfg = n.cfg := moves_cfg hm
    refine ⟨?_, fun hno => ?_, fun s hs => hsub (hpeers s hs)⟩
    · by_cases hkj : k = j
      · subst hkj
        -- the round of `k` is over
        have hrest : n1.SameAlerts n' k := by
          refine hsame fun s hs hks => hnd.1 ?_
          have hrs := hsub hks
          rw [hj] at hrs
          cases hrs
          exact hs
        refine (hself.then_same hrest).mono fun hgone => ?_
        rw [Option.eq_none_iff_forall_ne_some] at hgone ⊢
        exact fun s hs => hgone s (hpeers s hs)
      · exact (hothers k hkj).outcome hcfg hout
    · have hkj : k ≠ j := by
        rintro rfl
        exact hno r (by simp) hj
      exact (hothers k hkj).trans (hsame fun s hs hks => hno s (by simp [hs]) (hsub hks))

theorem reap_outcome (env : Env) (k : Str) {n : Node} (ht : Tables n) :
    Ensures (n.reap env) fun n' => Outcome (n.peers.get k ≠ none ∧ n'.peers.get k = none) env n n' k := by
  have hm0 := moves_reapPendings env n n.pending.nodup fun e he =>
    (Dict.get_eq_some_iff _).2 (show (e.1, e.2) ∈ _ from he)
  have ht0 : Tables (n.dropDials env) := hm0.invariant Tables.move ht
  have hw0 : Within mayNothing n (n.dropDials env) := within_dropDials n
  refine ((within_maintainElections (l := mayNothing) (n.dropDials env)).and (talk_maintainElections env _)).bind
    fun n2 h2 => ?_
  have ht2 : Tables n2 := Tables.of_same (Same.of_talk h2.2) ht0
  have hp2 : n2.peers = n.peers := h2.2.peers.trans (dropDials_peers env n)
  have hcfg : n2.cfg = n.cfg := h2.2.cfg.trans (moves_cfg hm0)
  have hsame : n.SameAlerts n2 k := within_same (hw0.trans h2.1) id
  refine (reapPeers_outcome env k ht2 ht2.peers_nodup fun r hr => (Dict.mem_values _).1 hr).mono fun n' h => ?_
  obtain ⟨hout, hquiet, -⟩ := h
  by_cases hk : n.peers.get k = none
  · refine .stays (hsame.trans (hquiet fun r _ => ?_))
    rw [hp2, hk]
    simp
  · exact (hsame.outcome hcfg hout).mono fun hgone => ⟨hk, hgone⟩

/-! ## Steps -/

/-- What a frame from `k` must be to lift its throttle: the traffic of an application, or a HELLO with an
endpoint. -/
inductive Rearms (n : Node) : Input → Str → Prop where
  | traffic {frames : List Bytes} {uuid : Bytes} {msg : Msg} {extra : List Bytes} {r : Ref}
      (hc : Carries frames uuid msg extra) (ht : isTraffic msg.cmd = true) (hk : n.peers.get (hex uuid) = some r)
      (hr : (n.obj r).ready = true) : Rearms n (.peerMsg frames) (hex uuid)
  | hello {frames : List Bytes} {uuid : Bytes} {msg : Msg} {extra : List Bytes} {h : HelloFields}
      (hc : Carries frames uuid msg extra) (hf : msg.fields = .hello h) (he : h.endpoint ≠ []) :
      Rearms n (.peerMsg frames) (hex uuid)

/-- The peer `k` is taken out of the table. -/
def Removes (n n' : Node) (k : Str) : Prop := n.peers.get k ≠ none ∧ n'.peers.get k = none

/-- GOODBYE removes its sender. -/
theorem handleTraffic_goodbye (env : Env) {n : Node} (ht : Tables n) {k : Str} {r : Ref}
    (hk : n.peers.get k = some r) {msg : Msg} (hbye : msg.cmd = Cmd.goodbye) (extra : List Bytes) :
    Ensures (n.handleTraffic env k r msg extra) (n.Removes · k) := by
  obtain ⟨hm, hp⟩ := moves_arrive anything anything env n k r msg
  have ht1 : Tables (n.arrive env k r msg) := hm.invariant Tables.move ht
  have hk1 : (n.arrive env k r msg).peers.get k = some r := by rw [hp, hk]
  have hdispatch : n.handleTraffic env k r msg extra = (n.arrive env k r msg).removePeer env r := by
    show (n.arrive env k r msg).dispatch env k r msg extra = _
    unfold dispatch
    simp only []
    rw [if_neg (by rw [hbye]; decide), if_pos hbye]
  rw [hdispatch]
  refine (moves_removePeer env ht1 hk1).mono fun n' h => ⟨by simp [hk], ?_⟩
  rw [h.2, Dict.get_pop, if_pos rfl]

theorem beaconExit_removes (env : Env) {n : Node} {k : Str} (hk : n.peers.get k ≠ none) :
    Ensures (n.beaconExit env k) (n.Removes · k) := by
  obtain ⟨r, hr⟩ := Option.ne_none_iff_exists'.1 hk
  rw [beaconExit_eq env hr]
  refine (restartElections_peers env _ _).mono fun n' h => ⟨hk, ?_⟩
  rw [h]
  show (n.peers.pop k).get k = none
  rw [Dict.get_pop, if_pos rfl]

/-- A departure beacon removes its sender. -/
theorem handleBeacon_departs (env : Env) {n : Node} {data uuid : Bytes} {host : Str} (hh : n.Hears data uuid 0)
    (hown : uuid ≠ n.cfg.peerId) (hk : n.peers.get (hex uuid) ≠ none) :
    Ensures (n.handleBeacon env data host) (n.Removes · (hex uuid)) := by
  intro n' hn'
  obtain ⟨keys, hkeys⟩ := learnBeaconKey_rest n (hex uuid) host (0 : Nat) (n.beaconKey data)
  rw [handleBeacon_heard env hh] at hn'
  unfold acceptBeacon at hn'
  simp only [if_neg hown, if_true, hkeys] at hn'
  exact beaconExit_removes env (n := { n with peerServerKeys := keys }) hk n' hn'

/-- Each step leaves the alerts of a peer, reports it because the interval is over, or lifts its throttle
because of what the peer said or because it was removed. -/
theorem step_outcome (env : Env) (k : Str) {n : Node} (ht : Tables n) (input : Input) :
    Ensures (n.step env input) fun n' =>
      Outcome (n.Rearms input k ∨ n.Removes n' k) env n n' k := by
  intro n' hs
  by_cases hne : input = .reap
  · subst hne
    exact (reap_outcome env k ht n' hs).mono Or.inr
  · let l : Licence := ⟨fun j => n.Rearms input j ∨ n.Removes n' j, fun _ => True, fun _ => True⟩
    refine within_outcome (within_step (l := l) ht hs hne ⟨?_, ?_, ?_⟩) env k
    · rintro frames uuid msg extra h rfl hc hfields
      exact ⟨fun he => Or.inl (.hello hc hfields he), fun _ _ => trivial, fun _ _ => trivial⟩
    · rintro frames uuid msg extra r rfl hc hfields hk hr
      refine ⟨fun hl => ?_, trivial⟩
      rcases hl with htraffic | hbye
      · exact Or.inl (.traffic hc htraffic hk hr)
      · obtain ⟨rid, data, rfl, hu, hd⟩ := hc
        rw [step, handlePeerMsg_traffic env hu hd hfields hk hr] at hs
        exact Or.inr (handleTraffic_goodbye env ht hk hbye extra n' hs)
    · rintro data host uuid port rfl hh rfl hown hk
      rw [step] at hs
      exact Or.inr (handleBeacon_departs env hh hown hk n' hs)

/-! ## Runs -/

/-- One step of a run. -/
structure Moment where
  env : Env
  input : Input
  before : Node
  after : Node

/-- A run of a node, from any state that it can reach, with a clock that does not go back. -/
structure Clocked (l : List Moment) : Prop where
  start : ∀ m ∈ l.head?, m.before.Reachable
  step : ∀ m ∈ l, m.before.step m.env m.input = .ok m.after
  chain : l.IsChain fun a b => b.before = a.after ∧ a.env.now ≤ b.env.now

/-- The moment emits an EVASIVE event about `k`. -/
def Moment.Alerts (m : Moment) (k : Str) : Prop := m.before.alerts k < m.after.alerts k

/-- The moment as one of the throttle of `k`. -/
def Moment.throttle (m : Moment) (k : Str) : Throttle.Moment Int :=
  ⟨m.env.now, m.before.evasiveEmitAt.get k, m.after.evasiveEmitAt.get k⟩

theorem Clocked.tail {m : Moment} {l : List Moment} (h : Clocked (m :: l)) : Clocked l := by
  have hm : m.before.step m.env m.input = .ok m.after := h.step m (by simp)
  have hreach : m.after.Reachable := .step m.env m.input (h.start m (by simp)) hm
  refine ⟨fun x hx => ?_, fun x hx => h.step x (by simp [hx]), h.chain.tail⟩
  cases l with
  | nil => cases hx
  | cons y l =>
    cases hx
    rw [(List.isChain_cons_cons.1 h.chain).1.1]
    exact hreach

theorem Clocked.suffix {pre l : List Moment} (h : Clocked (pre ++ l)) : Clocked l := by
  induction pre with
  | nil => exact h
  | cons m pre ih => exact ih h.tail

/-- Every state of a run can be reached, and all of them have one configuration. -/
theorem Clocked.reachable {l : List Moment} (h : Clocked l) : ∀ m ∈ l, m.before.Reachable := by
  induction l with
  | nil => simp
  | cons x l ih =>
    intro m hm
    rcases List.mem_cons.1 hm with rfl | hm
    · exact h.start m (by simp)
    · exact ih h.tail m hm

theorem Clocked.cfg {x : Moment} {l : List Moment} (h : Clocked (x :: l)) :
    ∀ m ∈ x :: l, m.before.cfg = x.before.cfg := by
  induction l generalizing x with
  | nil => simp
  | cons y l ih =>
    have hx : y.before.cfg = x.before.cfg := by
      rw [(List.isChain_cons_cons.1 h.chain).1.1]
      exact (lines_step x.env (h.start x (by simp)).tables x.input _ (h.step x (by simp))).cfg
    intro m hm
    rcases List.mem_cons.1 hm with rfl | hm
    · rfl
    · exact (ih h.tail m hm).trans hx

theorem Clocked.outcome {l : List Moment} (h : Clocked l) {m : Moment} (hm : m ∈ l) (k : Str) :
    Outcome (m.before.Rearms m.input k ∨ m.before.Removes m.after k) m.env m.before m.after k :=
  step_outcome m.env k (h.reachable m hm).tables m.input _ (h.step m hm)

/-- A moment emits one event about a peer at most, and only when the interval is over. -/
theorem Clocked.reports {l : List Moment} (h : Clocked l) {m : Moment} (hm : m ∈ l) {k : Str} (ha : m.Alerts k) :
    (m.throttle k).Reports m.before.cfg.evasiveEmitInterval ∧ m.after.alerts k = m.before.alerts k + 1 := by
  unfold Moment.Alerts at ha
  cases h.outcome hm k with
  | stays hs =>
    rw [hs.2] at ha
    exact absurd ha (lt_irrefl _)
  | reports ht hi he => exact ⟨⟨ht, hi⟩, he⟩
  | lifted hl he =>
    rw [he] at ha
    exact absurd ha (lt_irrefl _)

/-- In every run, two EVASIVE events about a peer that are less than one interval apart are emitted at different
moments, and between them the peer sent application traffic or a HELLO with an endpoint, or was removed. -/
theorem Clocked.alerts_apart {pre mid post : List Moment} {a b : Moment} {k : Str}
    (h : Clocked (pre ++ (a :: mid ++ b :: post))) (ha : a.Alerts k) (hb : b.Alerts k)
    (hlt : b.env.now - a.env.now < a.before.cfg.evasiveEmitInterval) :
    a.after.alerts k = a.before.alerts k + 1 ∧ b.after.alerts k = b.before.alerts k + 1 ∧
      ∃ m ∈ mid, m.before.Rearms m.input k ∨ m.before.Removes m.after k := by
  have h1 : Clocked (a :: (mid ++ b :: post)) := h.suffix
  have hmem : ∀ m ∈ mid, m ∈ a :: (mid ++ b :: post) := fun m hm => by simp [hm]
  have hbin : b ∈ a :: (mid ++ b :: post) := by simp
  obtain ⟨hra, hca⟩ := h1.reports (by simp) ha
  obtain ⟨hrb, hcb⟩ := h1.reports hbin hb
  rw [h1.cfg b hbin] at hrb
  refine ⟨hca, hcb, ?_⟩
  have hchain : (a.throttle k :: mid.map (Moment.throttle · k) ++ [b.throttle k]).IsChain Throttle.Follows := by
    have hfull : (a :: mid ++ [b] ++ post).IsChain fun x y => y.before = x.after ∧ x.env.now ≤ y.env.now := by
      simpa using h1.chain
    have hmap : ((a :: mid ++ [b]).map (Moment.throttle · k)).IsChain Throttle.Follows := by
      refine (List.isChain_map _).2 ((hfull.left_of_append).imp fun x y hxy => ?_)
      exact ⟨congrArg (fun n : Node => n.evasiveEmitAt.get k) hxy.1, hxy.2⟩
    simpa using hmap
  obtain ⟨t, ht, hnostay, hnorep⟩ := Throttle.lifted_between hchain hra hrb hlt
  obtain ⟨m, hm, rfl⟩ := List.mem_map.1 ht
  refine ⟨m, hm, ?_⟩
  have hout := h1.outcome (hmem m hm) k
  cases hout with
  | stays hs => exact absurd hs.1 hnostay
  | reports ht hi he =>
    rw [h1.cfg m (hmem m hm)] at hi
    exact absurd ⟨ht, hi⟩ hnorep
  | lifted hl he => exact hl

/-! ## A peer that is reported twice -/

/-- The peer is met 100 seconds after the clock was started. -/
def sampleLate : Node :=
  sampleA.after (Env.calm 100000000000) (.beacon (sampleBeaconData 4002) "10.0.0.2".toList)

/-- It is quiet for 6 seconds. -/
def sampleQuiet : Moment :=
  let env := Env.calm 106000000000
  ⟨env, .reap, sampleLate, sampleLate.after env .reap⟩

/-- Its HELLO comes. -/
def sampleSpeaks : Moment :=
  let env := Env.calm 107000000000
  ⟨env, .peerMsg sampleHello, sampleQuiet.after, sampleQuiet.after.after env (.peerMsg sampleHello)⟩

/-- It is quiet again, 7 seconds after the first report. -/
def sampleQuietAgain : Moment :=
  let env := Env.calm 113000000000
  ⟨env, .reap, sampleSpeaks.after, sampleSpeaks.after.after env .reap⟩

theorem sample_clocked : Clocked [sampleQuiet, sampleSpeaks, sampleQuietAgain] := by
  refine ⟨fun m hm => ?_, ?_, ?_⟩
  · have hlate : sampleLate.Reachable := Reachable.after (.init _) _ _
    cases hm
    exact hlate
  · simp only [List.mem_cons, List.not_mem_nil, or_false, forall_eq_or_imp, forall_eq]
    exact ⟨step_after _ (by decide +kernel), step_after _ (by decide +kernel), step_after _ (by decide +kernel)⟩
  · simp only [List.isChain_cons_cons, List.isChain_singleton, and_true]
    exact ⟨⟨rfl, by decide⟩, rfl, by decide⟩

/-- The HELLO between the two reports is what the theorem finds. -/
theorem alerts_apart_sample : ∃ m ∈ [sampleSpeaks],
    m.before.Rearms m.input (hex sampleUuid) ∨ m.before.Removes m.after (hex sampleUuid) := by
  have hfirst : sampleQuiet.Alerts (hex sampleUuid) := by
    unfold Moment.Alerts
    decide +kernel
  have hsecond : sampleQuietAgain.Alerts (hex sampleUuid) := by
    unfold Moment.Alerts
    decide +kernel
  have hrun : Clocked ([] ++ (sampleQuiet :: [sampleSpeaks] ++ sampleQuietAgain :: [])) := sample_clocked
  exact (hrun.alerts_apart hfirst hsecond (by decide +kernel)).2.2

end Node

end Zre
