import Zre.Proofs.HandlerLines
import Zre.Proofs.Record

/-!
# Proofs: what a handler may do to counters, throttles and readiness

A `Licence` says whose EVASIVE throttle may be lifted, which objects may be counted anew and which may become
ready; `Within` says that a step did no more. Only the reaper sets a throttle and reports that a peer is quiet.
-/

namespace Zre

open Fallible

/-- An EVASIVE event about `k`. -/
def Event.Alerts (k : Str) : Event → Prop
  | .evasive peerId _ => peerId = k
  | _ => False

instance (k : Str) : DecidablePred (Event.Alerts k)
  | .evasive peerId _ => inferInstanceAs (Decidable (peerId = k))
  | .enter _ _ _ | .exit _ _ | .join _ _ _ | .leave _ _ _ | .whisper _ _ _ | .shout _ _ _ _ | .leader _ _ _
  | .collision _ => .isFalse id

/-- What a step is allowed to do. -/
structure Licence where
  /-- The throttle of this peer may be lifted. -/
  lifts : Str → Prop
  /-- The frames of this object may be counted anew. -/
  counts : Ref → Prop
  /-- This object may become ready. -/
  readies : Ref → Prop

/-- From `n` to `n'` no object was counted or became ready that `l` does not allow. New objects are neither. -/
structure Counted (l : Licence) (n n' : Node) : Prop where
  next : n.nextRef ≤ n'.nextRef
  wantSeq : ∀ r, ¬ l.counts r →
    (n'.obj r).wantSeq = (n.obj r).wantSeq ∨ n.nextRef ≤ r ∧ (n'.obj r).wantSeq = 0
  ready : ∀ r, ¬ l.readies r → (n'.obj r).ready = true → (n.obj r).ready = true

/-- From `n` to `n'` nothing was done that `l` does not allow, and no EVASIVE event was emitted. Whoever leaves the
table leaves no throttle behind. -/
structure Within (l : Licence) (n n' : Node) : Prop extends Counted l n n' where
  throttle : ∀ k, n'.evasiveEmitAt.get k = n.evasiveEmitAt.get k ∨ l.lifts k ∧ n'.evasiveEmitAt.get k = none
  known : ∀ k, n.peers.get k ≠ none → n'.peers.get k ≠ none ∨ n'.evasiveEmitAt.get k = none
  events : ∃ es, n'.events = n.events ++ es ∧ ∀ e ∈ es, ∀ k, ¬ e.Alerts k

namespace Counted

variable {l : Licence} {n n' n'' : Node}

theorem quiet (hobj : n'.obj = n.obj) (hn : n'.nextRef = n.nextRef) : Counted l n n' := by
  refine ⟨hn.ge, fun r _ => Or.inl (by rw [hobj]), fun r _ hr => ?_⟩
  rwa [hobj] at hr

theorem refl (l : Licence) (n : Node) : Counted l n n := quiet rfl rfl

theorem trans (h1 : Counted l n n') (h2 : Counted l n' n'') : Counted l n n'' := by
  refine ⟨h1.next.trans h2.next, fun r hr => ?_, fun r hr hready => h1.ready r hr (h2.ready r hr hready)⟩
  rcases h2.wantSeq r hr with h | ⟨hnew, h⟩
  · rw [h]
    exact h1.wantSeq r hr
  · exact Or.inr ⟨h1.next.trans hnew, h⟩

theorem setObj (n : Node) (r : Ref) {p : Peer} (hs : p.wantSeq = (n.obj r).wantSeq ∨ l.counts r)
    (hr : p.ready = true → (n.obj r).ready = true ∨ l.readies r) : Counted l n (n.setObj r p) := by
  refine ⟨le_rfl, fun s hc => ?_, fun s hl => ?_⟩
  · rw [Node.setObj_obj]
    split
    · rename_i he
      subst he
      exact Or.inl (hs.resolve_right hc)
    · exact Or.inl rfl
  · rw [Node.setObj_obj]
    split
    · rename_i he
      subst he
      exact fun h => (hr h).resolve_right hl
    · exact id

end Counted

namespace Within

variable {l : Licence} {n n' n'' : Node}

/-- Nothing was written that a licence speaks about. -/
theorem quiet (hobj : n'.obj = n.obj) (hp : n'.peers = n.peers) (ht : n'.evasiveEmitAt = n.evasiveEmitAt)
    (he : n'.events = n.events) (hn : n'.nextRef = n.nextRef) : Within l n n' :=
  ⟨Counted.quiet hobj hn, fun k => Or.inl (by rw [ht]), fun k hk => Or.inl (by rwa [hp]), ⟨[], by simp [he]⟩⟩

theorem refl (l : Licence) (n : Node) : Within l n n := quiet rfl rfl rfl rfl rfl

theorem trans (h1 : Within l n n') (h2 : Within l n' n'') : Within l n n'' := by
  obtain ⟨es1, he1, hq1⟩ := h1.events
  obtain ⟨es2, he2, hq2⟩ := h2.events
  refine ⟨h1.toCounted.trans h2.toCounted, fun k => ?_, fun k hk => ?_,
    ⟨es1 ++ es2, by rw [he2, he1, List.append_assoc], ?_⟩⟩
  · rcases h2.throttle k with h | h
    · rw [h]
      exact h1.throttle k
    · exact Or.inr h
  · rcases h1.known k hk with h | h
    · exact h2.known k h
    · exact Or.inr ((h2.throttle k).elim (fun hs => hs.trans h) And.right)
  · intro e he
    exact (List.mem_append.1 he).elim (hq1 e) (hq2 e)

/-- Sending and electing need no licence. -/
theorem of_talk {L : Prop} {K : Handed → Prop} (h : Talk L K n n') : Within l n n' := by
  obtain ⟨es, hes, hlead⟩ := h.events
  refine ⟨⟨h.nextRef.ge, fun r _ => Or.inl ?_, fun r _ hr => ?_⟩, fun k => Or.inl (by rw [h.rest]),
    fun k hk => Or.inl (by rwa [h.peers]), ⟨es, hes, fun e he k hal => ?_⟩⟩
  · obtain ⟨s, hs | ⟨-, hs⟩⟩ := h.obj r
    · rw [hs]
    · rw [hs]
      rfl
  · obtain ⟨s, hs⟩ := (h.obj r).of_ready hr
    rw [hs] at hr
    exact hr
  · have hl := hlead e he
    cases e
    all_goals simp_all [Event.Alerts, Event.IsLeader]

theorem emit (n : Node) {e : Event} (h : ∀ k, ¬ e.Alerts k) : Within l n (n.emit e) :=
  ⟨Counted.quiet rfl rfl, fun _ => Or.inl rfl, fun _ => Or.inl, ⟨[e], rfl, by simpa using h⟩⟩

theorem setObj (n : Node) (r : Ref) {p : Peer} (hs : p.wantSeq = (n.obj r).wantSeq ∨ l.counts r)
    (hr : p.ready = true → (n.obj r).ready = true ∨ l.readies r) : Within l n (n.setObj r p) :=
  ⟨Counted.setObj n r hs hr, fun _ => Or.inl rfl, fun _ => Or.inl, ⟨[], by simp [Node.setObj]⟩⟩

/-- A write that touches neither the counter nor the readiness. -/
theorem touch (n : Node) (r : Ref) {p : Peer} (hs : p.wantSeq = (n.obj r).wantSeq)
    (hr : p.ready = (n.obj r).ready) : Within l n (n.setObj r p) :=
  setObj n r (Or.inl hs) fun h => Or.inl (hr ▸ h)

/-- The throttle of one peer is lifted. -/
theorem lift (n : Node) {k : Str} (h : l.lifts k) :
    Within l n { n with evasiveEmitAt := n.evasiveEmitAt.pop k } := by
  refine ⟨Counted.quiet rfl rfl, fun j => ?_, fun _ => Or.inl, ⟨[], by simp⟩⟩
  show (n.evasiveEmitAt.pop k).get j = _ ∨ _ ∧ (n.evasiveEmitAt.pop k).get j = none
  rw [Dict.get_pop]
  split
  · rename_i hkj
    exact Or.inr ⟨hkj ▸ h, rfl⟩
  · exact Or.inl rfl

/-- A new object that is neither counted nor ready, filed or not. -/
theorem allocated (n : Node) {p : Peer} (hs : p.wantSeq = 0) (hr : p.ready = false) {peers pending : Dict Str Ref}
    (hp : ∀ k, n.peers.get k ≠ none → peers.get k ≠ none) :
    Within l n { n.allocated p with peers := peers, pending := pending } := by
  refine ⟨⟨Nat.le_succ _, fun r _ => ?_, fun r _ hready => ?_⟩, fun _ => Or.inl rfl,
    fun k hk => Or.inl (hp k hk), ⟨[], by simp [Node.allocated, Node.alloc, Node.setObj]⟩⟩
  · show ((n.allocated p).obj r).wantSeq = _ ∨ _ ∧ ((n.allocated p).obj r).wantSeq = 0
    rw [Node.allocated_obj]
    split
    · rename_i he
      exact Or.inr ⟨he.ge, hs⟩
    · exact Or.inl rfl
  · change ((n.allocated p).obj r).ready = true at hready
    rw [Node.allocated_obj] at hready
    split at hready
    · rw [hr] at hready
      cases hready
    · exact hready

end Within

/-- Writing an entry keeps the others. -/
theorem Dict.get_set_ne_none {α β : Type} [DecidableEq α] (d : Dict α β) (k j : α) (v : β)
    (h : d.get j ≠ none) : (d.set k v).get j ≠ none := by
  rw [Dict.get_set]
  split
  · simp
  · exact h

namespace Node

variable {env : Env} {l : Licence}

theorem within_emits (n : Node) (e : Bytes → Event) (gs : List Bytes) (h : ∀ g k, ¬ (e g).Alerts k) :
    Within l n (gs.foldl (fun n g => n.emit (e g)) n) := by
  rw [emits_rest]
  refine ⟨Counted.quiet rfl rfl, fun _ => Or.inl rfl, fun _ => Or.inl, ⟨gs.map e, rfl, ?_⟩⟩
  intro x hx
  obtain ⟨g, -, rfl⟩ := List.mem_map.1 hx
  exact h g

theorem within_learnKey (n : Node) (k : Str) (value : Bytes) : Within l n (n.learnKey k value) := by
  unfold learnKey
  split
  · exact Within.quiet rfl rfl rfl rfl rfl
  · exact Within.refl l n

theorem within_refreshPeer (n : Node) (r : Ref) : Within l n (n.refreshPeer env r) := Within.touch n r rfl rfl

/-! ## Dialling -/

theorem within_openPeer {n n' : Node} {uuidHex addr : Str} {port : Int} {rhex : Option Str} {res : Option Ref}
    (h : n.openPeer env uuidHex addr port rhex = (res, n')) : Within l n n' := by
  rcases openPeer_exact env n uuidHex addr port rhex with h' | h' | ⟨-, h'⟩ <;> rw [h] at h' <;> cases h'
  · exact Within.refl l n
  · exact Within.allocated n rfl rfl fun _ => id
  · exact Within.allocated n rfl rfl fun _ => id

theorem within_dialPeer {n n' : Node} {rhex addr : Str} {port : Int} {res : Option Ref}
    (h : n.dialPeer env rhex addr port = (res, n')) : Within l n n' := by
  unfold dialPeer at h
  cases hopen : n.openPeer env rhex addr port (some rhex) with
  | mk o m =>
    rw [hopen] at h
    cases o with
    | none =>
      cases h
      exact within_openPeer hopen
    | some r =>
      cases h
      obtain ⟨rfl, curve, rfl⟩ := openPeer_some hopen
      exact Within.allocated n rfl rfl fun k => Dict.get_set_ne_none _ _ _ _

/-- A dialled peer is in the table. -/
theorem dialPeer_peers {n n' : Node} {rhex addr : Str} {port : Int} {r : Ref}
    (h : n.dialPeer env rhex addr port = (some r, n')) : n'.peers.get rhex = some r := by
  unfold dialPeer at h
  split at h <;> cases h
  exact Dict.get_set_self _ rhex _

theorem within_adoptUnder (n : Node) (k : Str) (r : Ref) (rhex : Str) : Within l n (n.adoptUnder env k r rhex) := by
  have h0 : Within l n (n.setObj r
      ({ n.obj r with uuidHex := rhex }.refresh env.now n.cfg.evTimeout n.cfg.exTimeout)) := Within.touch n r rfl rfl
  exact ⟨h0.toCounted.trans (Counted.quiet rfl rfl), h0.throttle,
    fun j hj => Or.inl (Dict.get_set_ne_none _ _ _ _ hj), h0.events⟩

theorem within_adoptPending {n n' : Node} {rhex addr : Str} {port : Int} {res : Option Ref}
    (h : n.adoptPending env addr port rhex = (res, n')) : Within l n n' := by
  cases res with
  | none =>
    obtain ⟨rfl, -⟩ := adoptPending_none h
    exact Within.refl l n'
  | some r =>
    obtain ⟨k, rfl, -⟩ := adoptPending_some h
    exact within_adoptUnder n k r rhex

theorem within_sendHello (n : Node) (r : Ref) : Ensures (n.sendHello env r) (Within l n) :=
  (talk_sendHello env n r).mono fun _ => Within.of_talk

theorem within_sendCmd (n : Node) (r : Ref) (cmd : UInt8) (group : Option Bytes) (status : Option Nat)
    (more : List Bytes) : Ensures (n.sendCmd env r cmd group status more) (Within l n) :=
  (talk_sendCmd env n r cmd group status more).mono fun _ => Within.of_talk

theorem within_meetPeer (n : Node) (rhex addr : Str) (port : Int) :
    Ensures (n.meetPeer env rhex addr port) (Within l n) := by
  unfold meetPeer
  cases ha : n.adoptPending env addr port rhex with
  | mk o n1 =>
    have h1 : Within l n n1 := within_adoptPending ha
    cases o with
    | some r => exact (within_sendHello n1 r).mono fun _ => h1.trans
    | none =>
      simp only []
      cases hd : n1.dialPeer env rhex addr port with
      | mk o n2 =>
        have h2 : Within l n n2 := h1.trans (within_dialPeer hd)
        cases o with
        | some r => exact (within_sendHello n2 r).mono fun _ => h2.trans
        | none => exact Ensures.ok h2

theorem within_doConnect (n : Node) (host : Str) (port : Int) :
    Ensures (n.doConnect env host port) (Within l n) := by
  unfold doConnect
  split
  · exact Ensures.ok (Within.refl l n)
  · split
    · exact Ensures.ok (Within.refl l n)
    · simp only []
      split
      · exact Ensures.ok (Within.refl l n)
      · cases hopen : n.openPeer env (pendingKey host port) host port none with
        | mk o m =>
          cases o with
          | none => exact Ensures.ok (within_openPeer hopen)
          | some r =>
            obtain ⟨rfl, curve, rfl⟩ := openPeer_some hopen
            exact (within_sendHello _ _).mono fun _ => (Within.allocated n rfl rfl fun _ => id).trans

/-! ## HELLO -/

theorem within_enterGroup (n : Node) (r : Ref) (g : Bytes) : Within l n (n.enterGroup r g) := by
  have h0 : Within l n ((n.openGroup g).joinTable g r) := by
    unfold joinTable setGroup
    rw [openGroup_rest]
    exact Within.quiet rfl rfl rfl rfl rfl
  exact h0.trans (Within.touch _ r rfl rfl)

theorem within_entered (n : Node) (rhex : Str) (r : Ref) (h : HelloFields) (epStr : Str) :
    Ensures (n.entered env rhex r h epStr) (Within l n) := by
  have hgroups : ∀ (gs : List Bytes) (m : Node), Within l m (gs.foldl (fun n g => n.enterGroup r g) m) := by
    intro gs
    induction gs with
    | nil => exact Within.refl l
    | cons g gs ih => exact fun m => (within_enterGroup m r g).trans (ih _)
  refine (talk_startElections env _ h.groups).mono fun _ ht => ?_
  refine (((hgroups h.groups n).trans (Within.emit _ fun _ => ?_)).trans
    (within_emits _ _ h.groups fun _ _ => ?_)).trans (Within.of_talk ht)
  · exact id
  · exact id

/-- Becoming ready is all that the end of `_handle_hello` needs a licence for. -/
theorem within_enterPeer (n : Node) (rhex : Str) {r : Ref} (hr : l.readies r) (h : HelloFields) (epStr : Str)
    (helloReply : Bool) : Ensures (n.enterPeer env rhex r h epStr helloReply) (Within l n) := by
  have h1 : Within l n (n.setObj r (hailed (n.obj r) h epStr)) :=
    Within.setObj n r (Or.inl rfl) fun _ => Or.inr hr
  rw [enterPeer_eq]
  refine (talk_replyHello env _ r helloReply).bind fun m hm => ?_
  exact (within_entered m rhex r h epStr).mono fun _ => (h1.trans (Within.of_talk hm)).trans

theorem within_helloFromNew (n : Node) (rhex : Str) (h : HelloFields) :
    Ensures (n.helloFromNew env rhex h) fun n' =>
      (∀ r, n'.peers.get rhex = some r → l.readies r) → Within l n n' := by
  obtain ⟨keys, hkeys⟩ := learnHelloKeys_rest n rhex h
  have h0 : Within l n { n with peerServerKeys := keys } := Within.quiet rfl rfl rfl rfl rfl
  -- whoever is entered is under the id at the end
  have henter : ∀ {m : Node} {r : Ref} {b : Bool}, Within l n m → m.peers.get rhex = some r →
      Ensures (m.enterPeer env rhex r h (endpointText h.endpoint) b) fun n' =>
        (∀ r, n'.peers.get rhex = some r → l.readies r) → Within l n n' := by
    intro m r b hm hr n' hn' hready
    have hpeers := (enterPeer_record env m rhex r h _ b n' hn').1
    exact hm.trans (within_enterPeer m rhex (hready r (by rw [hpeers, hr])) h _ b n' hn')
  unfold helloFromNew
  simp only [hkeys]
  split
  · exact Ensures.ok fun _ => h0
  · rename_i addr port hsplit
    cases ha : { n with peerServerKeys := keys }.adoptPending env (dialHost addr) port rhex with
    | mk o n1 =>
      have h1 : Within l n n1 := h0.trans (within_adoptPending ha)
      cases o with
      | some r =>
        obtain ⟨k, rfl, -⟩ := adoptPending_some ha
        exact henter h1 (adoptUnder_peers env _ k r rhex)
      | none =>
        simp only []
        cases hd : n1.dialPeer env rhex (dialHost addr) port with
        | mk o n2 =>
          have h2 : Within l n n2 := h1.trans (within_dialPeer hd)
          cases o with
          | some r => exact henter h2 (dialPeer_peers hd)
          | none => exact Ensures.ok fun _ => h2

theorem within_handleHello (n : Node) (rhex : Str) (h : HelloFields) (hl : h.endpoint ≠ [] → l.lifts rhex) :
    Ensures (n.handleHello env rhex h (n.peers.get rhex)) fun n' =>
      (∀ r, n'.peers.get rhex = some r → l.readies r) → Within l n n' := by
  unfold handleHello
  split
  · exact Ensures.ok fun _ => Within.refl l n
  · split
    · split
      · exact Ensures.ok fun _ => Within.refl l n
      · exact Ensures.error
    · split
      · exact Ensures.ok fun _ => Within.refl l n
      · rename_i hne
        have h0 : Within l n { n with evasiveEmitAt := n.evasiveEmitAt.pop rhex } := Within.lift n (hl hne)
        simp only []
        split
        · refine Ensures.ok fun _ => (h0.trans (within_refreshPeer _ _)).trans (Within.touch _ _ rfl rfl)
        · split
          · refine (within_helloFromNew _ rhex h).mono fun _ h1 hready => h0.trans (h1 hready)
          · rename_i r hk
            intro n' hn' hready
            have hpeers := (enterPeer_record env _ rhex r h _ false n' hn').1
            have hr : l.readies r := hready r (by rw [hpeers]; exact hk)
            exact h0.trans (within_enterPeer _ rhex hr h _ false n' hn')

/-! ## Departures -/

theorem within_forgotten (n : Node) {k : Str} (r : Ref) (gone : List Bytes) (hl : l.lifts k) :
    Within l n (n.forgotten k r gone) := by
  have h1 : Within l n (n.setObj r (n.obj r).disconnect) :=
    Within.setObj n r (Or.inl rfl) fun h => nomatch h
  refine ⟨h1.toCounted.trans (Counted.quiet rfl rfl), (Within.lift n hl).throttle, fun j hj => ?_,
    ⟨[.exit k (pname (n.obj r))], rfl, ?_⟩⟩
  · show (n.peers.pop k).get j ≠ none ∨ (n.evasiveEmitAt.pop k).get j = none
    rw [Dict.get_pop, Dict.get_pop]
    by_cases hkj : k = j
    · exact Or.inr (if_pos hkj)
    · exact Or.inl (by rwa [if_neg hkj])
  · intro e he j
    rw [List.mem_singleton.1 he]
    exact id

theorem within_restartElections (n : Node) (gs : List Bytes) : Ensures (n.restartElections env gs) (Within l n) :=
  Ensures.foldlM_rel (Within.refl l) (fun _ _ _ => Within.trans) fun m g _ =>
    (talk_restartElectionIfNeeded env m g).mono fun _ => Within.of_talk

theorem within_removePeer {n : Node} {k : Str} {r : Ref} (hkey : (n.obj r).uuidHex = k) (hl : l.lifts k) :
    Ensures (n.removePeer env r) (Within l n) := by
  rw [removePeer_eq env hkey]
  exact (within_restartElections _ _).mono fun _ => (within_forgotten n r _ hl).trans

theorem within_beaconExit (n : Node) {k : Str} (hl : n.peers.get k ≠ none → l.lifts k) :
    Ensures (n.beaconExit env k) (Within l n) := by
  cases hk : n.peers.get k with
  | none =>
    unfold beaconExit
    rw [hk]
    exact Ensures.ok (Within.refl l n)
  | some r =>
    rw [beaconExit_eq env hk]
    exact (within_restartElections _ _).mono fun _ => (within_forgotten n r _ (hl (by simp [hk]))).trans

/-! ## Inbound messages -/

theorem within_handleJoin (n : Node) (rhex : Str) (r : Ref) (g : Bytes) :
    Ensures (n.handleJoin env rhex r g) (Within l n) := by
  unfold handleJoin
  split
  · exact Ensures.ok (Within.refl l n)
  · have h1 : Within l n (n.setObj r { n.obj r with groups := addGroup (n.obj r).groups g }) :=
      Within.touch n r rfl rfl
    have h2 := h1.trans (Within.of_talk (talk_requireGroup env.Lossless (fun _ => True) _ g))
    refine (talk_startElection env _ g).mono fun _ h => (h2.trans ?_).trans (Within.of_talk h)
    refine Within.trans ?_ (Within.emit _ fun _ => id)
    exact Within.quiet rfl rfl rfl rfl rfl

theorem within_handleLeave (n : Node) (rhex : Str) (r : Ref) (g : Bytes) :
    Ensures (n.handleLeave env rhex r g) (Within l n) := by
  unfold handleLeave
  split
  · exact Ensures.ok (Within.refl l n)
  · have h1 : Within l n (n.setObj r { n.obj r with groups := discardGroup (n.obj r).groups g }) :=
      Within.touch n r rfl rfl
    refine (talk_restartElectionIfNeeded env _ g).mono fun _ h => (h1.trans ?_).trans (Within.of_talk h)
    refine Within.trans ?_ (Within.emit _ fun _ => id)
    rw [leaveTable_rest]
    exact Within.quiet rfl rfl rfl rfl rfl

theorem within_dispatch {n : Node} {rhex : Str} {r : Ref} (hkey : (n.obj r).uuidHex = rhex) (msg : Msg)
    (extra : List Bytes) (hl : msg.cmd = Cmd.goodbye → l.lifts rhex) :
    Ensures (n.dispatch env rhex r msg extra) (Within l n) := by
  unfold dispatch
  simp only []
  split
  · exact Ensures.ok (Within.emit n fun _ => id)
  · split
    · rename_i hbye
      exact within_removePeer hkey (hl hbye)
    · split
      · exact within_sendCmd n r Cmd.pingOk none none []
      · split
        · exact Ensures.ok (within_refreshPeer n r)
        · split
          · split
            · exact Ensures.ok (Within.emit n fun _ => id)
            · exact Ensures.ok (Within.refl l n)
          · split
            · exact within_handleJoin n rhex r _
            · split
              · exact within_handleLeave n rhex r _
              · exact Ensures.ok (Within.refl l n)
          · split
            · exact (talk_handleElect env n r _ _).mono fun _ => Within.of_talk
            · split
              · exact (talk_handleLeader env n _ _).mono fun _ => Within.of_talk
              · exact Ensures.ok (Within.refl l n)
          · exact Ensures.ok (Within.refl l n)

theorem within_checkSeq (n : Node) {r : Ref} (hc : l.counts r) (cmd : UInt8) (seq : Nat) :
    Within l n (n.checkSeq r cmd seq) := by
  have h1 : Within l n (n.setObj r ((n.obj r).countSeq cmd)) := Within.setObj n r (Or.inr hc) Or.inl
  unfold checkSeq
  simp only []
  split
  · exact h1.trans (Within.setObj _ r (Or.inr hc) Or.inl)
  · exact h1

/-- Before the command is looked at. -/
theorem within_arrive (n : Node) {rhex : Str} {r : Ref} (msg : Msg) (hl : isTraffic msg.cmd = true → l.lifts rhex)
    (hc : l.counts r) : Within l n (n.arrive env rhex r msg) := by
  have h0 : Within l n (if isTraffic msg.cmd then { n with evasiveEmitAt := n.evasiveEmitAt.pop rhex } else n) := by
    split
    · rename_i ht
      exact Within.lift n (hl ht)
    · exact Within.refl l n
  exact (h0.trans (within_checkSeq _ hc msg.cmd msg.seq)).trans (within_refreshPeer _ r)

theorem arrive_uuidHex (n : Node) (rhex : Str) (r : Ref) (msg : Msg) (s : Ref) :
    ((n.arrive env rhex r msg).obj s).uuidHex = (n.obj s).uuidHex :=
  arrive_congr Peer.uuidHex (fun _ _ => rfl) (fun _ _ _ _ => rfl) env n rhex r msg s

theorem within_handleTraffic {n : Node} {rhex : Str} {r : Ref} (hkey : (n.obj r).uuidHex = rhex) (msg : Msg)
    (extra : List Bytes) (hl : isTraffic msg.cmd = true ∨ msg.cmd = Cmd.goodbye → l.lifts rhex)
    (hc : l.counts r) :
    Ensures (n.handleTraffic env rhex r msg extra) (Within l n) := by
  have h1 : Within l n (n.arrive env rhex r msg) := within_arrive n msg (fun h => hl (Or.inl h)) hc
  have hkey1 : ((n.arrive env rhex r msg).obj r).uuidHex = rhex := by
    rw [arrive_uuidHex, hkey]
  exact (within_dispatch hkey1 msg extra fun h => hl (Or.inr h)).mono fun _ => h1.trans

theorem within_resetSeq (n : Node) {rhex : Str} (hc : ∀ r, n.peers.get rhex = some r → l.counts r) :
    Within l n (n.resetSeq rhex) := by
  unfold resetSeq
  cases hk : n.peers.get rhex with
  | none => exact Within.refl l n
  | some r => exact Within.setObj n r (Or.inr (hc r hk)) Or.inl

/-! ## Beacons and gossip -/

theorem within_learnBeaconKey (n : Node) (rhex host : Str) (port : Int) (key : Option Bytes) :
    Within l n (n.learnBeaconKey rhex host port key) := by
  unfold learnBeaconKey
  cases key with
  | none => exact Within.refl l n
  | some key => exact Within.quiet rfl rfl rfl rfl rfl

theorem within_acceptBeacon (n : Node) (uuid : Bytes) (port : Nat) (key : Option Bytes) (host : Str)
    (hl : port = 0 → uuid ≠ n.cfg.peerId → n.peers.get (hex uuid) ≠ none → l.lifts (hex uuid)) :
    Ensures (n.acceptBeacon env uuid port key host) (Within l n) := by
  unfold acceptBeacon
  split
  · split
    · exact Ensures.error
    · exact Ensures.ok (Within.refl l n)
  · rename_i hown
    have h0 : Within l n (n.learnBeaconKey (hex uuid) host port key) := within_learnBeaconKey n _ _ _ _
    have hpeers : (n.learnBeaconKey (hex uuid) host port key).peers = n.peers := by
      obtain ⟨keys, hkeys⟩ := learnBeaconKey_rest n (hex uuid) host port key
      rw [hkeys]
    simp only []
    split
    · rename_i hport
      refine (within_beaconExit _ fun hk => hl hport hown ?_).mono fun _ => h0.trans
      rwa [hpeers] at hk
    · split
      · exact Ensures.ok (h0.trans (within_refreshPeer _ _))
      · exact (within_meetPeer _ _ _ _).mono fun _ => h0.trans

theorem within_gossipRequire (n : Node) (uuidHex endpoint : Str) :
    Ensures (n.gossipRequire env uuidHex endpoint) (Within l n) := by
  unfold gossipRequire
  simp only []
  split
  · exact Ensures.ok (Within.refl l n)
  · split
    · exact Ensures.ok (Within.refl l n)
    · have h0 : Within l n (if '|' ∈ endpoint then
          n.learnKey (n.cfg.rt.lower uuidHex) (encodeStr (partition '|' endpoint).2) else n) := by
        split
        · exact within_learnKey n _ _
        · exact Within.refl l n
      split
      · exact Ensures.ok h0
      · exact Ensures.error
      · split
        · exact Ensures.ok (h0.trans (within_refreshPeer _ _))
        · exact (within_meetPeer _ _ _ _).mono fun _ => h0.trans

/-! ## Commands -/

theorem within_sendToPeers (n : Node) (cmd : UInt8) (group : Option Bytes) (status : Option Nat) :
    Ensures (n.sendToPeers env cmd group status) (Within l n) :=
  Ensures.foldlM_rel (Within.refl l) (fun _ _ _ => Within.trans) fun m r _ => within_sendCmd m r cmd group status []

theorem within_joinGroup (n : Node) (g : Bytes) : Ensures (n.joinGroup env g) (Within l n) := by
  unfold joinGroup
  split
  · exact Ensures.ok (Within.refl l n)
  · have h0 : Within l n { n with ownGroups := n.ownGroups ++ [g], status := (n.status + 1) % 256 } :=
      Within.quiet rfl rfl rfl rfl rfl
    have h1 := h0.trans (Within.of_talk (talk_requireGroup env.Lossless (fun _ => True) _ g))
    exact (within_sendToPeers _ _ _ _).mono fun _ => h1.trans

theorem within_leaveGroup (n : Node) (g : Bytes) : Ensures (n.leaveGroup env g) (Within l n) := by
  unfold leaveGroup
  split
  · exact Ensures.ok (Within.refl l n)
  · refine (within_sendToPeers _ _ _ _).mono fun _ h => Within.trans ?_ h
    exact Within.quiet rfl rfl rfl rfl rfl

theorem within_doWhisper (n : Node) (peerHex payload : Bytes) :
    Ensures (n.doWhisper env peerHex payload) (Within l n) := by
  have hany : Ensures (decodeStrict peerHex) fun _ => True := fun _ _ => trivial
  refine hany.bind fun peerId _ => ?_
  split
  · split
    · exact within_sendCmd n _ _ _ _ _
    · exact Ensures.ok (Within.refl l n)
  · exact Ensures.ok (Within.refl l n)

theorem within_doShout (n : Node) (g payload : Bytes) : Ensures (n.doShout env g payload) (Within l n) := by
  unfold doShout
  split
  · refine Ensures.foldlM_rel (Within.refl l) (fun _ _ _ => Within.trans) fun m r _ => ?_
    split
    · exact within_sendCmd m r Cmd.shout (some g) none [payload]
    · exact Ensures.ok (Within.refl l m)
  · exact Ensures.ok (Within.refl l n)

theorem within_runCommand (n : Node) (c : Command) : Ensures (n.runCommand env c) (Within l n) := by
  cases c with
  | join g => exact within_joinGroup n g.raw
  | leave g => exact within_leaveGroup n g.raw
  | whisper peerHex payload => exact within_doWhisper n peerHex payload
  | shout g payload => exact within_doShout n g.raw payload
  | connect host port => exact within_doConnect n host port

theorem within_setContestInGroup (n : Node) (g : WireString) : Within l n (n.setContestInGroup g) := by
  unfold setContestInGroup
  simp only []
  split <;> exact Within.quiet rfl rfl rfl rfl rfl

/-! ## The reaper before its rounds -/

theorem within_dropDials (n : Node) : Within l n (n.dropDials env) := by
  refine List.foldlRecOn (motive := fun m : Node => Within l n m) n.pending.entries _ (Within.refl l n)
    fun m hm e _ => ?_
  unfold reapPending
  simp only []
  split
  · have hlost : Within l m (m.setObj e.2 (m.obj e.2).disconnect) :=
      Within.setObj m e.2 (Or.inl rfl) fun h => nomatch h
    exact hm.trans (hlost.trans (Within.quiet rfl rfl rfl rfl rfl))
  · exact hm

theorem within_maintainElections (n : Node) : Ensures (n.maintainElections env) (Within l n) :=
  (talk_maintainElections env n).mono fun _ => Within.of_talk

/-! ## Events -/

/-- The licence covers what an event may do on its way from `n` to `n'`. -/
structure Covers (l : Licence) (n : Node) (input : Input) (n' : Node) : Prop where
  hello : ∀ frames uuid msg extra h, input = .peerMsg frames → Carries frames uuid msg extra →
    msg.fields = .hello h → (h.endpoint ≠ [] → l.lifts (hex uuid)) ∧
      (∀ r, n.peers.get (hex uuid) = some r → l.counts r) ∧
      ∀ r, n'.peers.get (hex uuid) = some r → l.readies r
  traffic : ∀ frames uuid msg extra r, input = .peerMsg frames → Carries frames uuid msg extra →
    (∀ h, msg.fields ≠ .hello h) → n.peers.get (hex uuid) = some r → (n.obj r).ready = true →
    (isTraffic msg.cmd = true ∨ msg.cmd = Cmd.goodbye → l.lifts (hex uuid)) ∧ l.counts r
  beacon : ∀ data host uuid port, input = .beacon data host → n.Hears data uuid port → port = 0 →
    uuid ≠ n.cfg.peerId → n.peers.get (hex uuid) ≠ none → l.lifts (hex uuid)

/-- Every event but the reaper stays within a licence that covers it. -/
theorem within_step {n n' : Node} (ht : Tables n) {input : Input} (hs : n.step env input = .ok n')
    (hne : input ≠ .reap) (hl : Covers l n input n') : Within l n n' := by
  cases input with
  | peerMsg frames =>
    rcases handlePeerMsg_cases env n frames n' hs with
      rfl | ⟨uuid, msg, extra, hc, ⟨h, hfields, hh⟩ | ⟨hfields, r, hk, hr, hh⟩⟩
    · exact Within.refl l n'
    · obtain ⟨hlift, hcount, hready⟩ := hl.hello frames uuid msg extra h rfl hc hfields
      have hpeers : (n.resetSeq (hex uuid)).peers = n.peers := (moves_resetSeq anything anything n _).2.1
      rw [← hpeers] at hh
      exact (within_resetSeq n hcount).trans (within_handleHello _ (hex uuid) h hlift n' hh hready)
    · obtain ⟨hlift, hcount⟩ := hl.traffic frames uuid msg extra r rfl hc hfields hk hr
      exact within_handleTraffic (ht.key _ r hk) msg extra hlift hcount n' hh
  | beacon data host =>
    rcases handleBeacon_cases env n data host n' hs with rfl | ⟨uuid, port, hh, hacc⟩
    · exact Within.refl l n'
    · exact within_acceptBeacon n uuid port _ host (hl.beacon data host uuid port rfl hh) n' hacc
  | gossip uuidHex endpoint => exact within_gossipRequire n uuidHex endpoint n' hs
  | command c => exact within_runCommand n c n' hs
  | reap => exact absurd rfl hne
  | setContestInGroup g =>
    cases hs
    exact within_setContestInGroup n g
  | setHeader key value =>
    cases hs
    exact Within.quiet rfl rfl rfl rfl rfl
  | pinKey host port publicKey =>
    cases hs
    exact within_learnKey n _ publicKey
  | recv =>
    cases hs
    exact Within.quiet rfl rfl rfl rfl rfl

/-! ## The reaper -/

/-- A round of the reaper counts nothing and readies nobody. -/
theorem counted_reapPeer {n : Node} {k : Str} {r : Ref} (hkey : (n.obj r).uuidHex = k) :
    Ensures (n.reapPeer env r) (Counted l n) := by
  let free : Licence := ⟨fun _ => True, l.counts, l.readies⟩
  have hfree : ∀ {m m'}, Within free m m' → Counted l m m' := fun h => ⟨h.next, h.wantSeq, h.ready⟩
  unfold reapPeer
  simp only []
  split
  · exact (within_removePeer (l := free) hkey trivial).mono fun _ => hfree
  · split
    · refine (within_sendCmd (l := free) _ r Cmd.ping none none []).bind fun m hm => Ensures.ok ?_
      refine Counted.trans ?_ ((hfree hm).trans (Counted.setObj m r (Or.inl rfl) Or.inl))
      split <;> exact Counted.quiet rfl rfl
    · exact Ensures.ok (Counted.refl l n)

theorem counted_reap {n : Node} (ht : Tables n) : Ensures (n.reap env) (Counted l n) := by
  have hm0 := moves_reapPendings env n n.pending.nodup fun e he =>
    (Dict.get_eq_some_iff _).2 (show (e.1, e.2) ∈ _ from he)
  have ht0 : Tables (n.dropDials env) := hm0.invariant Tables.move ht
  have h0 : Within l n (n.dropDials env) := within_dropDials n
  refine (talk_maintainElections env (n.dropDials env)).bind fun n2 h2 => ?_
  have ht2 : Tables n2 := Tables.of_same (Same.of_talk h2) ht0
  refine (reapPeers_rel env (Counted.refl l) Counted.trans (fun ht hk => counted_reapPeer (ht.key _ _ hk)) ht2
    ht2.peers_nodup fun r hr => (Dict.mem_values _).1 hr).mono fun _ h => ?_
  exact (h0.trans (Within.of_talk h2)).toCounted.trans h

/-- No event counts or readies more than a licence that covers it allows. -/
theorem counted_step {n n' : Node} (ht : Tables n) {input : Input} (hs : n.step env input = .ok n')
    (hl : Covers l n input n') : Counted l n n' := by
  by_cases hne : input = .reap
  · subst hne
    exact counted_reap ht n' hs
  · exact (within_step ht hs hne hl).toCounted

/-! ## Throttles belong to known peers -/

/-- Only a peer in the table has a throttle. -/
def Throttled (n : Node) : Prop := ∀ k, n.evasiveEmitAt.get k ≠ none → n.peers.get k ≠ none

theorem Throttled.within {n n' : Node} (hn : Throttled n) (h : Within l n n') : Throttled n' := by
  intro k hk
  rcases h.throttle k with hsame | ⟨-, hnone⟩
  · rw [hsame] at hk
    exact (h.known k (hn k hk)).resolve_right (hsame ▸ hk)
  · exact absurd hnone hk

/-- The licence for everything. -/
def mayAnything : Licence := ⟨fun _ => True, fun _ => True, fun _ => True⟩

theorem throttled_reapPeer {n : Node} {k : Str} {r : Ref} (hkey : (n.obj r).uuidHex = k)
    (hk : n.peers.get k = some r) : Ensures (n.reapPeer env r) fun n' => Throttled n → Throttled n' := by
  unfold reapPeer
  simp only []
  split
  · exact (within_removePeer (l := mayAnything) hkey trivial).mono fun _ h hn => hn.within h
  · split
    · refine (within_sendCmd (l := mayAnything) _ r Cmd.ping none none []).bind fun m hm => Ensures.ok fun hn => ?_
      refine Throttled.within (Throttled.within ?_ hm) (Within.touch (l := mayAnything) m r rfl rfl)
      split
      · intro j hj
        change (n.evasiveEmitAt.set _ env.now).get j ≠ none at hj
        rw [hkey, Dict.get_set] at hj
        split at hj
        · rename_i hkj
          subst hkj
          show n.peers.get k ≠ none
          simp [hk]
        · exact hn j hj
      · exact hn
    · exact Ensures.ok id

theorem throttled_step {n n' : Node} (ht : Tables n) {input : Input} (hs : n.step env input = .ok n')
    (hn : Throttled n) : Throttled n' := by
  by_cases hne : input = .reap
  · subst hne
    have hm0 := moves_reapPendings env n n.pending.nodup fun e he =>
      (Dict.get_eq_some_iff _).2 (show (e.1, e.2) ∈ _ from he)
    have ht0 : Tables (n.dropDials env) := hm0.invariant Tables.move ht
    have h0 : Throttled (n.dropDials env) := hn.within (l := mayAnything) (within_dropDials n)
    obtain ⟨n2, h2, hrounds⟩ := bind_eq_ok_iff.1 hs
    have htalk := talk_maintainElections env (n.dropDials env) n2 h2
    have ht2 : Tables n2 := Tables.of_same (Same.of_talk htalk) ht0
    exact reapPeers_rel env (R := fun m m' => Throttled m → Throttled m') (fun _ => id) (fun h1 h2 h => h2 (h1 h))
      (fun ht hk => throttled_reapPeer (ht.key _ _ hk) hk) ht2 ht2.peers_nodup
      (fun r hr => (Dict.mem_values _).1 hr) n' hrounds (h0.within (l := mayAnything) (Within.of_talk htalk))
  · refine hn.within (l := mayAnything) (within_step ht hs hne ⟨?_, ?_, ?_⟩)
    · exact fun _ _ _ _ _ _ _ _ => ⟨fun _ => trivial, fun _ _ => trivial, fun _ _ => trivial⟩
    · exact fun _ _ _ _ _ _ _ _ _ _ => ⟨fun _ => trivial, trivial⟩
    · exact fun _ _ _ _ _ _ _ _ _ => trivial

theorem Reachable.throttled {n : Node} (h : n.Reachable) : Throttled n := by
  induction h with
  | init cfg => exact fun k hk => absurd (Dict.get_empty k) hk
  | step env input hn hs ih => exact throttled_step hn.tables hs ih

end Node

end Zre
