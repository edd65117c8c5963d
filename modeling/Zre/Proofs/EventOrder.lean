import Zre.Proofs.Notices
import Zre.Proofs.BeaconFormat

/-!
# Proofs: the order of the events about a peer

Every handler is a stretch of directory steps. Whatever is reported about a peer falls between its ENTER
and its EXIT. That the two alternate needs a condition on the run: a peer whose first HELLO never came can
be given up, and a peer whose queue was full can be greeted again.
-/

namespace Zre

open Fallible Attendance

/-- A WHISPER, SHOUT, JOIN or LEAVE event of the peer `p`. -/
def Event.IsTrafficOf (p : Str) : Event → Prop
  | .whisper id _ _ => id = p
  | .shout id _ _ _ => id = p
  | .join id _ _ => id = p
  | .leave id _ _ => id = p
  | _ => False

namespace Node

variable {P : Prop}

/-! ## Discovery -/

theorem hush_refreshPeer (env : Env) (n : Node) (r : Ref) : Hush n (n.refreshPeer env r) :=
  Hush.setObj n r rfl id

theorem scene_sendHello (env : Env) (n : Node) (r : Ref) : Ensures (n.sendHello env r) (Scene P n) :=
  (talk_sendHello env n r).mono fun _ h => (Hush.of_talk h).scene

theorem scene_openPeer_none {env : Env} {n n' : Node} (ht : Tables n) {uuidHex addr : Str} {port : Int}
    {rhex : Option Str} (h : n.openPeer env uuidHex addr port rhex = (none, n')) : Scene P n n' := by
  rcases openPeer_cases env n uuidHex addr port rhex with h' | ⟨p, -, -, h'⟩ | ⟨curve, h'⟩ <;>
    rw [h] at h' <;> cases h'
  · exact Scene.refl n
  · exact scene_alloc ht p

theorem scene_dialPeer {env : Env} {n n' : Node} (ht : Tables n) {rhex addr : Str} {port : Int}
    (hk : n.peers.get rhex = none) {res : Option Ref} (h : n.dialPeer env rhex addr port = (res, n')) :
    Scene P n n' ∧ ∀ r, res = some r → (n'.obj r).name = none := by
  unfold dialPeer at h
  cases hopen : n.openPeer env rhex addr port (some rhex) with
  | mk o m =>
    rw [hopen] at h
    cases o with
    | none =>
      cases h
      exact ⟨scene_openPeer_none ht hopen, nofun⟩
    | some r =>
      cases h
      obtain ⟨rfl, curve, rfl⟩ := openPeer_some hopen
      refine ⟨scene_file ht hk env addr port curve, ?_⟩
      rintro r ⟨⟩
      exact congrArg Peer.name (allocated_obj_self n (n.opened env rhex addr port curve))

theorem scene_adoptPending {env : Env} {n n' : Node} (ht : Tables n) {rhex addr : Str} {port : Int}
    (hk : n.peers.get rhex = none) {res : Option Ref} (h : n.adoptPending env addr port rhex = (res, n')) :
    Scene P n n' ∧ ∀ r, res = some r → n.Frank → (n'.obj r).name = none := by
  cases res with
  | none =>
    obtain ⟨rfl, -⟩ := adoptPending_none h
    exact ⟨Scene.refl n', by simp⟩
  | some r =>
    obtain ⟨k, rfl, hm⟩ := adoptPending_some h
    refine ⟨scene_adopt ht env (pendingMatch_mem hm) hk, ?_⟩
    rintro r ⟨⟩ hf
    have hself : (n.adoptUnder env k r rhex).obj r =
        { n.obj r with uuidHex := rhex }.refresh env.now n.cfg.evTimeout n.cfg.exTimeout :=
      setObj_obj_self n r _
    rw [hself]
    exact (hf.pending k r (pendingMatch_mem hm)).1

theorem scene_meetPeer (env : Env) {n : Node} (ht : Tables n) {rhex : Str} (addr : Str) (port : Int)
    (hk : n.peers.get rhex = none) : Ensures (n.meetPeer env rhex addr port) (Scene P n) := by
  unfold meetPeer
  cases ha : n.adoptPending env addr port rhex with
  | mk o n1 =>
    obtain ⟨hs1, -⟩ := scene_adoptPending (P := P) ht hk ha
    cases o with
    | some r => exact (scene_sendHello env n1 r).mono fun _ h => hs1.trans h
    | none =>
      obtain ⟨rfl, -⟩ := adoptPending_none ha
      simp only []
      cases hd : n1.dialPeer env rhex addr port with
      | mk o n2 =>
        obtain ⟨hs2, -⟩ := scene_dialPeer (P := P) ht hk hd
        cases o with
        | some r => exact (scene_sendHello env n2 r).mono fun _ h => hs2.trans h
        | none => exact Ensures.ok hs2

theorem scene_doConnect (env : Env) {n : Node} (ht : Tables n) (host : Str) (port : Int) :
    Ensures (n.doConnect env host port) (Scene P n) := by
  unfold doConnect
  split
  · exact Ensures.ok (Scene.refl n)
  · split
    · exact Ensures.ok (Scene.refl n)
    · simp only []
      split
      · exact Ensures.ok (Scene.refl n)
      · cases hopen : n.openPeer env (pendingKey host port) host port none with
        | mk o m =>
          cases o with
          | none => exact Ensures.ok (scene_openPeer_none ht hopen)
          | some r =>
            obtain ⟨rfl, curve, rfl⟩ := openPeer_some hopen
            exact (scene_sendHello env _ _).mono fun _ h =>
              (scene_dial ht env (pendingKey host port) host port curve).trans h

/-! ## HELLO -/

theorem hush_joinTable (n : Node) (g : Bytes) (r : Ref) : Hush n (n.joinTable g r) :=
  Hush.of_eq rfl rfl rfl rfl

theorem hush_enterGroups (n : Node) (r : Ref) (gs : List Bytes) :
    Hush n (gs.foldl (fun n g => n.enterGroup r g) n) := by
  induction gs generalizing n with
  | nil => exact Hush.refl n
  | cons g gs ih =>
    have htable : Hush n ((n.openGroup g).joinTable g r) :=
      (Hush.of_talk (talk_openGroup True anything n g)).trans (hush_joinTable _ g r)
    have hgroups : Hush ((n.openGroup g).joinTable g r) (n.enterGroup r g) := Hush.setObj _ r rfl id
    exact (htable.trans hgroups).trans (ih _)

theorem scene_startElections (env : Env) (n : Node) (gs : List Bytes) :
    Ensures (gs.foldlM (fun n g => n.startElection env g) n) (Scene P n) :=
  Ensures.foldlM_rel Scene.refl (fun _ _ _ => Scene.trans)
    fun m g _ => (talk_startElection env m g).mono fun _ h => (Hush.of_talk h).scene

/-- A peer without a name is entered, reported, and then its groups are. -/
theorem scene_enterPeer (env : Env) {n : Node} (ht : Tables n) {rhex : Str} {r : Ref}
    (hk : n.peers.get rhex = some r) (hP : P → (n.obj r).name = none) (h : HelloFields) (epStr : Str)
    (helloReply : Bool) : Ensures (n.enterPeer env rhex r h epStr helloReply) (Scene P n) := by
  refine (talk_replyHello env _ r helloReply).bind fun n2 ht2 => ?_
  simp only []
  have hhush := (Hush.of_talk ht2).trans (hush_enterGroups n2 r h.groups)
  generalize h.groups.foldl (fun n g => n.enterGroup r g) n2 = n3 at hhush ⊢
  rw [emits_rest]
  refine (scene_startElections env _ h.groups).mono fun n' hs => Scene.trans ?_ hs
  have hone : ∀ s, s ≠ r → (n3.obj s).name = (n.obj s).name ∧
      ((n3.obj s).ready = true → (n.obj s).ready = true) := by
    intro s hs
    have hsame : ∀ p, (n.setObj r p).obj s = n.obj s := fun p => by rw [setObj_obj, if_neg hs]
    refine ⟨(hhush.name s).trans (congrArg Peer.name (hsame _)), fun hr => ?_⟩
    have hr' := hhush.ready s hr
    rwa [hsame] at hr'
  have hname : (n3.obj r).name ≠ none := by
    rw [hhush.name, setObj_obj_self]
    exact Option.some_ne_none h.name
  obtain ⟨l, hl, hother⟩ := hhush.events
  have hwords : (Event.enter rhex (pname (n3.obj r)) epStr ::
      h.groups.map fun g => .join rhex (pname (n3.obj r)) (bdec g)).map Event.notice =
      .enter rhex :: List.replicate h.groups.length (.word rhex) := by
    rw [List.map_cons, List.map_map]
    refine congrArg _ (List.eq_replicate_iff.2 ⟨by simp, fun x hx => ?_⟩)
    obtain ⟨g, -, rfl⟩ := List.mem_map.1 hx
    rfl
  refine scene_greet ht hk hP hhush.peers hhush.pending hname hone ?_ hother hwords
  show n3.events ++ [.enter rhex (pname (n3.obj r)) epStr] ++ _ = _
  rw [hl]
  simp [Node.setObj]

theorem hush_evasive (n : Node) (d : Dict Str Int) : Hush n { n with evasiveEmitAt := d } :=
  Hush.of_eq rfl rfl rfl rfl

theorem hush_keys (n : Node) (keys : Dict Str Bytes) : Hush n { n with peerServerKeys := keys } :=
  Hush.of_eq rfl rfl rfl rfl

theorem tables_keys {n : Node} (ht : Tables n) (keys : Dict Str Bytes) :
    Tables { n with peerServerKeys := keys } :=
  ht.quiet rfl

theorem scene_helloFromNew (env : Env) {n : Node} (ht : Tables n) {rhex : Str}
    (hk : n.peers.get rhex = none) (hown : rhex ≠ n.cfg.peerIdHex) (h : HelloFields) :
    Ensures (n.helloFromNew env rhex h) (Scene P n) := by
  obtain ⟨keys, hkeys⟩ := learnHelloKeys_rest n rhex h
  have hs0 : Scene P n { n with peerServerKeys := keys } := (hush_keys n keys).scene
  have ht0 := tables_keys ht keys
  intro n' hn' hf
  refine (?_ : Scene P n n') hf
  have hf0 := (hush_keys n keys).frank hf
  unfold helloFromNew at hn'
  simp only [hkeys] at hn'
  split at hn'
  · cases hn'
    exact hs0
  · rename_i addr port _
    cases ha : { n with peerServerKeys := keys }.adoptPending env (dialHost addr) port rhex with
    | mk o n1 =>
      obtain ⟨hs1, hname1⟩ := scene_adoptPending (P := P) ht0 hk ha
      obtain ⟨hm1, -, hnone, hin⟩ := moves_adoptPending anything anything
        (n := { n with peerServerKeys := keys }) trivial hk hown ha
      rw [ha] at hn'
      cases o with
      | some r =>
        refine (hs0.trans hs1).trans (scene_enterPeer env (hm1.invariant Tables.move ht0)
          (hin r rfl) (fun _ => hname1 r rfl hf0) h _ false n' hn')
      | none =>
        cases hnone rfl
        simp only [] at hn'
        cases hd : { n with peerServerKeys := keys }.dialPeer env rhex (dialHost addr) port with
        | mk o n2 =>
          obtain ⟨hs2, hname2⟩ := scene_dialPeer (P := P) ht0 hk hd
          obtain ⟨hm2, -, hin2⟩ := moves_dialPeer anything anything
            (n := { n with peerServerKeys := keys }) trivial hk hown hd
          rw [hd] at hn'
          cases o with
          | some r =>
            exact (hs0.trans hs2).trans (scene_enterPeer env (hm2.invariant Tables.move ht0)
              (hin2 r rfl) (fun _ => hname2 r rfl) h _ true n' hn')
          | none =>
            cases hn'
            exact hs0.trans hs2

/-- A repeated HELLO of a ready peer changes its record, and nothing is reported. -/
theorem scene_helloFromLive (env : Env) {n : Node} (ht : Tables n) {k : Str} {r : Ref}
    (hk : n.peers.get k = some r) (hr : (n.obj r).ready = true) (h : HelloFields) :
    Scene P n (n.helloFromLive env r h) := by
  have hobj : ∀ s, s ≠ r → (n.helloFromLive env r h).obj s = n.obj s := fun s hs => by
    unfold helloFromLive refreshPeer
    simp only [setObj_obj, if_neg hs]
  have hself : ((n.helloFromLive env r h).obj r).name = some h.name ∧
      ((n.helloFromLive env r h).obj r).ready = (n.obj r).ready := by
    unfold helloFromLive refreshPeer
    simp [Peer.announce, Peer.refresh]
  intro hf
  refine ⟨⟨fun j s hj hs => ?_, fun j s hj => ?_⟩, [],
    by simp [helloFromLive, refreshPeer, Node.setObj], (Step.quiet (by simp) fun j => Or.inl ?_).steps⟩
  · by_cases hsr : s = r
    · rw [hsr, hself.1]
      exact Option.some_ne_none h.name
    · rw [hobj s hsr] at hs ⊢
      exact hf.named j s hj hs
  · have hsr : s ≠ r := fun e => ht.apart k j r hk (e ▸ hj)
    rw [hobj s hsr]
    exact hf.pending j s hj
  · cases hj : n.peers.get j with
    | none =>
      rw [standing_eq_absent.2 hj]
      exact standing_eq_absent.2 hj
    | some s =>
      rw [standing_some hj, standing_some (n := n.helloFromLive env r h) hj]
      by_cases hsr : s = r
      · subst hsr
        rw [hself.1, hself.2, hr, if_neg (Option.some_ne_none h.name), if_neg (hf.named k s hk hr)]
      · rw [hobj s hsr]

/-- The HELLO of a peer that is known and not ready greets it. -/
theorem scene_handleHello (env : Env) {n : Node} (ht : Tables n) (rhex : Str) {h : HelloFields}
    (hP : P → h.endpoint ≠ [] → ∀ r, n.peers.get rhex = some r → (n.obj r).ready = false →
      (n.obj r).name = none) :
    Ensures (n.handleHello env rhex h (n.peers.get rhex)) (Scene P n) := by
  unfold handleHello
  split
  · exact Ensures.ok (Scene.refl n)
  · split
    · split
      · exact Ensures.ok (Scene.refl n)
      · exact Ensures.error
    · rename_i hown
      split
      · exact Ensures.ok (Scene.refl n)
      · rename_i hend
        have hs0 : Scene P n { n with evasiveEmitAt := n.evasiveEmitAt.pop rhex } :=
          (hush_evasive n _).scene
        have ht0 : Tables { n with evasiveEmitAt := n.evasiveEmitAt.pop rhex } :=
          ht.quiet rfl
        simp only []
        cases hk : n.peers.get rhex with
        | none =>
          simp only []
          exact (scene_helloFromNew env ht0 hk hown h).mono fun _ hs => hs0.trans hs
        | some r =>
          simp only []
          cases hr : (n.obj r).ready with
          | true => exact Ensures.ok (hs0.trans (scene_helloFromLive env ht0 hk hr h))
          | false =>
            exact (scene_enterPeer env ht0 hk (fun hp => hP hp hend r hk hr) h _ false).mono
              fun _ hs => hs0.trans hs

/-! ## Departures -/

theorem scene_restartElections (env : Env) (n : Node) (gs : List Bytes) :
    Ensures (n.restartElections env gs) (Scene P n) :=
  Ensures.foldlM_rel Scene.refl (fun _ _ _ => Scene.trans)
    fun m g _ => (talk_restartElectionIfNeeded env m g).mono fun _ h => (Hush.of_talk h).scene

theorem scene_removePeer (env : Env) {n : Node} (ht : Tables n) {k : Str} {r : Ref}
    (hk : n.peers.get k = some r) (hP : P → (n.obj r).name ≠ none) :
    Ensures (n.removePeer env r) (Scene P n) := by
  rw [removePeer_eq env (ht.key k r hk)]
  exact (scene_restartElections env _ _).mono fun _ hs => (scene_forgotten ht hk hP _).trans hs

theorem scene_beaconExit (env : Env) {n : Node} (ht : Tables n) (k : Str)
    (hP : P → ∀ r, n.peers.get k = some r → (n.obj r).name ≠ none) :
    Ensures (n.beaconExit env k) (Scene P n) := by
  cases hk : n.peers.get k with
  | none =>
    unfold beaconExit
    rw [hk]
    exact Ensures.ok (Scene.refl n)
  | some r =>
    rw [beaconExit_eq env hk]
    exact (scene_restartElections env _ _).mono fun _ hs =>
      (scene_forgotten ht hk (fun hp => hP hp r hk) _).trans hs

/-! ## Inbound messages -/

theorem hush_requireGroup (n : Node) (g : Bytes) : Hush n (n.requireGroup g) :=
  Hush.of_talk (talk_requireGroup True anything n g)

theorem scene_handleJoin (env : Env) {n : Node} {rhex : Str} {r : Ref}
    (hk : n.peers.get rhex = some r) (hr : (n.obj r).ready = true) (g : Bytes) :
    Ensures (n.handleJoin env rhex r g) (Scene P n) := by
  unfold handleJoin
  split
  · exact Ensures.ok (Scene.refl n)
  · have hset : Hush n (n.setObj r { n.obj r with groups := addGroup (n.obj r).groups g }) :=
      Hush.setObj n r rfl id
    have hreq := hush_requireGroup (n.setObj r { n.obj r with groups := addGroup (n.obj r).groups g }) g
    refine (talk_startElection env _ g).mono fun n' h => ?_
    refine Scene.trans (((hset.trans hreq).trans (hush_joinTable _ g r)).scene.trans ?_)
      (Hush.of_talk h).scene
    refine scene_word (k := rhex) (r := r) ?_ ?_ rfl
    · show (requireGroup _ g).peers.get rhex = some r
      rw [requireGroup_rest]
      exact hk
    · show ((requireGroup _ g).obj r).ready = true
      rw [requireGroup_rest]
      simpa using hr

theorem scene_handleLeave (env : Env) {n : Node} {rhex : Str} {r : Ref}
    (hk : n.peers.get rhex = some r) (hr : (n.obj r).ready = true) (g : Bytes) :
    Ensures (n.handleLeave env rhex r g) (Scene P n) := by
  unfold handleLeave
  split
  · exact Ensures.ok (Scene.refl n)
  · have hset : Hush n (n.setObj r { n.obj r with groups := discardGroup (n.obj r).groups g }) :=
      Hush.setObj n r rfl id
    have htable : ∀ m : Node, Hush m (m.leaveTable g r) := fun m => by
      rw [leaveTable_rest]
      exact Hush.of_eq rfl rfl rfl rfl
    refine (talk_restartElectionIfNeeded env _ g).mono fun n' h => ?_
    refine Scene.trans ((hset.trans (htable _)).scene.trans ?_) (Hush.of_talk h).scene
    refine scene_word (k := rhex) (r := r) ?_ ?_ rfl
    · rw [leaveTable_rest]
      exact hk
    · rw [leaveTable_rest]
      simpa using hr

theorem scene_dispatch (env : Env) {n : Node} (ht : Tables n) {rhex : Str} {r : Ref}
    (hk : n.peers.get rhex = some r) (hr : (n.obj r).ready = true) (hf : n.Frank) (msg : Msg)
    (extra : List Bytes) : Ensures (n.dispatch env rhex r msg extra) (Scene P n) := by
  have htalk : ∀ {L : Prop} {K : Handed → Prop} {n' : Node}, Talk L K n n' → Scene P n n' :=
    fun h => (Hush.of_talk h).scene
  unfold dispatch
  simp only []
  split
  · exact Ensures.ok (scene_word hk hr rfl)
  · split
    · exact scene_removePeer env ht hk fun _ => hf.named rhex r hk hr
    · split
      · exact (talk_sendCmd env n r _ _ _ _).mono fun _ h => htalk h
      · split
        · exact Ensures.ok (hush_refreshPeer env n r).scene
        · split
          · split
            · exact Ensures.ok (scene_word hk hr rfl)
            · exact Ensures.ok (Scene.refl n)
          · split
            · exact scene_handleJoin env hk hr _
            · split
              · exact scene_handleLeave env hk hr _
              · exact Ensures.ok (Scene.refl n)
          · split
            · exact (talk_handleElect env n r _ _).mono fun _ h => htalk h
            · split
              · exact (talk_handleLeader env n _ _).mono fun _ h => htalk h
              · exact Ensures.ok (Scene.refl n)
          · exact Ensures.ok (Scene.refl n)

theorem hush_checkSeq (n : Node) (r : Ref) (cmd : UInt8) (seq : Nat) : Hush n (n.checkSeq r cmd seq) := by
  have hcount : Hush n (n.setObj r ((n.obj r).countSeq cmd)) := Hush.setObj n r rfl id
  unfold checkSeq
  simp only []
  split
  · exact hcount.trans (Hush.setObj _ r rfl id)
  · exact hcount

theorem hush_arrive (env : Env) (n : Node) (rhex : Str) (r : Ref) (msg : Msg) :
    Hush n (n.arrive env rhex r msg) := by
  unfold arrive
  simp only []
  refine Hush.trans ?_ ((hush_checkSeq _ r msg.cmd msg.seq).trans (hush_refreshPeer env _ r))
  split
  · exact hush_evasive n _
  · exact Hush.refl n

theorem arrive_ready (env : Env) (n : Node) (rhex : Str) (r : Ref) (msg : Msg) (s : Ref) :
    ((n.arrive env rhex r msg).obj s).ready = (n.obj s).ready :=
  arrive_congr Peer.ready (fun _ _ => rfl) (fun _ _ _ _ => rfl) env n rhex r msg s

/-- A HELLO that greets somebody comes from a peer without a name, and who is given up has one. -/
def Pairs (n : Node) (env : Env) : Act → Prop
  | .input (.peerMsg frames) => ∀ uuid msg extra h r, Carries frames uuid msg extra →
      msg.fields = .hello h → h.endpoint ≠ [] → n.peers.get (hex uuid) = some r →
      (n.obj r).ready = false → (n.obj r).name = none
  | .input (.beacon data _) => ∀ uuid r, n.Hears data uuid 0 → n.peers.get (hex uuid) = some r →
      (n.obj r).name ≠ none
  | .round r => (n.obj r).expiredAt ≠ 0 → (n.obj r).expiredAt < env.now → (n.obj r).name ≠ none
  | _ => True

theorem resetSeq_obj (n : Node) (rhex : Str) (s : Ref) :
    ((n.resetSeq rhex).obj s).name = (n.obj s).name ∧ ((n.resetSeq rhex).obj s).ready = (n.obj s).ready := by
  unfold resetSeq
  cases n.peers.get rhex with
  | none => exact ⟨rfl, rfl⟩
  | some r => exact ⟨setObj_congr Peer.name n r (by rfl) s, setObj_congr Peer.ready n r (by rfl) s⟩

theorem hush_resetSeq (n : Node) (rhex : Str) : Hush n (n.resetSeq rhex) := by
  unfold resetSeq
  cases n.peers.get rhex with
  | none => exact Hush.refl n
  | some r => exact Hush.setObj n r rfl id

theorem scene_handlePeerMsg (env : Env) {n : Node} (ht : Tables n) (frames : List Bytes)
    (hP : P → n.Pairs env (.input (.peerMsg frames))) :
    Ensures (n.handlePeerMsg env frames) (Scene P n) := by
  intro n' hn' hf
  refine (?_ : Scene P n n') hf
  rcases handlePeerMsg_cases env n frames n' hn' with
    rfl | ⟨uuid, msg, extra, hc, ⟨h, hfields, hh⟩ | ⟨-, r, hk, hr, hh⟩⟩
  · exact Scene.refl n'
  · have hpeers : (n.resetSeq (hex uuid)).peers = n.peers := (hush_resetSeq n _).peers
    have ht0 : Tables (n.resetSeq (hex uuid)) :=
      (moves_resetSeq anything anything n (hex uuid)).1.invariant Tables.move ht
    rw [← hpeers] at hh
    refine (hush_resetSeq n (hex uuid)).scene.trans (scene_handleHello env ht0 (hex uuid) ?_ n' hh)
    intro hp hend r hk hr
    rw [(resetSeq_obj n _ r).1]
    rw [hpeers] at hk
    rw [(resetSeq_obj n _ r).2] at hr
    exact hP hp uuid msg extra h r hc hfields hend hk hr
  · have harr := hush_arrive env n (hex uuid) r msg
    have hk' : (n.arrive env (hex uuid) r msg).peers.get (hex uuid) = some r := by
      rw [harr.peers]
      exact hk
    have hr' : ((n.arrive env (hex uuid) r msg).obj r).ready = true := by
      rw [arrive_ready]
      exact hr
    have ht' : Tables (n.arrive env (hex uuid) r msg) :=
      (moves_arrive anything anything env n (hex uuid) r msg).1.invariant Tables.move ht
    exact harr.scene.trans (scene_dispatch env ht' hk' hr' (harr.frank hf) msg extra n' hh)

/-! ## Beacons, tuples and commands -/

theorem scene_acceptBeacon (env : Env) {n : Node} (ht : Tables n) (uuid : Bytes) (port : Nat)
    (key : Option Bytes) (host : Str)
    (hP : P → port = 0 → ∀ r, n.peers.get (hex uuid) = some r → (n.obj r).name ≠ none) :
    Ensures (n.acceptBeacon env uuid port key host) (Scene P n) := by
  unfold acceptBeacon
  split
  · split
    · exact Ensures.error
    · exact Ensures.ok (Scene.refl n)
  · obtain ⟨keys, hkeys⟩ := learnBeaconKey_rest n (hex uuid) host port key
    simp only [hkeys]
    have hs0 : Scene P n { n with peerServerKeys := keys } := (hush_keys n keys).scene
    have ht0 := tables_keys ht keys
    split
    · rename_i hport
      exact (scene_beaconExit env ht0 (hex uuid) fun hp => hP hp hport).mono fun _ hs => hs0.trans hs
    · split
      · exact Ensures.ok (hs0.trans (hush_refreshPeer env _ _).scene)
      · rename_i hk
        exact (scene_meetPeer env ht0 host port hk).mono fun _ hs => hs0.trans hs

theorem scene_gossipRequire (env : Env) {n : Node} (ht : Tables n) (uuidHex endpoint : Str) :
    Ensures (n.gossipRequire env uuidHex endpoint) (Scene P n) := by
  unfold gossipRequire
  simp only []
  split
  · exact Ensures.ok (Scene.refl n)
  · split
    · exact Ensures.ok (Scene.refl n)
    · obtain ⟨keys, hkeys⟩ := learnTupleKey_rest n (n.cfg.rt.lower uuidHex) endpoint
      simp only [hkeys]
      have hs0 : Scene P n { n with peerServerKeys := keys } := (hush_keys n keys).scene
      split
      · exact Ensures.ok hs0
      · exact Ensures.error
      · split
        · exact Ensures.ok (hs0.trans (hush_refreshPeer env _ _).scene)
        · rename_i hk
          exact (scene_meetPeer env (tables_keys ht keys) _ _ hk).mono fun _ hs => hs0.trans hs

theorem scene_sendToPeers (env : Env) (n : Node) (cmd : UInt8) (group : Option Bytes)
    (status : Option Nat) : Ensures (n.sendToPeers env cmd group status) (Scene P n) :=
  Ensures.foldlM_rel Scene.refl (fun _ _ _ => Scene.trans)
    fun m r _ => (talk_sendCmd env m r cmd group status []).mono fun _ h => (Hush.of_talk h).scene

theorem scene_runCommand (env : Env) {n : Node} (ht : Tables n) (c : Command) :
    Ensures (n.runCommand env c) (Scene P n) := by
  cases c with
  | join g =>
    unfold runCommand joinGroup
    simp only []
    split
    · exact Ensures.ok (Scene.refl n)
    · have hown : Hush n { n with ownGroups := n.ownGroups ++ [g.raw], status := (n.status + 1) % 256 } :=
        Hush.of_eq rfl rfl rfl rfl
      exact (scene_sendToPeers env _ _ _ _).mono fun _ hs =>
        (hown.trans (hush_requireGroup _ g.raw)).scene.trans hs
  | leave g =>
    unfold runCommand leaveGroup
    simp only []
    split
    · exact Ensures.ok (Scene.refl n)
    · have hown : Hush n
          { n with ownGroups := n.ownGroups.erase g.raw, status := (n.status + 1) % 256 } :=
        Hush.of_eq rfl rfl rfl rfl
      exact (scene_sendToPeers env _ _ _ _).mono fun _ hs => hown.scene.trans hs
  | whisper peerHex payload =>
    have hany : Ensures (decodeStrict peerHex) fun _ => True := fun _ _ => trivial
    refine hany.bind fun peerId _ => ?_
    split
    · split
      · exact (talk_sendCmd env n _ _ _ _ _).mono fun _ h => (Hush.of_talk h).scene
      · exact Ensures.ok (Scene.refl n)
    · exact Ensures.ok (Scene.refl n)
  | shout g payload =>
    unfold runCommand doShout
    simp only []
    split
    · refine Ensures.foldlM_rel Scene.refl (fun _ _ _ => Scene.trans) fun m r _ => ?_
      split
      · exact (talk_sendEncoded env m r (K := anything) fun _ _ _ _ _ => trivial).bind
          fun _ h => Ensures.ok (Hush.of_talk h).scene
      · exact Ensures.ok (Scene.refl m)
    · exact Ensures.ok (Scene.refl n)
  | connect host port => exact scene_doConnect env ht host port

theorem hush_setContestInGroup (n : Node) (g : WireString) : Hush n (n.setContestInGroup g) := by
  unfold setContestInGroup
  simp only []
  split <;> exact Hush.of_eq rfl rfl rfl rfl

/-! ## The reaper -/

theorem scene_dropDials (env : Env) {n : Node} (ht : Tables n) : Scene P n (n.dropDials env) := by
  have hloop : ∀ (es : List (Str × Ref)) (m : Node), Tables m → (es.map Prod.fst).Nodup →
      (∀ e ∈ es, m.pending.get e.1 = some e.2) →
      Scene P m (es.foldl (fun n e => n.reapPending env e) m) := by
    intro es
    induction es with
    | nil => exact fun m _ _ _ => Scene.refl m
    | cons e es ih =>
      intro m hm hnd hes
      rw [List.map_cons, List.nodup_cons] at hnd
      rw [List.foldl_cons]
      unfold reapPending
      simp only []
      split
      · have hdrop : Move anything anything m _ := Move.dropDial trivial e.1 e.2 (hes e (by simp))
        refine (scene_dropDial hm (hes e (by simp))).trans
          (ih _ (Tables.move hdrop hm) hnd.2 fun e' he' => ?_)
        show (m.pending.pop e.1).get e'.1 = some e'.2
        rw [Dict.get_pop, if_neg, hes e' (by simp [he'])]
        rintro heq
        exact hnd.1 (heq ▸ List.mem_map_of_mem he')
      · exact ih m hm hnd.2 fun e' he' => hes e' (by simp [he'])
  exact hloop _ n ht n.pending.nodup fun e he => (Dict.get_eq_some_iff _).2 he

theorem scene_reapPeer (env : Env) {n : Node} (ht : Tables n) {k : Str} {r : Ref}
    (hk : n.peers.get k = some r) (hP : P → n.Pairs env (.round r)) :
    Ensures (n.reapPeer env r) (Scene P n) := by
  unfold reapPeer
  simp only []
  split
  · rename_i hexp
    exact scene_removePeer env ht hk fun hp => hP hp hexp.1 hexp.2
  · split
    · refine (talk_sendCmd env _ r Cmd.ping none none []).bind fun n' h => Ensures.ok ?_
      have hlast : Hush n' (n'.setObj r { n'.obj r with evasiveAt := env.now + msec n'.cfg.evTimeout }) :=
        Hush.setObj n' r rfl id
      refine Hush.scene (Hush.trans (Hush.trans ?_ (Hush.of_talk h)) hlast)
      split
      · exact (hush_evasive n _).trans (Hush.emit _ rfl)
      · exact Hush.refl n
    · exact Ensures.ok (Scene.refl n)

/-! ## Runs -/

/-- Every act is a stretch of directory steps. -/
theorem scene_act (env : Env) {n : Node} (ht : Tables n) {a : Act} (ha : n.Enabled a)
    (hP : P → n.Pairs env a) : Ensures (n.act env a) (Scene P n) := by
  cases a with
  | dropDials => exact Ensures.ok (scene_dropDials env ht)
  | maintain => exact (talk_maintainElections env n).mono fun _ h => (Hush.of_talk h).scene
  | round r =>
    obtain ⟨k, hk⟩ := (Dict.mem_values _).1 ha
    exact scene_reapPeer env ht hk hP
  | input input =>
    cases input with
    | peerMsg frames => exact scene_handlePeerMsg env ht frames hP
    | beacon data host =>
      intro n' hn'
      rcases handleBeacon_cases env n data host n' hn' with rfl | ⟨uuid, port, hh, hacc⟩
      · exact Scene.refl n'
      · refine scene_acceptBeacon env ht uuid port (n.beaconKey data) host ?_ n' hacc
        rintro hp rfl r hk
        exact hP hp uuid r hh hk
    | gossip uuidHex endpoint => exact scene_gossipRequire env ht uuidHex endpoint
    | command c => exact scene_runCommand env ht c
    | reap => exact absurd rfl ha
    | setContestInGroup g => exact Ensures.ok (hush_setContestInGroup n g).scene
    | setHeader key value =>
      have hset : Hush n (n.setHeader key value) := Hush.of_eq rfl rfl rfl rfl
      exact Ensures.ok hset.scene
    | pinKey host port publicKey =>
      obtain ⟨keys, hkeys⟩ := learnKey_rest n (hostPort host port) publicKey
      refine Ensures.ok ?_
      unfold pinKey
      rw [hkeys]
      exact (hush_keys n keys).scene
    | recv =>
      have htake : Hush n { n with queue := n.queue.tail } := Hush.of_eq rfl rfl rfl rfl
      exact Ensures.ok htake.scene

/-- The directory of a visited state: its reports so far, and how it stands to each id. -/
theorem Visits.sound {Q : Node → Env → Act → Prop} {n : Node} (h : Visits Q n) :
    n.Frank ∧ Sound (n.events.map Event.notice) n.standing := by
  refine h.invariant (I := fun n => n.Frank ∧ Sound (n.events.map Event.notice) n.standing)
    (fun cfg => ⟨Frank.init cfg, ⟨?_, ?_⟩⟩) fun n env a n' ht hI ha _ hact => ?_
  · rintro a k b hab
    cases a <;> cases hab
  · rintro k hk
    cases hk
  · obtain ⟨hf, hs⟩ := hI
    obtain ⟨hf', l, he, hsteps⟩ := scene_act (P := False) env ht ha nofun n' hact hf
    rw [he, List.map_append]
    exact ⟨hf', hsteps.sound hs⟩

theorem Visits.paired {n : Node} (h : Visits Pairs n) :
    n.Frank ∧ Paired (n.events.map Event.notice) n.standing := by
  refine h.invariant (I := fun n => n.Frank ∧ Paired (n.events.map Event.notice) n.standing)
    (fun cfg => ⟨Frank.init cfg, ⟨?_, ?_⟩⟩) fun n env a n' ht hI ha hP hact => ?_
  · exact fun k => List.isChain_singleton false
  · intro k
    have hstand : (Node.init cfg).standing k = .absent := rfl
    rw [hstand]
    simp [Standing.Greeted, Present, marks, Node.init]
  · obtain ⟨hf, hs⟩ := hI
    obtain ⟨hf', l, he, hsteps⟩ := scene_act (P := True) env ht ha (fun _ => hP) n' hact hf
    rw [he, List.map_append]
    exact ⟨hf', hsteps.paired trivial hs⟩

/-! ## Traffic -/

/-- Every event of `p`'s traffic comes after an ENTER of `p`, with no EXIT in between. -/
def TrafficInside (n : Node) (p : Str) : Prop :=
  ∀ past e rest, n.events = past ++ e :: rest → e.IsTrafficOf p →
    ∃ before name addr after, past = before ++ .enter p name addr :: after ∧
      ∀ name', .exit p name' ∉ after

/-- Traffic is only reported for peers that have entered and not left. -/
theorem Reachable.traffic_inside {n : Node} (hn : n.Reachable) (p : Str) : n.TrafficInside p := by
  intro past e rest hevents he
  have hword : e.notice = .word p := by
    cases e <;> simp only [Event.IsTrafficOf] at he <;> subst he <;> rfl
  have hpresent := hn.visits.sound.2.attended (past.map Event.notice) p (rest.map Event.notice) (by
    rw [hevents, List.map_append, List.map_cons, hword])
  obtain ⟨a, b, hab, hexit⟩ := hpresent.arrived
  obtain ⟨before, l, rfl, -, hl⟩ := List.map_eq_append_iff.1 hab
  obtain ⟨x, after, rfl, hx, rfl⟩ := List.map_eq_cons_iff.1 hl
  cases x <;> simp only [Event.notice] at hx <;> cases hx
  refine ⟨before, _, _, after, rfl, fun name' hmem => hexit ?_⟩
  exact List.mem_map.2 ⟨_, hmem, rfl⟩

/-- A node that has met one member of a group has told about it, and about the group after that. -/
theorem traffic_inside_sampleA :
    (Node.sampleA.after (Env.calm 0) (.peerMsg sampleHello)).TrafficInside (hex sampleUuid) ∧
      (Node.sampleA.after (Env.calm 0) (.peerMsg sampleHello)).events.length = 2 :=
  ⟨((Reachable.init _).after _ _).traffic_inside _, by decide +kernel⟩

/-! ## ENTER and EXIT -/

/-- The ENTER (`true`) and EXIT (`false`) events of the peer `p`. -/
def comings (n : Node) (p : Str) : List Bool := marks p (n.events.map Event.notice)

/-- ENTER and EXIT alternate in every run which greets only peers without a name, and gives up only
peers with one. -/
theorem Visits.alternating {n : Node} (h : Visits Pairs n) (p : Str) : Alternating (n.comings p) :=
  h.paired.2.alternating p

/-- The beacon of the peer `00…02`, for a port. -/
def sampleBeaconData (port : Nat) : Bytes :=
  beaconMagic ++ [beaconVersionV1] ++ sampleUuid ++ portBytes port

/-- The peer comes with a beacon and a HELLO, goes with a beacon for port 0, and comes again. -/
def sampleReturns : List Input :=
  [.beacon (sampleBeaconData 4002) "10.0.0.2".toList, .peerMsg sampleHello,
    .beacon (sampleBeaconData 0) "10.0.0.2".toList, .beacon (sampleBeaconData 4002) "10.0.0.2".toList,
    .peerMsg sampleHello]

/-- The node after the first `k` of these. -/
def sampleStage (k : ℕ) : Node := (sampleReturns.take k).foldl (fun n input => n.after (Env.calm 0) input) sampleA

theorem sampleStage_known {k : ℕ} {y : Str} {r s : Ref} (hs : (sampleStage k).peers.values = [s])
    (hy : (sampleStage k).peers.get y = some r) : r = s := by
  have hr : r ∈ (sampleStage k).peers.values := (Dict.mem_values _).2 ⟨y, hy⟩
  rw [hs] at hr
  exact List.mem_singleton.1 hr

theorem sampleStage_visits : Visits Pairs (sampleStage 5) := by
  have h0 : Visits Pairs (sampleStage 0) := .init _
  have h1 : Visits Pairs (sampleStage 1) := by
    refine h0.input (Env.calm 0) (.beacon (sampleBeaconData 4002) "10.0.0.2".toList) nofun ?_ (by decide +kernel)
    rintro uuid r - hk
    cases hk
  have h2 : Visits Pairs (sampleStage 2) := by
    refine h1.input (Env.calm 0) (.peerMsg sampleHello) nofun ?_ (by decide +kernel)
    rintro uuid msg extra h r - - - hk -
    rw [sampleStage_known (s := 0) (by decide +kernel) hk]
    decide +kernel
  have h3 : Visits Pairs (sampleStage 3) := by
    refine h2.input (Env.calm 0) (.beacon (sampleBeaconData 0) "10.0.0.2".toList) nofun ?_ (by decide +kernel)
    rintro uuid r - hk
    rw [sampleStage_known (s := 0) (by decide +kernel) hk]
    decide +kernel
  have h4 : Visits Pairs (sampleStage 4) := by
    refine h3.input (Env.calm 0) (.beacon (sampleBeaconData 4002) "10.0.0.2".toList) nofun ?_ (by decide +kernel)
    rintro uuid r - hk
    have hempty : (sampleStage 3).peers.values = [] := by decide +kernel
    have hr : r ∈ (sampleStage 3).peers.values := (Dict.mem_values _).2 ⟨_, hk⟩
    rw [hempty] at hr
    cases hr
  refine h4.input (Env.calm 0) (.peerMsg sampleHello) nofun ?_ (by decide +kernel)
  rintro uuid msg extra h r - - - hk -
  rw [sampleStage_known (s := 1) (by decide +kernel) hk]
  decide +kernel

/-- ENTER, EXIT and ENTER. -/
theorem alternating_sampleStage : (sampleStage 5).comings (hex sampleUuid) = [true, false, true] ∧
    Alternating ((sampleStage 5).comings (hex sampleUuid)) :=
  ⟨by decide +kernel, sampleStage_visits.alternating _⟩

/-- A peer is dialled after its beacon, and goes before it says HELLO. -/
def sampleShy : Node :=
  (Node.sampleA.after (Env.calm 0) (.beacon (sampleBeaconData 4002) "10.0.0.2".toList)).after
    (Env.calm 0) (.beacon (sampleBeaconData 0) "10.0.0.2".toList)

/-- The EXIT of a peer that never entered. -/
theorem not_alternating : ¬ ∀ n : Node, n.Reachable → ∀ p, Alternating (n.comings p) := by
  intro hall
  have halt := hall sampleShy (((Reachable.init _).after _ _).after _ _) (hex sampleUuid)
  have hcomings : sampleShy.comings (hex sampleUuid) = [false] := by decide +kernel
  rw [hcomings] at halt
  simp [Alternating] at halt

end Node

end Zre
