import Zre.Proofs.Membership
import Zre.Proofs.RoundTrip

/-!
# Proofs: the peer record and the latest HELLO

What a HELLO leaves in the record of its sender. A new peer gets the socket and the groups that its
HELLO announces; an entry that is already there keeps its socket, and a ready one keeps its groups.
-/

namespace Zre

open Fallible

namespace Node

/-! ## What a HELLO announces -/

/-- The port that a HELLO announces. -/
def announcedPort (n : Node) (h : HelloFields) : Option Int :=
  match splitEndpoint n.cfg.rt (endpointText h.endpoint) with
  | .ok (_, port) => some port
  | .error _ => none

/-- The peer is in the table and ready. -/
def Accepted (n : Node) (rhex : Str) : Prop :=
  ∃ r, n.peers.get rhex = some r ∧ (n.obj r).ready = true

/-- The record of a peer is what the HELLO says: the socket is dialled to its port, and its groups are
those of the HELLO, in the record and in the tables of the groups. -/
def RecordFollows (n : Node) (rhex : Str) (h : HelloFields) : Prop :=
  (∃ r d, n.peers.get rhex = some r ∧ (n.obj r).dealer = some d ∧ n.announcedPort h = some d.port ∧
    ∀ g, g ∈ (n.obj r).groups ↔ g ∈ h.groups) ∧
  ∀ g, (n.member g rhex).isSome = true ↔ g ∈ h.groups

/-- The entry that is there before the HELLO leads to a record that follows it. -/
def RecordFits (n : Node) (rhex : Str) (h : HelloFields) : Prop :=
  match n.peers.get rhex with
  | none => ∀ addr port k r, splitEndpoint n.cfg.rt (endpointText h.endpoint) = .ok (addr, port) →
      n.pendingMatch (dialHost addr) port rhex = some (k, r) → (n.obj r).dealer.isSome = true
  | some r => (∃ d, (n.obj r).dealer = some d ∧ n.announcedPort h = some d.port) ∧
      (∀ g ∈ (n.obj r).groups, g ∈ h.groups) ∧
      ((n.obj r).ready = true → ∀ g ∈ h.groups, g ∈ (n.obj r).groups)

/-! ## The end of `_handle_hello` -/

theorem enterGroup_obj (n : Node) (r : Ref) (g : Bytes) :
    (n.enterGroup r g).obj =
      (n.setObj r { n.obj r with groups := addGroup (n.obj r).groups g }).obj := by
  have hrest := openGroup_rest n g
  unfold enterGroup joinTable setGroup setObj
  rw [hrest]

theorem enterGroups_obj (n : Node) (r : Ref) (gs : List Bytes) :
    ∃ groups, ((gs.foldl (fun n g => n.enterGroup r g) n).obj r) = { n.obj r with groups := groups } ∧
      ∀ g, g ∈ groups ↔ g ∈ (n.obj r).groups ∨ g ∈ gs := by
  induction gs generalizing n with
  | nil => exact ⟨(n.obj r).groups, rfl, by simp⟩
  | cons g gs ih =>
    obtain ⟨groups, hobj, hmem⟩ := ih (n.enterGroup r g)
    have hself : (n.enterGroup r g).obj r = { n.obj r with groups := addGroup (n.obj r).groups g } := by
      rw [enterGroup_obj, setObj_obj_self]
    refine ⟨groups, by rw [List.foldl_cons, hobj, hself], fun x => ?_⟩
    rw [hmem, hself, List.mem_cons]
    simp only [mem_addGroup]
    tauto

theorem enterGroups_peers (n : Node) (r : Ref) (gs : List Bytes) :
    (gs.foldl (fun n g => n.enterGroup r g) n).peers = n.peers := by
  induction gs generalizing n with
  | nil => rfl
  | cons g gs ih =>
    rw [List.foldl_cons, ih]
    show (n.openGroup g).peers = n.peers
    rw [openGroup_rest]

theorem talk_startElections (env : Env) (n : Node) (gs : List Bytes) :
    Ensures (gs.foldlM (fun n g => n.startElection env g) n) (Talk env.Lossless Handed.IsElection n) :=
  Ensures.foldlM_rel (Talk.refl _ _) (fun _ _ _ => Talk.trans)
    fun m g _ => talk_startElection env m g

/-- The groups of the HELLO are added to the record; a peer that is ready at the end has kept its
socket. -/
theorem enterPeer_record (env : Env) (n : Node) (rhex : Str) (r : Ref) (h : HelloFields) (epStr : Str)
    (helloReply : Bool) :
    Ensures (n.enterPeer env rhex r h epStr helloReply) fun n' =>
      n'.peers = n.peers ∧ (∀ g, g ∈ (n'.obj r).groups ↔ g ∈ (n.obj r).groups ∨ g ∈ h.groups) ∧
      ((n'.obj r).ready = true → (n'.obj r).dealer = (n.obj r).dealer) := by
  intro n' hn'
  obtain ⟨n2, h2, hn'⟩ := bind_eq_ok_iff.1 hn'
  have ht1 := talk_replyHello env _ r helloReply n2 h2
  have ht2 := talk_startElections env _ h.groups n' hn'
  set n1 := n.setObj r { (n.obj r).announce h with ready := true, endpointStr := epStr } with hn1
  set n3 := h.groups.foldl (fun n g => n.enterGroup r g) n2 with hn3
  have hobj1 : n1.obj r = { (n.obj r).announce h with ready := true, endpointStr := epStr } :=
    setObj_obj_self n r _
  obtain ⟨groups, hobj3, hmem⟩ := enterGroups_obj n2 r h.groups
  have hemits := emits_rest (n3.emit (.enter rhex (pname (n3.obj r)) epStr))
    (fun g => .join rhex (pname (n3.obj r)) (bdec g)) h.groups
  have hobj4 : ∀ s, ((h.groups.foldl (fun n g => n.emit (.join rhex (pname (n3.obj r)) (bdec g)))
      (n3.emit (.enter rhex (pname (n3.obj r)) epStr))).obj s) = n3.obj s := fun s => by
    rw [hemits]
    rfl
  refine ⟨?_, fun g => ?_, fun hready => ?_⟩
  · rw [ht2.peers, hemits]
    exact (enterGroups_peers n2 r h.groups).trans ht1.peers
  · rw [ht2.groups, hobj4, hobj3]
    show g ∈ groups ↔ _
    rw [hmem, ht1.groups, hobj1]
    rfl
  · obtain ⟨s, hs⟩ := (ht2.obj r).of_ready hready
    rw [hs, hobj4, hobj3] at hready ⊢
    obtain ⟨s', hs'⟩ := (ht1.obj r).of_ready hready
    rw [hs', hobj1]
    rfl

/-! ## The four paths -/

/-- The record of `rhex` in `n'` is what the HELLO says. -/
def RecordIs (n' : Node) (rhex : Str) (port : Option Int) (gs : List Bytes) : Prop :=
  ∃ r d, n'.peers.get rhex = some r ∧ (n'.obj r).dealer = some d ∧ port = some d.port ∧
    ∀ g, g ∈ (n'.obj r).groups ↔ g ∈ gs

theorem recordIs_iff {n' : Node} {rhex : Str} {r : Ref} (hk : n'.peers.get rhex = some r)
    (port : Option Int) (gs : List Bytes) :
    n'.RecordIs rhex port gs ↔ (∃ d, (n'.obj r).dealer = some d ∧ port = some d.port) ∧
      ∀ g, g ∈ (n'.obj r).groups ↔ g ∈ gs := by
  constructor
  · rintro ⟨s, d, hs, hd, hport, hgs⟩
    rw [hk] at hs
    cases hs
    exact ⟨⟨d, hd, hport⟩, hgs⟩
  · rintro ⟨⟨d, hd, hport⟩, hgs⟩
    exact ⟨r, d, hk, hd, hport, hgs⟩

theorem recordFits_iff {n : Node} {rhex : Str} {r : Ref} (hk : n.peers.get rhex = some r)
    (h : HelloFields) :
    n.RecordFits rhex h ↔ (∃ d, (n.obj r).dealer = some d ∧ n.announcedPort h = some d.port) ∧
      (∀ g ∈ (n.obj r).groups, g ∈ h.groups) ∧
      ((n.obj r).ready = true → ∀ g ∈ h.groups, g ∈ (n.obj r).groups) := by
  unfold RecordFits
  rw [hk]

/-- A ready peer whose socket and groups are left alone. -/
theorem record_kept {n n' : Node} {rhex : Str} {r : Ref} (hk : n.peers.get rhex = some r)
    (hready : (n.obj r).ready = true) (hp : n'.peers = n.peers)
    (hd : (n'.obj r).dealer = (n.obj r).dealer) (hg : (n'.obj r).groups = (n.obj r).groups)
    (h : HelloFields) :
    n'.RecordIs rhex (n.announcedPort h) h.groups ↔ n.RecordFits rhex h := by
  rw [recordIs_iff (by rw [hp]; exact hk), recordFits_iff hk, hd, hg]
  refine and_congr_right fun _ => ⟨fun hgs => ?_, fun hgs g => ?_⟩
  · exact ⟨fun g => (hgs g).1, fun _ g => (hgs g).2⟩
  · exact ⟨hgs.1 g, hgs.2 hready g⟩

/-- A known peer that becomes ready: the groups of the HELLO are added. -/
theorem record_known {n n' : Node} {rhex : Str} {r : Ref} (hk : n.peers.get rhex = some r)
    (hready : (n.obj r).ready = false) (hp : n'.peers = n.peers)
    (hd : (n'.obj r).dealer = (n.obj r).dealer) {h : HelloFields}
    (hg : ∀ g, g ∈ (n'.obj r).groups ↔ g ∈ (n.obj r).groups ∨ g ∈ h.groups) :
    n'.RecordIs rhex (n.announcedPort h) h.groups ↔ n.RecordFits rhex h := by
  rw [recordIs_iff (by rw [hp]; exact hk), recordFits_iff hk, hd]
  refine and_congr_right fun _ => ⟨fun hgs => ⟨fun g hmem => ?_, fun hr => ?_⟩, fun hgs g => ?_⟩
  · exact (hgs g).1 ((hg g).2 (Or.inl hmem))
  · rw [hready] at hr; cases hr
  · rw [hg]
    exact ⟨fun hmem => hmem.elim (hgs.1 g) id, Or.inr⟩

theorem pendingMatch_port {n : Node} {addr : Str} {port : Int} {rhex k : Str} {r : Ref}
    (h : n.pendingMatch addr port rhex = some (k, r)) : (n.obj r).port = port := by
  unfold pendingMatch at h
  split at h
  · rename_i e he
    cases h
    have := List.find?_some he
    simp only [decide_eq_true_eq] at this
    exact this.2
  · have := List.find?_some h
    simp only [Bool.decide_and, Bool.and_eq_true, decide_eq_true_eq] at this
    exact this.1

/-- A new peer: the adopted dial has the announced port and no groups; a dial of its own always fits. -/
theorem record_new (env : Env) {n : Node} (ht : Tables n) (hl : Links n) {rhex : Str}
    (hk : n.peers.get rhex = none) (h : HelloFields) :
    Ensures (n.helloFromNew env rhex h) fun n' => n'.Accepted rhex →
      (n'.RecordIs rhex (n.announcedPort h) h.groups ↔ n.RecordFits rhex h) := by
  obtain ⟨keys, hkeys⟩ := learnHelloKeys_rest n rhex h
  have hnot : ∀ {n' : Node}, n'.peers = n.peers → ¬ n'.Accepted rhex := by
    rintro n' hp ⟨r, hr, -⟩
    rw [hp, hk] at hr
    cases hr
  unfold helloFromNew announcedPort RecordFits
  simp only [hkeys, hk]
  cases hs : splitEndpoint n.cfg.rt (endpointText h.endpoint) with
  | error e => exact Ensures.ok fun hacc => absurd hacc (hnot rfl)
  | ok res =>
    obtain ⟨addr, port⟩ := res
    simp only []
    unfold adoptPending
    have hpm : ({ n with peerServerKeys := keys } : Node).pendingMatch (dialHost addr) port rhex =
      n.pendingMatch (dialHost addr) port rhex := rfl
    rw [hpm]
    cases hmatch : n.pendingMatch (dialHost addr) port rhex with
    | some e =>
      obtain ⟨k, r⟩ := e
      simp only []
      refine (enterPeer_record env _ rhex r h _ false).mono fun n' hn' hacc => ?_
      obtain ⟨hp, hg, hd⟩ := hn'
      have hin : n'.peers.get rhex = some r := by
        rw [hp]; exact adoptUnder_peers env { n with peerServerKeys := keys } k r rhex
      obtain ⟨s, hs', hready⟩ := hacc
      rw [hin] at hs'
      cases hs'
      have hobj : (({ n with peerServerKeys := keys }.adoptUnder env k r rhex).obj r) =
          ({ n.obj r with uuidHex := rhex }.refresh env.now n.cfg.evTimeout n.cfg.exTimeout) :=
        setObj_obj_self _ r _
      have hdealer : (n'.obj r).dealer = (n.obj r).dealer := by
        rw [hd hready, hobj]; rfl
      have hidle : (n.obj r).groups = [] := ht.pendingIdle k r (pendingMatch_mem hmatch)
      rw [recordIs_iff hin, hdealer]
      constructor
      · rintro ⟨⟨d, hrd, -⟩, -⟩ addr' port' k' r' ⟨⟩ hm'
        rw [hmatch] at hm'
        cases hm'
        rw [hrd]
        rfl
      · intro hopen
        obtain ⟨d, hrd⟩ := Option.isSome_iff_exists.1 (hopen addr port k r rfl hmatch)
        refine ⟨⟨d, hrd, ?_⟩, fun g => ?_⟩
        · rw [hl.port hrd, pendingMatch_port hmatch]
        · rw [hg, hobj]
          show g ∈ (n.obj r).groups ∨ _ ↔ _
          rw [hidle]
          simp
    | none =>
      simp only []
      unfold dialPeer
      cases hopen : { n with peerServerKeys := keys }.openPeer env rhex (dialHost addr) port
          (some rhex) with
      | mk o n1 =>
        cases o with
        | none =>
          refine Ensures.ok fun hacc => absurd hacc (hnot ?_)
          exact (moves_openPeer_none anything anything hopen).2.1
        | some r =>
          obtain ⟨rfl, curve, rfl⟩ := openPeer_some hopen
          refine (enterPeer_record env _ rhex _ h _ true).mono fun n' hn' hacc => ?_
          obtain ⟨hp, hg, hd⟩ := hn'
          have hin : n'.peers.get rhex = some n.nextRef := by
            rw [hp]; exact Dict.get_set_self n.peers rhex n.nextRef
          obtain ⟨s, hs', hready⟩ := hacc
          rw [hin] at hs'
          cases hs'
          have hobj := allocated_obj_self { n with peerServerKeys := keys }
            (opened env { n with peerServerKeys := keys } rhex (dialHost addr) port curve)
          refine iff_of_true ?_ ?_
          · rw [recordIs_iff hin, hd hready]
            refine ⟨⟨{ sock := n.sockets, identity := 1 :: n.cfg.peerId, addr := dialHost addr
                       port, curve }, congrArg Peer.dealer hobj, rfl⟩, fun g => ?_⟩
            have hidle := congrArg Peer.groups hobj
            refine (hg g).trans ⟨fun hmem => hmem.elim (fun hmem => ?_) id, Or.inr⟩
            have hnil : g ∈ ([] : List Bytes) := Eq.mp (congrArg (g ∈ ·) hidle) hmem
            cases hnil
          · rintro addr' port' k r ⟨⟩ hm'
            rw [hmatch] at hm'
            cases hm'

/-! ## Handling a HELLO -/

theorem helloFromLive_obj (env : Env) (n : Node) (r : Ref) (h : HelloFields) :
    (n.helloFromLive env r h).obj r =
      ((n.obj r).refresh env.now n.cfg.evTimeout n.cfg.exTimeout).announce h := by
  simp only [helloFromLive, refreshPeer, setObj_obj_self]

theorem handleHello_record (env : Env) {n : Node} (ht : Tables n) (hl : Links n) {rhex : Str}
    (hown : rhex ≠ n.cfg.peerIdHex) (h : HelloFields) :
    Ensures (n.handleHello env rhex h (n.peers.get rhex)) fun n' => n'.Accepted rhex →
      (n'.RecordIs rhex (n.announcedPort h) h.groups ↔ n.RecordFits rhex h) := by
  have hsame : n.Accepted rhex →
      (n.RecordIs rhex (n.announcedPort h) h.groups ↔ n.RecordFits rhex h) := by
    rintro ⟨r, hk, hready⟩
    exact record_kept hk hready rfl rfl rfl h
  unfold handleHello
  split
  · exact Ensures.ok hsame
  · split
    · exact Ensures.ok hsame
    · cases hk : n.peers.get rhex with
      | none =>
        have hm0 : Moves anything anything n { n with evasiveEmitAt := n.evasiveEmitAt.pop rhex } :=
          moves_quiet rfl
        simp only [hk]
        exact record_new env (hm0.invariant Tables.move ht) (hm0.invariant Links.move hl) hk h
      | some r =>
        simp only [hk]
        cases hready : (n.obj r).ready with
        | true =>
          refine Ensures.ok fun _ => record_kept hk hready (by rfl) ?_ ?_ h <;>
            rw [helloFromLive_obj] <;> rfl
        | false =>
          refine (enterPeer_record env _ rhex r h _ false).mono fun n' hn' hacc => ?_
          obtain ⟨hp, hg, hd⟩ := hn'
          obtain ⟨s, hs, hrd⟩ := hacc
          have hin : n'.peers.get rhex = some r := by rw [hp]; exact hk
          rw [hin] at hs
          cases hs
          exact record_known hk hready hp (hd hrd) hg

/-- In every reachable state, after a HELLO of a foreign peer that is ready afterwards, the record of
that peer is what the HELLO says exactly when there was no entry for it before (and no dead dial was
adopted), or the old entry has its socket on the announced port and its groups fit those of the
HELLO. -/
theorem Reachable.record_follows_iff {n n' : Node} (hn : n.Reachable) {env : Env}
    {routingId data uuid : Bytes} {extra : List Bytes} {msg : Msg} {h : HelloFields}
    (hr : routingUuid routingId = some uuid) (hd : Codec.decode data = .ok (some msg))
    (hf : msg.fields = .hello h) (hforeign : uuid ≠ n.cfg.peerId)
    (hrun : n.handlePeerMsg env (routingId :: data :: extra) = .ok n')
    (hacc : n'.Accepted (hex uuid)) : n'.RecordFollows (hex uuid) h ↔ n.RecordFits (hex uuid) h := by
  have hown : hex uuid ≠ n.cfg.peerIdHex := fun e => hforeign (hex_injective e)
  have hmoves := moves_handlePeerMsg env hn.tables (routingId :: data :: extra) n' hrun
  have ht' := hmoves.invariant Tables.move hn.tables
  have hrec : n'.RecordIs (hex uuid) (n.announcedPort h) h.groups ↔ n.RecordFits (hex uuid) h := by
    obtain ⟨cmd, ver, seq, fields⟩ := msg
    cases hf
    unfold handlePeerMsg at hrun
    simp only [hr, hd, bind_ok] at hrun
    cases hk : n.peers.get (hex uuid) with
    | none =>
      rw [hk] at hrun
      have hout := handleHello_record env hn.tables hn.links hown h
      rw [hk] at hout
      exact hout n' hrun hacc
    | some r =>
      rw [hk] at hrun
      have hm0 : Moves anything anything n (n.setObj r { n.obj r with wantSeq := 1 }) :=
        moves_wantSeq n r 1
      have hk0 : (n.setObj r { n.obj r with wantSeq := 1 }).peers.get (hex uuid) = some r := hk
      have hout := handleHello_record env (hm0.invariant Tables.move hn.tables)
        (hm0.invariant Links.move hn.links) hown h
      rw [hk0] at hout
      refine (hout n' hrun hacc).trans ?_
      rw [recordFits_iff hk0, recordFits_iff hk, setObj_obj_self]
      rfl
  rw [← hrec]
  have hport : n'.announcedPort h = n.announcedPort h := by
    unfold announcedPort
    rw [moves_cfg hmoves]
  unfold RecordFollows
  rw [hport]
  -- the tables of the groups agree with the record
  refine and_iff_left_of_imp ?_
  rintro ⟨r, d, hk, -, -, hgs⟩ g
  rw [← hgs]
  constructor
  · intro hm
    obtain ⟨s, hs⟩ := Option.isSome_iff_exists.1 hm
    obtain ⟨hk', hmem⟩ := (ht'.member g (hex uuid) s).1 hs
    rw [hk] at hk'
    cases hk'
    exact hmem
  · intro hmem
    rw [(ht'.member g (hex uuid) r).2 ⟨hk, hmem⟩]
    rfl

theorem sampleFields_fits : Codec.HelloFits sampleFields := by
  constructor <;> decide

/-- The first HELLO of a peer that is new to the node is followed. -/
theorem first_hello_followed :
    (sampleA.after (Env.calm 0) (.peerMsg sampleHello)).RecordFollows (hex sampleUuid) sampleFields := by
  have hdec : Codec.decode (Codec.helloBytes 1 sampleFields) =
      .ok (some ⟨Cmd.hello, zreVersion, 1, .hello sampleFields⟩) :=
    Codec.decode_hello (by decide) sampleFields_fits
  have hraised : raised (sampleA.handlePeerMsg (Env.calm 0) sampleHello) = none := by decide +kernel
  have hrun := handlePeerMsg_after hraised
  have huuid : routingUuid (1 :: sampleUuid) = some sampleUuid := by decide +kernel
  have hacc : (sampleA.after (Env.calm 0) (.peerMsg sampleHello)).Accepted (hex sampleUuid) :=
    ⟨0, by decide +kernel, by decide +kernel⟩
  refine (Reachable.record_follows_iff (Reachable.init sampleA.cfg) huuid hdec rfl (by decide +kernel)
    hrun hacc).2 ?_
  intro addr port k r _ hm
  simp [pendingMatch, init, Dict.empty] at hm

/-- What the peer `00…02` announces after a restart on port 4003, without groups. -/
def restartedFields : HelloFields :=
  ⟨encodeStr "tcp://10.0.0.2:4003".toList, [], 0, [0x42], Dict.empty⟩

/-- The node that has met the peer on port 4002 hears of its restart. -/
def restartMet : Node :=
  (sampleA.after (Env.calm 0) (.peerMsg sampleHello)).after (Env.calm 0)
    (.peerMsg [1 :: sampleUuid, Codec.helloBytes 1 restartedFields])

/-- The record of a peer that restarts on another port does not follow its HELLO. -/
theorem not_record_always_follows :
    ¬ ∀ (n n' : Node) (env : Env) (routingId data uuid : Bytes) (extra : List Bytes) (msg : Msg)
      (h : HelloFields), n.Reachable → routingUuid routingId = some uuid →
      Codec.decode data = .ok (some msg) → msg.fields = .hello h → uuid ≠ n.cfg.peerId →
      n.handlePeerMsg env (routingId :: data :: extra) = .ok n' → n'.Accepted (hex uuid) →
      n'.RecordFollows (hex uuid) h := by
  intro hall
  have hdec : Codec.decode (Codec.helloBytes 1 restartedFields) =
      .ok (some ⟨Cmd.hello, zreVersion, 1, .hello restartedFields⟩) :=
    Codec.decode_hello (by decide) (by constructor <;> decide)
  have hn := (Reachable.init sampleA.cfg).after (Env.calm 0) (.peerMsg sampleHello)
  have hraised : raised ((sampleA.after (Env.calm 0) (.peerMsg sampleHello)).handlePeerMsg (Env.calm 0)
      [1 :: sampleUuid, Codec.helloBytes 1 restartedFields]) = none := by decide +kernel
  have hrun := handlePeerMsg_after hraised
  have hk : restartMet.peers.get (hex sampleUuid) = some 0 := by decide +kernel
  have hacc : restartMet.Accepted (hex sampleUuid) := ⟨0, hk, by decide +kernel⟩
  have hg : [0x67] ∈ (restartMet.obj 0).groups := by decide +kernel
  have hfollows : restartMet.RecordFollows (hex sampleUuid) restartedFields :=
    hall _ _ _ (1 :: sampleUuid) _ sampleUuid [] _ _ hn (by decide +kernel) hdec rfl (by decide +kernel)
      hrun hacc
  obtain ⟨⟨r, d, hr, -, -, hgs⟩, -⟩ := hfollows
  rw [hk] at hr
  cases hr
  exact absurd ((hgs _).1 hg) (by decide)

end Node

end Zre
