import Zre.Proofs.Crash

/-!
# Proofs: what a node reports

What each handler passes to `_emit` about the peers, in the order in which it does; the LEADER events are left aside.
-/

namespace Zre

open Fallible

def Event.isLeader : Event → Bool
  | .leader _ _ _ => true
  | _ => false

namespace Node

/-- What was passed to `_emit` about the peers. -/
def report (n : Node) : List Event := n.events.filter fun e => !e.isLeader

theorem report_congr {n n' : Node} (h : n'.events = n.events) : n'.report = n.report := by rw [report, h, report]

theorem report_emit (n : Node) {e : Event} (he : e.isLeader = false) : (n.emit e).report = n.report ++ [e] := by
  simp [report, emit, he]

/-- One event after a stretch that reports nothing. -/
theorem report_emitted {n m n' : Node} {e : Event} (hm : m.report = n.report) (he : e.isLeader = false)
    (h : n'.report = (m.emit e).report) : n'.report = n.report ++ [e] := by
  rw [h, report_emit m he, hm]

end Node

theorem Talk.report {L : Prop} {K : Handed → Prop} {n n' : Node} (h : Talk L K n n') : n'.report = n.report := by
  obtain ⟨l, hl, hlead⟩ := h.events
  have hnone : l.filter (fun e => !e.isLeader) = [] := by
    refine List.filter_eq_nil_iff.2 fun e he => ?_
    have hlead := hlead e he
    cases e <;> first | exact Bool.false_ne_true | exact hlead.elim
  rw [Node.report, hl, List.filter_append, hnone, List.append_nil]
  rfl

namespace Node

section

variable {env : Env} {n n' : Node}

theorem emits_report (n : Node) {e : Bytes → Event} (he : ∀ g, (e g).isLeader = false) (gs : List Bytes) :
    (gs.foldl (fun n g => n.emit (e g)) n).report = n.report ++ gs.map e := by
  induction gs generalizing n with
  | nil => simp
  | cons g gs ih => rw [List.foldl_cons, ih, report_emit n (he g), List.map_cons, List.append_assoc]; rfl

/-! ## Discovery -/

theorem openPeer_report {uuidHex addr : Str} {port : Int} {rhex : Option Str} {res : Option Ref}
    (h : n.openPeer env uuidHex addr port rhex = (res, n')) : n'.report = n.report := by
  rcases openPeer_cases env n uuidHex addr port rhex with h' | ⟨p, -, -, h'⟩ | ⟨curve, h'⟩ <;>
    rw [h] at h' <;> cases h' <;> rfl

theorem dialPeer_report {rhex addr : Str} {port : Int} {res : Option Ref}
    (h : n.dialPeer env rhex addr port = (res, n')) : n'.report = n.report := by
  unfold dialPeer at h
  cases hopen : n.openPeer env rhex addr port (some rhex) with
  | mk o m =>
    have hsame := openPeer_report hopen
    rw [hopen] at h
    cases o <;> cases h <;> exact hsame

theorem adoptPending_report {rhex addr : Str} {port : Int} {res : Option Ref}
    (h : n.adoptPending env addr port rhex = (res, n')) : n'.report = n.report := by
  unfold adoptPending at h
  split at h <;> cases h <;> rfl

theorem sendHello_report (r : Ref) : Ensures (n.sendHello env r) fun n' => n'.report = n.report :=
  (talk_sendHello env n r).mono fun _ h => h.report

theorem meetPeer_report (rhex addr : Str) (port : Int) :
    Ensures (n.meetPeer env rhex addr port) fun n' => n'.report = n.report := by
  unfold meetPeer
  cases ha : n.adoptPending env addr port rhex with
  | mk o n1 =>
    have h1 := adoptPending_report ha
    cases o with
    | some r => exact (sendHello_report r).mono fun _ h => h.trans h1
    | none =>
      simp only []
      cases hd : n1.dialPeer env rhex addr port with
      | mk o n2 =>
        have h2 := dialPeer_report hd
        cases o with
        | some r => exact (sendHello_report r).mono fun _ h => h.trans (h2.trans h1)
        | none => exact Ensures.ok (h2.trans h1)

theorem doConnect_report (host : Str) (port : Int) :
    Ensures (n.doConnect env host port) fun n' => n'.report = n.report := by
  unfold doConnect
  split
  · exact Ensures.ok rfl
  split
  · exact Ensures.ok rfl
  simp only []
  split
  · exact Ensures.ok rfl
  cases hopen : n.openPeer env (pendingKey host port) host port none with
  | mk o m =>
    have h1 := openPeer_report hopen
    cases o with
    | none => exact Ensures.ok h1
    | some r => exact (sendHello_report r).mono fun _ h => h.trans h1

/-! ## HELLO -/

/-- An ENTER, and a JOIN for each of the groups. -/
def entries (y name address : Str) (gs : List Bytes) : List Event :=
  .enter y name address :: gs.map fun g => .join y name (bdec g)

theorem startElections_report (gs : List Bytes) :
    Ensures (gs.foldlM (fun n g => n.startElection env g) n) fun n' => n'.report = n.report :=
  Ensures.foldlM rfl fun m g _ hm => (talk_startElection env m g).mono fun _ h => h.report.trans hm

theorem enterPeer_report (y : Str) (r : Ref) (h : HelloFields) (epStr : Str) (reply : Bool) :
    Ensures (n.enterPeer env y r h epStr reply) fun n' =>
      ∃ name, n'.report = n.report ++ entries y name epStr h.groups := by
  unfold enterPeer
  simp only []
  refine (talk_replyHello env _ r reply).bind fun n2 h2 => ?_
  obtain ⟨groups, obj, hrest⟩ := enterGroups_rest n2 r h.groups
  set n3 := h.groups.foldl (fun n g => n.enterGroup r g) n2
  have h3 : n3.report = n2.report := by rw [hrest]; rfl
  refine (startElections_report h.groups).mono fun n' hn' => ⟨pname (n3.obj r), ?_⟩
  rw [hn', emits_report _ (fun _ => rfl), report_emit n3 rfl, h3, h2.report, List.append_assoc]
  rfl

/-! ## Departures -/

theorem restartElections_report (gs : List Bytes) :
    Ensures (n.restartElections env gs) fun n' => n'.report = n.report :=
  Ensures.foldlM rfl fun m g _ hm => (talk_restartElectionIfNeeded env m g).mono fun _ h => h.report.trans hm

theorem forgotten_report (k : Str) (r : Ref) (gone : List Bytes) :
    ∃ name, (n.forgotten k r gone).report = n.report ++ [.exit k name] := by
  exact ⟨pname (n.obj r), report_emit _ rfl⟩

theorem removePeer_report {k : Str} {r : Ref} (hkey : (n.obj r).uuidHex = k) :
    Ensures (n.removePeer env r) fun n' => ∃ name, n'.report = n.report ++ [.exit k name] := by
  rw [removePeer_eq env hkey]
  obtain ⟨name, hname⟩ := forgotten_report (n := n) k r (env.order (n.obj r).groups)
  exact (restartElections_report _).mono fun n' h => ⟨name, h.trans hname⟩

/-! ## Messages -/

/-- What a message of the ready peer `y` has the node report. -/
def told (y name : Str) (msg : Msg) (extra : List Bytes) : List Event :=
  if msg.cmd = Cmd.whisper then [.whisper y name (extra.headD [])]
  else if msg.cmd = Cmd.goodbye then [.exit y name]
  else if msg.cmd = Cmd.ping ∨ msg.cmd = Cmd.pingOk then []
  else match msg.fields with
    | .group g => if msg.cmd = Cmd.shout then [.shout y name (bdec g) (extra.headD [])] else []
    | .groupStatus g _ =>
      if g = [] then []
      else if msg.cmd = Cmd.join then [.join y name (bdec g)]
      else if msg.cmd = Cmd.leave then [.leave y name (bdec g)]
      else []
    | _ => []

theorem handleJoin_report (y : Str) (r : Ref) (g : Bytes) :
    Ensures (n.handleJoin env y r g) fun n' =>
      ∃ name, n'.report = n.report ++ if g = [] then [] else [.join y name (bdec g)] := by
  unfold handleJoin
  by_cases hg : g = []
  · rw [if_pos hg]
    exact Ensures.ok ⟨[], by simp [hg]⟩
  · rw [if_neg hg]
    simp only [if_neg hg]
    refine (talk_startElection env _ g).mono fun n' h => ⟨_, report_emitted (report_congr ?_) rfl h.report⟩
    rw [joinTable, setGroup, requireGroup_rest]
    rfl

theorem handleLeave_report (y : Str) (r : Ref) (g : Bytes) :
    Ensures (n.handleLeave env y r g) fun n' =>
      ∃ name, n'.report = n.report ++ if g = [] then [] else [.leave y name (bdec g)] := by
  unfold handleLeave
  by_cases hg : g = []
  · rw [if_pos hg]
    exact Ensures.ok ⟨[], by simp [hg]⟩
  · rw [if_neg hg]
    simp only [if_neg hg]
    refine (talk_restartElectionIfNeeded env _ g).mono fun n' h =>
      ⟨_, report_emitted (report_congr ?_) rfl h.report⟩
    rw [leaveTable_rest]
    rfl

theorem dispatch_report {y : Str} {r : Ref} (hkey : (n.obj r).uuidHex = y) (msg : Msg) (extra : List Bytes) :
    Ensures (n.dispatch env y r msg extra) fun n' => ∃ name, n'.report = n.report ++ told y name msg extra := by
  have hnone : ∀ {n' : Node}, n'.report = n.report → ∃ name : Str, n'.report = n.report ++ [] := fun h =>
    ⟨[], by rw [h, List.append_nil]⟩
  unfold dispatch told
  simp only []
  split
  · exact Ensures.ok ⟨_, report_emit n rfl⟩
  split
  · exact removePeer_report hkey
  split
  · rename_i hping
    simp only [hping, true_or, if_true]
    exact (talk_sendCmd env n r Cmd.pingOk none none []).mono fun n' h => hnone h.report
  split
  · rename_i hping
    simp only [hping, or_true, if_true]
    exact Ensures.ok (hnone rfl)
  rename_i hping hpingOk
  simp only [hping, hpingOk, or_self, if_false]
  cases msg.fields with
  | group g =>
    simp only []
    split
    · exact Ensures.ok ⟨_, report_emit n rfl⟩
    · exact Ensures.ok (hnone rfl)
  | groupStatus g status =>
    simp only []
    split
    · exact handleJoin_report y r g
    split
    · exact handleLeave_report y r g
    · rw [ite_self]
      exact Ensures.ok (hnone rfl)
  | election g id =>
    simp only []
    split
    · exact (talk_handleElect env n r g id).mono fun _ h => hnone h.report
    split
    · exact (talk_handleLeader env n g id).mono fun _ h => hnone h.report
    · exact Ensures.ok (hnone rfl)
  | none | hello => exact Ensures.ok (hnone rfl)

theorem arrive_report (y : Str) (r : Ref) (msg : Msg) : (n.arrive env y r msg).report = n.report := by
  have hcheck : ∀ m : Node, (m.checkSeq r msg.cmd msg.seq).events = m.events := fun m => by
    rw [checkSeq_rest]
  unfold arrive
  split <;> exact report_congr (hcheck _)

theorem handleTraffic_report {y : Str} {r : Ref} (hkey : (n.obj r).uuidHex = y) (msg : Msg) (extra : List Bytes) :
    Ensures (n.handleTraffic env y r msg extra) fun n' => ∃ name, n'.report = n.report ++ told y name msg extra := by
  have hkey' : ((n.arrive env y r msg).obj r).uuidHex = y :=
    (arrive_congr Peer.uuidHex (fun _ _ => rfl) (fun _ _ _ _ => rfl) env n y r msg r).trans hkey
  rw [← arrive_report y r msg]
  exact dispatch_report hkey' msg extra

/-! ## Beacons, tuples and commands -/

theorem acceptBeacon_report (uuid : Bytes) {port : Nat} (hport : port ≠ 0) (key : Option Bytes) (host : Str) :
    Ensures (n.acceptBeacon env uuid port key host) fun n' => n'.report = n.report := by
  obtain ⟨keys, hkeys⟩ := learnBeaconKey_rest n (hex uuid) host port key
  unfold acceptBeacon
  by_cases hown : uuid = n.cfg.peerId
  · rw [if_pos hown]
    split
    · exact Ensures.error
    · exact Ensures.ok rfl
  · rw [if_neg hown, if_neg hport]
    simp only [hkeys]
    split
    · exact Ensures.ok rfl
    · exact meetPeer_report _ _ _

theorem gossipRequire_report (uuidHex endpoint : Str) :
    Ensures (n.gossipRequire env uuidHex endpoint) fun n' => n'.report = n.report := by
  obtain ⟨keys, hkeys⟩ := learnTupleKey_rest n (n.cfg.rt.lower uuidHex) endpoint
  unfold gossipRequire
  split
  · exact Ensures.ok rfl
  simp only []
  split
  · exact Ensures.ok rfl
  simp only [hkeys]
  split
  · exact Ensures.ok rfl
  · exact Ensures.error
  · split
    · exact Ensures.ok rfl
    · exact meetPeer_report _ _ _

theorem sendToPeers_report (cmd : UInt8) (group : Option Bytes) (status : Option ℕ) :
    Ensures (n.sendToPeers env cmd group status) fun n' => n'.report = n.report :=
  Ensures.foldlM rfl fun m r _ hm => (talk_sendCmd env m r cmd group status []).mono fun _ h => h.report.trans hm

theorem runCommand_report (c : Command) : Ensures (n.runCommand env c) fun n' => n'.report = n.report := by
  cases c with
  | join g =>
    unfold runCommand joinGroup
    simp only []
    split
    · exact Ensures.ok rfl
    · refine (sendToPeers_report _ _ _).mono fun n' h => h.trans (report_congr ?_)
      rw [requireGroup_rest]
  | leave g =>
    unfold runCommand leaveGroup
    simp only []
    split
    · exact Ensures.ok rfl
    · exact sendToPeers_report _ _ _
  | whisper peerHex payload =>
    have hany : Ensures (decodeStrict peerHex) fun _ => True := fun _ _ => trivial
    refine hany.bind fun peerId _ => ?_
    split
    · split
      · exact (talk_sendCmd env n _ _ _ _ _).mono fun _ h => h.report
      · exact Ensures.ok rfl
    · exact Ensures.ok rfl
  | shout g payload =>
    unfold runCommand doShout
    simp only []
    split
    · refine Ensures.foldlM rfl fun m r _ hm => ?_
      split
      · exact (talk_sendEncoded env m r (K := anything) fun _ _ _ _ _ => trivial).bind
          fun _ h => Ensures.ok (h.report.trans hm)
      · exact Ensures.ok hm
    · exact Ensures.ok rfl
  | connect host port => exact doConnect_report host port

end

end Node

end Zre
