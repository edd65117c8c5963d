import Zre.Lib.Roster
import Zre.Proofs.Departure
import Zre.Proofs.Record
import Zre.Proofs.Reports
import Zre.Proofs.Signals
import Zre.Proofs.Utf8
import Zre.Queries

/-!
# Proofs: what an application can make of the events

An application that follows the ENTER, EXIT, JOIN and LEAVE events keeps a roster of the peers and their groups. As
long as the event queue never fills up, the application gets every event. Then its roster never has more than the
node's own tables, and it has the same where every group name that arrives is the encoding of a text: names that are
not can look alike.
-/

namespace Zre

open Fallible Attendance Roster

/-- What an event changes in a roster. -/
def Event.rosterReport : Event → Report Str Str
  | .enter id _ _ => .enter id
  | .exit id _ => .exit id
  | .join id _ g => .join id g
  | .leave id _ g => .leave id g
  | .whisper id _ _ => .word id
  | .shout id _ _ _ => .word id
  | .leader _ _ _ => .other
  | .evasive _ _ => .other
  | .collision _ => .other

theorem Event.rosterReport_notice (e : Event) : e.rosterReport.notice = e.notice := by cases e <;> rfl

/-- The encoding of a text. -/
def IsText (g : Bytes) : Prop := ∃ s, g = encodeStr s

theorem IsText.eq {g g' : Bytes} (h : IsText g) (h' : IsText g') (he : bdec g = bdec g') : g = g' := by
  obtain ⟨s, rfl⟩ := h
  obtain ⟨s', rfl⟩ := h'
  rw [bdec_encodeStr, bdec_encodeStr] at he
  rw [he]

/-- The groups that a message names. -/
def Msg.groupNames (m : Msg) : List Bytes :=
  match m.fields with
  | .hello h => h.groups
  | .groupStatus g _ => [g]
  | _ => []

/-- The roster of an application that has got the events `l`. -/
def rosterOf (l : List Event) : Str → Option (Finset Str) := replay (l.map Event.rosterReport)

namespace Node

/-! ## What the application gets -/

/-- The runs in which the application gets the events `l` and the event queue never fills up. -/
inductive Reads (Q : Node → Env → Act → Prop) : List Event → Node → Prop where
  | init (cfg : Config) : Reads Q [] (Node.init cfg)
  | act {l : List Event} {n n' : Node} (env : Env) (a : Act) (h : Reads Q l n) (ha : n.Enabled a) (hq : Q n env a)
      (hact : n.act env a = .ok n') (hroom : n'.queue.length < queueSize) : Reads Q (l ++ n.taken a) n'

section Reads

variable {Q : Node → Env → Act → Prop} {l : List Event} {n : Node}

theorem Reads.visits (h : Reads Q l n) : Visits Q n := by
  induction h with
  | init cfg => exact .init cfg
  | act env a _ ha hq hact _ ih => exact .act env a ih ha hq hact

/-- Every event has been got or waits in the queue. -/
theorem Reads.complete (h : Reads Q l n) : l ++ n.queue = n.events := by
  induction h with
  | init cfg => rfl
  | @act l n n' env a h ha hq hact hroom ih =>
    by_cases hrecv : a = .input .recv
    · subst hrecv
      cases hact
      have htake : n.queue.take 1 ++ n.queue.tail = n.queue := by
        cases n.queue <;> rfl
      show l ++ n.queue.take 1 ++ n.queue.tail = n.events
      rw [List.append_assoc, htake, ih]
    · have hv := h.visits
      obtain ⟨es, hevents, hqueue⟩ := stir_emits hv.named hrecv (act_stirs env hv.tables ha n' hact)
      rw [hqueue] at hroom
      rw [taken_of_ne hrecv, List.append_nil, hevents, hqueue, Mailbox.offers_of_lt hroom, ← List.append_assoc, ih]

theorem Reads.input (h : Reads Q l n) (env : Env) (input : Input) (hi : input ≠ .reap) (hq : Q n env (.input input))
    (hok : raised (n.step env input) = none) (hroom : (n.after env input).queue.length < queueSize) :
    Reads Q (l ++ n.taken (.input input)) (n.after env input) :=
  h.act env (.input input) hi hq (act_after input hok) hroom

end Reads

/-! ## The groups of the records -/

/-- The groups in the record of a peer. -/
def groupNames (n : Node) (y : Str) : Finset Bytes :=
  match n.peers.get y with
  | none => ∅
  | some r => (n.obj r).groups.toFinset

section GroupNames

variable {n n' : Node} {y k : Str} {r : Ref}

theorem groupNames_some (hk : n.peers.get y = some r) : n.groupNames y = (n.obj r).groups.toFinset := by
  unfold groupNames
  rw [hk]

theorem groupNames_none (hk : n.peers.get y = none) : n.groupNames y = ∅ := by
  unfold groupNames
  rw [hk]

theorem groupNames_congr (hp : n'.peers.get y = n.peers.get y)
    (hg : ∀ r, n.peers.get y = some r → (n'.obj r).groups = (n.obj r).groups) : n'.groupNames y = n.groupNames y := by
  cases hk : n.peers.get y with
  | none => rw [groupNames_none hk, groupNames_none (hp.trans hk)]
  | some r => rw [groupNames_some hk, groupNames_some (hp.trans hk), hg r hk]

/-- The groups of one record are written. -/
theorem groupNames_write (ht : Tables n) (hk : n.peers.get k = some r) (hp : n'.peers = n.peers)
    (hobj : ∀ s, s ≠ r → (n'.obj s).groups = (n.obj s).groups) :
    n'.groupNames k = (n'.obj r).groups.toFinset ∧ ∀ y, y ≠ k → n'.groupNames y = n.groupNames y := by
  refine ⟨groupNames_some (by rw [hp]; exact hk), fun y hy => groupNames_congr (by rw [hp]) fun s hs => hobj s ?_⟩
  rintro rfl
  exact hy ((ht.key y s hs).symm.trans (ht.key k s hk))

theorem toFinset_addGroup (gs : List Bytes) (g : Bytes) : (addGroup gs g).toFinset = insert g gs.toFinset := by
  ext x
  rw [List.mem_toFinset, mem_addGroup, Finset.mem_insert, List.mem_toFinset, or_comm]

theorem toFinset_discardGroup (gs : List Bytes) (g : Bytes) : (discardGroup gs g).toFinset = gs.toFinset.erase g := by
  ext x
  rw [List.mem_toFinset, mem_discardGroup, Finset.mem_erase, List.mem_toFinset, and_comm]

/-- Only the moves that enter, leave and forget change what the records say about groups. -/
theorem groupNames_move {allow : Kind → Prop} {hands : Handed → Prop} (h : Move allow hands n n') (ht : Tables n)
    (he : ¬ allow .enter) (hl : ¬ allow .leave) (hf : ¬ allow .forget) (y : Str) :
    n'.groupNames y = n.groupNames y := by
  have hwritten : ∀ {r : Ref} {p : Peer}, p.groups = (n.obj r).groups → (n.setObj r p).groupNames y = n.groupNames y :=
    fun {r p} hp => groupNames_congr rfl fun s _ => setObj_congr Peer.groups n r hp s
  have hnew : ∀ {p : Peer} {s : Ref}, n.peers.get y = some s → ((n.allocated p).obj s).groups = (n.obj s).groups := by
    intro p s hs
    rw [allocated_obj, if_neg (Nat.ne_of_lt (ht.alloc y s (Or.inl hs)))]
  cases h with
  | talk hL h => exact groupNames_congr (by rw [h.peers]) fun s _ => h.groups s
  | touch r p h => exact hwritten h.groups
  | hail ha k r p hk h => exact hwritten h.groups
  | quiet h =>
    rw [h]
    rfl
  | books ha h hb =>
    rw [h]
    rfl
  | emit e he => rfl
  | waste p hd hc => exact groupNames_congr rfl fun s hs => hnew hs
  | dial ha env k addr port curve => exact groupNames_congr rfl fun s hs => hnew hs
  | file ha env k addr port curve hk hown =>
    by_cases hy : y = k
    · subst hy
      rw [groupNames_none hk, groupNames_some (Dict.get_set_self n.peers y n.nextRef)]
      exact congrArg (fun p => p.groups.toFinset) (allocated_obj_self n _)
    · exact groupNames_congr (Dict.get_set_ne n.peers n.nextRef (Ne.symm hy)) fun s hs => hnew hs
  | adopt ha env k r rhex hp hk hown =>
    have hgroups : ∀ s, ((n.adoptUnder env k r rhex).obj s).groups = (n.obj s).groups :=
      setObj_congr Peer.groups n r rfl
    by_cases hy : y = rhex
    · subst hy
      rw [groupNames_none hk, groupNames_some (adoptUnder_peers env n k r y), hgroups, ht.pendingIdle k r hp]
      rfl
    · exact groupNames_congr (Dict.get_set_ne n.peers r (Ne.symm hy)) fun s _ => hgroups s
  | enter ha k r g hk h hm => exact absurd ha he
  | leave ha k r g hk h hm => exact absurd ha hl
  | forget ha k r hk h hm => exact absurd ha hf
  | dropDial ha k r hp => exact absurd ha hf

theorem groupNames_moves {env : Env} {ks : List Kind} {hands : Handed → Prop} (h : Moves (may env ks) hands n n')
    (ht : Tables n) (hks : .enter ∉ ks ∧ .leave ∉ ks ∧ .forget ∉ ks) (y : Str) : n'.groupNames y = n.groupNames y := by
  obtain ⟨he, hl, hf⟩ := hks
  have hnot : ∀ {kind : Kind}, kind ∉ ks → kind ≠ .close → ¬ may env ks kind := fun hk hc hmay =>
    hmay.elim hk fun h => hc h.1
  exact (h.invariant (I := fun m => Tables m ∧ m.groupNames y = n.groupNames y) (fun hm hI =>
    ⟨Tables.move hm hI.1, (groupNames_move hm hI.1 (hnot he (by decide)) (hnot hl (by decide)) (hnot hf (by decide))
      y).trans hI.2⟩) ⟨ht, rfl⟩).2

end GroupNames

/-! ## Following the node -/

/-- What was reported of each peer's groups is in its record and, where `P` holds, is all of it; then the record has
encodings of texts only. -/
structure Tracks (P : Prop) (n : Node) : Prop where
  told : ∀ y, Told P bdec (gathered y (n.report.map Event.rosterReport)) (n.groupNames y)
  text : P → ∀ y, ∀ g ∈ n.groupNames y, IsText g

section Tracks

variable {P : Prop} {env : Env} {n n' : Node} {l : List Event} {y k : Str} {r : Ref}

theorem Tracks.init (cfg : Config) : Tracks P (Node.init cfg) :=
  ⟨fun _ => told_empty, fun _ y g hg => by cases hg⟩

theorem gathered_report (hr : n'.report = n.report ++ l) (y : Str) :
    gathered y (n'.report.map Event.rosterReport) =
      (l.map Event.rosterReport).foldl (gather y) (gathered y (n.report.map Event.rosterReport)) := by
  rw [hr, List.map_append, gathered_append]

theorem foldl_gather_idle (hl : ∀ e ∈ l, ∀ s, gather y s e.rosterReport = s) (s : Finset Str) :
    (l.map Event.rosterReport).foldl (gather y) s = s := by
  refine foldl_gather_of_idle (fun x hx => ?_) s
  obtain ⟨e, he, rfl⟩ := List.mem_map.1 hx
  exact hl e he

/-- What is reported has nothing to do with groups, and the records keep theirs. -/
theorem Tracks.aside (h : Tracks P n) (hr : n'.report = n.report ++ l)
    (hl : ∀ e ∈ l, ∀ y s, gather y s e.rosterReport = s) (hg : ∀ y, n'.groupNames y = n.groupNames y) :
    Tracks P n' := by
  refine ⟨fun y => ?_, fun hP y g hmem => h.text hP y g (hg y ▸ hmem)⟩
  rw [gathered_report hr, foldl_gather_idle (fun e he => hl e he y), hg]
  exact h.told y

theorem Tracks.still (h : Tracks P n) (hr : n'.report = n.report) (hg : ∀ y, n'.groupNames y = n.groupNames y) :
    Tracks P n' := h.aside (l := []) (by rw [hr, List.append_nil]) (fun _ he => absurd he List.not_mem_nil) hg

/-- What is reported is about `k` alone, and only its record changes. -/
theorem Tracks.change (h : Tracks P n) (hr : n'.report = n.report ++ l)
    (hl : ∀ y, y ≠ k → ∀ e ∈ l, ∀ s, gather y s e.rosterReport = s) (hg : ∀ y, y ≠ k → n'.groupNames y = n.groupNames y)
    (hk : Told P bdec ((l.map Event.rosterReport).foldl (gather k) (gathered k (n.report.map Event.rosterReport)))
      (n'.groupNames k)) (htext : P → ∀ g ∈ n'.groupNames k, IsText g) : Tracks P n' := by
  refine ⟨fun y => ?_, fun hP y g hmem => ?_⟩
  · rw [gathered_report hr]
    by_cases hy : y = k
    · subst hy
      exact hk
    · rw [foldl_gather_idle (hl y hy), hg y hy]
      exact h.told y
  · by_cases hy : y = k
    · subst hy
      exact htext hP g hmem
    · exact h.text hP y g (hg y hy ▸ hmem)

theorem Tracks.write (h : Tracks P n) (r : Ref) {p : Peer} (hp : p.groups = (n.obj r).groups) :
    Tracks P (n.setObj r p) :=
  h.still rfl fun _ => groupNames_congr rfl fun s _ => setObj_congr Peer.groups n r hp s

theorem Tracks.moves {ks : List Kind} {hands : Handed → Prop} (h : Tracks P n) (ht : Tables n)
    (hm : Moves (may env ks) hands n n') (hks : .enter ∉ ks ∧ .leave ∉ ks ∧ .forget ∉ ks)
    (hr : n'.report = n.report) : Tracks P n' := h.still hr (groupNames_moves hm ht hks)

theorem Tracks.talk {L : Prop} {K : Handed → Prop} (h : Tracks P n) (ht : Talk L K n n') : Tracks P n' :=
  h.still ht.report fun y => groupNames_congr (by rw [ht.peers]) fun s _ => ht.groups s

/-! ## HELLO -/

theorem enterGroups_others (n : Node) (r : Ref) (gs : List Bytes) {s : Ref} (hs : s ≠ r) :
    (gs.foldl (fun n g => n.enterGroup r g) n).obj s = n.obj s := by
  induction gs generalizing n with
  | nil => rfl
  | cons g gs ih => rw [List.foldl_cons, ih, enterGroup_obj, setObj_obj, if_neg hs]

/-- The end of `_handle_hello` adds groups to one record only. -/
theorem enterPeer_groups (y : Str) (r : Ref) (h : HelloFields) (epStr : Str) (reply : Bool) :
    Ensures (n.enterPeer env y r h epStr reply) fun n' => n'.peers = n.peers ∧
      (n'.obj r).groups.toFinset = (n.obj r).groups.toFinset ∪ h.groups.toFinset ∧
      ∀ s, s ≠ r → (n'.obj s).groups = (n.obj s).groups := by
  intro n' hn'
  obtain ⟨hp, hmem, -⟩ := enterPeer_record env n y r h epStr reply n' hn'
  refine ⟨hp, Finset.ext fun g => by simp only [List.mem_toFinset, Finset.mem_union, hmem], fun s hs => ?_⟩
  obtain ⟨n2, h2, hrest⟩ := bind_eq_ok_iff.1 hn'
  simp only [] at hrest
  rw [emits_rest] at hrest
  rw [(talk_startElections env _ h.groups n' hrest).groups]
  show ((h.groups.foldl (fun n g => n.enterGroup r g) n2).obj s).groups = _
  rw [enterGroups_others n2 r h.groups hs, (talk_replyHello env _ r reply n2 h2).groups, setObj_obj, if_neg hs]

theorem enterPeer_tracks (h : Tracks P n) (ht : Tables n) (hk : n.peers.get y = some r) (f : HelloFields)
    (epStr : Str) (reply : Bool) (hP : P → ∀ g ∈ f.groups, IsText g) :
    Ensures (n.enterPeer env y r f epStr reply) (Tracks P) := by
  intro n' hn'
  obtain ⟨name, hr⟩ := enterPeer_report y r f epStr reply n' hn'
  obtain ⟨hp, hself, hothers⟩ := enterPeer_groups y r f epStr reply n' hn'
  obtain ⟨hgroups, hrest⟩ := groupNames_write ht hk hp hothers
  rw [hself, ← groupNames_some hk] at hgroups
  refine h.change hr (fun z hz e he s => ?_) hrest ?_ fun hp g hg => ?_
  · rcases List.mem_cons.1 he with rfl | he
    · rfl
    · obtain ⟨g, -, rfl⟩ := List.mem_map.1 he
      exact if_neg (Ne.symm hz)
  · rw [hgroups, entries, List.map_cons, List.map_map, List.foldl_cons]
    exact (h.told y).joins y f.groups
  · rw [hgroups, Finset.mem_union, List.mem_toFinset] at hg
    exact hg.elim (h.text hp y g) (hP hp g)

theorem helloFromNew_tracks (h : Tracks P n) (ht : Tables n) (hk : n.peers.get y = none) (hown : y ≠ n.cfg.peerIdHex)
    (f : HelloFields) (hP : P → ∀ g ∈ f.groups, IsText g) : Ensures (n.helloFromNew env y f) (Tracks P) := by
  obtain ⟨keys, hkeys⟩ := learnHelloKeys_rest n y f
  unfold helloFromNew
  simp only [hkeys]
  have h1 : Tracks P { n with peerServerKeys := keys } := h.still rfl fun _ => rfl
  have ht1 : Tables { n with peerServerKeys := keys } := ht.quiet rfl
  have hk1 : Node.peers { n with peerServerKeys := keys } = n.peers := rfl
  have hown1 : Node.cfg { n with peerServerKeys := keys } = n.cfg := rfl
  generalize { n with peerServerKeys := keys } = m at h1 ht1 hk1 hown1 ⊢
  rw [← hk1] at hk
  rw [← hown1] at hown
  split
  · exact Ensures.ok h1
  rename_i addr port _
  cases ha : m.adoptPending env (dialHost addr) port y with
  | mk o m1 =>
    obtain ⟨hm1, -, hnone, hin⟩ := moves_adoptPending (may env [.meet]) anything (Or.inl (by simp)) hk hown ha
    have h2 := h1.moves ht1 hm1 (by decide) (adoptPending_report ha)
    cases o with
    | some r => exact enterPeer_tracks h2 (hm1.invariant Tables.move ht1) (hin r rfl) f _ _ hP
    | none =>
      cases hnone rfl
      simp only []
      cases hd : m.dialPeer env y (dialHost addr) port with
      | mk o m2 =>
        obtain ⟨hm2, -, hin2⟩ := moves_dialPeer (may env [.meet]) anything (Or.inl (by simp)) hk hown hd
        have h3 := h1.moves ht1 hm2 (by decide) (dialPeer_report hd)
        cases o with
        | some r => exact enterPeer_tracks h3 (hm2.invariant Tables.move ht1) (hin2 r rfl) f _ _ hP
        | none => exact Ensures.ok h3

theorem handleHello_tracks (h : Tracks P n) (ht : Tables n) (y : Str) (f : HelloFields)
    (hP : P → ∀ g ∈ f.groups, IsText g) : Ensures (n.handleHello env y f (n.peers.get y)) (Tracks P) := by
  unfold handleHello
  split
  · exact Ensures.ok h
  split
  · split
    · exact Ensures.ok h
    · exact Ensures.error
  rename_i hown
  split
  · exact Ensures.ok h
  have h0 : Tracks P { n with evasiveEmitAt := n.evasiveEmitAt.pop y } := h.still rfl fun _ => rfl
  have ht0 : Tables { n with evasiveEmitAt := n.evasiveEmitAt.pop y } := ht.quiet rfl
  simp only []
  cases hk : n.peers.get y with
  | none => exact helloFromNew_tracks h0 ht0 hk hown f hP
  | some r =>
    simp only []
    cases hr : (n.obj r).ready with
    | true =>
      -- a repeated HELLO changes the record, but not its groups
      exact Ensures.ok ((h0.write r (by rfl)).write r (by rfl))
    | false => exact enterPeer_tracks h0 ht0 hk f _ _ hP

/-! ## Departures -/

theorem forgotten_tracks (h : Tracks P n) (k : Str) (r : Ref) (gone : List Bytes) :
    Tracks P (n.forgotten k r gone) := by
  obtain ⟨name, hr⟩ := forgotten_report (n := n) k r gone
  have hgone : (n.forgotten k r gone).groupNames k = ∅ := groupNames_none (by
    show (n.peers.pop k).get k = none
    rw [Dict.get_pop, if_pos rfl])
  refine h.change (k := k) hr (fun y hy e he s => ?_) (fun y hy => groupNames_congr ?_ fun s _ => ?_) ?_
    fun _ g hg => ?_
  · rw [List.mem_singleton.1 he]
    exact if_neg (Ne.symm hy)
  · show (n.peers.pop k).get y = n.peers.get y
    rw [Dict.get_pop, if_neg (Ne.symm hy)]
  · exact setObj_congr Peer.groups n r (by rfl) s
  · rw [hgone]
    show Told P bdec (if k = k then ∅ else _) ∅
    rw [if_pos rfl]
    exact told_empty
  · rw [hgone] at hg
    cases hg

theorem restartElections_tracks (h : Tracks P n) (gs : List Bytes) :
    Ensures (n.restartElections env gs) (Tracks P) :=
  Ensures.foldlM h fun m g _ hm => (talk_restartElectionIfNeeded env m g).mono fun _ ht => hm.talk ht

theorem removePeer_tracks (h : Tracks P n) (ht : Tables n) (hk : n.peers.get k = some r) :
    Ensures (n.removePeer env r) (Tracks P) := by
  rw [removePeer_eq env (ht.key k r hk)]
  exact restartElections_tracks (forgotten_tracks h k r _) _

theorem beaconExit_tracks (h : Tracks P n) (k : Str) :
    Ensures (n.beaconExit env k) (Tracks P) := by
  cases hk : n.peers.get k with
  | none =>
    unfold beaconExit
    rw [hk]
    exact Ensures.ok h
  | some r =>
    rw [beaconExit_eq env hk]
    exact restartElections_tracks (forgotten_tracks h k r _) _

/-! ## Messages -/

/-- A report about the peer `y` comes with the groups `gs` in its record. -/
theorem Tracks.regroup (h : Tracks P n) (ht : Tables n) (hk : n.peers.get y = some r) {gs : List Bytes} {e : Event}
    (hr : n'.report = n.report ++ [e]) (he : ∀ z, z ≠ y → ∀ s, gather z s e.rosterReport = s)
    (hp : n'.peers = n.peers)
    (hobj : ∀ s, (n'.obj s).groups = ((n.setObj r { n.obj r with groups := gs }).obj s).groups)
    (hy : Told P bdec (gather y (gathered y (n.report.map Event.rosterReport)) e.rosterReport) gs.toFinset)
    (htext : P → ∀ g ∈ gs, IsText g) : Tracks P n' := by
  obtain ⟨hself, hrest⟩ := groupNames_write ht hk hp fun s hs => by rw [hobj, setObj_obj, if_neg hs]
  have hgroups : n'.groupNames y = gs.toFinset := by
    rw [hself, hobj, setObj_obj_self]
  refine h.change hr (fun z hz x hx s => ?_) hrest ?_ fun hP g hg => ?_
  · rw [List.mem_singleton.1 hx]
    exact he z hz s
  · rw [hgroups]
    exact hy
  · rw [hgroups, List.mem_toFinset] at hg
    exact htext hP g hg

theorem handleJoin_tracks (h : Tracks P n) (ht : Tables n) (hk : n.peers.get y = some r) (g : Bytes)
    (hP : P → IsText g) : Ensures (n.handleJoin env y r g) (Tracks P) := by
  intro n' hn'
  obtain ⟨name, hr⟩ := handleJoin_report y r g n' hn'
  unfold handleJoin at hn'
  by_cases hg : g = []
  · rw [if_pos hg] at hn'
    cases hn'
    exact h
  rw [if_neg hg] at hn' hr
  simp only [] at hn'
  have htalk := talk_startElection env _ g n' hn'
  rw [requireGroup_rest] at htalk
  have hgroups : (addGroup (n.obj r).groups g).toFinset = insert g (n.groupNames y) := by
    rw [groupNames_some hk]
    exact toFinset_addGroup _ g
  refine h.regroup ht hk hr (fun z hz s => if_neg (Ne.symm hz)) htalk.peers htalk.groups ?_ fun hp x hx => ?_
  · rw [hgroups]
    show Told P bdec (if y = y then _ else _) _
    rw [if_pos rfl]
    exact (h.told y).join g
  · rw [← List.mem_toFinset, hgroups, Finset.mem_insert] at hx
    exact hx.elim (fun e => e ▸ hP hp) (h.text hp y x)

theorem handleLeave_tracks (h : Tracks P n) (ht : Tables n) (hk : n.peers.get y = some r) (g : Bytes)
    (hP : P → IsText g) : Ensures (n.handleLeave env y r g) (Tracks P) := by
  intro n' hn'
  obtain ⟨name, hr⟩ := handleLeave_report y r g n' hn'
  unfold handleLeave at hn'
  by_cases hg : g = []
  · rw [if_pos hg] at hn'
    cases hn'
    exact h
  rw [if_neg hg] at hn' hr
  simp only [] at hn'
  have htalk := talk_restartElectionIfNeeded env _ g n' hn'
  rw [leaveTable_rest] at htalk
  have hgroups : (discardGroup (n.obj r).groups g).toFinset = (n.groupNames y).erase g := by
    rw [groupNames_some hk]
    exact toFinset_discardGroup _ g
  refine h.regroup ht hk hr (fun z hz s => if_neg (Ne.symm hz)) htalk.peers htalk.groups ?_ fun hp x hx => ?_
  · rw [hgroups]
    show Told P bdec (if y = y then _ else _) _
    rw [if_pos rfl]
    -- where all names are texts no other one reads like `g`
    exact (h.told y).leave fun hp x hx he => (h.text hp y x hx).eq (hP hp) he
  · rw [← List.mem_toFinset, hgroups] at hx
    exact h.text hp y x (Finset.mem_of_mem_erase hx)

theorem dispatch_tracks (h : Tracks P n) (ht : Tables n) (hk : n.peers.get y = some r) (msg : Msg)
    (extra : List Bytes) (hP : P → ∀ g ∈ msg.groupNames, IsText g) :
    Ensures (n.dispatch env y r msg extra) (Tracks P) := by
  have hword : ∀ {e : Event}, e.isLeader = false → (∀ z s, gather z s e.rosterReport = s) → Tracks P (n.emit e) :=
    fun {e} he hidle => h.aside (report_emit n he) (fun x hx z s => by rw [List.mem_singleton.1 hx]; exact hidle z s)
      fun _ => rfl
  unfold dispatch
  simp only []
  split
  · exact Ensures.ok (hword rfl fun _ _ => rfl)
  split
  · exact removePeer_tracks h ht hk
  split
  · exact (talk_sendCmd env n r Cmd.pingOk none none []).mono fun _ htalk => h.talk htalk
  split
  · exact Ensures.ok (h.write r (by rfl))
  unfold Msg.groupNames at hP
  cases hf : msg.fields with
  | group g =>
    simp only []
    split
    · exact Ensures.ok (hword rfl fun _ _ => rfl)
    · exact Ensures.ok h
  | groupStatus g status =>
    rw [hf] at hP
    simp only []
    split
    · exact handleJoin_tracks h ht hk g fun hp => hP hp g (List.mem_singleton_self g)
    split
    · exact handleLeave_tracks h ht hk g fun hp => hP hp g (List.mem_singleton_self g)
    · exact Ensures.ok h
  | election g id =>
    simp only []
    split
    · exact (talk_handleElect env n r g id).mono fun _ htalk => h.talk htalk
    split
    · exact (talk_handleLeader env n g id).mono fun _ htalk => h.talk htalk
    · exact Ensures.ok h
  | none => exact Ensures.ok h
  | hello f => exact Ensures.ok h

theorem handlePeerMsg_tracks (h : Tracks P n) (ht : Tables n) (frames : List Bytes)
    (hP : P → ∀ uuid msg extra, Carries frames uuid msg extra → ∀ g ∈ msg.groupNames, IsText g) :
    Ensures (n.handlePeerMsg env frames) (Tracks P) := by
  intro n' hn'
  rcases handlePeerMsg_cases env n frames n' hn' with
    rfl | ⟨uuid, msg, extra, hc, ⟨f, hf, hh⟩ | ⟨-, r, hk, -, hh⟩⟩
  · exact h
  · obtain ⟨hm0, hp0, -⟩ := moves_resetSeq (may env []) anything n (hex uuid)
    have hr : (n.resetSeq (hex uuid)).report = n.report := by
      refine report_congr ?_
      unfold resetSeq
      split <;> rfl
    rw [← hp0] at hh
    refine handleHello_tracks (h.moves ht hm0 (by decide) hr) (hm0.invariant Tables.move ht) _ f
      (fun hp g hg => hP hp uuid msg extra hc g ?_) n' hh
    unfold Msg.groupNames
    rw [hf]
    exact hg
  · obtain ⟨hm, hp⟩ := moves_arrive (may env []) anything env n (hex uuid) r msg
    exact dispatch_tracks (h.moves ht hm (by decide) (arrive_report _ r msg)) (hm.invariant Tables.move ht)
      (by rw [hp]; exact hk) msg extra (fun hp => hP hp uuid msg extra hc) n' hh

/-! ## Beacons, commands and the reaper -/

theorem handleBeacon_tracks (h : Tracks P n) (ht : Tables n) (data : Bytes) (host : Str) :
    Ensures (n.handleBeacon env data host) (Tracks P) := by
  intro n' hn'
  rcases handleBeacon_cases env n data host n' hn' with rfl | ⟨uuid, port, -, hacc⟩
  · exact h
  by_cases hport : port = 0
  · unfold acceptBeacon at hacc
    split at hacc
    · split at hacc <;> cases hacc
      exact h
    obtain ⟨keys, hkeys⟩ := learnBeaconKey_rest n (hex uuid) host port (n.beaconKey data)
    simp only [hkeys] at hacc
    exact beaconExit_tracks (n := { n with peerServerKeys := keys }) (h.still rfl fun _ => rfl) _ n' hacc
  · refine h.moves ht (moves_acceptBeacon env ht uuid port _ host n' hacc) ?_
      (acceptBeacon_report uuid hport _ host n' hacc)
    rw [beaconKinds, if_neg hport]
    decide

theorem runCommand_tracks (h : Tracks P n) (ht : Tables n) (c : Command) :
    Ensures (n.runCommand env c) (Tracks P) := by
  intro n' hn'
  have hr := runCommand_report c n' hn'
  cases c with
  | join g => exact h.moves ht (moves_joinGroup env n g n' hn') (by decide) hr
  | leave g => exact h.moves ht (moves_leaveGroup env n g.raw n' hn') (by decide) hr
  | whisper peerHex payload => exact h.moves ht (moves_doWhisper env n peerHex payload n' hn') (by decide) hr
  | shout g payload => exact h.moves ht (moves_doShout env n g.raw payload n' hn') (by decide) hr
  | connect host port => exact h.moves ht (moves_doConnect env n host port n' hn') (by decide) hr

theorem Tracks.dropDials (h : Tracks P n) : Tracks P (n.dropDials env) := by
  have hloop : ∀ (es : List (Str × Ref)) (m : Node), Tracks P m →
      Tracks P (es.foldl (fun n e => n.reapPending env e) m) := by
    intro es
    induction es with
    | nil => exact fun m hm => hm
    | cons e es ih =>
      intro m hm
      rw [List.foldl_cons]
      refine ih _ ?_
      unfold reapPending
      simp only []
      split
      · exact (hm.write e.2 (by rfl)).still rfl fun _ => rfl
      · exact hm
  exact hloop n.pending.entries n h

theorem reapPeer_tracks (h : Tracks P n) (ht : Tables n) (hk : n.peers.get k = some r) :
    Ensures (n.reapPeer env r) (Tracks P) := by
  unfold reapPeer
  simp only []
  split
  · exact removePeer_tracks h ht hk
  split
  · refine (talk_sendCmd env _ r Cmd.ping none none []).bind fun n' htalk => Ensures.ok ?_
    have hquiet : Tracks P (if n.cfg.evasiveEmitInterval ≤ env.now - (n.evasiveEmitAt.get (n.obj r).uuidHex).getD 0
        then { n with evasiveEmitAt := n.evasiveEmitAt.set (n.obj r).uuidHex env.now }.emit
          (.evasive (n.obj r).uuidHex (pname (n.obj r))) else n) := by
      split
      · exact h.aside (report_emit _ rfl) (fun e he y s => by rw [List.mem_singleton.1 he]; rfl) fun _ => rfl
      · exact h
    exact (hquiet.talk htalk).write r (by rfl)
  · exact Ensures.ok h

/-! ## Runs -/

end Tracks

/-- The group names that arrive are encodings of texts. -/
def Spelled (_ : Node) (_ : Env) : Act → Prop
  | .input (.peerMsg frames) => ∀ uuid msg extra, Carries frames uuid msg extra → ∀ g ∈ msg.groupNames, IsText g
  | _ => True

section Runs

variable {P : Prop} {Q : Node → Env → Act → Prop} {l : List Event} {n : Node}

theorem act_tracks {env : Env} (h : Tracks P n) (ht : Tables n) {a : Act} (ha : n.Enabled a)
    (hP : P → Spelled n env a) : Ensures (n.act env a) (Tracks P) := by
  cases a with
  | dropDials => exact Ensures.ok h.dropDials
  | maintain => exact (talk_maintainElections env n).mono fun _ htalk => h.talk htalk
  | round r =>
    obtain ⟨k, hk⟩ := (Dict.mem_values _).1 ha
    exact reapPeer_tracks h ht hk
  | input input =>
    cases input with
    | peerMsg frames => exact handlePeerMsg_tracks h ht frames hP
    | beacon data host => exact handleBeacon_tracks h ht data host
    | gossip uuidHex endpoint =>
      intro n' hn'
      exact h.moves ht (moves_gossipRequire env n uuidHex endpoint n' hn') (by decide)
        (gossipRequire_report uuidHex endpoint n' hn')
    | command c => exact runCommand_tracks h ht c
    | reap => exact absurd rfl ha
    | setContestInGroup g =>
      have hm : Moves (may env []) anything n (n.setContestInGroup g) := moves_setContestInGroup n g
      refine Ensures.ok (h.moves ht hm (by decide) (report_congr ?_))
      unfold setContestInGroup
      simp only []
      split <;> rfl
    | setHeader key value => exact Ensures.ok (h.still rfl fun _ => rfl)
    | pinKey host port publicKey =>
      obtain ⟨keys, hkeys⟩ := learnKey_rest n (hostPort host port) publicKey
      refine Ensures.ok ?_
      unfold pinKey
      rw [hkeys]
      exact h.still rfl fun _ => rfl
    | recv => exact Ensures.ok (h.still rfl fun _ => rfl)

theorem Visits.tracks (h : Visits Q n) (hP : P → ∀ n env a, Q n env a → Spelled n env a) : Tracks P n :=
  h.invariant Tracks.init fun m env a m' ht hI ha hq hact =>
    act_tracks hI ht ha (fun hp => hP hp m env a hq) m' hact

/-- LEADER events do not change what was gathered. -/
theorem gathered_events (n : Node) (y : Str) :
    gathered y (n.events.map Event.rosterReport) = gathered y (n.report.map Event.rosterReport) := by
  unfold report
  induction n.events using List.reverseRecOn with
  | nil => rfl
  | append_singleton l e ih =>
    rw [List.map_append, gathered_append, List.filter_append, List.map_append, gathered_append, ih]
    cases e <;> rfl

/-- The roster has those whose HELLO was taken, with all that was gathered about them. -/
theorem Visits.roster_eq (h : Visits Q n) (y : Str) :
    ((n.standing y).Greeted → rosterOf n.events y = some (gathered y (n.report.map Event.rosterReport))) ∧
      (¬ (n.standing y).Greeted → rosterOf n.events y = none ∧ gathered y (n.report.map Event.rosterReport) = ∅) := by
  have hnotices : (n.events.map Event.rosterReport).map Report.notice = n.events.map Event.notice := by
    rw [List.map_map]
    exact List.map_congr_left fun e _ => e.rosterReport_notice
  have hatt : Attended ((n.events.map Event.rosterReport).map Report.notice) := by
    rw [hnotices]
    exact h.sound.2.attended
  have heq := replay_eq hatt y
  rw [hnotices, h.present_iff, gathered_events] at heq
  exact heq

/-- An application that has got all the events has exactly those peers whose HELLO was taken in its roster, and under
each of them only texts of groups that the record of the peer has. -/
theorem Reads.roster_within (h : Reads Q l n) (y : Str) :
    ((rosterOf (l ++ n.queue) y).isSome = true ↔ (n.standing y).Greeted) ∧
      ∀ ts, rosterOf (l ++ n.queue) y = some ts → ts ⊆ (n.groupNames y).image bdec := by
  rw [h.complete]
  obtain ⟨hin, hout⟩ := h.visits.roster_eq y
  by_cases hg : (n.standing y).Greeted
  · rw [hin hg]
    refine ⟨⟨fun _ => hg, fun _ => rfl⟩, fun ts hts => ?_⟩
    rw [← Option.some.inj hts]
    exact ((h.visits.tracks (P := False) False.elim).told y).1
  · rw [(hout hg).1]
    exact ⟨⟨fun hs => absurd hs Bool.false_ne_true, fun hg' => absurd hg' hg⟩, fun ts hts => by cases hts⟩

/-- Where every group name that arrives is the encoding of a text, the roster is what the tables say: each peer whose
HELLO was taken with the texts of all its groups, and nobody else, nor has anybody else a group in the tables. -/
theorem Reads.roster_exact (h : Reads Spelled l n) (y : Str) :
    ((n.standing y).Greeted → rosterOf (l ++ n.queue) y = some ((n.groupNames y).image bdec)) ∧
      (¬ (n.standing y).Greeted → rosterOf (l ++ n.queue) y = none ∧ n.groupNames y = ∅) := by
  rw [h.complete]
  obtain ⟨hin, hout⟩ := h.visits.roster_eq y
  have htold := ((h.visits.tracks (P := True) fun _ _ _ _ hq => hq).told y).2 trivial
  rw [htold] at hin hout
  exact ⟨hin, fun hg => ⟨(hout hg).1, Finset.image_eq_empty.1 (hout hg).2⟩⟩

/-! ## The queries -/

theorem mem_sorted {α : Type} [LT α] [DecidableLT α] {l : List α} {x : α} : x ∈ Query.sorted l ↔ x ∈ l :=
  List.mem_mergeSort

theorem mem_groupNames {y : Str} {g : Bytes} :
    g ∈ n.groupNames y ↔ ∃ r, n.peers.get y = some r ∧ g ∈ (n.obj r).groups := by
  cases hk : n.peers.get y with
  | none =>
    rw [groupNames_none hk]
    simp
  | some r =>
    rw [groupNames_some hk, List.mem_toFinset]
    simp

/-- The tables of the groups list the peers whose records have the group. -/
theorem mem_peersByGroup (ht : Tables n) (g : Bytes) (y : Str) :
    y ∈ Query.peersByGroup n g ↔ g ∈ n.groupNames y := by
  have hmember : y ∈ Query.peersByGroup n g ↔ ∃ r, n.member g y = some r := by
    unfold Query.peersByGroup member
    cases n.groups.get g with
    | none => simp
    | some group => exact Dict.mem_keys group.peers
  rw [hmember, mem_groupNames]
  exact exists_congr fun r => ht.member g y r

theorem mem_peerGroups (g : Bytes) :
    g ∈ Query.peerGroups n ↔ g ∈ Query.ownGroups n ∨ ∃ y, g ∈ n.groupNames y := by
  unfold Query.peerGroups
  rw [mem_sorted, List.mem_dedup, List.mem_append, List.mem_flatMap]
  refine or_congr Iff.rfl ?_
  simp only [mem_groupNames, Dict.mem_values]
  constructor
  · rintro ⟨r, ⟨y, hk⟩, hg⟩
    exact ⟨y, r, hk, hg⟩
  · rintro ⟨y, r, hk, hg⟩
    exact ⟨r, ⟨y, hk⟩, hg⟩

theorem mem_dump (y s : Str) :
    (∃ d, (y, d) ∈ (Query.dump n).peers ∧ s ∈ d.groups) ↔ s ∈ (n.groupNames y).image bdec := by
  simp only [Finset.mem_image, mem_groupNames]
  constructor
  · rintro ⟨d, hd, hs⟩
    obtain ⟨e, he, heq⟩ := List.mem_map.1 hd
    cases heq
    obtain ⟨g, hg, rfl⟩ := List.mem_map.1 (mem_sorted.1 hs)
    exact ⟨g, ⟨e.2, (Dict.get_eq_some_iff _).2 he, hg⟩, rfl⟩
  · rintro ⟨g, ⟨r, hk, hg⟩, rfl⟩
    exact ⟨Query.peerDump (n.obj r), List.mem_map.2 ⟨(y, r), (Dict.get_eq_some_iff _).1 hk, rfl⟩,
      mem_sorted.2 (List.mem_map_of_mem hg)⟩

/-- Where every group name that arrives is the encoding of a text, the queries answer what the events have told:
`peers` has everybody in the roster, `peers_by_group` and `dump` give the peers that the roster has in a group, and
`peer_groups` the groups that somebody in the roster, or the node itself, is in. -/
theorem Reads.queries_agree (h : Reads Spelled l n) (s : Str) :
    (∀ y, (rosterOf (l ++ n.queue) y).isSome = true → y ∈ Query.peers n) ∧
    (∀ y, y ∈ Query.peersByGroup n (encodeStr s) ↔ ∃ ts, rosterOf (l ++ n.queue) y = some ts ∧ s ∈ ts) ∧
    (encodeStr s ∈ Query.peerGroups n ↔
      encodeStr s ∈ Query.ownGroups n ∨ ∃ y ts, rosterOf (l ++ n.queue) y = some ts ∧ s ∈ ts) ∧
    ∀ y, (∃ d, (y, d) ∈ (Query.dump n).peers ∧ s ∈ d.groups) ↔ ∃ ts, rosterOf (l ++ n.queue) y = some ts ∧ s ∈ ts := by
  rw [h.complete]
  replace h := h.visits
  have htracks : Tracks True n := h.tracks fun _ _ _ _ hq => hq
  have htext : ∀ y, s ∈ (n.groupNames y).image bdec ↔ encodeStr s ∈ n.groupNames y := by
    intro y
    rw [Finset.mem_image]
    constructor
    · rintro ⟨g, hg, hs⟩
      have heq : g = encodeStr s := (htracks.text trivial y g hg).eq ⟨s, rfl⟩ (hs.trans (bdec_encodeStr s).symm)
      exact heq ▸ hg
    · exact fun hg => ⟨encodeStr s, hg, bdec_encodeStr s⟩
  have hroster : ∀ y, (∃ ts, rosterOf n.events y = some ts ∧ s ∈ ts) ↔ encodeStr s ∈ n.groupNames y := by
    intro y
    obtain ⟨hin, hout⟩ := h.roster_eq y
    rw [(htracks.told y).2 trivial] at hin hout
    by_cases hg : (n.standing y).Greeted
    · rw [hin hg, ← htext]
      simp
    · rw [(hout hg).1, ← htext, (hout hg).2]
      simp
  refine ⟨fun y hy => ?_, fun y => ?_, ?_, fun y => ?_⟩
  · by_contra hno
    have hk : n.peers.get y = none := Option.not_isSome_iff_eq_none.1 fun hs =>
      hno ((Dict.mem_keys n.peers).2 (Option.isSome_iff_exists.1 hs))
    have hg : ¬ (n.standing y).Greeted := by
      rw [standing_eq_absent.2 hk]
      simp [Standing.Greeted]
    rw [((h.roster_eq y).2 hg).1] at hy
    cases hy
  · rw [mem_peersByGroup h.tables, hroster]
  · rw [mem_peerGroups]
    exact or_congr Iff.rfl (exists_congr fun y => (hroster y).symm)
  · rw [mem_dump, htext, hroster]

end Runs

/-! ## A sample -/

/-- A JOIN or LEAVE of the peer `00…02`. -/
def sampleStatus (cmd : UInt8) (seq : ℕ) (g : Bytes) : List Bytes :=
  [1 :: sampleUuid, Codec.headBytes cmd seq ++ UInt8.ofNat g.length :: g ++ [2]]

/-- The application gets the first of the events. -/
def sampleReader : Node := sampleHost.after (Env.calm 0) .recv

/-- The peer, which is in the group `g`, joins `h` and leaves `g`. -/
def sampleMover : Node :=
  (sampleReader.after (Env.calm 0) (.peerMsg (sampleStatus Cmd.join 2 [0x68]))).after (Env.calm 0)
    (.peerMsg (sampleStatus Cmd.leave 3 [0x67]))

theorem spelled_frame {n : Node} {env : Env} {rid data : Bytes} (names : List Bytes)
    (hd : ((Codec.decode data).toOption.bind id).map Msg.groupNames = some names) (hall : ∀ g ∈ names, IsText g) :
    Spelled n env (.input (.peerMsg [rid, data])) := by
  rintro uuid msg extra ⟨rid', data', hfr, -, hdec⟩ g hg
  cases hfr
  rw [hdec] at hd
  cases hd
  exact hall g hg

/-- What the application has got. -/
def sampleGot : List Event := sampleHost.queue.take 1

theorem sampleMover_reads : Reads Spelled sampleGot sampleMover := by
  have htext : ∀ c : Char, ∀ g ∈ [encodeStr [c]], IsText g := by
    intro c g hg
    exact ⟨[c], List.mem_singleton.1 hg⟩
  have htaken : ∀ (n : Node) (frames : List Bytes), n.taken (.input (.peerMsg frames)) = [] := fun _ _ => rfl
  have hstart : Reads Spelled [] sampleA := .init _
  have hhost := hstart.input (Env.calm 0) (.peerMsg sampleHello) nofun
    (spelled_frame [encodeStr ['g']] (by decide +kernel) (htext 'g')) (by decide +kernel) (by decide +kernel)
  rw [htaken, List.append_nil] at hhost
  have hread := hhost.input (Env.calm 0) .recv nofun trivial (by decide +kernel) (by decide +kernel)
  rw [List.nil_append] at hread
  have hjoined := hread.input (Env.calm 0) (.peerMsg (sampleStatus Cmd.join 2 [0x68])) nofun
    (spelled_frame [encodeStr ['h']] (by decide +kernel) (htext 'h')) (by decide +kernel) (by decide +kernel)
  rw [htaken, List.append_nil] at hjoined
  have hleft := hjoined.input (Env.calm 0) (.peerMsg (sampleStatus Cmd.leave 3 [0x67])) nofun
    (spelled_frame [encodeStr ['g']] (by decide +kernel) (htext 'g')) (by decide +kernel) (by decide +kernel)
  rw [htaken, List.append_nil] at hleft
  exact hleft

theorem sampleMover_roster : rosterOf (sampleGot ++ sampleMover.queue) (hex sampleUuid) = some {"h".toList} := by
  decide +kernel

theorem sampleMover_roster_within : sampleGot.length = 1 ∧
    rosterOf (sampleGot ++ sampleMover.queue) (hex sampleUuid) = some {"h".toList} ∧
    {"h".toList} ⊆ (sampleMover.groupNames (hex sampleUuid)).image bdec :=
  ⟨by decide +kernel, sampleMover_roster, (sampleMover_reads.roster_within _).2 _ sampleMover_roster⟩

theorem sampleMover_roster_exact : rosterOf (sampleGot ++ sampleMover.queue) (hex sampleUuid) =
      some ((sampleMover.groupNames (hex sampleUuid)).image bdec) ∧
    (sampleMover.groupNames (hex sampleUuid)).image bdec = {"h".toList} :=
  ⟨(sampleMover_reads.roster_exact _).1 (Or.inl (by decide +kernel)), by decide +kernel⟩

theorem sampleMover_queries_agree : hex sampleUuid ∈ Query.peersByGroup sampleMover (encodeStr ['h']) ∧
    encodeStr ['h'] ∈ Query.peerGroups sampleMover := by
  obtain ⟨-, hby, hgroups, -⟩ := sampleMover_reads.queries_agree ['h']
  exact ⟨(hby _).2 ⟨_, sampleMover_roster, Finset.mem_singleton_self _⟩,
    hgroups.2 (Or.inr ⟨_, _, sampleMover_roster, Finset.mem_singleton_self _⟩)⟩

/-- Two names that are no encodings read alike: the LEAVE of one takes both out of the roster. -/
example : rosterOf (((sampleHost.after (Env.calm 0) (.peerMsg (sampleStatus Cmd.join 2 [0xFF]))).after (Env.calm 0)
    (.peerMsg (sampleStatus Cmd.join 3 [0xFE]))).after (Env.calm 0)
    (.peerMsg (sampleStatus Cmd.leave 4 [0xFF]))).events (hex sampleUuid) = some {"g".toList} := by decide +kernel

end Node

end Zre
