import Zre.Proofs.Baseline
import Zre.Proofs.Contacts
import Zre.Proofs.Record

/-!
# Proofs: what a node records of the groups of one other node

The record of a peer is empty until its HELLO is taken up. From then on it follows the JOINs and LEAVEs of the
peer, and nothing else changes it.
-/

namespace Zre

open Fallible

namespace Node

/-- The groups that the node records for the peer, as a set. -/
def copyOf (n : Node) (y : Str) : Option (Set Bytes) := (n.groupsOf y).map fun gs => {g | g ∈ gs}

/-- The record of `y` is empty until it is ready, and nobody who is only dialled is ready. -/
structure Blank (n : Node) (y : Str) : Prop where
  entry : ∀ r, n.peers.get y = some r → (n.obj r).ready = false → (n.obj r).groups = []
  wait : ∀ k r, n.pending.get k = some r → (n.obj r).ready = false

section Blank

variable {n n' : Node} {y : Str} {r : Ref}

theorem groupsOf_some (hk : n.peers.get y = some r) :
    n.groupsOf y = if (n.obj r).ready then some (n.obj r).groups else none := by
  simp [groupsOf, hk]

theorem groupsOf_none (hk : n.peers.get y = none) : n.groupsOf y = none := by simp [groupsOf, hk]

/-- The entry is where it was, and as it was. -/
theorem Blank.kept (hb : n.Blank y) (hp : n'.peers.get y = n.peers.get y)
    (hq : ∀ k r, n'.pending.get k = some r → n.pending.get k = some r ∨ (n'.obj r).ready = false)
    (hobj : ∀ r, (∃ k, n.peers.get k = some r ∨ n.pending.get k = some r) →
      (n'.obj r).ready = (n.obj r).ready ∧ (n'.obj r).groups = (n.obj r).groups) :
    n'.Blank y ∧ n'.groupsOf y = n.groupsOf y := by
  refine ⟨⟨fun r hk hr => ?_, fun k r hk => ?_⟩, ?_⟩
  · rw [hp] at hk
    obtain ⟨hready, hgroups⟩ := hobj r ⟨y, Or.inl hk⟩
    rw [hready] at hr
    rw [hgroups]
    exact hb.entry r hk hr
  · rcases hq k r hk with hk | hr
    · rw [(hobj r ⟨k, Or.inr hk⟩).1]
      exact hb.wait k r hk
    · exact hr
  · cases hk : n.peers.get y with
    | none => rw [groupsOf_none hk, groupsOf_none (hp.trans hk)]
    | some r =>
      obtain ⟨hready, hgroups⟩ := hobj r ⟨y, Or.inl hk⟩
      rw [groupsOf_some hk, groupsOf_some (hp.trans hk), hready, hgroups]

/-- A new entry, which is not ready and has no groups. -/
theorem Blank.filed (hk : n.peers.get y = none) (hin : n'.peers.get y = some r)
    (hr : (n'.obj r).ready = false) (hg : (n'.obj r).groups = [])
    (hq : ∀ k s, n'.pending.get k = some s → (n'.obj s).ready = false) :
    n'.Blank y ∧ n'.groupsOf y = n.groupsOf y := by
  refine ⟨⟨fun s hs _ => ?_, hq⟩, ?_⟩
  · rw [hin] at hs
    cases hs
    exact hg
  · rw [groupsOf_none hk, groupsOf_some hin, hr]
    rfl

end Blank

end Node

open Node in
/-- Sending, electing and finding peers leave the record alone. -/
theorem Move.record {allow : Kind → Prop} {hands : Handed → Prop} {n n' : Node} {y : Str}
    (hcl : ¬ allow .close) (hf : ¬ allow .forget) (hh : ¬ allow .hail) (he : ¬ allow .enter)
    (hlv : ¬ allow .leave) (ht : Tables n) (hb : n.Blank y) (h : Move allow hands n n') :
    n'.Blank y ∧ n'.groupsOf y = n.groupsOf y := by
  have hlt : ∀ {r}, (∃ k, n.peers.get k = some r ∨ n.pending.get k = some r) → r < n.nextRef :=
    fun ⟨k, hk⟩ => ht.alloc k _ hk
  cases h with
  | talk hL h =>
    have hl := Classical.byContradiction fun hl => hcl (hL hl)
    refine hb.kept (by rw [h.peers]) (fun k r hk => Or.inl (by rw [← h.pending]; exact hk)) fun r _ => ?_
    obtain ⟨s, hs⟩ := (h.obj r).of_lossless hl
    rw [hs]
    exact ⟨rfl, rfl⟩
  | touch r p h =>
    exact hb.kept rfl (fun k r hk => Or.inl hk) fun s _ =>
      ⟨setObj_congr Peer.ready n r h.ready s, setObj_congr Peer.groups n r h.groups s⟩
  | quiet h | books ha h hbk =>
    rw [h]
    exact hb.kept rfl (fun k r hk => Or.inl hk) fun _ _ => ⟨rfl, rfl⟩
  | emit e he => exact hb.kept rfl (fun k r hk => Or.inl hk) fun _ _ => ⟨rfl, rfl⟩
  | waste p hd hc =>
    refine hb.kept rfl (fun k r hk => Or.inl hk) fun r hr => ?_
    rw [allocated_obj, if_neg (Nat.ne_of_lt (hlt hr))]
    exact ⟨rfl, rfl⟩
  | file ha env k addr port curve hk hown =>
    have hold : ∀ s, (∃ k, n.peers.get k = some s ∨ n.pending.get k = some s) →
        (n.allocated (n.opened env k addr port curve)).obj s = n.obj s := fun s hs => by
      rw [allocated_obj, if_neg (Nat.ne_of_lt (hlt hs))]
    have hnew := allocated_obj_self n (n.opened env k addr port curve)
    by_cases hy : k = y
    · subst hy
      refine Blank.filed hk (Dict.get_set_self ..) (congrArg Peer.ready hnew) (congrArg Peer.groups hnew)
        fun j s hs => ?_
      exact (congrArg Peer.ready (hold s ⟨j, Or.inr hs⟩)).trans (hb.wait j s hs)
    · refine hb.kept ((Dict.get_set ..).trans (if_neg hy)) (fun j s hs => Or.inl hs) fun s hs => ?_
      exact ⟨congrArg Peer.ready (hold s hs), congrArg Peer.groups (hold s hs)⟩
  | dial ha env k addr port curve =>
    have hold : ∀ s, (∃ k, n.peers.get k = some s ∨ n.pending.get k = some s) →
        (n.allocated (n.opened env k addr port curve)).obj s = n.obj s := fun s hs => by
      rw [allocated_obj, if_neg (Nat.ne_of_lt (hlt hs))]
    have hnew := allocated_obj_self n (n.opened env k addr port curve)
    refine hb.kept rfl (fun j s hs => ?_) fun s hs =>
      ⟨congrArg Peer.ready (hold s hs), congrArg Peer.groups (hold s hs)⟩
    have hs' : (n.pending.set k n.nextRef).get j = some s := hs
    rw [Dict.get_set] at hs'
    split at hs'
    · cases hs'
      exact Or.inr (congrArg Peer.ready hnew)
    · exact Or.inl hs'
  | adopt ha env k r rhex hp hk hown =>
    let p := { n.obj r with uuidHex := rhex }.refresh env.now n.cfg.evTimeout n.cfg.exTimeout
    have hsame : ∀ s, ((n.adoptUnder env k r rhex).obj s).ready = (n.obj s).ready ∧
        ((n.adoptUnder env k r rhex).obj s).groups = (n.obj s).groups := fun s =>
      ⟨setObj_congr Peer.ready n r (p := p) rfl s, setObj_congr Peer.groups n r (p := p) rfl s⟩
    have hpop : ∀ j s, (n.adoptUnder env k r rhex).pending.get j = some s → n.pending.get j = some s :=
      fun j s hs => Dict.get_of_get_pop hs
    by_cases hy : rhex = y
    · subst hy
      refine Blank.filed hk (adoptUnder_peers env n k r rhex) ?_ ?_ fun j s hs => ?_
      · rw [(hsame r).1]
        exact hb.wait k r hp
      · rw [(hsame r).2]
        exact ht.pendingIdle k r hp
      · rw [(hsame s).1]
        exact hb.wait j s (hpop j s hs)
    · exact hb.kept ((Dict.get_set ..).trans (if_neg hy)) (fun j s hs => Or.inl (hpop j s hs)) fun s _ => hsame s
  | hail ha => exact absurd ha hh
  | enter ha => exact absurd ha he
  | leave ha => exact absurd ha hlv
  | forget ha | dropDial ha => exact absurd ha hf

/-- So do sequences of them. -/
theorem Moves.record {env : Env} (hl : env.Lossless) {ks : List Kind} (hks : ks ⊆ [.meet, .books])
    {hands : Handed → Prop} {n n' : Node} {y : Str} (ht : Tables n) (hb : n.Blank y)
    (h : Moves (may env ks) hands n n') : n'.Blank y ∧ n'.groupsOf y = n.groupsOf y := by
  have hnot : ∀ {k : Kind}, k ∉ [Kind.meet, Kind.books] → ¬ may env ks k := fun hk hmay =>
    hmay.elim (fun hm => hk (hks hm)) fun hcl => hcl.2 hl
  refine (h.invariant (I := fun m => Tables m ∧ m.Blank y ∧ m.groupsOf y = n.groupsOf y)
    (fun {m m'} hm hi => ?_) ⟨ht, hb, rfl⟩).2
  obtain ⟨htm, hbm, hsame⟩ := hi
  obtain ⟨hb', hsame'⟩ := hm.record (hnot (by decide)) (hnot (by decide)) (hnot (by decide)) (hnot (by decide))
    (hnot (by decide)) htm hbm
  exact ⟨htm.move hm, hb', hsame'.trans hsame⟩

namespace Node

/-! ## Frames of the peer -/

section Frames

variable {env : Env} {n : Node} {y : Str} {r : Ref}

theorem groupsOf_ready (hk : n.peers.get y = some r) (hr : (n.obj r).ready = true) :
    n.groupsOf y = some (n.obj r).groups := by
  rw [groupsOf_some hk, hr]
  rfl

/-- Where no send fails, the peer that is entered is ready. -/
theorem enterPeer_ready (hl : env.Lossless) (h : HelloFields) (epStr : Str) (reply : Bool) :
    Ensures (n.enterPeer env y r h epStr reply) fun n' => (n'.obj r).ready = true := by
  intro n' hn'
  obtain ⟨n2, h2, hn'⟩ := bind_eq_ok_iff.1 hn'
  obtain ⟨i, hi⟩ := ((talk_replyHello env _ r reply n2 h2).obj r).of_lossless hl
  obtain ⟨groups, hobj, -⟩ := enterGroups_obj n2 r h.groups
  set n3 := h.groups.foldl (fun n g => n.enterGroup r g) n2
  have hemits := emits_rest (n3.emit (.enter y (pname (n3.obj r)) epStr))
    (fun g => .join y (pname (n3.obj r)) (bdec g)) h.groups
  obtain ⟨j, hj⟩ := ((talk_startElections env _ h.groups n' hn').obj r).of_lossless hl
  rw [hj, hemits]
  show (n3.obj r).ready = true
  rw [hobj, hi, setObj_obj_self]

/-- Its record has the groups of its HELLO. -/
theorem enterPeer_copy (hl : env.Lossless) (hk : n.peers.get y = some r) (hg : (n.obj r).groups = [])
    (h : HelloFields) (epStr : Str) (reply : Bool) :
    Ensures (n.enterPeer env y r h epStr reply) fun n' => n'.peers.get y = some r ∧ (n'.obj r).ready = true ∧
      n'.copyOf y = some {g | g ∈ h.groups} := by
  refine ((enterPeer_record env n y r h epStr reply).and (enterPeer_ready hl h epStr reply)).mono
    fun n' hn' => ?_
  obtain ⟨⟨hp, hgs, -⟩, hready⟩ := hn'
  have hk' : n'.peers.get y = some r := by rw [hp]; exact hk
  refine ⟨hk', hready, ?_⟩
  unfold copyOf
  rw [groupsOf_ready hk' hready, Option.map_some]
  simp only [hgs, hg, List.not_mem_nil, false_or]

/-- A HELLO of the peer is taken up where its record is not ready, or it is missed; a ready record ignores it. -/
theorem handleHello_copy (hl : env.Lossless) (ht : Tables n) (hb : n.Blank y) (hown : y ≠ n.cfg.peerIdHex)
    (h : HelloFields) :
    Ensures (n.handleHello env y h (n.peers.get y)) fun n' =>
      (∀ r, n'.peers.get y = some r → (n'.obj r).ready = false → (n'.obj r).groups = []) ∧
      Replica.Hears (n.copyOf y) (.all {g | g ∈ h.groups}) (n'.copyOf y) := by
  intro n' hn'
  rcases handleHello_awaits env n hown h n' hn' with ⟨hm, -⟩ | ⟨n1, r, epStr, reply, hwait, henter⟩
  · obtain ⟨hb', hsame⟩ := hm.record hl (by simp) ht hb
    refine ⟨hb'.entry, ?_⟩
    unfold copyOf
    rw [hsame]
    cases n.groupsOf y with
    | none => exact .miss _
    | some gs => exact .follow _ _
  · obtain ⟨n0, hm0, -, hp0, hcfg, hcase⟩ := hwait
    obtain ⟨hb0, hsame0⟩ := hm0.record hl (by simp) ht hb
    have ht0 := hm0.invariant Tables.move ht
    -- in both cases the sender has an entry before it is entered, and is not ready
    obtain ⟨hk1, hg1, hnone⟩ : n1.peers.get y = some r ∧ (n1.obj r).groups = [] ∧ n.groupsOf y = none := by
      rcases hcase with ⟨rfl, hk, hr⟩ | ⟨hk, -, addr, port, -, hfinds⟩
      · refine ⟨hk, hb0.entry r hk hr, ?_⟩
        rw [← hsame0, groupsOf_some hk, hr]
        rfl
      · have hm1 : Moves (may env [.meet]) (fun _ => False) n0 n1 := hfinds.moves hk (by rw [hcfg]; exact hown)
        obtain ⟨hb1, hsame1⟩ := hm1.record hl (by simp) ht0 hb0
        have hnone := groupsOf_none hk
        refine ⟨hfinds.filed, hb1.entry r hfinds.filed ?_, hsame0 ▸ hnone⟩
        rw [hnone, groupsOf_some hfinds.filed] at hsame1
        cases hr : (n1.obj r).ready with
        | false => rfl
        | true => simp [hr] at hsame1
    obtain ⟨hk', hready, hcopy⟩ := enterPeer_copy hl hk1 hg1 h epStr reply n' henter
    refine ⟨fun s hs hr => ?_, ?_⟩
    · rw [hk'] at hs
      cases hs
      rw [hready] at hr
      cases hr
    · rw [hcopy, copyOf, hnone]
      exact .take _

/-- A write of the groups of a ready peer, and an election after it. -/
theorem talk_copy (hl : env.Lossless) {m n' : Node} {gs : List Bytes} {K : Handed → Prop}
    (h : Talk env.Lossless K m n') (hk : n.peers.get y = some r) (hr : (n.obj r).ready = true)
    (hm : m.obj = (n.setObj r { n.obj r with groups := gs }).obj) (hp : m.peers = n.peers) :
    n'.peers.get y = some r ∧ (n'.obj r).ready = true ∧ n'.groupsOf y = some gs := by
  obtain ⟨i, hi⟩ := (h.obj r).of_lossless hl
  have hobj : m.obj r = { n.obj r with groups := gs } := by rw [hm, setObj_obj_self]
  have hk' : n'.peers.get y = some r := by rw [h.peers, hp]; exact hk
  have hr' : (n'.obj r).ready = true := by rw [hi, hobj]; exact hr
  refine ⟨hk', hr', ?_⟩
  rw [groupsOf_ready hk' hr', hi, hobj]

theorem handleJoin_copy (hl : env.Lossless) (hk : n.peers.get y = some r) (hr : (n.obj r).ready = true)
    (g : Bytes) :
    Ensures (n.handleJoin env y r g) fun n' => n'.peers.get y = some r ∧ (n'.obj r).ready = true ∧
      n'.groupsOf y = some (if g = [] then (n.obj r).groups else addGroup (n.obj r).groups g) := by
  unfold handleJoin
  split
  · exact Ensures.ok ⟨hk, hr, groupsOf_ready hk hr⟩
  · refine (talk_startElection env _ g).mono fun n' h => ?_
    have hrest := requireGroup_rest (n.setObj r { n.obj r with groups := addGroup (n.obj r).groups g }) g
    have hobj := congrArg Node.obj hrest
    have hpeers := congrArg Node.peers hrest
    obtain ⟨hk', hr', hgs⟩ := talk_copy hl h hk hr hobj hpeers
    exact ⟨hk', hr', hgs⟩

theorem handleLeave_copy (hl : env.Lossless) (hk : n.peers.get y = some r) (hr : (n.obj r).ready = true)
    (g : Bytes) :
    Ensures (n.handleLeave env y r g) fun n' => n'.peers.get y = some r ∧ (n'.obj r).ready = true ∧
      n'.groupsOf y = some (if g = [] then (n.obj r).groups else discardGroup (n.obj r).groups g) := by
  unfold handleLeave
  split
  · exact Ensures.ok ⟨hk, hr, groupsOf_ready hk hr⟩
  · refine (talk_restartElectionIfNeeded env _ g).mono fun n' h => ?_
    have hrest := leaveTable_rest (n.setObj r { n.obj r with groups := discardGroup (n.obj r).groups g }) g r
    have hobj := congrArg Node.obj hrest
    have hpeers := congrArg Node.peers hrest
    obtain ⟨hk', hr', hgs⟩ := talk_copy hl h hk hr hobj hpeers
    exact ⟨hk', hr', hgs⟩

/-- A message that names no group with a status leaves the tables alone. -/
theorem moves_dispatch_plain (env : Env) (n : Node) (y : Str) (r : Ref) {msg : Msg}
    (hf : ∀ g status, msg.fields ≠ .groupStatus g status) (hno : msg.cmd ≠ Cmd.goodbye) (extra : List Bytes) :
    Ensures (n.dispatch env y r msg extra) (Moves (may env []) anything n) := by
  have htalk : ∀ {K : Handed → Prop} {n' : Node}, Talk env.Lossless K n n' → Moves (may env []) anything n n' :=
    fun h => (h.mono fun _ _ => trivial).moves
  have hemit : ∀ {e : Event}, ¬ e.IsEnter → Moves (may env []) anything n (n.emit e) := fun he =>
    moves_emit n fun h => absurd h he
  unfold dispatch
  simp only [if_neg hno]
  split
  · exact Ensures.ok (hemit fun h => nomatch h)
  split
  · exact (talk_sendCmd env n r _ _ _ _).mono fun _ h => htalk h
  split
  · exact Ensures.ok (moves_refreshPeer env n r)
  split
  · split
    · exact Ensures.ok (hemit fun h => nomatch h)
    · exact Ensures.ok (Moves.refl n)
  · rename_i g status hfields
    exact absurd hfields (hf g status)
  · split
    · exact (talk_handleElect env n r _ _).mono fun _ h => htalk h
    split
    · exact (talk_handleLeader env n _ _).mono fun _ h => htalk h
    · exact Ensures.ok (Moves.refl n)
  · exact Ensures.ok (Moves.refl n)

/-- The record of `y` takes up what a frame says, unless it is about a group without a name, and is empty as long as
it is not ready. -/
structure Copies (y : Str) (v : Option News) (n n' : Node) : Prop where
  entry : ∀ r, n'.peers.get y = some r → (n'.obj r).ready = false → (n'.obj r).groups = []
  still : v = none → n'.groupsOf y = n.groupsOf y
  hears : ∀ w, v = some w → w.Named → Replica.Hears (n.copyOf y) w.note (n'.copyOf y)
  ignores : ∀ w, v = some w → ¬ w.Named → n'.groupsOf y = n.groupsOf y
  keeps : (n.groupsOf y).isSome → (n'.groupsOf y).isSome

/-- A record that is ready is not empty for want of a HELLO. -/
theorem Copies.of_ready {n' : Node} {v : Option News} (hk : n'.peers.get y = some r)
    (hr : (n'.obj r).ready = true) (hstill : v = none → n'.groupsOf y = n.groupsOf y)
    (hhears : ∀ w, v = some w → w.Named → Replica.Hears (n.copyOf y) w.note (n'.copyOf y))
    (hignores : ∀ w, v = some w → ¬ w.Named → n'.groupsOf y = n.groupsOf y) : Copies y v n n' := by
  refine ⟨fun s hs hs' => ?_, hstill, hhears, hignores, fun _ => by rw [groupsOf_ready hk hr]; rfl⟩
  rw [hk] at hs
  cases hs
  rw [hr] at hs'
  cases hs'

/-- A frame that is dropped. -/
theorem Copies.dropped {v : Option News} (hb : n.Blank y)
    (hv : ∀ w, v = some w → n.groupsOf y = none) : Copies y v n n := by
  refine ⟨hb.entry, fun _ => rfl, fun w hw _ => ?_, fun _ _ _ => rfl, id⟩
  unfold copyOf
  rw [hv w hw]
  exact .miss _

theorem handleTraffic_copy (hl : env.Lossless) (ht : Tables n) (hb : n.Blank y) (hk : n.peers.get y = some r)
    (hr : (n.obj r).ready = true) {msg : Msg} (hf : Codec.FieldsOf msg.cmd msg.fields)
    (hhello : ∀ h, msg.fields ≠ .hello h) (hno : msg.cmd ≠ Cmd.goodbye) (extra : List Bytes) :
    Ensures (n.handleTraffic env y r msg extra) (Copies y msg.news n) := by
  obtain ⟨hm, hp⟩ := moves_arrive (may env []) (fun _ => False) env n y r msg
  obtain ⟨hb1, hsame⟩ := hm.record hl (by simp) ht hb
  have ht1 := hm.invariant Tables.move ht
  have hk1 : (n.arrive env y r msg).peers.get y = some r := by rw [hp]; exact hk
  have hr1 : ((n.arrive env y r msg).obj r).ready = true :=
    (arrive_congr Peer.ready (fun _ _ => rfl) (fun _ _ _ _ => rfl) env n y r msg r).trans hr
  have hcopy : n.copyOf y = some {g | g ∈ ((n.arrive env y r msg).obj r).groups} := by
    unfold copyOf
    rw [← hsame, groupsOf_ready hk1 hr1, Option.map_some]
  show Ensures ((n.arrive env y r msg).dispatch env y r msg extra) _
  cases hfields : msg.fields with
  | hello h => exact absurd hfields (hhello h)
  | groupStatus g status =>
    rw [hfields] at hf
    rcases hf.1 with hcmd | hcmd
    · have hd : (n.arrive env y r msg).dispatch env y r msg extra =
          (n.arrive env y r msg).handleJoin env y r g := by
        unfold dispatch
        simp [hcmd, hfields, Cmd.join, Cmd.whisper, Cmd.goodbye, Cmd.ping, Cmd.pingOk]
      rw [hd]
      refine (handleJoin_copy hl hk1 hr1 g).mono fun n' hn' => ?_
      obtain ⟨hk', hr', hgs⟩ := hn'
      have hnews : msg.news = some (.join g status) := by simp [Msg.news, hfields, hcmd]
      refine Copies.of_ready hk' hr' (by simp [hnews]) ?_ ?_ <;> rintro _ hw hne <;> rw [hnews] at hw <;> cases hw
      · have hset : n'.copyOf y = some (insert g {x | x ∈ ((n.arrive env y r msg).obj r).groups}) := by
          unfold copyOf
          rw [hgs, if_neg hne, Option.map_some]
          exact congrArg some (Set.ext fun x => (mem_addGroup _ _ _).trans or_comm)
        rw [hcopy, hset]
        exact .follow _ _
      · rw [hgs, if_pos (not_not.1 hne), ← hsame, groupsOf_ready hk1 hr1]
    · have hd : (n.arrive env y r msg).dispatch env y r msg extra =
          (n.arrive env y r msg).handleLeave env y r g := by
        unfold dispatch
        simp [hcmd, hfields, Cmd.join, Cmd.leave, Cmd.whisper, Cmd.goodbye, Cmd.ping, Cmd.pingOk]
      rw [hd]
      refine (handleLeave_copy hl hk1 hr1 g).mono fun n' hn' => ?_
      obtain ⟨hk', hr', hgs⟩ := hn'
      have hnews : msg.news = some (.leave g status) := by
        simp [Msg.news, hfields, hcmd, Cmd.leave, Cmd.join]
      refine Copies.of_ready hk' hr' (by simp [hnews]) ?_ ?_ <;> rintro _ hw hne <;> rw [hnews] at hw <;> cases hw
      · have hset : n'.copyOf y = some ({x | x ∈ ((n.arrive env y r msg).obj r).groups} \ {g}) := by
          unfold copyOf
          rw [hgs, if_neg hne, Option.map_some]
          exact congrArg some (Set.ext fun x => mem_discardGroup _ _ _)
        rw [hcopy, hset]
        exact .follow _ _
      · rw [hgs, if_pos (not_not.1 hne), ← hsame, groupsOf_ready hk1 hr1]
  | none | group g | election g id =>
    have hplain : ∀ g status, msg.fields ≠ .groupStatus g status := by simp [hfields]
    have hnews : msg.news = none := by simp [Msg.news, hfields]
    refine (moves_dispatch_plain env _ y r hplain hno extra).mono fun n' hm' => ?_
    obtain ⟨hb', hsame'⟩ := hm'.record hl (by simp) ht1 hb1
    exact ⟨hb'.entry, fun _ => hsame'.trans hsame, by simp [hnews], by simp [hnews],
      by rw [hsame', hsame]; exact fun h => h⟩

/-- A frame of the node `uuid` arrives. -/
theorem handlePeerMsg_copy (hl : env.Lossless) {uuid : Bytes} (ht : Tables n) (hb : n.Blank (hex uuid))
    (hown : uuid ≠ n.cfg.peerId) {rid : Bytes} (hu : routingUuid rid = some uuid) {f : Handed}
    (hno : ¬ f.Is Cmd.goodbye) :
    Ensures (n.handlePeerMsg env (rid :: f.frames)) (Copies (hex uuid) f.news n) := by
  intro n' hn'
  cases hframes : f.frames with
  | nil =>
    rw [hframes] at hn'
    cases hn'
    exact Copies.dropped hb (by simp [Handed.news, Handed.msg, hframes])
  | cons data extra =>
    rw [hframes] at hn'
    cases hd : Codec.decode data with
    | error e =>
      unfold handlePeerMsg at hn'
      simp [hu, hd] at hn'
    | ok o =>
      cases o with
      | none =>
        unfold handlePeerMsg at hn'
        simp only [hu, hd, bind_ok] at hn'
        cases hn'
        exact Copies.dropped hb (by simp [Handed.news, Handed.msg, hframes, hd, Except.toOption])
      | some msg =>
        have hmsg := (Handed.msg_eq_some hframes).2 hd
        have hnews : f.news = msg.news := Handed.news_of_decode hframes hd
        have hfields := Codec.decode_fields hd
        rw [hnews]
        by_cases hhello : ∃ h, msg.fields = .hello h
        · obtain ⟨h, hf⟩ := hhello
          obtain ⟨hm0, hp0, -⟩ := moves_resetSeq (may env []) (fun _ => False) n (hex uuid)
          obtain ⟨hb0, hsame0⟩ := hm0.record hl (by simp) ht hb
          have hown0 : hex uuid ≠ (n.resetSeq (hex uuid)).cfg.peerIdHex := by
            rw [moves_cfg hm0]
            exact fun e => hown (hex_injective e)
          rw [handlePeerMsg_hello env hu hd hf, ← hp0] at hn'
          obtain ⟨hentry, hhears⟩ := handleHello_copy hl (hm0.invariant Tables.move ht) hb0 hown0 h n' hn'
          have hv : msg.news = some (.hello h.groups h.status) := by simp [Msg.news, hf]
          rw [copyOf, hsame0] at hhears
          refine ⟨hentry, by simp [hv], fun w hw _ => ?_, fun w hw hne => ?_, fun hsome => ?_⟩
          · rw [hv] at hw
            cases hw
            exact hhears
          · rw [hv] at hw
            cases hw
            exact absurd trivial hne
          · have hcopy := hhears.isSome (by rwa [Option.isSome_map])
            rwa [copyOf, Option.isSome_map] at hcopy
        · push Not at hhello
          by_cases hr : ∃ r, n.peers.get (hex uuid) = some r ∧ (n.obj r).ready = true
          · obtain ⟨r, hk, hr⟩ := hr
            rw [handlePeerMsg_traffic env hu hd hhello hk hr] at hn'
            exact handleTraffic_copy hl ht hb hk hr hfields.2 hhello
              (fun e => hno (e ▸ (Handed.is_of_msg hmsg).1)) extra n' hn'
          · push Not at hr
            rw [handlePeerMsg_dropped env hu hd hhello fun r hk => Bool.eq_false_iff.2 (hr r hk)] at hn'
            cases hn'
            refine Copies.dropped hb fun w _ => ?_
            cases hk : n.peers.get (hex uuid) with
            | none => exact groupsOf_none hk
            | some r =>
              rw [groupsOf_some hk, Bool.eq_false_iff.2 (hr r hk)]
              rfl

end Frames

end Node

end Zre
