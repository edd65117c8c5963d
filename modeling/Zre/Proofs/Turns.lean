import Zre.Proofs.Views

/-!
# Proofs: the turns of the handshake

What a beacon, a dial and a HELLO of one peer do to the view that a node has of it, for a node without
Curve whose sends and connects succeed. Each of them is one function on views, that of the abstract
handshake.
-/

namespace Zre

open Fallible

namespace Node

/-! ## The pieces -/

/-- Without Curve a dial that can connect gives a connected peer. -/
theorem openPeer_plain {env : Env} (henv : env.Succeeds) {n : Node} (hp : n.cfg.curveSecret = none)
    (k addr : Str) (port : Int) (rhex : Option Str) :
    ∃ curve, n.openPeer env k addr port rhex =
      (some n.nextRef, n.allocated (n.opened env k addr port curve)) := by
  have hargs : n.curveClientArgs addr port rhex = (none, none, none) := by
    unfold curveClientArgs; rw [hp]
  rcases openPeer_cases env n k addr port rhex with h | ⟨p, -, -, h⟩ | h
  · unfold openPeer at h
    simp [hargs, hp, connect, alloc, Peer.new, henv.connects] at h
  · unfold openPeer at h
    simp [hargs, hp, connect, alloc, Peer.new, henv.connects] at h
  · exact h

/-- The HELLO that a connected peer is sent. -/
theorem sendHello_sent {env : Env} (henv : env.Succeeds) {n : Node} (hl : Links n) {r : Ref}
    (hc : (n.obj r).connected = true) :
    Ensures (n.sendHello env r) fun n' => Steady n n' ∧ ∃ h, n'.outbox = n.outbox ++ [h] ∧
      h.outcome = .sent ∧ h.dealer.addr = (n.obj r).addr ∧ h.dealer.port = (n.obj r).port ∧
      n.SaysHello env (n.obj r).addr h := by
  intro n' hn'
  refine ⟨Steady.of_talk henv.lossless (talk_sendHello env n r n' hn'), ?_⟩
  obtain ⟨res, hres, hn'⟩ := bind_eq_ok_iff.1 hn'
  cases hn'
  rcases sendEncoded_cases env n r _ _ res hres with
    ⟨-, h | h⟩ | ⟨dealer, frame, -, hd, hframe, hout⟩
  · rw [hc] at h; cases h
  · obtain ⟨d, hd⟩ := Option.isSome_iff_exists.1 ((hl.dealer r).1 hc)
    rw [hd] at h; cases h
  · obtain ⟨endpoint, hep, henc⟩ := bind_eq_ok_iff.1 hframe
    obtain ⟨haddr, hport, -⟩ := hl.target r dealer hd
    refine ⟨⟨dealer, [frame], env.send n.outbox.length⟩, by rw [hout], henv.lossless _, haddr, hport, ?_⟩
    exact ⟨_, endpoint, frame, rfl, hep, henc⟩

section

variable {n : Node} {x host : Str} {port : Int}

/-- At the address of `x` the only pending dial is the one with that key. -/
theorem pendingMatch_facing (hF : n.Facing x host port) :
    n.pendingMatch host port x =
      (n.pending.get (pendingKey host port)).map fun r => (pendingKey host port, r) := by
  have hkey : ∀ e ∈ n.pending.entries, (n.obj e.2).port = port →
      n.pending.get (pendingKey host port) = some e.2 ∧ e.1 = pendingKey host port := by
    intro e he hport
    have hget : n.pending.get e.1 = some e.2 := (Dict.get_eq_some_iff _).2 (show (e.1, e.2) ∈ _ from he)
    have hk := hF.dial e.1 e.2 hget hport
    exact ⟨hk ▸ hget, hk⟩
  cases hw : n.pending.get (pendingKey host port) with
  | none =>
    have hno : ∀ e ∈ n.pending.entries, (n.obj e.2).port ≠ port := fun e he hport => by
      rw [hw] at hkey
      exact nomatch (hkey e he hport).1
    unfold pendingMatch
    rw [List.find?_eq_none.2 fun e he => by simp [hno e he],
      List.find?_eq_none.2 fun e he => by simp [hno e he]]
    rfl
  | some r =>
    obtain ⟨haddr, hport, -⟩ := hF.wait r hw
    have hmem : (pendingKey host port, r) ∈ n.pending.entries := (Dict.get_eq_some_iff _).1 hw
    unfold pendingMatch
    cases hf : n.pending.entries.find?
        (fun e => decide ((n.obj e.2).addr = host ∧ (n.obj e.2).port = port)) with
    | none => exact absurd (List.find?_eq_none.1 hf _ hmem) (by simp [haddr, hport])
    | some e =>
      have hp : (n.obj e.2).addr = host ∧ (n.obj e.2).port = port := by
        simpa using List.find?_some hf
      obtain ⟨hget, hk⟩ := hkey e (List.mem_of_find?_eq_some hf) hp.2
      rw [hw] at hget
      obtain ⟨k, s⟩ := e
      simp only [Option.some.injEq] at hget hk
      simp [hget, hk]

/-- Filing a connected peer under `x`, whose dial is then no longer pending. -/
theorem facing_filed {m : Node} {r : Ref} (hF : n.Facing x host port)
    (hpeers : m.peers = n.peers.set x r)
    (hpend : ∀ k s, m.pending.get k = some s →
      n.pending.get k = some s ∧ s ≠ r ∧ k ≠ pendingKey host port)
    (hother : ∀ k s, n.peers.get k = some s → s ≠ r)
    (hobj : ∀ s, s ≠ r → m.obj s = n.obj s)
    (hnew : (m.obj r).addr = host ∧ (m.obj r).port = port ∧ (m.obj r).connected = true) :
    m.Facing x host port := by
  constructor
  · intro s hs
    rw [hpeers, Dict.get_set_self] at hs
    cases hs
    exact hnew
  · intro k s hs haddr hport
    rw [hpeers, Dict.get_set] at hs
    split at hs
    · rename_i hk; exact hk.symm
    · rw [hobj s (hother k s hs)] at haddr hport
      exact hF.sole k s hs haddr hport
  · intro k s hs hport
    obtain ⟨hs', hne, -⟩ := hpend k s hs
    rw [hobj s hne] at hport
    exact hF.dial k s hs' hport
  · intro s hs
    exact absurd rfl (hpend _ s hs).2.2

/-- After an adoption the peer is known, at the address that was dialled. -/
theorem facing_adoptUnder (env : Env) (ht : Tables n) (hF : n.Facing x host port) {r : Ref}
    (hw : n.pending.get (pendingKey host port) = some r) :
    (n.adoptUnder env (pendingKey host port) r x).Facing x host port ∧
    (n.adoptUnder env (pendingKey host port) r x).view x host port = .known ∧
    ((n.adoptUnder env (pendingKey host port) r x).obj r).connected = true ∧
    ((n.adoptUnder env (pendingKey host port) r x).obj r).addr = host := by
  obtain ⟨haddr, hport, hconn, hready, -⟩ := hF.wait r hw
  have hself : (n.adoptUnder env (pendingKey host port) r x).obj r =
      { n.obj r with uuidHex := x }.refresh env.now n.cfg.evTimeout n.cfg.exTimeout :=
    setObj_obj_self n r _
  refine ⟨facing_filed hF rfl (fun k s hs => ?_) (fun k s hs he => ?_) (fun s hs => ?_) ?_, ?_, ?_, ?_⟩
  · change (n.pending.pop (pendingKey host port)).get k = some s at hs
    rw [Dict.get_pop] at hs
    split at hs
    · cases hs
    · rename_i hk
      exact ⟨hs, fun e => hk (ht.pendingInj _ _ _ hw (e ▸ hs)), fun e => hk e.symm⟩
  · exact ht.apart k _ s hs (he ▸ hw)
  · exact (setObj_obj n r s _).trans (if_neg hs)
  · rw [hself]; exact ⟨haddr, hport, hconn⟩
  · rw [view_known (adoptUnder_peers env n _ r x), hself]
    simp [Peer.refresh, hready]
  · rw [hself]; exact hconn
  · rw [hself]; exact haddr

/-- After a dial the peer is known, at the address that was dialled. -/
theorem facing_dialled (env : Env) (ht : Tables n) (hF : n.Facing x host port)
    (curve : Option (Bytes × Bytes × Bytes)) (hw : n.pending.get (pendingKey host port) = none)
    {m : Node} (hm : m = { n.allocated (n.opened env x host port curve) with
      peers := n.peers.set x n.nextRef }) :
    m.Facing x host port ∧ m.view x host port = .known ∧ (m.obj n.nextRef).connected = true ∧
      (m.obj n.nextRef).addr = host := by
  subst hm
  have hself := allocated_obj_self n (n.opened env x host port curve)
  refine ⟨facing_filed hF rfl (fun k s hs => ?_) (fun k s hs => ?_) (fun s hs => ?_) ?_, ?_, ?_, ?_⟩
  · refine ⟨hs, Nat.ne_of_lt (ht.alloc k s (Or.inr hs)), ?_⟩
    rintro rfl
    rw [show n.pending.get (pendingKey host port) = some s from hs] at hw
    cases hw
  · exact Nat.ne_of_lt (ht.alloc k s (Or.inl hs))
  · exact (allocated_obj n _ s).trans (if_neg hs)
  · show (((n.allocated (n.opened env x host port curve)).obj n.nextRef).addr = host) ∧ _ ∧ _
    rw [hself]; exact ⟨rfl, rfl, rfl⟩
  · have hfiled : ({ n.allocated (n.opened env x host port curve) with
        peers := n.peers.set x n.nextRef } : Node).peers.get x = some n.nextRef :=
      Dict.get_set_self n.peers x n.nextRef
    rw [view_known hfiled]
    show (if ((n.allocated (n.opened env x host port curve)).obj n.nextRef).ready then _ else _) = _
    rw [hself]; rfl
  · show ((n.allocated (n.opened env x host port curve)).obj n.nextRef).connected = true
    rw [hself]; rfl
  · show ((n.allocated (n.opened env x host port curve)).obj n.nextRef).addr = host
    rw [hself]; rfl

/-- After a dial without an id the answer is awaited. -/
theorem facing_pending (env : Env) (ht : Tables n) (hF : n.Facing x host port)
    (curve : Option (Bytes × Bytes × Bytes)) (hk : n.peers.get x = none) {m : Node}
    (hm : m = { n.allocated (n.opened env (pendingKey host port) host port curve) with
      pending := n.pending.set (pendingKey host port) n.nextRef }) :
    m.Facing x host port ∧ m.view x host port = .dialled ∧ (m.obj n.nextRef).addr = host ∧
      (m.obj n.nextRef).port = port ∧ (m.obj n.nextRef).connected = true := by
  have hself : m.obj n.nextRef = n.opened env (pendingKey host port) host port curve := by
    subst hm; exact allocated_obj_self n _
  have hother : ∀ s, s < n.nextRef → m.obj s = n.obj s := fun s hs => by
    subst hm; exact (allocated_obj n _ s).trans (if_neg (Nat.ne_of_lt hs))
  have hpeers : m.peers = n.peers := by rw [hm]; rfl
  have hpend : m.pending = n.pending.set (pendingKey host port) n.nextRef := by rw [hm]
  refine ⟨⟨fun r hr => ?_, fun k s hs haddr hport => ?_, fun k s hs hport => ?_, fun s hs => ?_⟩, ?_,
    ?_, ?_, ?_⟩
  · rw [hpeers, hk] at hr; cases hr
  · rw [hpeers] at hs
    rw [hother s (ht.alloc k s (Or.inl hs))] at haddr hport
    exact hF.sole k s hs haddr hport
  · rw [hpend, Dict.get_set] at hs
    split at hs
    · rename_i hkey; exact hkey.symm
    · rw [hother s (ht.alloc k s (Or.inr hs))] at hport
      exact hF.dial k s hs hport
  · rw [hpend, Dict.get_set_self] at hs
    cases hs
    rw [hself, hpeers]
    exact ⟨rfl, rfl, rfl, rfl, hk⟩
  · rw [view_new (by rw [hpeers]; exact hk), if_pos]
    exact Dict.contains_iff.2 ⟨n.nextRef, by rw [hpend]; exact Dict.get_set_self ..⟩
  · rw [hself]; rfl
  · rw [hself]; rfl
  · rw [hself]; rfl

/-- Nobody is ready who is not in the table. -/
theorem view_new_cases (host : Str) (port : Int) (h : n.peers.get x = none) :
    n.view x host port = .unknown ∨ n.view x host port = .dialled := by
  rw [view_new h]
  split
  · exact Or.inr rfl
  · exact Or.inl rfl

theorem view_new_not_ready (h : n.peers.get x = none) : n.view x host port ≠ .ready := by
  rcases view_new_cases host port h with h | h <;> rw [h] <;> simp

/-! ## Beacons and dials -/

/-- Sending a HELLO to a peer at the address. -/
theorem sendHello_turn {env : Env} (henv : env.Succeeds) (ht : Tables n) (hl : Links n)
    (hF : n.Facing x host port) {r : Ref} (haddr : (n.obj r).addr = host)
    (hport : (n.obj r).port = port) (hc : (n.obj r).connected = true) :
    Ensures (n.sendHello env r) fun n' =>
      n.Turns n' x host port (n.view x host port, true) (n.SaysHello env host) := by
  refine (sendHello_sent henv hl hc).mono fun n' hn' => ?_
  obtain ⟨hs, h, hout, hsent, hda, hdp, hgreet⟩ := hn'
  refine ⟨hF.steady ht hs, view_steady ht hs, ?_, [h], [], by simpa using hout, by simp, ?_⟩
  · rw [hs.enters x, if_neg fun h => h.2 h.1, Nat.add_zero]
  · exact ⟨h, rfl, hsent, hda.trans haddr, hdp.trans hport, haddr ▸ hgreet⟩

/-- A peer that has just been filed is greeted. -/
theorem greet_turn {env : Env} (henv : env.Succeeds) {m : Node} (ht : Tables m) (hl : Links m)
    (hF : m.Facing x host port) {r : Ref} (hr : m.peers.get x = some r)
    (hview : m.view x host port = .known) (hk : n.peers.get x = none)
    (he : m.enters x = n.enters x) (ho : m.outbox = n.outbox)
    (hgreet : m.SaysHello env host = n.SaysHello env host) :
    Ensures (m.sendHello env r) fun n' =>
      n.Turns n' x host port (n.view x host port).look (n.SaysHello env host) := by
  obtain ⟨haddr, hport, hc⟩ := hF.home r hr
  refine (sendHello_turn henv ht hl hF haddr hport hc).mono fun n' hn' => ?_
  have hlook : (n.view x host port).look = (m.view x host port, true) := by
    rw [hview]
    rcases view_new_cases host port hk with h | h <;> rw [h] <;> rfl
  rw [hlook, ← hgreet]
  refine hn'.earlier he ⟨fun h => ?_, fun h => absurd h (view_new_not_ready hk)⟩ ho
  rw [hview] at h
  cases h

/-- A beacon or gossip tuple of a peer that is not in the table. -/
theorem meetPeer_turn {env : Env} (henv : env.Succeeds) (hp : n.cfg.curveSecret = none)
    (ht : Tables n) (hl : Links n) (hF : n.Facing x host port) (hk : n.peers.get x = none)
    (hown : x ≠ n.cfg.peerIdHex) :
    Ensures (n.meetPeer env x host port) fun n' =>
      n.Turns n' x host port (n.view x host port).look (n.SaysHello env host) := by
  unfold meetPeer adoptPending
  rw [pendingMatch_facing hF]
  cases hw : n.pending.get (pendingKey host port) with
  | some r =>
    obtain ⟨hF', hview, -, -⟩ := facing_adoptUnder env ht hF hw
    have hm : Move anything anything n (n.adoptUnder env (pendingKey host port) r x) :=
      .adopt trivial env _ r x hw hk hown
    exact greet_turn henv (ht.move hm) (hl.move hm) hF' (adoptUnder_peers env n _ r x) hview hk rfl rfl
      rfl
  | none =>
    obtain ⟨curve, hopen⟩ := openPeer_plain henv hp x host port (some x)
    obtain ⟨hF', hview, -, -⟩ := facing_dialled env ht hF curve hw rfl
    have hm : Move anything anything n { n.allocated (n.opened env x host port curve) with
        peers := n.peers.set x n.nextRef } := .file trivial env x host port curve hk hown
    simp only [Option.map_none, dialPeer, hopen]
    exact greet_turn henv (ht.move hm) (hl.move hm) hF' (Dict.get_set_self n.peers x n.nextRef) hview hk
      rfl rfl rfl

/-- A beacon of `x`. -/
theorem acceptBeacon_turn {env : Env} (henv : env.Succeeds) (hp : n.cfg.curveSecret = none)
    (ht : Tables n) (hl : Links n) {uuid : Bytes} {port : Nat} (hF : n.Facing (hex uuid) host port)
    (hown : uuid ≠ n.cfg.peerId) (hport : port ≠ 0) :
    Ensures (n.acceptBeacon env uuid port none host) fun n' =>
      n.Turns n' (hex uuid) host port (n.view (hex uuid) host port).look (n.SaysHello env host) := by
  unfold acceptBeacon
  rw [if_neg hown]
  simp only [learnBeaconKey, if_neg hport]
  cases hk : n.peers.get (hex uuid) with
  | none =>
    exact meetPeer_turn henv hp ht hl hF hk fun e => hown (hex_injective e)
  | some r =>
    refine Ensures.ok ?_
    have hlook : (n.view (hex uuid) host port).look = (n.view (hex uuid) host port, false) := by
      rw [view_known hk]
      cases (n.obj r).ready <;> rfl
    rw [hlook]
    exact Turns.of_steady hF ht (Steady.setObj n r ⟨rfl, rfl⟩ rfl rfl) ⟨[], by simp [refreshPeer, setObj]⟩

/-- A dial to the address of `x`. -/
theorem doConnect_turn {env : Env} (henv : env.Succeeds) (hp : n.cfg.curveSecret = none)
    (hrun : n.running = true) (ht : Tables n) (hl : Links n) (hF : n.Facing x host port) :
    Ensures (n.doConnect env host port) fun n' =>
      n.Turns n' x host port (n.view x host port).dial (n.SaysHello env host) := by
  have hstay : n.view x host port ≠ .unknown →
      Ensures (.ok n : Except PyError Node) fun n' =>
        n.Turns n' x host port (n.view x host port).dial (n.SaysHello env host) := by
    intro hv
    have hdial : (n.view x host port).dial = (n.view x host port, false) := by
      cases h : n.view x host port <;> first | rfl | exact absurd h hv
    rw [hdial]
    exact Ensures.ok (Turns.of_steady hF ht (Steady.refl n) ⟨[], by simp⟩)
  have hbool : (!n.running) = false := by rw [hrun]; rfl
  unfold doConnect
  simp only [hbool, Bool.false_eq_true, if_false]
  split
  · rename_i hany
    obtain ⟨r, hr, hat⟩ := List.any_eq_true.1 hany
    obtain ⟨k, hk⟩ := (Dict.mem_values _).1 hr
    simp only [decide_eq_true_eq] at hat
    have hx := hF.sole k r hk hat.1 hat.2.1
    subst hx
    refine hstay ?_
    rw [view_known hk]
    cases (n.obj r).ready <;> simp
  · rename_i hany
    have hk : n.peers.get x = none := by
      cases hk : n.peers.get x with
      | none => rfl
      | some r =>
        obtain ⟨h1, h2, h3⟩ := hF.home r hk
        exact absurd (List.any_eq_true.2 ⟨r, (Dict.mem_values _).2 ⟨x, hk⟩, by simp [h1, h2, h3]⟩) hany
    split
    · rename_i hw
      refine hstay ?_
      rw [view_new hk, if_pos hw]
      simp
    · rename_i hw
      have hnone : n.pending.get (pendingKey host port) = none := by
        cases h : n.pending.get (pendingKey host port) with
        | none => rfl
        | some r => exact absurd (Dict.contains_iff.2 ⟨r, h⟩) hw
      obtain ⟨curve, hopen⟩ := openPeer_plain henv hp (pendingKey host port) host port none
      simp only [hopen]
      have hview : n.view x host port = .unknown := by rw [view_new hk, if_neg hw]
      have hm : Move anything anything n
          { n.allocated (n.opened env (pendingKey host port) host port curve) with
            pending := n.pending.set (pendingKey host port) n.nextRef } :=
        .dial trivial env _ host port curve
      obtain ⟨hF', hview', haddr, hport, hc⟩ := facing_pending env ht hF curve hk rfl
      refine (sendHello_turn henv (ht.move hm) (hl.move hm) hF' haddr hport hc).mono fun n' hn' => ?_
      rw [hview'] at hn'
      rw [hview]
      refine hn'.earlier rfl ⟨fun h => ?_, fun h => ?_⟩ rfl
      · rw [hview'] at h; cases h
      · rw [hview] at h; cases h

/-! ## HELLO -/

theorem steady_enterGroups {m : Node} (ht : Tables m) {r : Ref} (hr : m.peers.get x = some r)
    (gs : List Bytes) : Steady m (gs.foldl (fun n g => n.enterGroup r g) m) ∧
      (gs.foldl (fun n g => n.enterGroup r g) m).outbox = m.outbox := by
  have hm : Moves (may (Env.calm 0) [.enter]) (fun _ => False) m
      (gs.foldl (fun n g => n.enterGroup r g) m) := moves_enterGroups (Or.inl (by simp)) ht hr gs
  obtain ⟨l, hl, hno⟩ := hm.outbox
  have hcalm : (Env.calm 0).Lossless := fun _ => rfl
  refine ⟨hm.steady hcalm (by simp) (by simp) (by simp) (by simp), ?_⟩
  cases l with
  | nil => simpa using hl
  | cons h l => exact (hno h (by simp)).elim

/-- A peer that becomes ready stays where it is. -/
theorem facing_hail {m m1 : Node} (ht : Tables m) (hF : m.Facing x host port) {r : Ref}
    (hr : m.peers.get x = some r) {p : Peer} (hp : { m.obj r with ready := true }.Keeps p)
    (hm1 : m1 = m.setObj r p) : m1.Facing x host port ∧ m1.view x host port = .ready := by
  subst hm1
  have ha : ∀ s, ((m.setObj r p).obj s).addr = (m.obj s).addr := setObj_congr Peer.addr m r hp.address.1
  have hpt : ∀ s, ((m.setObj r p).obj s).port = (m.obj s).port :=
    setObj_congr Peer.port m r hp.address.2
  have hc : ∀ s, ((m.setObj r p).obj s).connected = (m.obj s).connected :=
    setObj_congr Peer.connected m r hp.connected
  refine ⟨⟨fun s hs => ?_, fun k s hs h1 h2 => ?_, fun k s hs h1 => ?_, fun s hs => ?_⟩, ?_⟩
  · rw [ha, hpt, hc]; exact hF.home s hs
  · rw [ha] at h1; rw [hpt] at h2; exact hF.sole k s hs h1 h2
  · rw [hpt] at h1; exact hF.dial k s hs h1
  · have hne : s ≠ r := fun e => ht.apart x _ r hr (e ▸ hs)
    rw [setObj_obj, if_neg hne]
    exact hF.wait s hs
  · have hready : ((m.setObj r p).obj r).ready = true := by
      rw [setObj_obj_self]; exact hp.ready
    have hfiled : (m.setObj r p).peers.get x = some r := hr
    rw [view_known hfiled, hready]
    rfl

theorem replyHello_turn {env : Env} (henv : env.Succeeds) {m : Node} (ht : Tables m) (hl : Links m)
    (hF : m.Facing x host port) {r : Ref} (hr : m.peers.get x = some r) (helloReply : Bool) :
    Ensures (m.replyHello env r helloReply) fun n' =>
      m.Turns n' x host port (m.view x host port, helloReply) (m.SaysHello env host) := by
  cases helloReply with
  | true =>
    obtain ⟨haddr, hport, hc⟩ := hF.home r hr
    exact sendHello_turn henv ht hl hF haddr hport hc
  | false => exact Ensures.ok (Turns.of_steady hF ht (Steady.refl m) ⟨[], by simp⟩)

theorem facing_emit {m : Node} (hF : m.Facing x host port) (e : Event) :
    (m.emit e).Facing x host port := ⟨hF.home, hF.sole, hF.dial, hF.wait⟩

/-- The end of `_handle_hello`: the peer becomes ready and is announced; it is greeted if it was
unknown. -/
theorem enterPeer_turn {env : Env} (henv : env.Succeeds) {m : Node} (ht : Tables m) (hl : Links m)
    (hF : m.Facing x host port) {r : Ref} (hr : m.peers.get x = some r)
    (hview : m.view x host port = .known) (h : HelloFields) (epStr : Str) (helloReply : Bool) :
    Ensures (m.enterPeer env x r h epStr helloReply) fun n' =>
      m.Turns n' x host port (.ready, helloReply) (m.SaysHello env host) := by
  intro n' hn'
  obtain ⟨n2, h2, hn'⟩ := bind_eq_ok_iff.1 hn'
  set m1 := m.setObj r { (m.obj r).announce h with ready := true, endpointStr := epStr } with hm1
  have hmove : Move anything anything m m1 :=
    .hail trivial x r { (m.obj r).announce h with ready := true, endpointStr := epStr } hr
      ⟨rfl, rfl, rfl, rfl, ⟨rfl, rfl⟩, rfl⟩
  obtain ⟨hF1, hview1⟩ := facing_hail ht hF hr
    (p := { (m.obj r).announce h with ready := true, endpointStr := epStr })
    ⟨rfl, rfl, rfl, rfl, ⟨rfl, rfl⟩, rfl⟩ hm1
  have ht1 := ht.move hmove
  have hturn := replyHello_turn henv ht1 (hl.move hmove) hF1 hr helloReply n2 h2
  have htalk := talk_replyHello env m1 r helloReply n2 h2
  have hr2 : n2.peers.get x = some r := by rw [htalk.peers]; exact hr
  have ht2 : Tables n2 := Tables.of_same (Same.of_talk htalk) ht1
  -- the groups are entered, and the peer is announced
  obtain ⟨hs3, ho3⟩ := steady_enterGroups ht2 hr2 h.groups
  set n3 := h.groups.foldl (fun n g => n.enterGroup r g) n2 with hn3
  have hturn3 := hturn.steady ht2 hs3 ⟨[], by simp [ho3]⟩
  have ht3 : Tables n3 := by
    have hmoves : Moves anything anything n2 n3 := moves_enterGroups trivial ht2 hr2 h.groups
    exact hmoves.invariant Tables.move ht2
  set n4 := n3.emit (.enter x (pname (n3.obj r)) epStr) with hn4
  have hm4 : Move anything anything n3 n4 := Move.emit _ fun _ => trivial
  have ht4 : Tables n4 := ht3.move hm4
  have henters4 : n4.enters x = n3.enters x + 1 := by
    simp [enters, hn4, emit, Event.Enters]
  -- nothing after that is seen in the tables
  have hm5 : Moves (may env []) (fun _ => False) n4
      (h.groups.foldl (fun n g => n.emit (.join x (pname (n3.obj r)) (bdec g))) n4) :=
    moves_emits n4 (by simp [Event.IsEnter]) h.groups
  have hs5 := hm5.steady henv.lossless (by simp) (by simp) (by simp) (by simp)
  have ht5 := hm5.invariant Tables.move ht4
  have hm6 := moves_startElections env _ h.groups [] n' hn'
  have hs6 := hm6.steady henv.lossless (by simp) (by simp) (by simp) (by simp)
  have hsteady := hs5.trans hs6
  have hout : ∃ l, n'.outbox = n3.outbox ++ l ∧ ∀ x ∈ l, Handed.Chat x := by
    obtain ⟨l5, hl5, hno5⟩ := hm5.outbox
    obtain ⟨l6, hl6, he6⟩ := hm6.outbox
    refine ⟨l5 ++ l6, by rw [hl6, hl5, List.append_assoc]; rfl, fun x hx => ?_⟩
    exact (List.mem_append.1 hx).elim (fun hx => (hno5 x hx).elim)
      fun hx => Handed.chat_of_election (he6 x hx)
  obtain ⟨l, hl, hno⟩ := hout
  obtain ⟨first, more, hout3, hno3, hfirst⟩ := hturn3.outbox
  refine ⟨(facing_emit hturn3.facing _).steady ht4 hsteady, ?_, ?_, first, more ++ l, ?_, ?_, hfirst⟩
  · rw [view_steady ht4 hsteady]
    exact hturn3.view.trans hview1
  · rw [hsteady.enters x, henters4, hturn3.enters, if_neg fun h => h.2 hview1, if_pos]
    · rfl
    · exact ⟨rfl, by rw [hview]; simp⟩
  · rw [hl, hout3]
    show m.outbox ++ _ ++ _ = _
    simp
  · intro y hy
    exact (List.mem_append.1 hy).elim (hno3 y) (hno y)

/-- The endpoint of a HELLO names this address. -/
def Names (rt : Runtime) (endpoint : Bytes) (host : Str) (port : Int) : Prop :=
  endpoint ≠ [] ∧ ∃ addr, splitEndpoint rt (endpointText endpoint) = .ok (addr, port) ∧
    dialHost addr = host

/-- A HELLO of `x` that names its address. -/
theorem handleHello_turn {env : Env} (henv : env.Succeeds) (hp : n.cfg.curveSecret = none)
    (hrun : n.running = true) (ht : Tables n) (hl : Links n) (hF : n.Facing x host port)
    (hown : x ≠ n.cfg.peerIdHex) {h : HelloFields} (hname : Names n.cfg.rt h.endpoint host port) :
    Ensures (n.handleHello env x h (n.peers.get x)) fun n' =>
      n.Turns n' x host port (n.view x host port).hear (n.SaysHello env host) := by
  obtain ⟨hne, addr, hsplit, hhost⟩ := hname
  have hbool : (!n.running) = false := by rw [hrun]; rfl
  unfold handleHello
  simp only [hbool, Bool.false_eq_true, if_false, if_neg hown, if_neg hne]
  have hq : Move anything anything n { n with evasiveEmitAt := n.evasiveEmitAt.pop x } := .quiet rfl
  have ht0 := ht.move hq
  have hl0 := hl.move hq
  have hF0 : { n with evasiveEmitAt := n.evasiveEmitAt.pop x }.Facing x host port :=
    ⟨hF.home, hF.sole, hF.dial, hF.wait⟩
  cases hk : n.peers.get x with
  | some r =>
    cases hready : (n.obj r).ready with
    | true =>
      simp only [hready]
      refine Ensures.ok ?_
      have hhear : (n.view x host port).hear = (n.view x host port, false) := by
        rw [view_known hk, hready]; rfl
      rw [hhear]
      refine Turns.of_steady hF ht ?_ ⟨[], by simp [helloFromLive, refreshPeer, setObj]⟩
      have hq : Moves (may env []) (fun _ => False) n
          { n with evasiveEmitAt := n.evasiveEmitAt.pop x } := moves_quiet rfl
      have hm : Moves (may env []) (fun _ => False) n
          (helloFromLive env { n with evasiveEmitAt := n.evasiveEmitAt.pop x } r h) :=
        hq.trans (moves_helloFromLive env _ r h)
      exact hm.steady henv.lossless (by simp) (by simp) (by simp) (by simp)
    | false =>
      simp only [hready]
      have hview : n.view x host port = .known := by rw [view_known hk, hready]; rfl
      rw [hview]
      refine (enterPeer_turn henv ht0 hl0 hF0 hk hview h _ false).mono fun n' hn' => ?_
      exact hn'.earlier rfl Iff.rfl rfl
  | none =>
    simp only []
    obtain ⟨keys, hkeys⟩ := learnHelloKeys_rest { n with evasiveEmitAt := n.evasiveEmitAt.pop x } x h
    unfold helloFromNew
    simp only [hkeys, hsplit, hhost]
    set n0 : Node := { n with evasiveEmitAt := n.evasiveEmitAt.pop x, peerServerKeys := keys } with hn0
    have hq' : Move anything anything n n0 := .quiet rfl
    have ht0 := ht.move hq'
    have hl0 := hl.move hq'
    have hF0 : n0.Facing x host port := ⟨hF.home, hF.sole, hF.dial, hF.wait⟩
    have hk0 : n0.peers.get x = none := hk
    unfold adoptPending
    rw [pendingMatch_facing hF0]
    cases hw : n0.pending.get (pendingKey host port) with
    | some r =>
      have hview : n.view x host port = .dialled := by
        rw [view_new hk, if_pos (Dict.contains_iff.2 ⟨r, hw⟩)]
      obtain ⟨hF', hview', -, -⟩ := facing_adoptUnder env ht0 hF0 hw
      have hm : Move anything anything n0 (n0.adoptUnder env (pendingKey host port) r x) :=
        .adopt trivial env _ r x hw hk0 hown
      rw [hview]
      refine (enterPeer_turn henv (ht0.move hm) (hl0.move hm) hF' (adoptUnder_peers env n0 _ r x) hview'
        h _ false).mono fun n' hn' => hn'.earlier rfl ⟨fun h => ?_, fun h => ?_⟩ rfl
      · rw [hview'] at h; cases h
      · rw [hview] at h; cases h
    | none =>
      have hview : n.view x host port = .unknown := by
        rw [view_new hk, if_neg fun hc => ?_]
        obtain ⟨r, hr⟩ := Dict.contains_iff.1 hc
        rw [show n.pending.get (pendingKey host port) = none from hw] at hr
        cases hr
      obtain ⟨curve, hopen⟩ := openPeer_plain (n := n0) henv hp x host port (some x)
      obtain ⟨hF', hview', -, -⟩ := facing_dialled env ht0 hF0 curve hw rfl
      have hm : Move anything anything n0 { n0.allocated (n0.opened env x host port curve) with
          peers := n0.peers.set x n0.nextRef } := .file trivial env x host port curve hk0 hown
      simp only [Option.map_none, dialPeer, hopen]
      rw [hview]
      refine (enterPeer_turn henv (ht0.move hm) (hl0.move hm) hF'
        (Dict.get_set_self n0.peers x n0.nextRef) hview' h _ true).mono fun n' hn' =>
          hn'.earlier rfl ⟨fun h => ?_, fun h => ?_⟩ rfl
      · rw [hview'] at h; cases h
      · rw [hview] at h; cases h

end

end Node

end Zre
