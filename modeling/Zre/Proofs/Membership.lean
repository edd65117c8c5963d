import Zre.Proofs.HandlerMoves

/-!
# Proofs: membership and group traffic

In every reachable state the two records of a membership agree, and a SHOUT goes once to every
connected member of its group and to nobody else.
-/

namespace Zre

open Fallible

/-! ## Books and sockets -/

theorem Books.init (cfg : Config) : Books (Node.init cfg) := by
  constructor <;> simp [Node.init, Dict.empty]

theorem Books.move {allow : Kind → Prop} {hands : Handed → Prop} {n n' : Node}
    (h : Move allow hands n n') (hb : Books n) : Books n' := by
  cases h with
  | talk hL h => exact hb.congr h.ownGroups h.headers h.status
  | quiet h => exact hb.congr (by rw [h]) (by rw [h]) (by rw [h])
  | books ha h hbs => exact hbs hb
  | touch | hail | emit | waste | file | dial | adopt | dropDial =>
    exact Books.congr (n := n) rfl rfl rfl hb
  | enter ha k r g hk h hm | leave ha k r g hk h hm | forget ha k r hk h hm =>
    exact hb.congr (by rw [h]; rfl) (by rw [h]; rfl) (by rw [h]; rfl)

/-- A peer is connected as long as it has a socket, which was dialled to its address under the node's
own identity. No two peers share one. -/
structure Links (n : Node) : Prop where
  dealer : ∀ r, (n.obj r).connected = true ↔ (n.obj r).dealer.isSome = true
  target : ∀ r d, (n.obj r).dealer = some d →
    d.addr = (n.obj r).addr ∧ d.port = (n.obj r).port ∧ d.identity = 1 :: n.cfg.peerId
  old : ∀ r d, (n.obj r).dealer = some d → d.sock < n.sockets
  apart : ∀ r s d e, (n.obj r).dealer = some d → (n.obj s).dealer = some e → d.sock = e.sock → r = s

theorem Links.init (cfg : Config) : Links (Node.init cfg) := by
  constructor <;> simp [Node.init, Peer.new]

theorem Links.port {n : Node} (hl : Links n) {r : Ref} {d : Dealer}
    (hd : (n.obj r).dealer = some d) : d.port = (n.obj r).port := (hl.target r d hd).2.1

/-- Sockets are kept or closed. -/
theorem Links.of_holds {n n' : Node} (hl : Links n) (hs : n'.sockets = n.sockets)
    (hcfg : n'.cfg = n.cfg) (h : ∀ r, (n.obj r).Holds (n'.obj r)) : Links n' := by
  have hback : ∀ r d, (n'.obj r).dealer = some d → (n.obj r).dealer = some d := by
    intro r d hd
    rcases h r with ⟨h1, -⟩ | ⟨h1, -⟩ <;> rw [h1] at hd
    · exact hd
    · cases hd
  refine ⟨fun r => ?_, fun r d hd => ?_, fun r d hd => ?_, fun r s d e hd he => ?_⟩
  · rcases h r with ⟨h1, h2, -⟩ | ⟨h1, h2⟩
    · rw [h1, h2]; exact hl.dealer r
    · simp [h1, h2]
  · rcases h r with ⟨h1, -, h3, h4⟩ | ⟨h1, -⟩
    · rw [h3, h4, hcfg]; exact hl.target r d (hback r d hd)
    · rw [h1] at hd; cases hd
  · rw [hs]; exact hl.old r d (hback r d hd)
  · exact hl.apart r s d e (hback r d hd) (hback s e he)

/-- A new object has the new socket, or none. -/
theorem Links.allocated {n n' : Node} (hl : Links n) {p : Peer} (hobj : n'.obj = (n.allocated p).obj)
    (hs : n'.sockets = n.sockets + 1) (hc : p.connected = true ↔ p.dealer.isSome = true)
    (hcfg : n'.cfg = n.cfg)
    (hd : ∀ d, p.dealer = some d →
      d.sock = n.sockets ∧ d.addr = p.addr ∧ d.port = p.port ∧ d.identity = 1 :: n.cfg.peerId) :
    Links n' := by
  refine ⟨fun r => ?_, fun r d => ?_, fun r d => ?_, fun r s d e => ?_⟩
  · rw [hobj, Node.allocated_obj]
    split
    · exact hc
    · exact hl.dealer r
  · rw [hobj, Node.allocated_obj, hcfg]
    split
    · exact fun h => (hd d h).2
    · exact hl.target r d
  · rw [hobj, Node.allocated_obj, hs]
    split
    · intro h; rw [(hd d h).1]; exact Nat.lt_succ_self _
    · intro h; exact Nat.lt_succ_of_lt (hl.old r d h)
  · rw [hobj, Node.allocated_obj, Node.allocated_obj]
    split <;> split
    · rename_i hr hs; intro _ _ _; rw [hr, hs]
    · intro h1 h2 he
      have := hl.old s e h2
      rw [← he, (hd d h1).1] at this
      exact absurd this (Nat.lt_irrefl _)
    · intro h1 h2 he
      have := hl.old r d h1
      rw [he, (hd e h2).1] at this
      exact absurd this (Nat.lt_irrefl _)
    · exact hl.apart r s d e

theorem Links.move {allow : Kind → Prop} {hands : Handed → Prop} {n n' : Node}
    (h : Move allow hands n n') (hl : Links n) : Links n' := by
  have hset : ∀ {m : Node} {r : Ref} {p : Peer}, m.obj = (n.setObj r p).obj → m.sockets = n.sockets →
      m.cfg = n.cfg → (n.obj r).Holds p → Links m := by
    intro m r p hobj hs hcfg hp
    refine hl.of_holds hs hcfg fun s => ?_
    rw [hobj, Node.setObj_obj]
    split
    · rename_i h; rw [h]; exact hp
    · exact Peer.Holds.refl _
  cases h with
  | talk hL h => exact hl.of_holds h.sockets h.cfg fun r => (h.obj r).holds
  | touch r p h => exact hset rfl rfl rfl (Or.inl ⟨h.dealer, h.connected, h.address⟩)
  | hail ha k r p hk h => exact hset rfl rfl rfl (Or.inl ⟨h.dealer, h.connected, h.address⟩)
  | emit e he => exact hl.of_holds rfl rfl fun r => Peer.Holds.refl _
  | quiet h => rw [h]; exact hl.of_holds rfl rfl fun r => Peer.Holds.refl _
  | books ha h hb => rw [h]; exact hl.of_holds rfl rfl fun r => Peer.Holds.refl _
  | waste p hd hc => exact hl.allocated rfl rfl (by simp [hd, hc]) rfl (by simp [hd])
  | file ha env k addr port curve hk hown =>
    refine hl.allocated rfl rfl (by simp [Node.opened, Peer.refresh]) rfl ?_
    rintro d ⟨⟩; exact ⟨rfl, rfl, rfl, rfl⟩
  | dial ha env k addr port curve =>
    refine hl.allocated rfl rfl (by simp [Node.opened, Peer.refresh]) rfl ?_
    rintro d ⟨⟩; exact ⟨rfl, rfl, rfl, rfl⟩
  | adopt ha env k r rhex hp hk hown => exact hset rfl rfl rfl (Or.inl ⟨rfl, rfl, rfl, rfl⟩)
  | enter ha k r g hk h hm | leave ha k r g hk h hm =>
    have hobj := congrArg Node.obj h
    have hs := congrArg Node.sockets h
    have hcfg := congrArg Node.cfg h
    exact hset (r := r) hobj hs hcfg (Or.inl ⟨rfl, rfl, rfl, rfl⟩)
  | forget ha k r hk h hm =>
    have hobj := congrArg Node.obj h
    have hs := congrArg Node.sockets h
    have hcfg := congrArg Node.cfg h
    exact hset (r := r) hobj hs hcfg (Or.inr ⟨rfl, rfl⟩)
  | dropDial ha k r hp => exact hset rfl rfl rfl (Or.inr ⟨rfl, rfl⟩)

theorem Node.Reachable.links {n : Node} (h : n.Reachable) : Links n := h.of_moves Links.init Links.move

theorem Node.Reachable.books {n : Node} (h : n.Reachable) : Books n := h.of_moves Books.init Books.move

/-! ## Group traffic -/

/-- `Group.send` hands one frame to each connected peer of the list, in order. -/
theorem sendAll_spec (env : Env) {encode : Nat → Except PyError Bytes} (more : List Bytes)
    (henc : ∀ seq, seq < 65536 → ∃ frame, encode seq = .ok frame) {n : Node} (hl : Links n)
    {refs : List Ref} (hnd : refs.Nodup) :
    ∃ n' sent, Node.sendAll env encode more n refs = .ok n' ∧ n'.outbox = n.outbox ++ sent ∧
      sent.map (fun h => some h.dealer) =
        (refs.filter fun r => (n.obj r).connected).map (fun r => (n.obj r).dealer) ∧
      ∀ h ∈ sent, ∃ seq frame, encode seq = .ok frame ∧ h.frames = frame :: more := by
  induction refs generalizing n with
  | nil => exact ⟨n, [], rfl, by simp, by simp, by simp⟩
  | cons r refs ih =>
    rw [List.nodup_cons] at hnd
    unfold Node.sendAll
    rw [List.foldlM_cons]
    cases hc : (n.obj r).connected with
    | false =>
      obtain ⟨n', sent, hrun, hout, hdealers, hframes⟩ := ih hl hnd.2
      exact ⟨n', sent, hrun, hout, by rw [hdealers]; simp [hc], hframes⟩
    | true =>
      obtain ⟨dealer, hd⟩ := Option.isSome_iff_exists.1 ((hl.dealer r).1 hc)
      have hseq : ((n.obj r).sentSeq + 1) % 65536 < 65536 := Nat.mod_lt _ (by decide)
      obtain ⟨frame, hframe⟩ := henc _ hseq
      obtain ⟨res, hres⟩ : ∃ res, n.sendEncoded env r encode more = .ok res := by
        unfold Node.sendEncoded
        rw [hc, hd]
        simp only [Node.bumpSeq, Node.setObj_obj_self, hframe, bind_ok]
        split <;> exact ⟨_, rfl⟩
      rcases Node.sendEncoded_cases env n r encode more res hres with
        ⟨-, h | h⟩ | ⟨dealer', frame', -, hd', hframe', hn'⟩
      · rw [hc] at h; cases h
      · rw [hd] at h; cases h
      · -- only the object of `r` changes, so the rest of the list is sent to as it stands
        have hothers : ∀ s, s ≠ r → res.2.obj s = n.obj s := by
          intro s hs
          rw [hn']
          exact (Node.setObj_obj n r s _).trans (if_neg hs)
        have hself : res.2.obj r = _ := (congrArg (fun m : Node => m.obj r) hn').trans
          (Node.setObj_obj_self n r _)
        have hl' : Links res.2 := by
          refine hl.of_holds (by rw [hn']; rfl) (by rw [hn']; rfl) fun s => ?_
          by_cases hs : s = r
          · rw [hs, hself]
            split
            · exact Or.inr ⟨rfl, rfl⟩
            · left; simp [Node.bumpSeq]
          · rw [hothers s hs]; exact Peer.Holds.refl _
        obtain ⟨n', sent, hrun, hout, hdealers, hframes⟩ := ih hl' hnd.2
        have hne : ∀ s ∈ refs, res.2.obj s = n.obj s := fun s hs =>
          hothers s fun e => hnd.1 (e ▸ hs)
        have hfilter : refs.filter (fun s => (res.2.obj s).connected) =
            refs.filter fun s => (n.obj s).connected :=
          List.filter_congr fun s hs => by rw [hne s hs]
        refine ⟨n', ⟨dealer', frame' :: more, env.send n.outbox.length⟩ :: sent, ?_, ?_, ?_, ?_⟩
        · rw [hres]
          exact hrun
        · rw [hout, hn']
          simp
        · rw [List.filter_cons_of_pos (by simpa using hc), List.map_cons, List.map_cons, hd',
            hdealers, hfilter]
          congr 1
          exact List.map_congr_left fun s hs => by rw [hne s (List.mem_filter.1 hs).1]
        · intro h hh
          rcases List.mem_cons.1 hh with rfl | hh
          · exact ⟨_, frame', hframe', rfl⟩
          · exact hframes h hh

/-- In every reachable state a key of the peer table is the id of its peer and not the node's own, no
peer is pending as well, and a peer is in the table of a group exactly when the group is in the set of
that peer. So a SHOUT is handed once to each connected member of its group, each over a socket of its
own, and to nobody else. -/
theorem Node.Reachable.membership {n : Node} (hn : n.Reachable) :
    (∀ k r, n.peers.get k = some r →
      (n.obj r).uuidHex = k ∧ k ≠ n.cfg.peerIdHex ∧ ∀ k', n.pending.get k' ≠ some r) ∧
    (∀ g p r, n.member g p = some r ↔ n.peers.get p = some r ∧ g ∈ (n.obj r).groups) ∧
    (∀ r s d, (n.obj r).dealer = some d → (n.obj s).dealer = some d → r = s) ∧
    ∀ (env : Env) (g : WireString) (payload : Bytes), ∃ n' sent,
      n.doShout env g.raw payload = .ok n' ∧ n'.outbox = n.outbox ++ sent ∧
      (∀ k r, n.peers.get k = some r → (n.obj r).connected = true → g.raw ∈ (n.obj r).groups →
        ∃ d, (n.obj r).dealer = some d ∧ (sent.map Handed.dealer).count d = 1) ∧
      ∀ h ∈ sent,
        (∃ k r, n.peers.get k = some r ∧ (n.obj r).connected = true ∧ g.raw ∈ (n.obj r).groups ∧
          (n.obj r).dealer = some h.dealer) ∧
        ∃ seq frame, Codec.encodeSimple Cmd.shout seq (some g.raw) none = .ok frame ∧
          h.frames = [frame, payload] := by
  have ht := hn.tables
  have hl := hn.links
  refine ⟨fun k r hk => ⟨ht.key k r hk, ?_, fun k' => ht.apart k k' r hk⟩, ht.member,
    fun r s d hr hs => hl.apart r s d d hr hs rfl, fun env g payload => ?_⟩
  · rintro rfl
    rw [ht.foreign] at hk
    cases hk
  have hmember : ∀ r, r ∈ (n.group g.raw).peers.values ↔
      ∃ k, n.peers.get k = some r ∧ g.raw ∈ (n.obj r).groups := by
    intro r
    rw [Dict.mem_values]
    refine exists_congr fun k => ?_
    rw [← Node.member_eq, ht.member]
  have hnd : (n.group g.raw).peers.values.Nodup := by
    refine Dict.values_nodup _ fun k k' r hk hk' => ?_
    rw [← Node.member_eq, ht.member] at hk hk'
    exact (ht.key k r hk.1).symm.trans (ht.key k' r hk'.1)
  have henc : ∀ seq, seq < 65536 →
      ∃ frame, Codec.encodeSimple Cmd.shout seq (some g.raw) none = .ok frame := fun seq hseq =>
    ⟨_, Codec.encodeSimple_ok hseq (fun x hx => by cases hx; exact Nat.lt_succ_of_le g.le)
      (by simp)⟩
  obtain ⟨n', sent, hrun, hout, hdealers, hframes⟩ := sendAll_spec env [payload] henc hl hnd
  have hshout : n.doShout env g.raw payload = .ok n' := by
    unfold Node.doShout
    cases hg : n.groups.get g.raw with
    | none =>
      have hempty : (n.group g.raw).peers.values = [] := by simp [Node.group, hg, Group.new]
      rw [hempty] at hrun
      exact hrun
    | some group => exact hrun
  -- what was handed out, as a list of sockets
  have hmem : ∀ d, d ∈ sent.map Handed.dealer ↔ ∃ k r, n.peers.get k = some r ∧
      (n.obj r).connected = true ∧ g.raw ∈ (n.obj r).groups ∧ (n.obj r).dealer = some d := by
    intro d
    have hd : d ∈ sent.map Handed.dealer ↔ some d ∈ sent.map fun h => some h.dealer := by simp
    rw [hd, hdealers]
    simp only [List.mem_map, List.mem_filter, hmember]
    constructor
    · rintro ⟨r, ⟨⟨k, hk, hg⟩, hc⟩, hrd⟩; exact ⟨k, r, hk, hc, hg, hrd⟩
    · rintro ⟨k, r, hk, hc, hg, hrd⟩; exact ⟨r, ⟨⟨k, hk, hg⟩, hc⟩, hrd⟩
  have hsentnd : (sent.map Handed.dealer).Nodup := by
    have h : (sent.map fun h => some h.dealer).Nodup := by
      rw [hdealers]
      refine (hnd.filter _).map_on fun r hr s hs hrs => ?_
      obtain ⟨d, hd⟩ := Option.isSome_iff_exists.1 ((hl.dealer r).1 (List.mem_filter.1 hr).2)
      exact hl.apart r s d d hd (hrs ▸ hd) rfl
    rw [show (sent.map fun h => some h.dealer) = (sent.map Handed.dealer).map some by simp] at h
    exact h.of_map
  refine ⟨n', sent, hshout, hout, fun k r hk hc hg => ?_, fun h hh => ⟨?_, ?_⟩⟩
  · obtain ⟨d, hd⟩ := Option.isSome_iff_exists.1 ((hl.dealer r).1 hc)
    exact ⟨d, hd, List.count_eq_one_of_mem hsentnd ((hmem d).2 ⟨k, r, hk, hc, hg, hd⟩)⟩
  · exact (hmem h.dealer).1 (List.mem_map_of_mem hh)
  · exact hframes h hh

/-- The node of the examples below, `00…01` on port 4001. -/
def Node.sampleA : Node :=
  Node.init (Config.plain (List.replicate 15 0 ++ [1]) rfl ⟨[0x41], by decide⟩ 4001)

/-- The uuid `00…02`. -/
def sampleUuid : Bytes := List.replicate 15 0 ++ [2]

/-- What the peer `00…02` announces on port 4002, as a member of the group `g`. -/
def sampleFields : HelloFields :=
  ⟨encodeStr "tcp://10.0.0.2:4002".toList, [[0x67]], 1, [0x42], Dict.empty⟩

/-- The HELLO of the peer `00…02`. -/
def sampleHello : List Bytes := [1 :: sampleUuid, Codec.helloBytes 1 sampleFields]

/-- A group, as an application names it. -/
def sampleGroup : WireString := ⟨[0x67], by decide⟩

/-- A node that has met one member of a group shouts to it. -/
theorem Node.Reachable.membership_met : ∃ n : Node, n.Reachable ∧
    n.member [0x67] (hex sampleUuid) = some 0 ∧
    ∃ n' sent, n.doShout (Env.calm 0) [0x67] [0x21] = .ok n' ∧ n'.outbox = n.outbox ++ sent ∧
      ∃ d, (n.obj 0).dealer = some d ∧ (sent.map Handed.dealer).count d = 1 := by
  have hn : (Node.sampleA.after (Env.calm 0) (.peerMsg sampleHello)).Reachable :=
    (Node.Reachable.init _).after _ _
  have hm : (Node.sampleA.after (Env.calm 0) (.peerMsg sampleHello)).member [0x67]
      (hex sampleUuid) = some 0 := by decide +kernel
  have hc : ((Node.sampleA.after (Env.calm 0) (.peerMsg sampleHello)).obj 0).connected = true := by
    decide +kernel
  obtain ⟨-, htab, -, hshout⟩ := hn.membership
  obtain ⟨hk, hg⟩ := (htab _ _ _).1 hm
  obtain ⟨n', sent, hrun, hout, honce, -⟩ := hshout (Env.calm 0) ⟨[0x67], by decide⟩ [0x21]
  exact ⟨_, hn, hm, n', sent, hrun, hout, honce _ _ hk hc hg⟩

end Zre
