import Zre.Proofs.Commands
import Zre.Proofs.HandlerLines
import Zre.Proofs.Steady
import Zre.Teardown

/-!
# Proofs: stopping a node

No socket outlives its node: what is open belongs to an entry of one of the two tables in every reachable state, and
`stop` goes through both.
-/

namespace Zre

open Fallible

/-- An object without a socket. -/
structure Peer.Closed (p : Peer) : Prop where
  dealer : p.dealer = none
  connected : p.connected = false
  ready : p.ready = false

theorem Peer.disconnect_closed (p : Peer) : p.disconnect.Closed := ⟨rfl, rfl, rfl⟩

theorem Peer.new_closed (uuidHex addr : Str) (port : Int) : (Peer.new uuidHex addr port).Closed := ⟨rfl, rfl, rfl⟩

theorem Peer.Wired.closed {p q : Peer} (h : p.Wired q) (hp : p.Closed) : q.Closed :=
  ⟨h.dealer.trans hp.dealer, h.connected.trans hp.connected, h.ready.trans hp.ready⟩

namespace Node

/-- The object `r` is a peer or a pending dial. -/
def Listed (n : Node) (r : Ref) : Prop := (∃ k, n.peers.get k = some r) ∨ ∃ k, n.pending.get k = some r

/-- Every socket belongs to a peer or to a pending dial. -/
def Owned (n : Node) : Prop := ∀ r, (n.obj r).Closed ∨ n.Listed r

/-- Nothing is left of the connections of a stopped node. -/
structure Released (n : Node) : Prop where
  stopped : n.running = false
  peers : n.peers = Dict.empty
  pending : n.pending = Dict.empty
  closed : ∀ r, (n.obj r).Closed

section Owned

variable {env : Env} {w : Tidings} {n n' : Node}

theorem Owned.init (cfg : Config) : Owned (Node.init cfg) := fun _ => Or.inl (Peer.new_closed _ _ _)

/-- An object is closed or listed after a step, or was written without opening it and keeps its entry. -/
theorem Owned.step (h : Owned n) (hstep : ∀ r, (n'.obj r).Closed ∨ n'.Listed r ∨
    ((n.obj r).Closed → (n'.obj r).Closed) ∧ (n.Listed r → n'.Listed r)) : Owned n' := by
  intro r
  rcases hstep r with hc | hl | ⟨hobj, hlist⟩
  · exact Or.inl hc
  · exact Or.inr hl
  · exact (h r).imp hobj hlist

theorem Listed.of_peers {r : Ref} {k : Str} (h : n.peers.get k = some r) : n.Listed r := Or.inl ⟨k, h⟩

/-- Where both tables keep the entries of `r`, it stays listed. -/
theorem Listed.mono {r : Ref} (h : n.Listed r) (hp : ∀ k, n.peers.get k = some r → n'.Listed r)
    (hq : ∀ k, n.pending.get k = some r → n'.Listed r) : n'.Listed r := by
  rcases h with ⟨k, hk⟩ | ⟨k, hk⟩
  · exact hp k hk
  · exact hq k hk

theorem get_set_of_get {d : Dict Str Ref} {j k : Str} {r s : Ref} (hj : d.get j = some r) (hk : d.get k = none) :
    (d.set k s).get j = some r := by
  rw [Dict.get_set_ne _ _ fun he => by rw [he, hj] at hk; cases hk]
  exact hj

theorem get_pop_of_get {d : Dict Str Ref} {j k : Str} {r s : Ref} (hj : d.get j = some r) (hk : d.get k = some s)
    (hne : r ≠ s) : (d.pop k).get j = some r := by
  rw [Dict.get_pop, if_neg]
  · exact hj
  · rintro rfl
    rw [hj] at hk
    cases hk
    exact hne rfl

theorem Owned.setObj (h : Owned n) (r : Ref) {p : Peer} (hp : p.Closed ∨ n.Listed r) : Owned (n.setObj r p) := by
  refine h.step fun s => ?_
  rw [setObj_obj]
  split
  · rename_i hs
    subst hs
    exact hp.imp id Or.inl
  · exact Or.inr (Or.inr ⟨id, id⟩)

/-- A new object is closed, or it is listed at once. -/
theorem Owned.allocated (h : Owned n) {p : Peer} (hobj : ∀ r, n'.obj r = if r = n.nextRef then p else n.obj r)
    (hp : p.Closed ∨ n'.Listed n.nextRef) (hkeep : ∀ r, n.Listed r → n'.Listed r) : Owned n' := by
  refine h.step fun r => ?_
  rw [hobj]
  split
  · rename_i hr
    subst hr
    exact hp.imp id Or.inl
  · exact Or.inr (Or.inr ⟨id, hkeep r⟩)

/-- A closed object may lose its entry. -/
theorem Owned.forget (h : Owned n) (r : Ref) (hobj : ∀ s, n'.obj s = if s = r then (n.obj r).disconnect else n.obj s)
    (hkeep : ∀ s, s ≠ r → n.Listed s → n'.Listed s) : Owned n' := by
  refine h.step fun s => ?_
  rw [hobj]
  split
  · exact Or.inl (Peer.disconnect_closed _)
  · rename_i hs
    exact Or.inr (Or.inr ⟨id, hkeep s hs⟩)

theorem Owned.hand (h : Owned n) (r : Ref) (f : Handed) (hc : (n.obj r).connected = true) : Owned (n.hand r f) := by
  have hl : n.Listed r := by
    rcases h r with hclosed | hl
    · rw [hclosed.connected] at hc
      cases hc
    · exact hl
  exact h.setObj r (Or.inr hl)

theorem Owned.line (h : Owned n) (hl : Line env w n n') : Owned n' := by
  cases hl with
  | idle hidle =>
    refine h.step fun r => Or.inr (Or.inr ⟨(hidle.obj r).closed, fun hr => ?_⟩)
    rw [hidle.rest]
    exact hr
  | learn => exact h
  | hail k r p hk hp => exact h.setObj r (Or.inr (Listed.of_peers hk))
  | refresh k r hk hh => exact h.setObj r (Or.inr (Listed.of_peers hk))
  | hand r f cmd hc hd hs => exact h.hand r f hc
  | waste uuidHex addr port =>
    exact h.allocated (allocated_obj n _) (Or.inl (Peer.new_closed _ _ _)) fun _ => id
  | greet k addr port p f hk hh hw hl hs hp hd hmsg =>
    have hfiled : Owned (n.filed k p) := by
      refine h.allocated (filed_obj n k p) (Or.inr (Listed.of_peers (Dict.get_set_self _ _ _))) fun r hr => ?_
      exact hr.mono (fun j hj => Or.inl ⟨j, get_set_of_get hj hk⟩) fun j hj => Or.inr ⟨j, hj⟩
    refine hfiled.hand _ f ?_
    rw [filed_obj, if_pos rfl]
    exact hp.connected
  | call k addr port f hk hw hs hd hmsg =>
    have hawaited : Owned (n.awaited k (n.dialled env k addr port none)) := by
      refine h.allocated (awaited_obj n k _) (Or.inr (Or.inr ⟨k, Dict.get_set_self _ _ _⟩)) fun r hr => ?_
      exact hr.mono (fun j hj => Or.inl ⟨j, hj⟩) fun j hj => Or.inr ⟨j, get_set_of_get hj hk⟩
    refine hawaited.hand _ f ?_
    rw [awaited_obj, if_pos rfl]
    rfl
  | adopt k r rhex hp hk hh =>
    refine h.step fun s => ?_
    by_cases hs : s = r
    · subst hs
      exact Or.inr (Or.inl (Listed.of_peers (Dict.get_set_self _ _ _)))
    · refine Or.inr (Or.inr ⟨fun hc => ?_, fun hl => ?_⟩)
      · show ((n.setObj r _).obj s).Closed
        rw [setObj_obj, if_neg hs]
        exact hc
      · exact hl.mono (fun j hj => Or.inl ⟨j, get_set_of_get hj hk⟩)
          fun j hj => Or.inr ⟨j, get_pop_of_get hj hp hs⟩
  | forget k r hk =>
    refine h.forget r (setObj_obj n r · _) fun s hs hl => ?_
    exact hl.mono (fun j hj => Or.inl ⟨j, get_pop_of_get hj hk hs⟩) fun j hj => Or.inr ⟨j, hj⟩
  | drop k r hp =>
    refine h.forget r (setObj_obj n r · _) fun s hs hl => ?_
    exact hl.mono (fun j hj => Or.inl ⟨j, hj⟩) fun j hj => Or.inr ⟨j, get_pop_of_get hj hp hs⟩

theorem Owned.lines (h : Owned n) (hl : Lines env w n n') : Owned n' :=
  hl.invariant (fun hline hm => hm.line hline) h

/-- No socket of a reachable node is out of reach. -/
theorem Reachable.owned (h : n.Reachable) : Owned n := h.of_lines Owned.init fun _ hline hm => hm.line hline

end Owned

/-! ## What `stop` closes -/

theorem disconnects_rest (n : Node) (refs : List Ref) :
    n.disconnects refs = { n with obj := (n.disconnects refs).obj } := by
  induction refs generalizing n with
  | nil => rfl
  | cons r refs ih =>
    show (n.setObj r (n.obj r).disconnect).disconnects refs = _
    rw [ih]
    rfl

theorem disconnects_obj (n : Node) (refs : List Ref) (s : Ref) :
    (n.disconnects refs).obj s = if s ∈ refs then (n.obj s).disconnect else n.obj s := by
  induction refs generalizing n with
  | nil => rw [if_neg (List.not_mem_nil)]; rfl
  | cons r refs ih =>
    show ((n.setObj r (n.obj r).disconnect).disconnects refs).obj s = _
    rw [ih, setObj_obj]
    by_cases hs : s = r
    · subst hs
      rw [if_pos rfl, if_pos List.mem_cons_self]
      split <;> rfl
    · rw [if_neg hs]
      by_cases hmem : s ∈ refs
      · rw [if_pos hmem, if_pos (List.mem_cons_of_mem r hmem)]
      · rw [if_neg hmem, if_neg fun h => (List.mem_cons.1 h).elim hs hmem]

/-- Every object of the table is closed before the table is cleared. -/
theorem Owned.clear {n n' : Node} (ho : Owned n) (hobj : n'.obj = (n.disconnects n.peers.values).obj)
    (hq : n'.pending = n.pending) : Owned n' := by
  intro r
  rw [hobj, disconnects_obj]
  split
  · exact Or.inl (Peer.disconnect_closed _)
  · rename_i hp
    rcases ho r with hc | ⟨k, hk⟩ | ⟨k, hk⟩
    · exact Or.inl hc
    · exact absurd ((Dict.mem_values _).2 ⟨k, hk⟩) hp
    · exact Or.inr (Or.inr ⟨k, hq ▸ hk⟩)

theorem closeAll_rest (n : Node) :
    n.closeAll = { n with obj := n.closeAll.obj, peers := Dict.empty, pending := Dict.empty } := by
  unfold closeAll
  simp only []
  rw [disconnects_rest, disconnects_rest]

theorem closeAll_closed {n : Node} (ho : Owned n) (r : Ref) : (n.closeAll.obj r).Closed := by
  let m : Node := { n.disconnects n.peers.values with peers := Dict.empty }
  have hm : Owned m := ho.clear rfl (by show (n.disconnects n.peers.values).pending = _; rw [disconnects_rest])
  show ((m.disconnects m.pending.values).obj r).Closed
  rw [disconnects_obj]
  split
  · exact Peer.disconnect_closed _
  · rename_i hq
    rcases hm r with hc | ⟨k, hk⟩ | ⟨k, hk⟩
    · exact hc
    · cases hk
    · exact absurd ((Dict.mem_values _).2 ⟨k, hk⟩) hq

/-! ## What it sends before -/

section Stop

variable {env : Env} {w : Tidings} {gossip : Bool} {n n' : Node}

/-- A GOODBYE of a node in gossip mode, or a LEAVE. -/
def Farewell (gossip : Bool) (h : Handed) : Prop := gossip = true ∧ h.Is Cmd.goodbye ∨ h.Is Cmd.leave

theorem lines_goodbyes (n : Node) : Ensures (n.goodbyes env gossip) (Lines env w n) := by
  unfold goodbyes
  split
  · exact lines_sendToPeers n (numbers_bare ⟨by decide, by decide, by decide⟩)
  · exact Ensures.ok (Lines.refl n)

theorem lines_leaveGroups (n : Node) : Ensures (n.leaveGroups env) (Lines env w n) :=
  Ensures.foldlM_rel Lines.refl (fun _ _ _ => Lines.trans) fun m g _ => lines_leaveGroup m g

theorem goodbyes_returns (env : Env) (gossip : Bool) (n : Node) : ∃ n', n.goodbyes env gossip = .ok n' := by
  unfold goodbyes
  split
  · refine (Yields.foldlM (I := fun _ => True) trivial fun m r _ _ => ?_).returns
    obtain ⟨n', hn'⟩ : ∃ n', m.sendCmd env r Cmd.goodbye none none [] = .ok n' :=
      sendCmd_returns env m r Cmd.goodbye [] (by simp) (by simp)
    exact ⟨n', hn', trivial⟩
  · exact ⟨n, rfl⟩

theorem leaveGroups_returns (env : Env) (hb : Books n) : ∃ n', n.leaveGroups env = .ok n' := by
  refine (Yields.foldlM (I := fun _ => True) trivial fun m g hg _ => ?_).returns
  obtain ⟨n', hn'⟩ := leaveGroup_returns env m (hb.own g hg)
  exact ⟨n', hn', trivial⟩

theorem talk_sendToPeers (n : Node) (cmd : UInt8) (group : Option Bytes) (status : Option ℕ) :
    Ensures (n.sendToPeers env cmd group status) (Talk env.Lossless (Handed.Is cmd) n) :=
  Ensures.foldlM_rel (Talk.refl _ _) (fun _ _ _ => Talk.trans) fun m r _ => talk_sendCmd env m r cmd group status []

theorem leaveGroup_ownGroups (n : Node) (g : Bytes) :
    Ensures (n.leaveGroup env g) fun n' => n'.ownGroups = n.ownGroups.erase g := by
  unfold leaveGroup
  split
  · rename_i hg
    exact Ensures.ok (List.erase_of_not_mem hg).symm
  · exact (talk_sendToPeers _ _ _ _).mono fun _ h => h.ownGroups

/-- No group is left, whatever becomes of the sends. -/
theorem leaveGroups_ownGroups (n : Node) : Ensures (n.leaveGroups env) fun n' => n'.ownGroups = [] := by
  have hall : ∀ (gs : List Bytes) (m : Node), m.ownGroups = gs →
      Ensures (gs.foldlM (fun n g => n.leaveGroup env g) m) fun n' => n'.ownGroups = [] := by
    intro gs
    induction gs with
    | nil => exact fun m hm => Ensures.ok hm
    | cons g gs ih =>
      intro m hm
      rw [List.foldlM_cons]
      refine (leaveGroup_ownGroups m g).bind fun m' hm' => ih m' ?_
      rw [hm', hm, List.erase_cons_head]
  exact hall n.ownGroups n rfl

theorem moves_leaveGroups (n : Node) : Ensures (n.leaveGroups env) (Moves (may env [.books]) (Handed.Is Cmd.leave) n) :=
  Ensures.foldlM_rel Moves.refl (fun _ _ _ => Moves.trans) fun m g _ => moves_leaveGroup env m g

/-- Only GOODBYEs in gossip mode and LEAVEs are sent, and nothing by a node that does not run. -/
structure TakesLeave (env : Env) (gossip : Bool) (n n' : Node) : Prop where
  running : n'.running = false
  lines : Lines env Tidings.silence { n with running := false } n'
  ownGroups : n.running = true → n'.ownGroups = []
  outbox : ∃ l, n'.outbox = n.outbox ++ l ∧ ∀ h ∈ l, n.running = true ∧ Farewell gossip h

theorem takeLeave_takesLeave (n : Node) : Ensures (n.takeLeave env gossip) (TakesLeave env gossip n) := by
  unfold takeLeave
  split
  · rename_i hrun
    let n₀ : Node := { n with running := false }
    have hbye : Ensures (n₀.goodbyes env gossip) fun m => Lines env Tidings.silence n₀ m ∧ m.running = false ∧
        ∃ l, m.outbox = n.outbox ++ l ∧ ∀ h ∈ l, Farewell gossip h := by
      refine (lines_goodbyes n₀).and ?_
      unfold goodbyes
      split
      · rename_i hg
        refine (talk_sendToPeers n₀ _ _ _).mono fun m hm => ⟨hm.running, ?_⟩
        obtain ⟨l, hl, hall⟩ := hm.outbox
        exact ⟨l, hl, fun h hh => Or.inl ⟨hg, hall h hh⟩⟩
      · exact Ensures.ok ⟨rfl, [], by simp [n₀]⟩
    refine hbye.bind fun m hm => ?_
    obtain ⟨hlines, hstop, l, hl, hall⟩ := hm
    intro n' hn'
    obtain ⟨l', hl', hall'⟩ := (moves_leaveGroups m n' hn').outbox
    have hlines' : Lines env Tidings.silence m n' := lines_leaveGroups m n' hn'
    refine ⟨?_, hlines.trans hlines', fun _ => leaveGroups_ownGroups m n' hn', l ++ l', ?_, fun h hh => ⟨hrun, ?_⟩⟩
    · exact hlines'.invariant (I := fun k => k.running = false) (fun hline hk => hline.running.trans hk) hstop
    · rw [hl', hl, List.append_assoc]
    · rcases List.mem_append.1 hh with hh | hh
      · exact hall h hh
      · exact Or.inr (hall' h hh)
  · rename_i hrun
    have hstop : n.running = false := Bool.eq_false_iff.2 hrun
    have hsame : { n with running := false } = n := by
      rw [← hstop]
    refine Ensures.ok ⟨hstop, ?_, fun h => absurd h hrun, [], by simp⟩
    rw [hsame]
    exact Lines.refl n

theorem TakesLeave.owned (h : TakesLeave env gossip n n') (ho : Owned n) : Owned n' := by
  have ho₀ : Owned { n with running := false } := ho
  exact ho₀.lines h.lines

theorem takeLeave_returns (env : Env) (gossip : Bool) (hb : Books n) : ∃ n', n.takeLeave env gossip = .ok n' := by
  unfold takeLeave
  split
  · let n₀ : Node := { n with running := false }
    obtain ⟨m, hm⟩ := goodbyes_returns env gossip n₀
    have hb₀ : Books n₀ := ⟨hb.own, hb.ownNodup, hb.header, hb.status⟩
    have hbm : Books m := by
      unfold goodbyes at hm
      split at hm
      · exact Books.of_talk (talk_sendToPeers n₀ _ _ _ m hm) hb₀
      · cases hm
        exact hb₀
    obtain ⟨n', hn'⟩ := leaveGroups_returns env hbm
    exact ⟨n', bind_eq_ok_iff.2 ⟨m, hm, hn'⟩⟩
  · exact ⟨n, rfl⟩

/-! ## `stop` -/

/-- From every state whose sockets are owned, `stop` returns and releases them. -/
theorem stop_releases (env : Env) (gossip : Bool) (hb : Books n) (ho : Owned n) :
    ∃ n', n.stop env gossip = .ok n' ∧ n'.Released ∧ (n.running = true → n'.ownGroups = []) ∧
    ∃ l, n'.outbox = n.outbox ++ l ∧ ∀ h ∈ l, n.running = true ∧ Farewell gossip h := by
  obtain ⟨m, hm⟩ := takeLeave_returns env gossip hb
  have ht := takeLeave_takesLeave n m hm
  have hrest := m.closeAll_rest
  refine ⟨m.closeAll, bind_eq_ok_iff.2 ⟨m, hm, rfl⟩, ⟨?_, ?_, ?_, closeAll_closed (ht.owned ho)⟩, fun hrun => ?_, ?_⟩
  · rw [hrest]
    exact ht.running
  · rw [hrest]
  · rw [hrest]
  · rw [hrest]
    exact ht.ownGroups hrun
  · rw [hrest]
    exact ht.outbox

/-- A node that does not run says nothing. -/
theorem stop_idle (hrun : n.running = false) : n.stop env gossip = .ok n.closeAll := by
  have hleave : n.takeLeave env gossip = .ok n := by
    unfold takeLeave
    rw [if_neg (by rw [hrun]; exact Bool.false_ne_true)]
  unfold stop
  rw [hleave]
  rfl

/-- A node that has been stopped is not changed by another `stop`. -/
theorem Released.stop_eq (hr : n.Released) : n.stop env gossip = .ok n := by
  have hclose : n.closeAll = n := by
    obtain ⟨-, hp, hq, -⟩ := hr
    cases n
    cases hp
    cases hq
    rfl
  rw [stop_idle hr.stopped, hclose]

theorem collide_rest (n : Node) (detail : Str) :
    n.collide detail = { ({ n with running := false }.emit (.collision detail)).disconnects n.peers.values with
      peers := Dict.empty } := rfl

theorem Owned.collide (ho : Owned n) (detail : Str) : Owned (n.collide detail) := by
  let m : Node := { n with running := false }.emit (.collision detail)
  have hm : Owned m := ho
  refine hm.clear rfl ?_
  rw [collide_rest, disconnects_rest]

/-- However the run of a node ends, `stop` returns, every socket to a peer is closed, and another `stop` changes
nothing. A node that was running leaves its groups, and says GOODBYE in gossip mode only; after a collision of ids
nothing more is said, and the groups stay listed. -/
theorem Reachable.releases (hn : n.Reachable) (env : Env) (gossip : Bool) :
    (∃ n', n.stop env gossip = .ok n' ∧ n'.Released ∧ n'.ownGroups = [] ∧
      (∃ l, n'.outbox = n.outbox ++ l ∧ ∀ h ∈ l, Farewell gossip h) ∧
      ∀ env' gossip', n'.stop env' gossip' = .ok n') ∧
    ∀ detail, ∃ n', (n.collide detail).stop env gossip = .ok n' ∧ n'.Released ∧ n'.ownGroups = n.ownGroups ∧
      n'.outbox = n.outbox ∧ ∀ env' gossip', n'.stop env' gossip' = .ok n' := by
  refine ⟨?_, fun detail => ?_⟩
  · obtain ⟨n', hstop, hrel, hown, l, hl, hall⟩ := stop_releases env gossip hn.books hn.owned
    exact ⟨n', hstop, hrel, hown hn.running, ⟨l, hl, fun h hh => (hall h hh).2⟩, fun _ _ => hrel.stop_eq⟩
  · have hrest := collide_rest n detail
    rw [disconnects_rest] at hrest
    have hrun : (n.collide detail).running = false := by
      rw [hrest]
      rfl
    have hclose := (n.collide detail).closeAll_rest
    have hrel : (n.collide detail).closeAll.Released := by
      refine ⟨?_, ?_, ?_, closeAll_closed (hn.owned.collide detail)⟩
      · rw [hclose]
        exact hrun
      · rw [hclose]
      · rw [hclose]
    refine ⟨_, stop_idle hrun, hrel, ?_, ?_, fun _ _ => hrel.stop_eq⟩
    · rw [hclose, hrest]
      rfl
    · rw [hclose, hrest]
      rfl

end Stop

/-- A node that has a peer, a group and a jammed queue. -/
def sampleBusy : Node :=
  (sampleA.after (Env.calm 0) (.peerMsg sampleHello)).after (Env.calm 0) (.command (.join sampleGroup))

theorem sampleBusy_releases : sampleBusy.peers.get (hex sampleUuid) = some 0 ∧
    (∃ n', sampleBusy.stop { Env.calm 0 with send := fun _ => .again } true = .ok n' ∧ n'.Released) ∧
    ∃ n', (sampleBusy.collide []).stop { Env.calm 0 with send := fun _ => .again } true = .ok n' ∧ n'.Released ∧
      n'.ownGroups = sampleBusy.ownGroups := by
  have hn : sampleBusy.Reachable := ((Reachable.init _).after _ _).after _ _
  obtain ⟨⟨n', hstop, hrel, -⟩, hcollide⟩ := hn.releases { Env.calm 0 with send := fun _ => .again } true
  obtain ⟨m, hm, hm', hgroups, -⟩ := hcollide []
  exact ⟨by decide +kernel, ⟨n', hstop, hrel⟩, m, hm, hm', hgroups⟩

end Node

end Zre
