import Zre.Proofs.Moves

/-!
# Proofs: the handlers as sequences of moves

Each handler is taken apart once. The tables are needed where a handler finds a peer in one table and
writes to another.
-/

namespace Zre

open Fallible

theorem Books.congr {n n' : Node} (ho : n'.ownGroups = n.ownGroups) (hh : n'.headers = n.headers)
    (hs : n'.status = n.status) (h : Books n) : Books n' :=
  ⟨by rw [ho]; exact h.own, by rw [ho]; exact h.ownNodup, by rw [hh]; exact h.header,
    by rw [hs]; exact h.status⟩

namespace Node

section Moves

variable {allow : Kind → Prop} {hands : Handed → Prop}

theorem moves_emit (n : Node) {e : Event} (he : e.IsEnter → allow .hail) :
    Moves allow hands n (n.emit e) := (Move.emit e he).moves

theorem moves_quiet {n n' : Node}
    (h : n' = { n with
      contestGroups := n'.contestGroups, evasiveEmitAt := n'.evasiveEmitAt
      peerServerKeys := n'.peerServerKeys, queue := n'.queue }) : Moves allow hands n n' :=
  (Move.quiet h).moves

theorem moves_setObj {n : Node} {r : Ref} {p : Peer} (h : (n.obj r).Keeps p) :
    Moves allow hands n (n.setObj r p) := (Move.touch r p h).moves

theorem moves_refreshPeer (env : Env) (n : Node) (r : Ref) :
    Moves allow hands n (n.refreshPeer env r) := moves_setObj (Peer.Keeps.refresh _ _ _ _)

theorem moves_wantSeq (n : Node) (r : Ref) (seq : Nat) :
    Moves allow hands n (n.setObj r { n.obj r with wantSeq := seq }) :=
  moves_setObj ⟨rfl, rfl, rfl, rfl, ⟨rfl, rfl⟩, rfl⟩

theorem moves_checkSeq (n : Node) (r : Ref) (cmd : UInt8) (seq : Nat) :
    Moves allow hands n (n.checkSeq r cmd seq) := by
  have h : Moves allow hands n (n.setObj r ((n.obj r).countSeq cmd)) :=
    moves_setObj (Peer.Keeps.countSeq (n.obj r) cmd)
  unfold checkSeq
  simp only []
  split
  · exact h.trans (moves_wantSeq _ r seq)
  · exact h

theorem moves_learnKey (n : Node) (k : Str) (value : Bytes) :
    Moves allow hands n (n.learnKey k value) := by
  unfold learnKey
  split
  · exact moves_quiet rfl
  · exact Moves.refl n

end Moves

/-- The configuration never changes. -/
theorem moves_cfg {allow : Kind → Prop} {hands : Handed → Prop} {n n' : Node}
    (h : Moves allow hands n n') : n'.cfg = n.cfg := by
  refine h.invariant (I := fun m => m.cfg = n.cfg) (fun {m m'} hm hc => ?_) rfl
  cases hm with
  | talk hL h => rw [h.cfg, hc]
  | quiet h => rw [h]; exact hc
  | books ha h hb | enter ha k r g hk h hm | leave ha k r g hk h hm | forget ha k r hk h hm =>
    rw [h]; exact hc
  | touch | hail | emit | waste | file | dial | adopt | dropDial => exact hc

/-! ## Dialling -/

/-- What a dial does: nothing for want of a key, a dead object, or a connected peer whose socket has the
options of its address. -/
theorem openPeer_exact (env : Env) (n : Node) (uuidHex addr : Str) (port : Int) (rhex : Option Str) :
    n.openPeer env uuidHex addr port rhex = (none, n) ∨
    n.openPeer env uuidHex addr port rhex = (none, n.allocated (Peer.new uuidHex addr port)) ∨
    n.Secured addr port rhex ∧ n.openPeer env uuidHex addr port rhex =
      (some n.nextRef, n.allocated (n.dialled env uuidHex addr port rhex)) := by
  have hobj : (n.alloc (Peer.new uuidHex addr port)).obj n.nextRef = Peer.new uuidHex addr port := by
    simp [alloc]
  have hnew : (Peer.new uuidHex addr port).connected = false := rfl
  unfold Secured dialled dialCurve openPeer curveClientArgs connect
  cases hsec : n.cfg.curveSecret with
  | none =>
    simp only [hobj, hnew]
    cases env.connect (n.alloc (Peer.new uuidHex addr port)).sockets
    · right; left
      simp [allocated, alloc, setObj, Peer.new]
    · right; right
      simp [allocated, alloc, setObj, Peer.new, opened, Peer.refresh]
  | some sec =>
    cases hkey : n.serverKeyFor addr port rhex with
    | none => left; simp
    | some key =>
      simp only [hobj, hnew]
      cases hpub : n.cfg.curvePublic with
      | none =>
        right; left
        simp [allocated, alloc, setObj, Peer.new]
      | some pub =>
        cases env.connect (n.alloc (Peer.new uuidHex addr port)).sockets
        · right; left
          simp [allocated, alloc, setObj, Peer.new]
        · right; right
          simp [allocated, alloc, setObj, Peer.new, opened, Peer.refresh]

/-- What a dial does, for those to whom its keys do not matter. -/
theorem openPeer_cases (env : Env) (n : Node) (uuidHex addr : Str) (port : Int) (rhex : Option Str) :
    n.openPeer env uuidHex addr port rhex = (none, n) ∨
    (∃ p, p.dealer = none ∧ p.connected = false ∧
      n.openPeer env uuidHex addr port rhex = (none, n.allocated p)) ∨
    ∃ curve, n.openPeer env uuidHex addr port rhex =
      (some n.nextRef, n.allocated (n.opened env uuidHex addr port curve)) := by
  rcases openPeer_exact env n uuidHex addr port rhex with h | h | ⟨-, h⟩
  · exact Or.inl h
  · exact Or.inr (Or.inl ⟨_, rfl, rfl, h⟩)
  · exact Or.inr (Or.inr ⟨_, h⟩)

section Dialling

variable (allow : Kind → Prop) (hands : Handed → Prop)

/-- A dial that fails files nothing. -/
theorem moves_openPeer_none {env : Env} {n n' : Node} {uuidHex addr : Str} {port : Int}
    {rhex : Option Str} (h : n.openPeer env uuidHex addr port rhex = (none, n')) :
    Moves allow hands n n' ∧ n'.peers = n.peers ∧ n'.pending = n.pending := by
  rcases openPeer_cases env n uuidHex addr port rhex with h' | ⟨p, hd, hc, h'⟩ | ⟨curve, h'⟩ <;>
    rw [h] at h' <;> cases h'
  · exact ⟨Moves.refl n, rfl, rfl⟩
  · exact ⟨(Move.waste p hd hc).moves, rfl, rfl⟩

/-- A dial that succeeds gives a new connected peer. -/
theorem openPeer_some {env : Env} {n n' : Node} {uuidHex addr : Str} {port : Int}
    {rhex : Option Str} {r : Ref} (h : n.openPeer env uuidHex addr port rhex = (some r, n')) :
    r = n.nextRef ∧ ∃ curve, n' = n.allocated (n.opened env uuidHex addr port curve) := by
  rcases openPeer_cases env n uuidHex addr port rhex with h' | ⟨p, hd, hc, h'⟩ | ⟨curve, h'⟩ <;>
    rw [h] at h' <;> cases h'
  exact ⟨rfl, curve, rfl⟩

/-- Filing a dialled peer: afterwards it is in the table, if the dial succeeded. -/
theorem moves_dialPeer (ha : allow .meet) {env : Env} {n n' : Node} {rhex addr : Str} {port : Int}
    {res : Option Ref} (hk : n.peers.get rhex = none) (hown : rhex ≠ n.cfg.peerIdHex)
    (h : n.dialPeer env rhex addr port = (res, n')) :
    Moves allow hands n n' ∧ n'.OwnHello = n.OwnHello ∧ ∀ r, res = some r → n'.peers.get rhex = some r := by
  unfold dialPeer at h
  cases hopen : n.openPeer env rhex addr port (some rhex) with
  | mk o m =>
    rw [hopen] at h
    cases o with
    | none =>
      cases h
      obtain ⟨hm, -⟩ := moves_openPeer_none allow hands hopen
      refine ⟨hm, ?_, nofun⟩
      rcases openPeer_cases env n rhex addr port (some rhex) with h | ⟨p, -, -, h⟩ | ⟨curve, h⟩ <;>
        rw [hopen] at h <;> cases h <;> rfl
    | some r =>
      cases h
      obtain ⟨rfl, curve, rfl⟩ := openPeer_some hopen
      refine ⟨(Move.file ha env rhex addr port curve hk hown).moves, rfl, ?_⟩
      rintro r ⟨⟩
      exact Dict.get_set_self n.peers rhex n.nextRef

/-- The pending dial that is adopted is one of the pending dials. -/
theorem pendingMatch_mem {n : Node} {addr : Str} {port : Int} {rhex k : Str} {r : Ref}
    (h : n.pendingMatch addr port rhex = some (k, r)) : n.pending.get k = some r := by
  rw [Dict.get_eq_some_iff]
  unfold pendingMatch at h
  split at h
  · rename_i e he
    cases h
    exact List.mem_of_find?_eq_some he
  · exact List.mem_of_find?_eq_some h

/-- Without a pending dial nothing happens. -/
theorem adoptPending_none {env : Env} {n n' : Node} {addr : Str} {port : Int} {rhex : Str}
    (h : n.adoptPending env addr port rhex = (none, n')) :
    n' = n ∧ n.pendingMatch addr port rhex = none := by
  unfold adoptPending at h
  split at h <;> cases h
  exact ⟨rfl, by assumption⟩

/-- Otherwise the dial is filed under the id. -/
theorem adoptPending_some {env : Env} {n n' : Node} {addr : Str} {port : Int} {rhex : Str} {r : Ref}
    (h : n.adoptPending env addr port rhex = (some r, n')) :
    ∃ k, n' = n.adoptUnder env k r rhex ∧ n.pendingMatch addr port rhex = some (k, r) := by
  unfold adoptPending at h
  split at h <;> cases h
  exact ⟨_, rfl, by assumption⟩

theorem adoptUnder_peers (env : Env) (n : Node) (k : Str) (r : Ref) (rhex : Str) :
    (n.adoptUnder env k r rhex).peers.get rhex = some r := Dict.get_set_self n.peers rhex r

/-- Adopting a pending dial: afterwards it is in the table, if there was one. -/
theorem moves_adoptPending (ha : allow .meet) {env : Env} {n n' : Node} {rhex addr : Str} {port : Int}
    {res : Option Ref} (hk : n.peers.get rhex = none) (hown : rhex ≠ n.cfg.peerIdHex)
    (h : n.adoptPending env addr port rhex = (res, n')) :
    Moves allow hands n n' ∧ n'.OwnHello = n.OwnHello ∧ (res = none → n' = n) ∧
      ∀ r, res = some r → n'.peers.get rhex = some r := by
  cases res with
  | none =>
    obtain ⟨rfl, -⟩ := adoptPending_none h
    exact ⟨Moves.refl n', rfl, fun _ => rfl, by simp⟩
  | some r =>
    obtain ⟨k, rfl, hm⟩ := adoptPending_some h
    refine ⟨(Move.adopt ha env k r rhex (pendingMatch_mem hm) hk hown).moves, rfl, by simp, ?_⟩
    rintro s ⟨⟩
    exact adoptUnder_peers env n k r rhex

end Dialling

theorem moves_sendHello (env : Env) (n : Node) (r : Ref) (ks : List Kind) :
    Ensures (n.sendHello env r) (Moves (may env ks) n.OwnHello n) :=
  (talk_sendHello env n r).mono fun _ h => h.moves

theorem moves_meetPeer (env : Env) {n : Node} {rhex : Str} (addr : Str) (port : Int)
    (hk : n.peers.get rhex = none) (hown : rhex ≠ n.cfg.peerIdHex) :
    Ensures (n.meetPeer env rhex addr port) (Moves (may env [.meet]) n.OwnHello n) := by
  unfold meetPeer
  cases ha : n.adoptPending env addr port rhex with
  | mk o n1 =>
    obtain ⟨hm1, hsame1, hnone, -⟩ := moves_adoptPending (may env [.meet]) n.OwnHello
      (Or.inl (by simp)) hk hown ha
    cases o with
    | some r => exact (moves_sendHello env n1 r [.meet]).mono fun _ h => hm1.trans (hsame1 ▸ h)
    | none =>
      cases hnone rfl
      simp only []
      cases hd : n.dialPeer env rhex addr port with
      | mk o n2 =>
        obtain ⟨hm2, hsame2, -⟩ := moves_dialPeer (may env [.meet]) n.OwnHello
          (Or.inl (by simp)) hk hown hd
        cases o with
        | some r => exact (moves_sendHello env n2 r [.meet]).mono fun _ h => hm2.trans (hsame2 ▸ h)
        | none => exact Ensures.ok hm2

theorem moves_doConnect (env : Env) (n : Node) (host : Str) (port : Int) :
    Ensures (n.doConnect env host port) (Moves (may env [.meet]) n.OwnHello n) := by
  unfold doConnect
  split
  · exact Ensures.ok (Moves.refl n)
  · split
    · exact Ensures.ok (Moves.refl n)
    · simp only []
      split
      · exact Ensures.ok (Moves.refl n)
      · cases hopen : n.openPeer env (pendingKey host port) host port none with
        | mk o m =>
          cases o with
          | none => exact Ensures.ok (moves_openPeer_none _ _ hopen).1
          | some r =>
            obtain ⟨rfl, curve, rfl⟩ := openPeer_some hopen
            exact (moves_sendHello env _ _ [.meet]).mono fun _ h =>
              (Move.dial (Or.inl (by simp)) env (pendingKey host port) host port curve).moves.trans h

/-! ## Groups -/

theorem openGroup_rest (n : Node) (g : Bytes) :
    n.openGroup g = { n with groups := (n.openGroup g).groups } := by
  unfold openGroup
  split <;> rfl

theorem requireGroup_rest (n : Node) (g : Bytes) :
    n.requireGroup g = { n with groups := (n.requireGroup g).groups } := by
  unfold requireGroup openGroup
  cases n.groups.get g <;> simp only [] <;> split <;> rfl

theorem leaveTable_rest (n : Node) (g : Bytes) (r : Ref) :
    n.leaveTable g r = { n with groups := (n.leaveTable g r).groups } := by
  unfold leaveTable
  split <;> rfl

theorem member_openGroup (n : Node) (g g' : Bytes) (p : Str) :
    (n.openGroup g).member g' p = n.member g' p := (talk_openGroup True (fun _ => True) n g).member g' p

theorem member_requireGroup (n : Node) (g g' : Bytes) (p : Str) :
    (n.requireGroup g).member g' p = n.member g' p :=
  (talk_requireGroup True (fun _ => True) n g).member g' p

theorem member_joinTable (n : Node) (g : Bytes) (r : Ref) (g' : Bytes) (p : Str) :
    (n.joinTable g r).member g' p =
      if g' = g ∧ p = (n.obj r).uuidHex then some r else n.member g' p := by
  unfold joinTable
  rw [member_setGroup]
  by_cases hg : g = g'
  · subst hg
    rw [if_pos rfl, Dict.get_set, member_eq]
    by_cases hp : (n.obj r).uuidHex = p
    · rw [if_pos hp, if_pos ⟨rfl, hp.symm⟩]
    · rw [if_neg hp, if_neg fun h => hp h.2.symm]
  · rw [if_neg hg, if_neg fun h => hg h.1.symm]

theorem member_leaveTable (n : Node) (g : Bytes) (r : Ref) (g' : Bytes) (p : Str) :
    (n.leaveTable g r).member g' p =
      if g' = g ∧ p = (n.obj r).uuidHex then none else n.member g' p := by
  unfold leaveTable
  cases h : n.groups.get g with
  | none =>
    simp only []
    split
    · rename_i hgp; rw [hgp.1, member, h]; rfl
    · rfl
  | some group =>
    simp only []
    rw [member_setGroup]
    by_cases hg : g = g'
    · subst hg
      rw [if_pos rfl, Dict.get_pop]
      by_cases hp : (n.obj r).uuidHex = p
      · rw [if_pos hp, if_pos ⟨rfl, hp.symm⟩]
      · rw [if_neg hp, if_neg fun h => hp h.2.symm, member, h]; rfl
    · rw [if_neg hg, if_neg fun h => hg h.1.symm]

theorem leaveTables_rest (n : Node) (r : Ref) (gs : List Bytes) :
    n.leaveTables r gs = { n with groups := (n.leaveTables r gs).groups } := by
  induction gs generalizing n with
  | nil => rfl
  | cons g gs ih =>
    show (n.leaveTable g r).leaveTables r gs = { n with groups := ((n.leaveTable g r).leaveTables r gs).groups }
    rw [ih (n.leaveTable g r), leaveTable_rest n g r]

theorem member_leaveTables (n : Node) (r : Ref) (gs : List Bytes) (g' : Bytes) (p : Str) :
    (n.leaveTables r gs).member g' p =
      if g' ∈ gs ∧ p = (n.obj r).uuidHex then none else n.member g' p := by
  induction gs generalizing n with
  | nil => simp [leaveTables]
  | cons g gs ih =>
    show ((n.leaveTable g r).leaveTables r gs).member g' p = _
    have hobj : (n.leaveTable g r).obj = n.obj := by rw [leaveTable_rest]
    rw [ih, hobj, member_leaveTable]
    by_cases hg : g' ∈ gs ∧ p = (n.obj r).uuidHex
    · rw [if_pos hg, if_pos ⟨List.mem_cons_of_mem _ hg.1, hg.2⟩]
    · rw [if_neg hg]
      by_cases hg' : g' = g ∧ p = (n.obj r).uuidHex
      · rw [if_pos hg', if_pos ⟨by simp [hg'.1], hg'.2⟩]
      · rw [if_neg hg', if_neg]
        rintro ⟨hmem, hp⟩
        rcases List.mem_cons.1 hmem with rfl | hmem
        · exact hg' ⟨rfl, hp⟩
        · exact hg ⟨hmem, hp⟩

/-- Taking a peer out of the tables of its own groups leaves it in no table. -/
theorem member_leaveTables_own {n : Node} (ht : Tables n) {k : Str} {r : Ref}
    (hk : n.peers.get k = some r) {gs : List Bytes} (hgs : ∀ g, g ∈ gs ↔ g ∈ (n.obj r).groups)
    (g : Bytes) (p : Str) :
    (n.leaveTables r gs).member g p = if p = k then none else n.member g p := by
  rw [member_leaveTables, ht.key k r hk]
  by_cases hp : p = k
  · subst hp
    by_cases hg : g ∈ gs
    · rw [if_pos ⟨hg, rfl⟩, if_pos rfl]
    · rw [if_neg fun h => hg h.1, if_pos rfl]
      cases hm : n.member g p with
      | none => rfl
      | some s =>
        obtain ⟨hs, hmem⟩ := (ht.member g p s).1 hm
        rw [hk] at hs
        cases hs
        exact absurd ((hgs g).2 hmem) hg
  · rw [if_neg fun h => hp h.2, if_neg hp]

/-- A peer enters a group on a HELLO. -/
theorem move_enterGroup {allow : Kind → Prop} {hands : Handed → Prop} (ha : allow .enter) {n : Node}
    (ht : Tables n) {k : Str} {r : Ref} (hk : n.peers.get k = some r) (g : Bytes) :
    Move allow hands n (n.enterGroup r g) := by
  have hobj : (n.openGroup g).obj = n.obj := by rw [openGroup_rest]
  have hrest := openGroup_rest n g
  refine Move.enter ha k r g hk ?_ fun g' p => ?_
  · unfold enterGroup joinTable setGroup
    simp only [hobj]
    rw [hrest]; rfl
  · show ((n.openGroup g).joinTable g r).member g' p = _
    rw [member_joinTable, hobj, ht.key k r hk, member_openGroup]

theorem moves_enterGroups {allow : Kind → Prop} {hands : Handed → Prop} (ha : allow .enter) {n : Node}
    (ht : Tables n) {k : Str} {r : Ref} (hk : n.peers.get k = some r) (gs : List Bytes) :
    Moves allow hands n (gs.foldl (fun n g => n.enterGroup r g) n) := by
  induction gs generalizing n with
  | nil => exact Moves.refl n
  | cons g gs ih =>
    have hm : Move allow hands n (n.enterGroup r g) := move_enterGroup ha ht hk g
    have hp : (n.enterGroup r g).peers = n.peers := by
      show (n.openGroup g).peers = n.peers
      rw [openGroup_rest]
    exact hm.moves.trans (ih (ht.move hm) (by rw [hp]; exact hk))

theorem moves_emits {allow : Kind → Prop} {hands : Handed → Prop} (n : Node) {e : Bytes → Event}
    (he : ∀ g, ¬ (e g).IsEnter) (gs : List Bytes) :
    Moves allow hands n (gs.foldl (fun n g => n.emit (e g)) n) := by
  induction gs generalizing n with
  | nil => exact Moves.refl n
  | cons g gs ih => exact (moves_emit n fun h => absurd h (he g)).trans (ih _)

/-- A loop that only emits. -/
theorem emits_rest (n : Node) (e : Bytes → Event) (gs : List Bytes) :
    gs.foldl (fun n g => n.emit (e g)) n =
      { n with
        events := n.events ++ gs.map e
        queue := (gs.foldl (fun n g => n.emit (e g)) n).queue } := by
  induction gs generalizing n with
  | nil => simp
  | cons g gs ih =>
    rw [List.foldl_cons, ih]
    simp [emit]

theorem moves_startElections (env : Env) (n : Node) (gs : List Bytes) (ks : List Kind) :
    Ensures (gs.foldlM (fun n g => n.startElection env g) n)
      (Moves (may env ks) Handed.IsElection n) :=
  Ensures.foldlM_rel Moves.refl (fun _ _ _ => Moves.trans)
    fun m g _ => (talk_startElection env m g).mono fun _ h => h.moves

theorem moves_restartElections (env : Env) (n : Node) (gs : List Bytes) (ks : List Kind) :
    Ensures (n.restartElections env gs) (Moves (may env ks) Handed.IsElection n) :=
  Ensures.foldlM_rel Moves.refl (fun _ _ _ => Moves.trans)
    fun m g _ => (talk_restartElectionIfNeeded env m g).mono fun _ h => h.moves

/-! ## HELLO -/

theorem talk_replyHello (env : Env) (n : Node) (r : Ref) (helloReply : Bool) :
    Ensures (n.replyHello env r helloReply)
      (Talk env.Lossless (fun h => helloReply = true ∧ n.OwnHello h) n) := by
  unfold replyHello
  split
  · rename_i hr
    exact (talk_sendHello env n r).mono fun _ h => h.mono fun _ hx => ⟨hr, hx⟩
  · exact Ensures.ok (Talk.refl _ _ n)

/-- What the end of `_handle_hello` hands over: its own HELLO, if it replies, and elections. -/
def Greeting (n : Node) (helloReply : Prop) (h : Handed) : Prop :=
  (helloReply ∧ n.OwnHello h) ∨ h.IsElection

theorem moves_enterPeer (env : Env) {n : Node} (ht : Tables n) {rhex : Str} {r : Ref}
    (hk : n.peers.get rhex = some r) (h : HelloFields) (epStr : Str) (helloReply : Bool) :
    Ensures (n.enterPeer env rhex r h epStr helloReply)
      (Moves (may env [.hail, .enter]) (n.Greeting (helloReply = true)) n) := by
  have hm1 : Moves (may env [.hail, .enter]) (n.Greeting (helloReply = true)) n
      (n.setObj r { (n.obj r).announce h with ready := true, endpointStr := epStr }) :=
    (Move.hail (Or.inl (by simp)) rhex r
      { (n.obj r).announce h with ready := true, endpointStr := epStr } hk
      ⟨rfl, rfl, rfl, rfl, ⟨rfl, rfl⟩, rfl⟩).moves
  refine (talk_replyHello env _ r helloReply).bind fun n2 ht2 => ?_
  have hm2 := hm1.trans (ht2.mono fun x hx => Or.inl hx).moves
  have hm3 := hm2.trans (moves_enterGroups (Or.inl (by simp)) (hm2.invariant Tables.move ht)
    (by rw [ht2.peers]; exact hk) h.groups)
  refine (moves_startElections env _ h.groups [.hail, .enter]).mono fun n' hm => ?_
  refine Moves.trans ?_ (hm.mono (fun _ => id) fun _ hx => Or.inr hx)
  exact (hm3.trans (moves_emit _ fun _ => Or.inl (by simp))).trans
    (moves_emits _ (by exact fun _ h => nomatch h) _)

theorem learnKey_rest (n : Node) (k : Str) (value : Bytes) :
    ∃ keys, n.learnKey k value = { n with peerServerKeys := keys } := by
  unfold learnKey
  split
  · exact ⟨_, rfl⟩
  · exact ⟨n.peerServerKeys, rfl⟩

theorem learnTupleKey_rest (n : Node) (k : Str) (endpoint : Str) :
    ∃ keys, (if '|' ∈ endpoint then n.learnKey k (encodeStr (partition '|' endpoint).2) else n) =
      { n with peerServerKeys := keys } := by
  split
  · exact learnKey_rest n _ _
  · exact ⟨n.peerServerKeys, rfl⟩

theorem learnHelloKeys_rest (n : Node) (rhex : Str) (h : HelloFields) :
    ∃ keys, n.learnHelloKeys rhex h = { n with peerServerKeys := keys } := by
  have hsuffix : ∀ keys, ∃ keys', (if '|' ∈ bdec h.endpoint then
      { n with peerServerKeys := keys }.learnKey rhex (encodeStr (partition '|' (bdec h.endpoint)).2)
      else { n with peerServerKeys := keys }) = { n with peerServerKeys := keys' } := by
    intro keys
    split
    · exact learnKey_rest { n with peerServerKeys := keys } rhex _
    · exact ⟨keys, rfl⟩
  unfold learnHelloKeys
  cases h.headers.get publicKeyHeader with
  | none => exact hsuffix n.peerServerKeys
  | some key =>
    obtain ⟨keys, hkeys⟩ := learnKey_rest n rhex key
    simp only [hkeys]
    exact hsuffix keys

theorem moves_helloFromNew (env : Env) {n : Node} (ht : Tables n) {rhex : Str}
    (hk : n.peers.get rhex = none) (hown : rhex ≠ n.cfg.peerIdHex) (h : HelloFields) :
    Ensures (n.helloFromNew env rhex h) (Moves (may env [.meet, .hail, .enter]) (n.Greeting True) n) := by
  obtain ⟨keys, hkeys⟩ := learnHelloKeys_rest n rhex h
  have hm0 : Moves (may env [.meet, .hail, .enter]) (n.Greeting True) n { n with peerServerKeys := keys } :=
    moves_quiet rfl
  have ht0 := hm0.invariant Tables.move ht
  have hgreet : ∀ {m : Node} {b : Prop}, m.OwnHello = n.OwnHello → ∀ x, m.Greeting b x →
      n.Greeting True x := by
    intro m b hsame x hx
    exact hx.imp (fun hx => ⟨trivial, hsame ▸ hx.2⟩) id
  unfold helloFromNew
  simp only [hkeys]
  split
  · exact Ensures.ok hm0
  · rename_i addr port _
    cases ha : { n with peerServerKeys := keys }.adoptPending env (dialHost addr) port rhex with
    | mk o n1 =>
      obtain ⟨hm1, hsame1, hnone, hin⟩ := moves_adoptPending (may env [.meet, .hail, .enter])
        (n.Greeting True) (n := { n with peerServerKeys := keys }) (Or.inl (by simp)) hk hown ha
      cases o with
      | some r =>
        exact (moves_enterPeer env (hm1.invariant Tables.move ht0) (hin r rfl) h _ false).mono
          fun _ hm => (hm0.trans hm1).trans (hm.mono (may_mono (by simp)) (hgreet hsame1))
      | none =>
        cases hnone rfl
        simp only []
        cases hd : { n with peerServerKeys := keys }.dialPeer env rhex (dialHost addr) port with
        | mk o n2 =>
          obtain ⟨hm2, hsame2, hin2⟩ := moves_dialPeer (may env [.meet, .hail, .enter])
            (n.Greeting True) (n := { n with peerServerKeys := keys }) (Or.inl (by simp)) hk hown hd
          cases o with
          | some r =>
            exact (moves_enterPeer env (hm2.invariant Tables.move ht0) (hin2 r rfl) h _ true).mono
              fun _ hm => (hm0.trans hm2).trans (hm.mono (may_mono (by simp)) (hgreet hsame2))
          | none => exact Ensures.ok (hm0.trans hm2)

theorem moves_helloFromLive {allow : Kind → Prop} {hands : Handed → Prop} (env : Env) (n : Node)
    (r : Ref) (h : HelloFields) : Moves allow hands n (n.helloFromLive env r h) :=
  (moves_refreshPeer env n r).trans (moves_setObj (Peer.Keeps.announce _ h))

/-- A HELLO is answered with a HELLO only when its sender is not in the peer table. -/
theorem moves_handleHello (env : Env) {n : Node} (ht : Tables n) (rhex : Str) (h : HelloFields)
    (existing : Option Ref) :
    Ensures (n.handleHello env rhex h existing)
      (Moves (may env [.meet, .hail, .enter]) (n.Greeting (n.peers.get rhex = none)) n) := by
  unfold handleHello
  split
  · exact Ensures.ok (Moves.refl n)
  · split
    · split
      · exact Ensures.ok (Moves.refl n)
      · exact Ensures.error
    · rename_i hown
      split
      · exact Ensures.ok (Moves.refl n)
      · have hm0 : Moves (may env [.meet, .hail, .enter]) (n.Greeting (n.peers.get rhex = none)) n
            { n with evasiveEmitAt := n.evasiveEmitAt.pop rhex } := moves_quiet rfl
        have ht0 := hm0.invariant Tables.move ht
        simp only []
        split
        · exact Ensures.ok (hm0.trans (moves_helloFromLive env _ _ h))
        · split
          · rename_i hk
            refine (moves_helloFromNew env ht0 hk hown h).mono fun _ hm => hm0.trans ?_
            exact hm.mono (fun _ => id) fun _ hx => hx.imp (fun hx => ⟨hk, hx.2⟩) id
          · rename_i r hk
            refine (moves_enterPeer env ht0 hk h _ false).mono fun _ hm => hm0.trans ?_
            exact hm.mono (may_mono (by simp)) fun _ hx =>
              hx.imp (fun hx => absurd hx.1 (by simp)) id

/-! ## Departures -/

theorem leaveTables_groups_congr {n n' : Node} (hg : n'.groups = n.groups) (ho : n'.obj = n.obj)
    (r : Ref) (gs : List Bytes) : (n'.leaveTables r gs).groups = (n.leaveTables r gs).groups := by
  induction gs generalizing n n' with
  | nil => exact hg
  | cons g gs ih =>
    have hgroups : (n'.leaveTable g r).groups = (n.leaveTable g r).groups := by
      unfold leaveTable
      rw [hg, ho]
      cases n.groups.get g with
      | none => exact hg
      | some group => simp [setGroup, hg]
    have hobj : (n'.leaveTable g r).obj = (n.leaveTable g r).obj := by
      rw [leaveTable_rest n', leaveTable_rest n]
      exact ho
    exact ih hgroups hobj

/-- The node without the peer `r`, which was known as `k`, before any election restarts. -/
def forgotten (n : Node) (k : Str) (r : Ref) (gone : List Bytes) : Node :=
  { n.setObj r (n.obj r).disconnect with
    groups := (n.leaveTables r gone).groups
    peers := n.peers.pop k
    evasiveEmitAt := n.evasiveEmitAt.pop k }.emit (.exit k (pname (n.obj r)))

theorem removePeer_eq (env : Env) {n : Node} {k : Str} {r : Ref} (hkey : (n.obj r).uuidHex = k) :
    n.removePeer env r =
      (n.forgotten k r (env.order (n.obj r).groups)).restartElections env
        (env.order (n.obj r).groups) := by
  have hrest := leaveTables_rest n r (env.order (n.obj r).groups)
  have hobj : (n.leaveTables r (env.order (n.obj r).groups)).obj = n.obj := by rw [hrest]
  have hid : (n.obj r).disconnect.uuidHex = k := hkey
  unfold removePeer forgotten
  simp only [hobj, setObj_obj_self, hid]
  rw [hrest]
  rfl

theorem beaconExit_eq (env : Env) {n : Node} {k : Str} {r : Ref} (hk : n.peers.get k = some r) :
    n.beaconExit env k =
      (n.forgotten k r (env.order (n.obj r).groups)).restartElections env
        (env.order (n.obj r).groups) := by
  have hrest := leaveTables_rest { n with peers := n.peers.pop k } r (env.order (n.obj r).groups)
  have hgr : (leaveTables { n with peers := n.peers.pop k } r (env.order (n.obj r).groups)).groups =
      (n.leaveTables r (env.order (n.obj r).groups)).groups := leaveTables_groups_congr (by rfl) (by rfl) r _
  unfold beaconExit forgotten
  rw [hk]
  simp only []
  rw [hrest, hgr]
  simp only [setObj_obj_self]
  rfl

theorem moves_forgotten {allow : Kind → Prop} {hands : Handed → Prop} (ha : allow .forget) {n : Node}
    (ht : Tables n) {k : Str} {r : Ref} (hk : n.peers.get k = some r) {gone : List Bytes}
    (hgone : gone.Perm (n.obj r).groups) : Moves allow hands n (n.forgotten k r gone) := by
  have hm : Move allow hands n { n.setObj r (n.obj r).disconnect with
      groups := (n.leaveTables r gone).groups, peers := n.peers.pop k } := by
    refine Move.forget ha k r hk rfl fun g p => ?_
    have hown : ∀ g, g ∈ gone ↔ g ∈ (n.obj r).groups := fun g => hgone.mem_iff
    rw [← member_leaveTables_own ht hk hown]
    rfl
  have hq : Moves allow hands { n.setObj r (n.obj r).disconnect with
      groups := (n.leaveTables r gone).groups, peers := n.peers.pop k }
      { n.setObj r (n.obj r).disconnect with
        groups := (n.leaveTables r gone).groups, peers := n.peers.pop k
        evasiveEmitAt := n.evasiveEmitAt.pop k } := moves_quiet rfl
  exact (hm.moves.trans hq).trans (moves_emit _ fun h => nomatch h)

theorem restartElections_peers (env : Env) (n : Node) (gs : List Bytes) :
    Ensures (n.restartElections env gs) fun n' => n'.peers = n.peers := by
  refine Ensures.foldlM rfl fun m g _ hm => (talk_restartElectionIfNeeded env m g).mono fun _ h => ?_
  rw [h.peers, hm]

theorem moves_removePeer (env : Env) {n : Node} (ht : Tables n) {k : Str} {r : Ref}
    (hk : n.peers.get k = some r) :
    Ensures (n.removePeer env r) fun n' =>
      Moves (may env [.forget]) Handed.IsElection n n' ∧ n'.peers = n.peers.pop k := by
  rw [removePeer_eq env (ht.key k r hk)]
  have hm : Moves (may env [.forget]) Handed.IsElection n
      (n.forgotten k r (env.order (n.obj r).groups)) :=
    moves_forgotten (Or.inl (by simp)) ht hk (env.order_perm (n.obj r).groups)
  exact (moves_restartElections env _ _ _).and (restartElections_peers env _ _) |>.mono
    fun _ h => ⟨hm.trans h.1, h.2⟩

theorem moves_beaconExit (env : Env) {n : Node} (ht : Tables n) (k : Str) :
    Ensures (n.beaconExit env k) (Moves (may env [.forget]) Handed.IsElection n) := by
  cases hk : n.peers.get k with
  | none =>
    unfold beaconExit
    rw [hk]
    exact Ensures.ok (Moves.refl n)
  | some r =>
    rw [beaconExit_eq env hk, ← removePeer_eq env (ht.key k r hk)]
    exact (moves_removePeer env ht hk).mono fun _ h => h.1

/-! ## Inbound messages -/

theorem moves_handleJoin (env : Env) {n : Node} (ht : Tables n) {rhex : Str} {r : Ref}
    (hk : n.peers.get rhex = some r) (g : Bytes) :
    Ensures (n.handleJoin env rhex r g) (Moves (may env [.enter]) Handed.IsElection n) := by
  unfold handleJoin
  split
  · exact Ensures.ok (Moves.refl n)
  · refine (talk_startElection env _ g).mono fun n' h => Moves.trans ?_ h.moves
    refine Moves.trans (Move.moves ?_) (moves_emit _ fun h => nomatch h)
    have hrest := requireGroup_rest
      (n.setObj r { n.obj r with groups := addGroup (n.obj r).groups g }) g
    refine Move.enter (Or.inl (by simp)) rhex r g hk ?_ fun g' p => ?_
    · unfold joinTable setGroup
      rw [hrest]
    · rw [member_joinTable, member_requireGroup, hrest]
      simp only [setObj_obj_self, ht.key rhex r hk]
      rfl

theorem moves_handleLeave (env : Env) {n : Node} (ht : Tables n) {rhex : Str} {r : Ref}
    (hk : n.peers.get rhex = some r) (g : Bytes) :
    Ensures (n.handleLeave env rhex r g) (Moves (may env [.leave]) Handed.IsElection n) := by
  unfold handleLeave
  split
  · exact Ensures.ok (Moves.refl n)
  · refine (talk_restartElectionIfNeeded env _ g).mono fun n' h => Moves.trans ?_ h.moves
    refine Moves.trans (Move.moves ?_) (moves_emit _ fun h => nomatch h)
    refine Move.leave (Or.inl (by simp)) rhex r g hk (leaveTable_rest _ g r) fun g' p => ?_
    rw [member_leaveTable]
    simp only [setObj_obj_self, ht.key rhex r hk]
    rfl

/-- What a ready peer's message of each command may do to the tables. -/
def trafficKinds (cmd : UInt8) : List Kind :=
  if cmd = Cmd.goodbye then [.forget]
  else if cmd = Cmd.join then [.enter]
  else if cmd = Cmd.leave then [.leave]
  else []

/-- A ready peer's message is answered with election frames or a PING-OK. -/
def Answer (h : Handed) : Prop := h.IsElection ∨ h.Is Cmd.pingOk

theorem moves_dispatch (env : Env) {n : Node} (ht : Tables n) {rhex : Str} {r : Ref}
    (hk : n.peers.get rhex = some r) (msg : Msg) (extra : List Bytes) :
    Ensures (n.dispatch env rhex r msg extra) (Moves (may env (trafficKinds msg.cmd)) Answer n) := by
  have hquiet : ∀ {e : Event}, ¬ e.IsEnter →
      Moves (may env (trafficKinds msg.cmd)) Answer n (n.emit e) := fun he =>
    moves_emit n fun h => absurd h he
  unfold dispatch
  simp only []
  split
  · exact Ensures.ok (hquiet fun h => nomatch h)
  · split
    · rename_i hc
      have hks : trafficKinds msg.cmd = [.forget] := if_pos hc
      rw [hks]
      exact (moves_removePeer env ht hk).mono fun _ h => h.1.mono (fun _ => id) fun _ => Or.inl
    · rename_i hgb
      split
      · exact (talk_sendCmd env n r _ _ _ _).mono fun _ h => (h.mono fun _ => Or.inr).moves
      · split
        · exact Ensures.ok (moves_refreshPeer env n r)
        · split
          · split
            · exact Ensures.ok (hquiet fun h => nomatch h)
            · exact Ensures.ok (Moves.refl n)
          · split
            · rename_i hc
              have hks : trafficKinds msg.cmd = [.enter] := by
                unfold trafficKinds; rw [if_neg hgb, if_pos hc]
              rw [hks]
              exact (moves_handleJoin env ht hk _).mono fun _ h => h.mono (fun _ => id) fun _ => Or.inl
            · rename_i hj
              split
              · rename_i hc
                have hks : trafficKinds msg.cmd = [.leave] := by
                  unfold trafficKinds; rw [if_neg hgb, if_neg hj, if_pos hc]
                rw [hks]
                exact (moves_handleLeave env ht hk _).mono fun _ h =>
                  h.mono (fun _ => id) fun _ => Or.inl
              · exact Ensures.ok (Moves.refl n)
          · split
            · exact (talk_handleElect env n r _ _).mono fun _ h => (h.mono fun _ => Or.inl).moves
            · split
              · exact (talk_handleLeader env n _ _).mono fun _ h => (h.mono fun _ => Or.inl).moves
              · exact Ensures.ok (Moves.refl n)
          · exact Ensures.ok (Moves.refl n)

theorem checkSeq_rest (n : Node) (r : Ref) (cmd : UInt8) (seq : Nat) :
    n.checkSeq r cmd seq = { n with obj := (n.checkSeq r cmd seq).obj } := by
  unfold checkSeq
  simp only []
  split <;> rfl

/-- The book-keeping before a message of a ready peer is dispatched. -/
def arrive (env : Env) (n : Node) (rhex : Str) (r : Ref) (msg : Msg) : Node :=
  let n := if isTraffic msg.cmd then { n with evasiveEmitAt := n.evasiveEmitAt.pop rhex } else n
  (n.checkSeq r msg.cmd msg.seq).refreshPeer env r

/-- Whatever is neither a counter nor a deadline is the same after the book-keeping. -/
theorem arrive_congr {α : Type} (f : Peer → α) (hseq : ∀ p w, f { p with wantSeq := w } = f p)
    (hrefresh : ∀ p now ev ex, f (Peer.refresh p now ev ex) = f p) (env : Env) (n : Node) (rhex : Str)
    (r : Ref) (msg : Msg) (s : Ref) : f ((n.arrive env rhex r msg).obj s) = f (n.obj s) := by
  have hcheck : ∀ m : Node, f ((m.checkSeq r msg.cmd msg.seq).obj s) = f (m.obj s) := by
    intro m
    have h1 := setObj_congr f m r (p := (m.obj r).countSeq msg.cmd) (hseq _ _) s
    unfold checkSeq
    simp only []
    split
    · exact (setObj_congr f _ r (hseq _ _) s).trans h1
    · exact h1
  refine (setObj_congr f _ r (hrefresh _ _ _ _) s).trans ((hcheck _).trans ?_)
  split <;> rfl

theorem moves_arrive (allow : Kind → Prop) (hands : Handed → Prop) (env : Env) (n : Node) (rhex : Str)
    (r : Ref) (msg : Msg) :
    Moves allow hands n (n.arrive env rhex r msg) ∧ (n.arrive env rhex r msg).peers = n.peers := by
  unfold arrive
  simp only []
  constructor
  · refine Moves.trans ?_ ((moves_checkSeq _ r msg.cmd msg.seq).trans (moves_refreshPeer env _ r))
    split
    · exact moves_quiet rfl
    · exact Moves.refl n
  · rw [checkSeq_rest]
    split <;> rfl

theorem moves_handleTraffic (env : Env) {n : Node} (ht : Tables n) {rhex : Str} {r : Ref}
    (hk : n.peers.get rhex = some r) (msg : Msg) (extra : List Bytes) :
    Ensures (n.handleTraffic env rhex r msg extra)
      (Moves (may env (trafficKinds msg.cmd)) Answer n) := by
  obtain ⟨hm, hp⟩ := moves_arrive (may env (trafficKinds msg.cmd)) Answer
    env n rhex r msg
  exact (moves_dispatch env (hm.invariant Tables.move ht) (by rw [hp]; exact hk) msg extra).mono
    fun _ h => hm.trans h

/-- The HELLO of a node that has a record is handled after its counter is reset. -/
def resetSeq (n : Node) (rhex : Str) : Node :=
  match n.peers.get rhex with
  | some r => n.setObj r { n.obj r with wantSeq := 1 }
  | none => n

theorem moves_resetSeq (allow : Kind → Prop) (hands : Handed → Prop) (n : Node) (rhex : Str) :
    Moves allow hands n (n.resetSeq rhex) ∧ (n.resetSeq rhex).peers = n.peers ∧
      (n.resetSeq rhex).OwnHello = n.OwnHello := by
  unfold resetSeq
  cases n.peers.get rhex with
  | none => exact ⟨Moves.refl n, rfl, rfl⟩
  | some r => exact ⟨moves_wantSeq n r 1, rfl, rfl⟩

section Inbox

variable {n : Node} {rid data uuid : Bytes} {msg : Msg}

/-- A HELLO is handled after the counter is reset. -/
theorem handlePeerMsg_hello (env : Env) (hu : routingUuid rid = some uuid)
    (hd : Codec.decode data = .ok (some msg)) {h : HelloFields} (hf : msg.fields = .hello h)
    (extra : List Bytes) :
    n.handlePeerMsg env (rid :: data :: extra) =
      (n.resetSeq (hex uuid)).handleHello env (hex uuid) h (n.peers.get (hex uuid)) := by
  unfold handlePeerMsg resetSeq
  cases hk : n.peers.get (hex uuid) <;> simp [hu, hd, hf, hk]

/-- Any other message of a ready peer is its traffic. -/
theorem handlePeerMsg_traffic (env : Env) (hu : routingUuid rid = some uuid)
    (hd : Codec.decode data = .ok (some msg)) (hf : ∀ h, msg.fields ≠ .hello h) {r : Ref}
    (hk : n.peers.get (hex uuid) = some r) (hr : (n.obj r).ready = true) (extra : List Bytes) :
    n.handlePeerMsg env (rid :: data :: extra) = n.handleTraffic env (hex uuid) r msg extra := by
  unfold handlePeerMsg
  simp only [hu, hd, bind_ok, hk]
  cases hfs : msg.fields with
  | hello h => exact absurd hfs (hf h)
  | _ => simp [hr]

/-- A message that is not a HELLO is dropped unless its sender is ready. -/
theorem handlePeerMsg_dropped (env : Env) (hu : routingUuid rid = some uuid)
    (hd : Codec.decode data = .ok (some msg)) (hf : ∀ h, msg.fields ≠ .hello h)
    (hr : ∀ r, n.peers.get (hex uuid) = some r → (n.obj r).ready = false) (extra : List Bytes) :
    n.handlePeerMsg env (rid :: data :: extra) = .ok n := by
  unfold handlePeerMsg
  simp only [hu, hd, bind_ok]
  cases hk : n.peers.get (hex uuid) with
  | none =>
    cases hfs : msg.fields with
    | hello h => exact absurd hfs (hf h)
    | _ => rfl
  | some r =>
    cases hfs : msg.fields with
    | hello h => exact absurd hfs (hf h)
    | _ => simp [hr r hk]

end Inbox

/-- The frames carry the message `msg` of the node `uuid`, and then `extra`. -/
def Carries (frames : List Bytes) (uuid : Bytes) (msg : Msg) (extra : List Bytes) : Prop :=
  ∃ rid data, frames = rid :: data :: extra ∧ routingUuid rid = some uuid ∧
    Codec.decode data = .ok (some msg)

/-- A message is dropped, is the HELLO of its sender, or is traffic of a ready peer. -/
theorem handlePeerMsg_cases (env : Env) (n : Node) (frames : List Bytes) :
    Ensures (n.handlePeerMsg env frames) fun n' =>
      n' = n ∨ ∃ uuid msg extra, Carries frames uuid msg extra ∧
        ((∃ h, msg.fields = .hello h ∧
          (n.resetSeq (hex uuid)).handleHello env (hex uuid) h (n.peers.get (hex uuid)) = .ok n') ∨
          (∀ h, msg.fields ≠ .hello h) ∧ ∃ r, n.peers.get (hex uuid) = some r ∧
            (n.obj r).ready = true ∧ n.handleTraffic env (hex uuid) r msg extra = .ok n') := by
  intro n' hn
  cases frames with
  | nil => cases hn; exact Or.inl rfl
  | cons rid rest =>
    cases rest with
    | nil => cases hn; exact Or.inl rfl
    | cons data extra =>
      cases hu : routingUuid rid with
      | none =>
        unfold handlePeerMsg at hn
        simp only [hu] at hn
        cases hn
        exact Or.inl rfl
      | some uuid =>
        cases hd : Codec.decode data with
        | error e =>
          unfold handlePeerMsg at hn
          simp [hu, hd] at hn
        | ok o =>
          cases o with
          | none =>
            unfold handlePeerMsg at hn
            simp only [hu, hd, bind_ok] at hn
            cases hn
            exact Or.inl rfl
          | some msg =>
            by_cases hf : ∃ h, msg.fields = .hello h
            · obtain ⟨h, hf⟩ := hf
              rw [handlePeerMsg_hello env hu hd hf] at hn
              exact Or.inr ⟨uuid, msg, extra, ⟨rid, data, rfl, hu, hd⟩, Or.inl ⟨h, hf, hn⟩⟩
            · push Not at hf
              by_cases hr : ∃ r, n.peers.get (hex uuid) = some r ∧ (n.obj r).ready = true
              · obtain ⟨r, hk, hr⟩ := hr
                rw [handlePeerMsg_traffic env hu hd hf hk hr] at hn
                exact Or.inr ⟨uuid, msg, extra, ⟨rid, data, rfl, hu, hd⟩, Or.inr ⟨hf, r, hk, hr, hn⟩⟩
              · push Not at hr
                rw [handlePeerMsg_dropped env hu hd hf fun r hk =>
                  Bool.eq_false_iff.2 (hr r hk)] at hn
                cases hn
                exact Or.inl rfl

theorem moves_handlePeerMsg (env : Env) {n : Node} (ht : Tables n) (frames : List Bytes) :
    Ensures (n.handlePeerMsg env frames) (Moves anything anything n) := by
  intro n' hn
  rcases handlePeerMsg_cases env n frames n' hn with
    rfl | ⟨uuid, msg, extra, -, ⟨h, -, hh⟩ | ⟨-, r, hk, -, hh⟩⟩
  · exact Moves.refl n'
  · obtain ⟨hm0, -, -⟩ := moves_resetSeq anything anything n (hex uuid)
    exact hm0.trans (moves_handleHello env (hm0.invariant Tables.move ht) _ h _ n' hh).anything
  · exact (moves_handleTraffic env ht hk msg extra n' hh).anything

/-! ## Beacons, tuples and commands -/

/-- Different bytes have different hex forms. -/
theorem hex_injective : Function.Injective hex := by
  have hdigit : ∀ m n : Fin 16, hexDigit m = hexDigit n → m = n := by decide
  have hbyte : ∀ x y : UInt8, hexDigit (x.toNat / 16) = hexDigit (y.toNat / 16) →
      hexDigit (x.toNat % 16) = hexDigit (y.toNat % 16) → x = y := by
    intro x y hhi hlo
    have hx := x.toNat_lt
    have hy := y.toNat_lt
    have h1 := congrArg Fin.val (hdigit ⟨x.toNat / 16, by omega⟩ ⟨y.toNat / 16, by omega⟩ hhi)
    have h2 := congrArg Fin.val (hdigit ⟨x.toNat % 16, by omega⟩ ⟨y.toNat % 16, by omega⟩ hlo)
    simp only at h1 h2
    exact UInt8.toNat_inj.1 (by omega)
  intro a b h
  induction a generalizing b with
  | nil => cases b <;> simp_all [hex]
  | cons x a ih =>
    cases b with
    | nil => simp [hex] at h
    | cons y b =>
      simp only [hex, List.flatMap_cons, List.cons_append, List.nil_append, List.cons.injEq] at h
      rw [hbyte x y h.1 h.2.1, ih h.2.2]

theorem learnBeaconKey_rest (n : Node) (rhex host : Str) (port : Int) (key : Option Bytes) :
    ∃ keys, n.learnBeaconKey rhex host port key = { n with peerServerKeys := keys } := by
  cases key with
  | none => exact ⟨n.peerServerKeys, rfl⟩
  | some key => exact ⟨_, rfl⟩

/-- A beacon is answered with the node's own HELLO; a departure restarts elections. -/
def Meeting (n : Node) (h : Handed) : Prop := n.OwnHello h ∨ h.IsElection

/-- Only a beacon with port 0 takes a peer out of the table. -/
def beaconKinds (port : Nat) : List Kind := if port = 0 then [.forget] else [.meet]

theorem moves_acceptBeacon (env : Env) {n : Node} (ht : Tables n) (uuid : Bytes) (port : Nat)
    (key : Option Bytes) (host : Str) :
    Ensures (n.acceptBeacon env uuid port key host) (Moves (may env (beaconKinds port)) n.Meeting n) := by
  unfold acceptBeacon
  split
  · split
    · exact Ensures.error
    · exact Ensures.ok (Moves.refl n)
  · rename_i huuid
    have hown : hex uuid ≠ n.cfg.peerIdHex := fun e => huuid (hex_injective e)
    obtain ⟨keys, hkeys⟩ := learnBeaconKey_rest n (hex uuid) host port key
    simp only [hkeys]
    have hm0 : Moves (may env (beaconKinds port)) n.Meeting n { n with peerServerKeys := keys } :=
      moves_quiet rfl
    have ht0 := hm0.invariant Tables.move ht
    split
    · rename_i hp
      have hks : beaconKinds port = [.forget] := if_pos hp
      rw [hks] at hm0 ⊢
      exact (moves_beaconExit env ht0 (hex uuid)).mono fun _ hm =>
        hm0.trans (hm.mono (fun _ => id) fun _ => Or.inr)
    · split
      · exact Ensures.ok (hm0.trans (moves_refreshPeer env _ _))
      · rename_i hp _ hk
        have hks : beaconKinds port = [.meet] := if_neg hp
        rw [hks] at hm0 ⊢
        exact (moves_meetPeer env (n := { n with peerServerKeys := keys }) host port hk hown).mono
          fun _ hm => hm0.trans (hm.mono (fun _ => id) fun _ => Or.inl)

theorem moves_handleBeacon (env : Env) {n : Node} (ht : Tables n) (data : Bytes) (host : Str) :
    Ensures (n.handleBeacon env data host) (Moves (may env [.forget, .meet]) n.Meeting n) := by
  unfold handleBeacon
  split
  · exact Ensures.ok (Moves.refl n)
  · split
    · exact Ensures.ok (Moves.refl n)
    · have hany : ∀ {α : Type} (x : Except PyError α), Ensures x fun _ => True :=
        fun _ _ _ => trivial
      refine (hany (byteAt data 3)).bind fun version _ => ?_
      simp only []
      split
      · exact Ensures.ok (Moves.refl n)
      · split
        · exact Ensures.ok (Moves.refl n)
        · refine (hany (unpackH (slice data 20 22))).bind fun port _ => ?_
          refine (moves_acceptBeacon env ht _ port _ host).mono fun _ hm =>
            hm.mono (may_mono ?_) fun _ => id
          unfold beaconKinds
          split <;> simp

theorem moves_gossipRequire (env : Env) (n : Node) (uuidHex endpoint : Str) :
    Ensures (n.gossipRequire env uuidHex endpoint) (Moves (may env [.meet]) n.OwnHello n) := by
  unfold gossipRequire
  simp only []
  split
  · exact Ensures.ok (Moves.refl n)
  · split
    · exact Ensures.ok (Moves.refl n)
    · rename_i hown
      obtain ⟨keys, hkeys⟩ := learnTupleKey_rest n (n.cfg.rt.lower uuidHex) endpoint
      simp only [hkeys]
      have hm0 : Moves (may env [.meet]) n.OwnHello n { n with peerServerKeys := keys } :=
        moves_quiet rfl
      split
      · exact Ensures.ok hm0
      · exact Ensures.error
      · split
        · exact Ensures.ok (hm0.trans (moves_refreshPeer env _ _))
        · rename_i hk
          exact (moves_meetPeer env (n := { n with peerServerKeys := keys }) _ _ hk hown).mono
            fun _ hm => hm0.trans hm

theorem moves_sendToPeers (env : Env) (n : Node) (cmd : UInt8) (group : Option Bytes)
    (status : Option Nat) (ks : List Kind) :
    Ensures (n.sendToPeers env cmd group status) (Moves (may env ks) (Handed.Is cmd) n) :=
  Ensures.foldlM_rel Moves.refl (fun _ _ _ => Moves.trans)
    fun m r _ => (talk_sendCmd env m r cmd group status []).mono fun _ h => h.moves

theorem status_lt (n : Nat) : (n + 1) % 256 < 256 := Nat.mod_lt _ (by decide)

theorem moves_joinGroup (env : Env) (n : Node) (g : WireString) :
    Ensures (n.joinGroup env g.raw) (Moves (may env [.books]) (Handed.Is Cmd.join) n) := by
  unfold joinGroup
  split
  · exact Ensures.ok (Moves.refl n)
  · rename_i hg
    refine (moves_sendToPeers env _ _ _ _ _).mono fun _ hm => Moves.trans ?_ hm
    refine Moves.trans (Move.books (Or.inl (by simp)) rfl fun hb => ?_).moves
      (talk_requireGroup env.Lossless (Handed.Is Cmd.join) _ g.raw).moves
    refine ⟨?_, ?_, hb.header, status_lt _⟩
    · intro x hx
      rcases List.mem_append.1 hx with hx | hx
      · exact hb.own x hx
      · rw [List.mem_singleton.1 hx]; exact g.le
    · refine List.nodup_append.2 ⟨hb.ownNodup, List.nodup_singleton _, ?_⟩
      intro a ha b hb' hab
      rw [List.mem_singleton.1 hb'] at hab
      exact hg (hab ▸ ha)

theorem moves_leaveGroup (env : Env) (n : Node) (g : Bytes) :
    Ensures (n.leaveGroup env g) (Moves (may env [.books]) (Handed.Is Cmd.leave) n) := by
  unfold leaveGroup
  split
  · exact Ensures.ok (Moves.refl n)
  · refine (moves_sendToPeers env _ _ _ _ _).mono fun _ hm => Moves.trans (Move.moves ?_) hm
    refine Move.books (Or.inl (by simp)) rfl fun hb => ?_
    exact ⟨fun x hx => hb.own x (List.mem_of_mem_erase hx), hb.ownNodup.erase g, hb.header,
      status_lt _⟩

theorem moves_doWhisper (env : Env) (n : Node) (peerHex payload : Bytes) :
    Ensures (n.doWhisper env peerHex payload) (Moves (may env []) (Handed.Is Cmd.whisper) n) := by
  have hany : Ensures (decodeStrict peerHex) fun _ => True := fun _ _ => trivial
  refine hany.bind fun peerId _ => ?_
  split
  · split
    · exact (talk_sendCmd env n _ _ _ _ _).mono fun _ h => h.moves
    · exact Ensures.ok (Moves.refl n)
  · exact Ensures.ok (Moves.refl n)

theorem moves_doShout (env : Env) (n : Node) (g payload : Bytes) :
    Ensures (n.doShout env g payload) (Moves (may env []) (Handed.Is Cmd.shout) n) := by
  unfold doShout
  split
  · refine Ensures.foldlM_rel Moves.refl (fun _ _ _ => Moves.trans) fun m r _ => ?_
    split
    · refine (talk_sendEncoded env m r (K := Handed.Is Cmd.shout) fun seq frame hf _ hh => ?_).bind
        fun _ h => Ensures.ok h.moves
      exact Handed.is_of_frames hh (Codec.encodeSimple_cmd Cmd.shout seq (some g) none frame hf)
    · exact Ensures.ok (Moves.refl m)
  · exact Ensures.ok (Moves.refl n)

theorem moves_runCommand (env : Env) (n : Node) (c : Command) :
    Ensures (n.runCommand env c) (Moves anything anything n) := by
  cases c with
  | join g => exact (moves_joinGroup env n g).mono fun _ h => h.anything
  | leave g => exact (moves_leaveGroup env n g.raw).mono fun _ h => h.anything
  | whisper peerHex payload => exact (moves_doWhisper env n peerHex payload).mono fun _ h => h.anything
  | shout g payload => exact (moves_doShout env n g.raw payload).mono fun _ h => h.anything
  | connect host port => exact (moves_doConnect env n host port).mono fun _ h => h.anything

theorem moves_setContestInGroup {allow : Kind → Prop} {hands : Handed → Prop} (n : Node)
    (g : WireString) : Moves allow hands n (n.setContestInGroup g) := by
  have hm0 : Moves allow hands n { n with contestGroups := addGroup n.contestGroups g.raw } :=
    moves_quiet rfl
  unfold setContestInGroup
  simp only []
  split
  · rename_i group hg
    refine hm0.trans (Move.talk (L := True) (fun h => absurd trivial h) (talk_setGroup _ _ _ g.raw ?_)).moves
    simp only [Node.group]
    rw [hg]
    rfl
  · exact hm0

theorem moves_setHeader {allow : Kind → Prop} {hands : Handed → Prop} (ha : allow .books) (n : Node)
    (key value : WireString) : Moves allow hands n (n.setHeader key value) := by
  suffices hheaders : Books n → Books (n.setHeader key value) from (Move.books ha rfl hheaders).moves
  refine fun hb => ⟨hb.own, hb.ownNodup, ?_, hb.status⟩
  intro e he
  have hget := (Dict.get_eq_some_iff _).2 (show (e.1, e.2) ∈ _ from he)
  simp only [setHeader] at hget
  rw [Dict.get_set] at hget
  split at hget
  · rename_i hk
    have hv := Option.some.inj hget
    exact ⟨hk ▸ key.le, hv ▸ value.le⟩
  · exact hb.header e ((Dict.get_eq_some_iff _).1 hget)

/-! ## The reaper -/

/-- What the reaper hands over. -/
def Probe (h : Handed) : Prop := h.IsElection ∨ h.Is Cmd.ping

/-- The dials that the reaper has not looked at yet are still pending. -/
theorem moves_reapPendings (env : Env) (n : Node) {es : List (Str × Ref)}
    (hnd : (es.map Prod.fst).Nodup) (hes : ∀ e ∈ es, n.pending.get e.1 = some e.2) :
    Moves (may env [.forget]) Probe n (es.foldl (fun n e => n.reapPending env e) n) := by
  induction es generalizing n with
  | nil => exact Moves.refl n
  | cons e es ih =>
    rw [List.map_cons, List.nodup_cons] at hnd
    have hrest : ∀ e' ∈ es, (n.pending.pop e.1).get e'.1 = some e'.2 := by
      intro e' he'
      rw [Dict.get_pop, if_neg, hes e' (by simp [he'])]
      rintro heq
      exact hnd.1 (heq ▸ List.mem_map_of_mem he')
    rw [List.foldl_cons]
    unfold reapPending
    simp only []
    split
    · exact (Move.dropDial (Or.inl (by simp)) e.1 e.2 (hes e (by simp))).moves.trans
        (ih _ hnd.2 hrest)
    · exact ih n hnd.2 fun e' he' => hes e' (by simp [he'])

/-- One round of the reaper takes at most the peer itself out of the table. -/
theorem moves_reapPeer (env : Env) {n : Node} (ht : Tables n) {k : Str} {r : Ref}
    (hk : n.peers.get k = some r) :
    Ensures (n.reapPeer env r) fun n' =>
      Moves (may env [.forget]) Probe n n' ∧ (n'.peers = n.peers ∨ n'.peers = n.peers.pop k) := by
  unfold reapPeer
  simp only []
  split
  · exact (moves_removePeer env ht hk).mono fun _ h =>
      ⟨h.1.mono (fun _ => id) fun _ => Or.inl, Or.inr h.2⟩
  · split
    · refine Ensures.bind (talk_sendCmd env _ r Cmd.ping none none []) fun n' h => Ensures.ok ⟨?_, ?_⟩
      · refine Moves.trans (Moves.trans ?_ (h.mono fun _ => Or.inr).moves)
          (moves_setObj ⟨rfl, rfl, rfl, rfl, ⟨rfl, rfl⟩, rfl⟩)
        split
        · exact (moves_quiet rfl).trans (moves_emit { n with evasiveEmitAt := _ } (by simp [Event.IsEnter]))
        · exact Moves.refl n
      · left
        show n'.peers = n.peers
        rw [h.peers]
        split <;> rfl
    · exact Ensures.ok ⟨Moves.refl n, Or.inl rfl⟩

/-- What each round of the reaper does, its loop over the peers does: those it has not looked at yet are
still in the table. -/
theorem reapPeers_rel (env : Env) {R : Node → Node → Prop} (hrefl : ∀ m, R m m)
    (htrans : ∀ {m1 m2 m3}, R m1 m2 → R m2 m3 → R m1 m3)
    (hround : ∀ {m k r}, Tables m → m.peers.get k = some r → Ensures (m.reapPeer env r) (R m)) {n : Node}
    (ht : Tables n) {refs : List Ref} (hnd : refs.Nodup) (hrefs : ∀ r ∈ refs, ∃ k, n.peers.get k = some r) :
    Ensures (refs.foldlM (fun n r => n.reapPeer env r) n) (R n) := by
  induction refs generalizing n with
  | nil => exact Ensures.ok (hrefl n)
  | cons r refs ih =>
    obtain ⟨k, hk⟩ := hrefs r (by simp)
    rw [List.nodup_cons] at hnd
    rw [List.foldlM_cons]
    refine ((hround ht hk).and (moves_reapPeer env ht hk)).bind fun n' hn' => ?_
    obtain ⟨hr, hm, hp⟩ := hn'
    refine (ih (hm.invariant Tables.move ht) hnd.2 fun s hs => ?_).mono fun _ h => htrans hr h
    obtain ⟨j, hj⟩ := hrefs s (by simp [hs])
    refine ⟨j, ?_⟩
    rcases hp with hp | hp
    · rw [hp]
      exact hj
    · rw [hp, Dict.get_pop, if_neg, hj]
      rintro rfl
      rw [hk] at hj
      cases hj
      exact hnd.1 hs

theorem moves_reapPeers (env : Env) {n : Node} (ht : Tables n) {refs : List Ref} (hnd : refs.Nodup)
    (hrefs : ∀ r ∈ refs, ∃ k, n.peers.get k = some r) :
    Ensures (refs.foldlM (fun n r => n.reapPeer env r) n) (Moves (may env [.forget]) Probe n) :=
  reapPeers_rel env Moves.refl Moves.trans (fun ht hk => (moves_reapPeer env ht hk).mono fun _ h => h.1) ht hnd
    hrefs

theorem moves_reap (env : Env) {n : Node} (ht : Tables n) :
    Ensures (n.reap env) (Moves (may env [.forget]) Probe n) := by
  have hm0 := moves_reapPendings env n n.pending.nodup fun e he =>
    (Dict.get_eq_some_iff _).2 (show (e.1, e.2) ∈ _ from he)
  refine (talk_maintainElections env _).bind fun n2 h2 => ?_
  have hm2 := hm0.trans (h2.mono fun _ => Or.inl).moves
  have ht2 := hm2.invariant Tables.move ht
  refine (moves_reapPeers env ht2 ?_ fun r hr => (Dict.mem_values _).1 hr).mono
    fun _ hm => hm2.trans hm
  exact ht2.peers_nodup

/-! ## Steps -/

/-- Every event of the run loop is a sequence of moves. -/
theorem moves_step (env : Env) {n : Node} (ht : Tables n) (input : Input) :
    Ensures (n.step env input) (Moves anything anything n) := by
  cases input with
  | peerMsg frames => exact moves_handlePeerMsg env ht frames
  | beacon data host => exact (moves_handleBeacon env ht data host).mono fun _ h => h.anything
  | gossip uuidHex endpoint =>
    exact (moves_gossipRequire env n uuidHex endpoint).mono fun _ h => h.anything
  | command c => exact moves_runCommand env n c
  | reap => exact (moves_reap env ht).mono fun _ h => h.anything
  | setContestInGroup g => exact Ensures.ok (moves_setContestInGroup n g)
  | setHeader key value => exact Ensures.ok (moves_setHeader trivial n key value)
  | pinKey host port publicKey => exact Ensures.ok (moves_learnKey n _ publicKey)
  | recv => exact Ensures.ok (moves_quiet rfl)

/-- The tables agree in every reachable state. -/
theorem Reachable.tables {n : Node} (h : Reachable n) : Tables n :=
  h.invariant Tables.init fun _ env input _ ht hs =>
    (moves_step env ht input _ hs).invariant Tables.move ht

/-- What holds at the start and is preserved by every move holds in every reachable state. -/
theorem Reachable.of_moves {I : Node → Prop} (hinit : ∀ cfg, I (Node.init cfg))
    (hmove : ∀ {n n'}, Move anything anything n n' → I n → I n') {n : Node} (h : Reachable n) :
    I n := by
  induction h with
  | init cfg => exact hinit cfg
  | step env input hn hs ih => exact (moves_step env hn.tables input _ hs).invariant hmove ih

/-- The run loop is alive in every reachable state. -/
theorem Reachable.running {n : Node} (h : n.Reachable) : n.running = true := by
  refine h.of_moves (I := fun m => m.running = true) (fun _ => rfl) fun {m m'} hm hr => ?_
  cases hm with
  | talk hL h => rw [h.running, hr]
  | quiet h => rw [h]; exact hr
  | books ha h hb | enter ha k r g hk h hm | leave ha k r g hk h hm | forget ha k r hk h hm =>
    rw [h]; exact hr
  | touch | hail | emit | waste | file | dial | adopt | dropDial => exact hr

end Node

end Zre
