import Zre.Proofs.Lines
import Zre.Proofs.Rounds

/-!
# Proofs: the handlers as steps on the lines

Every handler is taken apart into the steps of `Line`, with what its event tells.
-/

namespace Zre

open Fallible

namespace Node

section Handlers

variable {env : Env} {w : Tidings}

/-! ## Sending -/

/-- A send does nothing on a closed socket; otherwise one frame with the next number is handed over. -/
theorem sendEncoded_hand (n : Node) (r : Ref) {encode : ℕ → Except PyError Bytes} {cmd : UInt8}
    (he : Numbers encode cmd) (more : List Bytes) :
    Ensures (n.sendEncoded env r encode more) fun res =>
      (res.2 = n ∧ ((n.obj r).connected = false ∨ (n.obj r).dealer = none)) ∨
      ∃ h, (n.obj r).connected = true ∧ (n.obj r).dealer = some h.dealer ∧
        h.Says cmd (((n.obj r).sentSeq + 1) % 65536) ∧ res.2 = n.hand r h := by
  intro res hres
  obtain h | ⟨dealer, frame, hc, hd, hframe, h⟩ := sendEncoded_cases env n r encode more res hres
  · exact Or.inl h
  · obtain ⟨fields, hdec⟩ := he _ frame hframe
    refine Or.inr ⟨⟨dealer, frame :: more, env.send n.outbox.length⟩, hc, hd,
      ⟨frame, more, fields, rfl, hdec⟩, ?_⟩
    rw [h]
    simp [hand, Peer.handed, bumpSeq]

theorem lines_sendEncoded (n : Node) (r : Ref) {encode : ℕ → Except PyError Bytes} {cmd : UInt8}
    (he : Numbers encode cmd) (more : List Bytes) :
    Ensures (n.sendEncoded env r encode more) fun res => Lines env w n res.2 := by
  intro res hres
  obtain ⟨h, -⟩ | ⟨h, hc, hd, hs, hsame⟩ := sendEncoded_hand n r he more res hres
  · rw [h]
    exact Lines.refl n
  · rw [hsame]
    exact (Line.hand r h cmd hc hd hs).lines

theorem lines_sendCmd (n : Node) (r : Ref) {cmd : UInt8} {group : Option Bytes} {status : Option ℕ}
    (he : Numbers (fun seq => Codec.encodeSimple cmd seq group status) cmd) (more : List Bytes) :
    Ensures (n.sendCmd env r cmd group status more) (Lines env w n) :=
  (lines_sendEncoded n r he more).bind fun _ h => Ensures.ok h

theorem lines_sendHello (n : Node) (r : Ref) : Ensures (n.sendHello env r) (Lines env w n) :=
  (lines_sendEncoded n r (numbers_hello env n r) []).bind fun _ h => Ensures.ok h

theorem lines_conversation (env : Env) (w : Tidings) : Conversation env (Lines env w) where
  refl := Lines.refl
  trans := Lines.trans
  setGroup _ _ _ _ := Idle.lines ⟨rfl, fun _ => Peer.Wired.refl _⟩
  emit _ _ _ := Idle.lines ⟨rfl, fun _ => Peer.Wired.refl _⟩
  send n r _ g id hcmd :=
    (lines_sendEncoded n r (numbers_election hcmd g id) []).bind fun _ h => Ensures.ok h

theorem lines_emit (n : Node) (e : Event) : Lines env w n (n.emit e) :=
  Idle.lines ⟨rfl, fun _ => Peer.Wired.refl _⟩

theorem lines_emits (n : Node) (e : Bytes → Event) (gs : List Bytes) :
    Lines env w n (gs.foldl (fun n g => n.emit (e g)) n) := by
  rw [emits_rest]
  exact Idle.lines ⟨rfl, fun _ => Peer.Wired.refl _⟩

/-! ## Dialling -/

theorem filed_setObj (n : Node) (k : Str) (p q : Peer) :
    (n.filed k p).setObj n.nextRef q = n.filed k q := by
  simp [filed, setObj]

/-- A new peer is greeted as soon as it is filed. -/
theorem lines_greet {n : Node} {k addr : Str} {port : Int} {p : Peer} (hk : n.peers.get k = none)
    (hh : w.hears k) (hw : w.dials (some k) addr port)
    (hl : ∀ key, w.teaches k key → n.peerServerKeys.get k = some key) (hs : n.Secured addr port (some k))
    (hp : (n.dialled env k addr port (some k)).Wired { p with ready := false }) :
    Ensures ((n.filed k p).sendHello env n.nextRef) (Lines env w n) := by
  have hobj : (n.filed k p).obj n.nextRef = p := by rw [filed_obj, if_pos rfl]
  have hc : p.connected = true := hp.connected
  have hd : p.dealer = (n.dialled env k addr port (some k)).dealer := hp.dealer
  have hseq : p.sentSeq = 0 := hp.sentSeq
  refine (sendEncoded_hand (n.filed k p) n.nextRef (numbers_hello env _ _) []).bind fun res h => Ensures.ok ?_
  rw [hobj, hseq] at h
  rcases h with ⟨-, h | h⟩ | ⟨h, -, hdealer, hmsg, hsame⟩
  · rw [hc] at h
    cases h
  · rw [hd] at h
    cases h
  · rw [hsame]
    exact (Line.greet k addr port p h hk hh hw hl hs hp hdealer hmsg).lines

/-- And so is a pending dial. -/
theorem lines_call {n : Node} {k addr : Str} {port : Int} (hk : n.pending.get k = none)
    (hw : w.dials none addr port) (hs : n.Secured addr port none) :
    Ensures ((n.awaited k (n.dialled env k addr port none)).sendHello env n.nextRef) (Lines env w n) := by
  have hobj : (n.awaited k (n.dialled env k addr port none)).obj n.nextRef =
      n.dialled env k addr port none := by rw [awaited_obj, if_pos rfl]
  refine (sendEncoded_hand (n.awaited k (n.dialled env k addr port none)) n.nextRef
    (numbers_hello env _ _) []).bind fun res h => Ensures.ok ?_
  rw [hobj] at h
  rcases h with ⟨-, h | h⟩ | ⟨h, -, hdealer, hmsg, hsame⟩
  · cases h
  · cases h
  · rw [hsame]
    exact (Line.call k addr port h hk hw hs hdealer hmsg).lines

theorem lines_adoptPending {n n' : Node} {rhex addr : Str} {port : Int} {res : Option Ref}
    (hk : n.peers.get rhex = none) (hh : w.hears rhex)
    (h : n.adoptPending env addr port rhex = (res, n')) : Lines env w n n' := by
  cases res with
  | none =>
    obtain ⟨rfl, -⟩ := adoptPending_none h
    exact Lines.refl n'
  | some r =>
    obtain ⟨k, rfl, hm⟩ := adoptPending_some h
    exact (Line.adopt k r rhex (pendingMatch_mem hm) hk hh).lines

/-- What a dial of an announced peer leaves: nothing in the tables, or the new peer. -/
theorem dialPeer_cases (env : Env) (w : Tidings) (n : Node) (rhex addr : Str) (port : Int) :
    (∃ n', Lines env w n n' ∧ n.dialPeer env rhex addr port = (none, n')) ∨
    n.Secured addr port (some rhex) ∧ n.dialPeer env rhex addr port =
      (some n.nextRef, n.filed rhex (n.dialled env rhex addr port (some rhex))) := by
  unfold dialPeer
  rcases openPeer_exact env n rhex addr port (some rhex) with h | h | ⟨hs, h⟩ <;> rw [h]
  · exact Or.inl ⟨n, Lines.refl n, rfl⟩
  · exact Or.inl ⟨_, (Line.waste rhex addr port).lines, rfl⟩
  · exact Or.inr ⟨hs, rfl⟩

theorem lines_meetPeer {n : Node} {rhex addr : Str} {port : Int} (hk : n.peers.get rhex = none)
    (hh : w.hears rhex) (hw : n.pendingMatch addr port rhex = none → w.dials (some rhex) addr port)
    (hlearned : ∀ key, w.teaches rhex key → n.peerServerKeys.get rhex = some key) :
    Ensures (n.meetPeer env rhex addr port) (Lines env w n) := by
  unfold meetPeer
  cases ha : n.adoptPending env addr port rhex with
  | mk o n1 =>
    have h1 : Lines env w n n1 := lines_adoptPending hk hh ha
    cases o with
    | some r => exact (lines_sendHello n1 r).mono fun _ h => h1.trans h
    | none =>
      obtain ⟨rfl, hnone⟩ := adoptPending_none ha
      simp only []
      rcases dialPeer_cases env w n1 rhex addr port with ⟨n', hl, h⟩ | ⟨hs, h⟩ <;> rw [h]
      · exact Ensures.ok hl
      · exact lines_greet hk hh (hw hnone) hlearned hs (Peer.Wired.refl _)

theorem lines_doConnect {n : Node} {host : Str} {port : Int} (hw : w.dials none host port) :
    Ensures (n.doConnect env host port) (Lines env w n) := by
  unfold doConnect
  split
  · exact Ensures.ok (Lines.refl n)
  · split
    · exact Ensures.ok (Lines.refl n)
    · simp only []
      split
      · exact Ensures.ok (Lines.refl n)
      · rename_i hpend
        have hk : n.pending.get (pendingKey host port) = none := by
          cases h : n.pending.get (pendingKey host port) with
          | none => rfl
          | some r => exact absurd (Dict.contains_iff.2 ⟨r, h⟩) hpend
        rcases openPeer_exact env n (pendingKey host port) host port none with h | h | ⟨hs, h⟩ <;> rw [h]
        · exact Ensures.ok (Lines.refl n)
        · exact Ensures.ok (Line.waste _ host port).lines
        · exact lines_call hk hw hs

/-! ## HELLO -/

/-- The end of `_handle_hello` after its reply: the groups are entered. -/
def entered (env : Env) (n : Node) (rhex : Str) (r : Ref) (h : HelloFields) (epStr : Str) :
    Except PyError Node :=
  let n := h.groups.foldl (fun n g => n.enterGroup r g) n
  let name := pname (n.obj r)
  let n := n.emit (.enter rhex name epStr)
  let n := h.groups.foldl (fun n g => n.emit (.join rhex name (bdec g))) n
  h.groups.foldlM (fun n g => n.startElection env g) n

/-- The object of a peer that became ready. -/
def hailed (p : Peer) (h : HelloFields) (epStr : Str) : Peer :=
  { p.announce h with ready := true, endpointStr := epStr }

theorem enterPeer_eq (n : Node) (rhex : Str) (r : Ref) (h : HelloFields) (epStr : Str) (b : Bool) :
    n.enterPeer env rhex r h epStr b =
      (n.setObj r (hailed (n.obj r) h epStr)).replyHello env r b >>=
        fun n => n.entered env rhex r h epStr := rfl

theorem idle_enterGroup (n : Node) (r : Ref) (g : Bytes) : Idle n (n.enterGroup r g) := by
  have hobj : ((n.openGroup g).joinTable g r).obj = n.obj := by
    unfold joinTable setGroup
    rw [openGroup_rest]
  unfold enterGroup
  simp only [hobj]
  refine ⟨?_, fun s => ?_⟩
  · unfold joinTable setGroup
    rw [openGroup_rest]
    rfl
  · rw [setObj_obj, hobj]
    split
    · rename_i hs
      subst hs
      exact ⟨rfl, rfl, rfl, rfl, rfl, rfl, rfl, rfl⟩
    · exact Peer.Wired.refl _

theorem lines_entered (n : Node) (rhex : Str) (r : Ref) (h : HelloFields) (epStr : Str) :
    Ensures (n.entered env rhex r h epStr) (Lines env w n) := by
  have hgroups : ∀ (gs : List Bytes) (m : Node),
      Lines env w m (gs.foldl (fun n g => n.enterGroup r g) m) := by
    intro gs
    induction gs with
    | nil => exact Lines.refl
    | cons g gs ih => exact fun m => (idle_enterGroup m r g).lines.trans (ih _)
  refine (Ensures.foldlM_rel Lines.refl (fun _ _ _ => Lines.trans) fun m g _ =>
    (lines_conversation env w).startElection m g).mono fun _ hl => ?_
  exact (((hgroups h.groups n).trans (lines_emit _ _)).trans (lines_emits _ _ h.groups)).trans hl

/-- A known peer becomes ready. -/
theorem lines_enterPeer {n : Node} {rhex : Str} {r : Ref} (hk : n.peers.get rhex = some r) (h : HelloFields)
    (epStr : Str) : Ensures (n.enterPeer env rhex r h epStr false) (Lines env w n) := by
  have h1 : Lines env w n (n.setObj r (hailed (n.obj r) h epStr)) :=
    (Line.hail rhex r (hailed (n.obj r) h epStr) hk ⟨rfl, rfl, rfl, rfl, rfl, rfl, rfl, rfl⟩).lines
  rw [enterPeer_eq]
  exact (lines_entered _ rhex r h epStr).mono fun _ hl => h1.trans hl

/-- The key of a HELLO: of the endpoint suffix, else of the header. -/
def helloKey (rt : Runtime) (h : HelloFields) : Option Bytes :=
  (if '|' ∈ bdec h.endpoint then curveKeyRaw rt (encodeStr (partition '|' (bdec h.endpoint)).2)
    else none).or ((h.headers.get publicKeyHeader).bind (curveKeyRaw rt))

/-- Remember a key, if there is one. -/
def remember (n : Node) (x : Str) (key : Option Bytes) : Node :=
  match key with
  | some key => { n with peerServerKeys := n.peerServerKeys.set x key }
  | none => n

theorem learnKey_eq (n : Node) (x : Str) (value : Bytes) :
    n.learnKey x value = n.remember x (curveKeyRaw n.cfg.rt value) := by
  unfold learnKey remember
  cases curveKeyRaw n.cfg.rt value <;> rfl

/-- What is remembered later replaces what was remembered before. -/
theorem remember_remember (n : Node) (x : Str) (key later : Option Bytes) :
    ∃ keys, (n.remember x key).remember x later = { n with peerServerKeys := keys } ∧
      ∀ y, keys.get y = if x = y then (later.or key).or (n.peerServerKeys.get y)
        else n.peerServerKeys.get y := by
  unfold remember
  cases later with
  | some later =>
    cases key with
    | some key =>
      refine ⟨_, rfl, fun y => ?_⟩
      rw [Dict.get_set, Dict.get_set]
      split <;> simp
    | none =>
      refine ⟨_, rfl, fun y => ?_⟩
      rw [Dict.get_set]
      split <;> simp
  | none =>
    cases key with
    | some key =>
      refine ⟨_, rfl, fun y => ?_⟩
      rw [Dict.get_set]
      split <;> simp
    | none => exact ⟨n.peerServerKeys, rfl, fun y => by simp⟩

theorem learnHelloKeys_eq (n : Node) (rhex : Str) (h : HelloFields) :
    ∃ keys, n.learnHelloKeys rhex h = { n with peerServerKeys := keys } ∧
      ∀ y, keys.get y = if rhex = y then (helloKey n.cfg.rt h).or (n.peerServerKeys.get y)
        else n.peerServerKeys.get y := by
  have heq : n.learnHelloKeys rhex h =
      (n.remember rhex ((h.headers.get publicKeyHeader).bind (curveKeyRaw n.cfg.rt))).remember rhex
        (if '|' ∈ bdec h.endpoint then curveKeyRaw n.cfg.rt (encodeStr (partition '|' (bdec h.endpoint)).2)
          else none) := by
    have hcfg : ∀ key, (n.remember rhex key).cfg = n.cfg := by
      intro key
      unfold remember
      cases key <;> rfl
    unfold learnHelloKeys
    cases h.headers.get publicKeyHeader with
    | none =>
      simp only [Option.bind_none, learnKey_eq]
      split <;> rfl
    | some advertised =>
      simp only [Option.bind_some, learnKey_eq, hcfg]
      split <;> rfl
  rw [heq]
  exact remember_remember n rhex _ _

/-- A new peer becomes ready and is greeted. -/
theorem lines_enterFiled {n : Node} {rhex addr : Str} {port : Int} (hk : n.peers.get rhex = none)
    (hh : w.hears rhex) (hw : w.dials (some rhex) addr port)
    (hlearned : ∀ key, w.teaches rhex key → n.peerServerKeys.get rhex = some key)
    (hs : n.Secured addr port (some rhex)) (h : HelloFields) (epStr : Str) :
    Ensures ((n.filed rhex (n.dialled env rhex addr port (some rhex))).enterPeer env rhex n.nextRef h epStr
      true) (Lines env w n) := by
  rw [enterPeer_eq, filed_setObj]
  have hp : (n.dialled env rhex addr port (some rhex)).Wired
      { hailed ((n.filed rhex (n.dialled env rhex addr port (some rhex))).obj n.nextRef) h epStr with
        ready := false } := by
    rw [filed_obj, if_pos rfl]
    exact ⟨rfl, rfl, rfl, rfl, rfl, rfl, rfl, rfl⟩
  exact Ensures.bind (lines_greet hk hh hw hlearned hs hp) fun m hm =>
    (lines_entered m rhex n.nextRef h epStr).mono fun _ hl => hm.trans hl

theorem lines_learnHelloKeys (env : Env) {n : Node} {rhex : Str} {h : HelloFields}
    (ht : ∀ key, w.teaches rhex key ↔ helloKey n.cfg.rt h = some key) :
    ∃ keys, n.learnHelloKeys rhex h = { n with peerServerKeys := keys } ∧
      Lines env w n { n with peerServerKeys := keys } ∧
      ∀ key, w.teaches rhex key → keys.get rhex = some key := by
  obtain ⟨keys, heq, hkeys⟩ := learnHelloKeys_eq n rhex h
  refine ⟨keys, heq, (Line.learn fun y => ?_).lines, fun key hkey => ?_⟩
  · rw [hkeys]
    split
    · rename_i hy
      cases hkey : helloKey n.cfg.rt h with
      | none => exact Or.inl rfl
      | some key => exact Or.inr ⟨key, rfl, hy ▸ (ht key).2 hkey⟩
    · exact Or.inl rfl
  · rw [hkeys, if_pos rfl, (ht key).1 hkey, Option.some_or]

theorem lines_helloFromNew {n : Node} {rhex : Str} {h : HelloFields} (hk : n.peers.get rhex = none)
    (hh : w.hears rhex) (ht : ∀ key, w.teaches rhex key ↔ helloKey n.cfg.rt h = some key)
    (hw : ∀ addr port, splitEndpoint n.cfg.rt (endpointText h.endpoint) = .ok (addr, port) →
      n.pendingMatch (dialHost addr) port rhex = none → w.dials (some rhex) (dialHost addr) port) :
    Ensures (n.helloFromNew env rhex h) (Lines env w n) := by
  obtain ⟨keys, hkeys, hl, hlearned⟩ := lines_learnHelloKeys env ht
  unfold helloFromNew
  simp only [hkeys]
  split
  · exact Ensures.ok hl
  · rename_i addr port hsplit
    have hw' := hw addr port hsplit
    cases ha : { n with peerServerKeys := keys }.adoptPending env (dialHost addr) port rhex with
    | mk o n1 =>
      have h1 : Lines env w { n with peerServerKeys := keys } n1 :=
        lines_adoptPending (n := { n with peerServerKeys := keys }) hk hh ha
      cases o with
      | some r =>
        obtain ⟨k, rfl, -⟩ := adoptPending_some ha
        exact (lines_enterPeer (adoptUnder_peers env _ k r rhex) h _).mono fun _ h2 => (hl.trans h1).trans h2
      | none =>
        obtain ⟨rfl, hnone⟩ := adoptPending_none ha
        simp only []
        rcases dialPeer_cases env w { n with peerServerKeys := keys } rhex (dialHost addr) port
          with ⟨n', hl', h⟩ | ⟨hs, hd⟩
        · rw [h]
          exact Ensures.ok (hl.trans hl')
        · rw [hd]
          exact (lines_enterFiled (n := { n with peerServerKeys := keys }) hk hh (hw' hnone) hlearned hs h _).mono
            fun _ h2 => hl.trans h2

/-- A HELLO is news of an unknown sender, or of a known one with an endpoint. -/
theorem lines_handleHello {n : Node} {rhex : Str} {h : HelloFields} (hh : h.endpoint ≠ [] → w.hears rhex)
    (ht : n.peers.get rhex = none → rhex ≠ n.cfg.peerIdHex →
      ∀ key, w.teaches rhex key ↔ helloKey n.cfg.rt h = some key)
    (hw : n.peers.get rhex = none → ∀ addr port,
      splitEndpoint n.cfg.rt (endpointText h.endpoint) = .ok (addr, port) →
      n.pendingMatch (dialHost addr) port rhex = none → w.dials (some rhex) (dialHost addr) port) :
    Ensures (n.handleHello env rhex h (n.peers.get rhex)) (Lines env w n) := by
  unfold handleHello
  split
  · exact Ensures.ok (Lines.refl n)
  · split
    · split
      · exact Ensures.ok (Lines.refl n)
      · exact Ensures.error
    · rename_i hown
      split
      · exact Ensures.ok (Lines.refl n)
      · rename_i hne
        have h0 : Lines env w n { n with evasiveEmitAt := n.evasiveEmitAt.pop rhex } :=
          Idle.lines ⟨rfl, fun _ => Peer.Wired.refl _⟩
        simp only []
        split
        · rename_i r hk _
          have h1 : Line env w { n with evasiveEmitAt := n.evasiveEmitAt.pop rhex }
              (refreshPeer env { n with evasiveEmitAt := n.evasiveEmitAt.pop rhex } r) :=
            .refresh rhex r hk (hh hne)
          refine Ensures.ok ((h0.trans h1.lines).trans (Idle.setObj _ r ?_).lines)
          exact ⟨rfl, rfl, rfl, rfl, rfl, rfl, rfl, rfl⟩
        · split
          · rename_i hk
            exact (lines_helloFromNew (n := { n with evasiveEmitAt := n.evasiveEmitAt.pop rhex }) hk (hh hne)
              (ht hk hown) (hw hk)).mono fun _ h1 => h0.trans h1
          · rename_i r hk
            exact (lines_enterPeer (n := { n with evasiveEmitAt := n.evasiveEmitAt.pop rhex }) hk h _).mono
              fun _ h1 => h0.trans h1

/-! ## Departures -/

theorem lines_restartElections (n : Node) (gs : List Bytes) :
    Ensures (n.restartElections env gs) (Lines env w n) :=
  Ensures.foldlM_rel Lines.refl (fun _ _ _ => Lines.trans) fun m g _ =>
    (lines_conversation env w).restartElectionIfNeeded m g

theorem lines_forgotten {n : Node} {k : Str} {r : Ref} (hk : n.peers.get k = some r) (gone : List Bytes) :
    Lines env w n (n.forgotten k r gone) :=
  (Line.forget k r hk).lines.trans (Idle.lines ⟨rfl, fun _ => Peer.Wired.refl _⟩)

theorem lines_removePeer {n : Node} {k : Str} {r : Ref} (hf : Filed n) (hk : n.peers.get k = some r) :
    Ensures (n.removePeer env r) (Lines env w n) := by
  rw [removePeer_eq env (hf.key k r hk)]
  exact (lines_restartElections _ _).mono fun _ h => (lines_forgotten hk _).trans h

theorem lines_beaconExit (n : Node) (k : Str) : Ensures (n.beaconExit env k) (Lines env w n) := by
  cases hk : n.peers.get k with
  | none =>
    unfold beaconExit
    rw [hk]
    exact Ensures.ok (Lines.refl n)
  | some r =>
    rw [beaconExit_eq env hk]
    exact (lines_restartElections _ _).mono fun _ h => (lines_forgotten hk _).trans h

/-! ## Inbound messages -/

theorem lines_handleJoin (n : Node) (rhex : Str) (r : Ref) (g : Bytes) :
    Ensures (n.handleJoin env rhex r g) (Lines env w n) := by
  unfold handleJoin
  split
  · exact Ensures.ok (Lines.refl n)
  · have hset : Idle n (n.setObj r { n.obj r with groups := addGroup (n.obj r).groups g }) :=
      Idle.setObj n r ⟨rfl, rfl, rfl, rfl, rfl, rfl, rfl, rfl⟩
    refine ((lines_conversation env w).startElection _ g).mono fun _ h => Lines.trans ?_ h
    refine (hset.lines.trans ((lines_conversation env w).requireGroup _ g)).trans ?_
    exact Idle.lines ⟨rfl, fun _ => Peer.Wired.refl _⟩

theorem lines_handleLeave (n : Node) (rhex : Str) (r : Ref) (g : Bytes) :
    Ensures (n.handleLeave env rhex r g) (Lines env w n) := by
  unfold handleLeave
  split
  · exact Ensures.ok (Lines.refl n)
  · have hset : Idle n (n.setObj r { n.obj r with groups := discardGroup (n.obj r).groups g }) :=
      Idle.setObj n r ⟨rfl, rfl, rfl, rfl, rfl, rfl, rfl, rfl⟩
    refine ((lines_conversation env w).restartElectionIfNeeded _ g).mono fun _ h => Lines.trans ?_ h
    refine Lines.trans (hset.lines.trans ?_) (lines_emit _ _)
    rw [leaveTable_rest]
    exact Idle.lines ⟨rfl, fun _ => Peer.Wired.refl _⟩

/-- The commands without fields that a node sends. -/
theorem numbers_bares {cmd : UInt8} (h : cmd = Cmd.whisper ∨ cmd = Cmd.ping ∨ cmd = Cmd.pingOk) :
    Numbers (fun seq => Codec.encodeSimple cmd seq none none) cmd := by
  refine numbers_bare ?_
  rcases h with rfl | rfl | rfl <;> exact ⟨by decide, by decide, by decide⟩

theorem lines_dispatch {n : Node} {rhex : Str} {r : Ref} (hf : Filed n) (hk : n.peers.get rhex = some r)
    (hh : w.hears rhex) (msg : Msg) (extra : List Bytes) :
    Ensures (n.dispatch env rhex r msg extra) (Lines env w n) := by
  unfold dispatch
  simp only []
  split
  · exact Ensures.ok (lines_emit n _)
  · split
    · exact lines_removePeer hf hk
    · split
      · exact lines_sendCmd n r (numbers_bares (by simp)) []
      · split
        · exact Ensures.ok (Line.refresh rhex r hk hh).lines
        · split
          · split
            · exact Ensures.ok (lines_emit n _)
            · exact Ensures.ok (Lines.refl n)
          · split
            · exact lines_handleJoin n rhex r _
            · split
              · exact lines_handleLeave n rhex r _
              · exact Ensures.ok (Lines.refl n)
          · split
            · exact (lines_conversation env w).handleElect n r _ _
            · split
              · exact (lines_conversation env w).handleLeader n _ _
              · exact Ensures.ok (Lines.refl n)
          · exact Ensures.ok (Lines.refl n)

theorem lines_wantSeq (n : Node) (r : Ref) (seq : ℕ) :
    Lines env w n (n.setObj r { n.obj r with wantSeq := seq }) := by
  refine (Idle.setObj n r ?_).lines
  exact ⟨rfl, rfl, rfl, rfl, rfl, rfl, rfl, rfl⟩

theorem lines_checkSeq (n : Node) (r : Ref) (cmd : UInt8) (seq : ℕ) :
    Lines env w n (n.checkSeq r cmd seq) := by
  have h1 : Idle n (n.setObj r ((n.obj r).countSeq cmd)) :=
    Idle.setObj n r ⟨rfl, rfl, rfl, rfl, rfl, rfl, rfl, rfl⟩
  unfold checkSeq
  simp only []
  split
  · exact h1.lines.trans (lines_wantSeq _ r seq)
  · exact h1.lines

theorem lines_arrive {n : Node} {rhex : Str} {r : Ref} (hk : n.peers.get rhex = some r) (hh : w.hears rhex)
    (msg : Msg) : Lines env w n (n.arrive env rhex r msg) := by
  have h0 : Idle n (if isTraffic msg.cmd then { n with evasiveEmitAt := n.evasiveEmitAt.pop rhex } else n) := by
    split
    · exact ⟨rfl, fun _ => Peer.Wired.refl _⟩
    · exact Idle.refl n
  have h1 : Lines env w n (checkSeq (if isTraffic msg.cmd then
      { n with evasiveEmitAt := n.evasiveEmitAt.pop rhex } else n) r msg.cmd msg.seq) :=
    h0.lines.trans (lines_checkSeq _ r msg.cmd msg.seq)
  refine h1.trans (Line.refresh rhex r ?_ hh).lines
  rw [checkSeq_rest]
  split <;> exact hk

theorem lines_handleTraffic {n : Node} {rhex : Str} {r : Ref} (hf : Filed n)
    (hk : n.peers.get rhex = some r) (hh : w.hears rhex) (msg : Msg) (extra : List Bytes) :
    Ensures (n.handleTraffic env rhex r msg extra) (Lines env w n) := by
  have h1 : Lines env w n (n.arrive env rhex r msg) := lines_arrive hk hh msg
  have hk1 : (n.arrive env rhex r msg).peers.get rhex = some r := by
    rw [(moves_arrive anything anything env n rhex r msg).2]
    exact hk
  exact (lines_dispatch (hf.lines h1) hk1 hh msg extra).mono fun _ h => h1.trans h

theorem lines_resetSeq (n : Node) (rhex : Str) : Lines env w n (n.resetSeq rhex) := by
  unfold resetSeq
  cases n.peers.get rhex with
  | none => exact Lines.refl n
  | some r => exact lines_wantSeq n r 1

/-! ## Beacons and tuples -/

theorem lines_learnBeaconKey (env : Env) {n : Node} {rhex host : Str} {port : Int} {key : Option Bytes}
    (ht : ∀ k, w.teaches rhex k ↔ key = some k) (hp : ∀ k, key = some k → w.teaches (hostPort host port) k) :
    ∃ keys, n.learnBeaconKey rhex host port key = { n with peerServerKeys := keys } ∧
      Lines env w n { n with peerServerKeys := keys } ∧ ∀ k, w.teaches rhex k → keys.get rhex = some k := by
  cases key with
  | none => exact ⟨n.peerServerKeys, rfl, Lines.refl n, fun k hk => absurd ((ht k).1 hk) (by simp)⟩
  | some key =>
    refine ⟨_, rfl, (Line.learn fun y => ?_).lines, fun k hk => ?_⟩
    · rw [Dict.get_set, Dict.get_set]
      split
      · rename_i hy
        exact Or.inr ⟨key, rfl, hy ▸ hp key rfl⟩
      · split
        · rename_i hy
          exact Or.inr ⟨key, rfl, hy ▸ (ht key).2 rfl⟩
        · exact Or.inl rfl
    · rw [Dict.get_set, Dict.get_set_self, (ht k).1 hk]
      split <;> rfl

theorem lines_acceptBeacon {n : Node} {uuid : Bytes} {port : ℕ} {key : Option Bytes} {host : Str}
    (hh : port ≠ 0 → w.hears (hex uuid))
    (hw : port ≠ 0 → n.peers.get (hex uuid) = none → n.pendingMatch host port (hex uuid) = none →
      w.dials (some (hex uuid)) host port)
    (ht : uuid ≠ n.cfg.peerId → (∀ k, w.teaches (hex uuid) k ↔ key = some k) ∧
      ∀ k, key = some k → w.teaches (hostPort host port) k) :
    Ensures (n.acceptBeacon env uuid port key host) (Lines env w n) := by
  unfold acceptBeacon
  split
  · split
    · exact Ensures.error
    · exact Ensures.ok (Lines.refl n)
  · rename_i huuid
    obtain ⟨keys, hkeys, h0, hlearned⟩ := lines_learnBeaconKey env (n := n) (ht huuid).1 (ht huuid).2
    simp only [hkeys]
    split
    · exact (lines_beaconExit _ _).mono fun _ h => h0.trans h
    · rename_i hport
      split
      · rename_i r hk
        have h1 : Line env w { n with peerServerKeys := keys }
            (refreshPeer env { n with peerServerKeys := keys } r) := .refresh _ r hk (hh hport)
        exact Ensures.ok (h0.trans h1.lines)
      · rename_i hk
        exact (lines_meetPeer (n := { n with peerServerKeys := keys }) hk (hh hport)
          (hw hport hk) hlearned).mono
          fun _ h => h0.trans h

theorem lines_gossipRequire {n : Node} {uuidHex endpoint : Str}
    (hh : ∀ addr port, splitEndpoint n.cfg.rt (partition '|' endpoint).1 = .ok (addr, port) →
      w.hears (n.cfg.rt.lower uuidHex) ∧ (n.peers.get (n.cfg.rt.lower uuidHex) = none →
        n.pendingMatch addr port (n.cfg.rt.lower uuidHex) = none →
        w.dials (some (n.cfg.rt.lower uuidHex)) addr port))
    (ht : n.cfg.rt.lower uuidHex ≠ n.cfg.peerIdHex → ∀ key, w.teaches (n.cfg.rt.lower uuidHex) key ↔
      '|' ∈ endpoint ∧ curveKeyRaw n.cfg.rt (encodeStr (partition '|' endpoint).2) = some key) :
    Ensures (n.gossipRequire env uuidHex endpoint) (Lines env w n) := by
  unfold gossipRequire
  simp only []
  split
  · exact Ensures.ok (Lines.refl n)
  · split
    · exact Ensures.ok (Lines.refl n)
    · rename_i hown
      have hlearn : ∃ keys, (if '|' ∈ endpoint then
          n.learnKey (n.cfg.rt.lower uuidHex) (encodeStr (partition '|' endpoint).2) else n) =
          { n with peerServerKeys := keys } ∧ Lines env w n { n with peerServerKeys := keys } ∧
          ∀ key, w.teaches (n.cfg.rt.lower uuidHex) key → keys.get (n.cfg.rt.lower uuidHex) = some key := by
        split
        · rename_i hbar
          unfold learnKey
          cases hkey : curveKeyRaw n.cfg.rt (encodeStr (partition '|' endpoint).2) with
          | none =>
            refine ⟨n.peerServerKeys, rfl, Lines.refl n, fun key ht' => ?_⟩
            have hsome := ((ht hown key).1 ht').2
            rw [hkey] at hsome
            cases hsome
          | some key =>
            refine ⟨_, rfl, (Line.learn fun y => ?_).lines, fun key' ht' => ?_⟩
            · rw [Dict.get_set]
              split
              · rename_i hy
                exact Or.inr ⟨key, rfl, hy ▸ (ht hown key).2 ⟨hbar, hkey⟩⟩
              · exact Or.inl rfl
            · rw [Dict.get_set_self, ← hkey]
              exact ((ht hown key').1 ht').2
        · rename_i hbar
          exact ⟨n.peerServerKeys, rfl, Lines.refl n, fun key ht' => absurd ((ht hown key).1 ht').1 hbar⟩
      obtain ⟨keys, hkeys, h0, hlearned⟩ := hlearn
      simp only [hkeys]
      split
      · exact Ensures.ok h0
      · exact Ensures.error
      · rename_i addr port hsplit
        obtain ⟨hh, hw⟩ := hh addr port hsplit
        split
        · rename_i r hk
          have h1 : Line env w { n with peerServerKeys := keys }
              (refreshPeer env { n with peerServerKeys := keys } r) := .refresh _ r hk hh
          exact Ensures.ok (h0.trans h1.lines)
        · rename_i hk
          exact (lines_meetPeer (n := { n with peerServerKeys := keys }) hk hh (hw hk) hlearned).mono
            fun _ h => h0.trans h

/-! ## Commands -/

theorem lines_sendToPeers (n : Node) {cmd : UInt8} {group : Option Bytes} {status : Option ℕ}
    (he : Numbers (fun seq => Codec.encodeSimple cmd seq group status) cmd) :
    Ensures (n.sendToPeers env cmd group status) (Lines env w n) :=
  Ensures.foldlM_rel Lines.refl (fun _ _ _ => Lines.trans) fun m r _ => lines_sendCmd m r he []

theorem lines_joinGroup (n : Node) (g : Bytes) : Ensures (n.joinGroup env g) (Lines env w n) := by
  unfold joinGroup
  split
  · exact Ensures.ok (Lines.refl n)
  · refine (lines_sendToPeers _ (numbers_groupStatus (Or.inl rfl) _ _)).mono fun _ h => Lines.trans ?_ h
    refine Lines.trans (Idle.lines ?_) ((lines_conversation env w).requireGroup _ g)
    exact ⟨rfl, fun _ => Peer.Wired.refl _⟩

theorem lines_leaveGroup (n : Node) (g : Bytes) : Ensures (n.leaveGroup env g) (Lines env w n) := by
  unfold leaveGroup
  split
  · exact Ensures.ok (Lines.refl n)
  · refine (lines_sendToPeers _ (numbers_groupStatus (Or.inr rfl) _ _)).mono fun _ h => Lines.trans ?_ h
    exact Idle.lines ⟨rfl, fun _ => Peer.Wired.refl _⟩

theorem lines_doWhisper (n : Node) (peerHex payload : Bytes) :
    Ensures (n.doWhisper env peerHex payload) (Lines env w n) := by
  have hany : Ensures (decodeStrict peerHex) fun _ => True := fun _ _ => trivial
  refine hany.bind fun peerId _ => ?_
  split
  · split
    · exact lines_sendCmd n _ (numbers_bares (by simp)) [payload]
    · exact Ensures.ok (Lines.refl n)
  · exact Ensures.ok (Lines.refl n)

theorem lines_doShout (n : Node) (g payload : Bytes) : Ensures (n.doShout env g payload) (Lines env w n) := by
  unfold doShout
  split
  · refine Ensures.foldlM_rel Lines.refl (fun _ _ _ => Lines.trans) fun m r _ => ?_
    split
    · exact (lines_sendEncoded m r (numbers_group g) [payload]).bind fun _ h => Ensures.ok h
    · exact Ensures.ok (Lines.refl m)
  · exact Ensures.ok (Lines.refl n)

theorem lines_runCommand (n : Node) {c : Command}
    (hw : ∀ host port, c = .connect host port → w.dials none host port) :
    Ensures (n.runCommand env c) (Lines env w n) := by
  cases c with
  | join g => exact lines_joinGroup n g.raw
  | leave g => exact lines_leaveGroup n g.raw
  | whisper peerHex payload => exact lines_doWhisper n peerHex payload
  | shout g payload => exact lines_doShout n g.raw payload
  | connect host port => exact lines_doConnect (hw host port rfl)

theorem lines_setContestInGroup (n : Node) (g : WireString) : Lines env w n (n.setContestInGroup g) := by
  unfold setContestInGroup
  simp only []
  split <;> exact Idle.lines ⟨rfl, fun _ => Peer.Wired.refl _⟩

/-! ## The reaper -/

theorem lines_reapPendings (n : Node) (hf : Filed n) {es : List (Str × Ref)}
    (hnd : (es.map Prod.fst).Nodup) (hes : ∀ e ∈ es, n.pending.get e.1 = some e.2) :
    Lines env w n (es.foldl (fun n e => n.reapPending env e) n) := by
  induction es generalizing n with
  | nil => exact Lines.refl n
  | cons e es ih =>
    rw [List.map_cons, List.nodup_cons] at hnd
    rw [List.foldl_cons]
    unfold reapPending
    simp only []
    split
    · have h1 : Line env w n
          { n.setObj e.2 (n.obj e.2).disconnect with pending := n.pending.pop e.1 } :=
        .drop e.1 e.2 (hes e (by simp))
      refine h1.lines.trans (ih _ (hf.line h1) hnd.2 fun e' he' => ?_)
      show (n.pending.pop e.1).get e'.1 = some e'.2
      rw [Dict.get_pop, if_neg, hes e' (by simp [he'])]
      exact fun heq => hnd.1 (heq ▸ List.mem_map_of_mem he')
    · exact ih n hf hnd.2 fun e' he' => hes e' (by simp [he'])

theorem lines_dropDials {n : Node} (hf : Filed n) : Lines env w n (n.dropDials env) :=
  lines_reapPendings n hf n.pending.nodup fun _ he => (Dict.get_eq_some_iff _).2 he

/-- The probe of a quiet peer. -/
theorem lines_reapPeer {n : Node} (hf : Filed n) {k : Str} {r : Ref} (hk : n.peers.get k = some r) :
    Ensures (n.reapPeer env r) (Lines env w n) := by
  unfold reapPeer
  simp only []
  split
  · exact lines_removePeer hf hk
  · split
    · refine Ensures.bind (lines_sendCmd (w := w) _ r (numbers_bares (by simp)) []) fun n' h => Ensures.ok ?_
      refine Lines.trans (Lines.trans ?_ h) (Idle.setObj n' r ?_).lines
      · split
        · exact Idle.lines ⟨rfl, fun _ => Peer.Wired.refl _⟩
        · exact Lines.refl n
      · exact ⟨rfl, rfl, rfl, rfl, rfl, rfl, rfl, rfl⟩
    · exact Ensures.ok (Lines.refl n)

theorem lines_reapPeers {n : Node} (ht : Tables n) {refs : List Ref} (hnd : refs.Nodup)
    (hrefs : ∀ r ∈ refs, ∃ k, n.peers.get k = some r) :
    Ensures (refs.foldlM (fun n r => n.reapPeer env r) n) (Lines env w n) :=
  reapPeers_rel env Lines.refl Lines.trans (fun ht hk => lines_reapPeer (Filed.of_tables ht) hk) ht hnd hrefs

theorem lines_reap {n : Node} (ht : Tables n) : Ensures (n.reap env) (Lines env w n) := by
  have h0 : Lines env w n (n.dropDials env) := lines_dropDials (Filed.of_tables ht)
  have hm0 := moves_reapPendings env n n.pending.nodup fun e he =>
    (Dict.get_eq_some_iff _).2 (show (e.1, e.2) ∈ _ from he)
  have ht0 : Tables (n.dropDials env) := hm0.invariant Tables.move ht
  refine (((lines_conversation env w).maintainElections (n.dropDials env)).and
    (talk_maintainElections env _)).bind fun n2 h2 => ?_
  have ht2 : Tables n2 := Tables.of_same (Same.of_talk h2.2) ht0
  refine (lines_reapPeers ht2 ?_ fun r hr => (Dict.mem_values _).1 hr).mono fun _ h => (h0.trans h2.1).trans h
  exact ht2.peers_nodup

end Handlers

/-! ## What an event tells -/

/-- The event comes from the node with this id, and is one to which `_handle_*` listens. -/
inductive Tells (n : Node) : Input → Str → Prop where
  | hello {frames : List Bytes} {uuid : Bytes} {msg : Msg} {extra : List Bytes} {h : HelloFields}
      (hc : Carries frames uuid msg extra) (hf : msg.fields = .hello h) (he : h.endpoint ≠ []) :
      Tells n (.peerMsg frames) (hex uuid)
  | traffic {frames : List Bytes} {uuid : Bytes} {msg : Msg} {extra : List Bytes} {r : Ref}
      (hc : Carries frames uuid msg extra) (hk : n.peers.get (hex uuid) = some r)
      (hr : (n.obj r).ready = true) : Tells n (.peerMsg frames) (hex uuid)
  | beacon {data uuid : Bytes} {host : Str} {port : ℕ} (hh : n.Hears data uuid port) (hp : port ≠ 0) :
      Tells n (.beacon data host) (hex uuid)
  | gossip {uuidHex endpoint addr : Str} {port : Int}
      (hs : splitEndpoint n.cfg.rt (partition '|' endpoint).1 = .ok (addr, port)) :
      Tells n (.gossip uuidHex endpoint) (n.cfg.rt.lower uuidHex)

/-- The event gives a reason to dial this host and port: somebody who is not known yet announced it and no
pending dial is taken for him, or the application asked for it. -/
inductive Invites (n : Node) (input : Input) : Option Str → Str → Int → Prop where
  | announced {k host : Str} {port : Int} (h : n.Announces (.input input) k host port)
      (hk : n.peers.get k = none) (hq : n.pendingMatch host port k = none) :
      Invites n input (some k) host port
  | asked {host : Str} {port : Int} (h : input = .command (.connect host port)) :
      Invites n input none host port

/-- The event gives a key for an id, or for a host and port. -/
inductive Teaches (n : Node) : Input → Str → Bytes → Prop where
  | hello {frames : List Bytes} {uuid : Bytes} {msg : Msg} {extra : List Bytes} {h : HelloFields} {key : Bytes}
      (hc : Carries frames uuid msg extra) (hf : msg.fields = .hello h)
      (hnew : n.peers.get (hex uuid) = none) (hown : hex uuid ≠ n.cfg.peerIdHex)
      (hk : helloKey n.cfg.rt h = some key) : Teaches n (.peerMsg frames) (hex uuid) key
  | beacon {data uuid key : Bytes} {host x : Str} {port : ℕ} (hh : n.Hears data uuid port)
      (hown : uuid ≠ n.cfg.peerId) (hk : n.beaconKey data = some key)
      (hx : x = hex uuid ∨ x = hostPort host port) : Teaches n (.beacon data host) x key
  | gossip {uuidHex endpoint : Str} {key : Bytes} (hbar : '|' ∈ endpoint)
      (hown : n.cfg.rt.lower uuidHex ≠ n.cfg.peerIdHex)
      (hk : curveKeyRaw n.cfg.rt (encodeStr (partition '|' endpoint).2) = some key) :
      Teaches n (.gossip uuidHex endpoint) (n.cfg.rt.lower uuidHex) key
  | pin {host : Str} {port : Int} {publicKey key : Bytes}
      (hk : curveKeyRaw n.cfg.rt publicKey = some key) :
      Teaches n (.pinKey host port publicKey) (hostPort host port) key

/-- What the event tells. -/
def tidings (n : Node) (input : Input) : Tidings :=
  ⟨n.Tells input, n.Invites input, n.Teaches input⟩

/-- The frames carry one message at most. -/
theorem Carries.unique {frames extra extra' : List Bytes} {uuid uuid' : Bytes} {msg msg' : Msg}
    (h : Carries frames uuid msg extra) (h' : Carries frames uuid' msg' extra') : uuid' = uuid ∧ msg' = msg := by
  obtain ⟨rid, data, rfl, hu, hd⟩ := h
  obtain ⟨rid', data', hframes, hu', hd'⟩ := h'
  cases hframes
  rw [hu] at hu'
  rw [hd] at hd'
  cases hu'
  cases hd'
  exact ⟨rfl, rfl⟩

theorem lines_handlePeerMsg (env : Env) {n : Node} (hf : Filed n) (frames : List Bytes) :
    Ensures (n.handlePeerMsg env frames) (Lines env (n.tidings (.peerMsg frames)) n) := by
  intro n' hn'
  rcases handlePeerMsg_cases env n frames n' hn' with
    rfl | ⟨uuid, msg, extra, hc, ⟨h, hfields, hh⟩ | ⟨-, r, hk, hr, hh⟩⟩
  · exact Lines.refl n'
  · have h0 : Lines env (n.tidings (.peerMsg frames)) n (n.resetSeq (hex uuid)) := lines_resetSeq n _
    have hpeers : (n.resetSeq (hex uuid)).peers = n.peers := (moves_resetSeq anything anything n _).2.1
    refine h0.trans (lines_handleHello (fun he => Tells.hello hc hfields he) (fun hnew hown key => ?_)
      (fun hnew addr port hs hnone => ?_) n' (by rw [hpeers]; exact hh))
    · rw [hpeers] at hnew
      rw [h0.cfg] at hown ⊢
      constructor
      · intro ht
        obtain ⟨x, hx⟩ : ∃ x, x = hex uuid := ⟨_, rfl⟩
        rw [← hx] at ht
        cases ht with
        | hello hc' hf' _ _ hkey =>
          obtain ⟨-, rfl⟩ := hc.unique hc'
          rw [hfields] at hf'
          cases hf'
          exact hkey
      · exact fun hkey => Teaches.hello hc hfields hnew hown hkey
    · rw [hpeers] at hnew
      have hsame : n.resetSeq (hex uuid) = n := by
        unfold resetSeq
        rw [hnew]
      rw [hsame] at hs hnone
      exact Invites.announced (Announces.hello hc hfields hs) hnew hnone
  · exact lines_handleTraffic hf hk (Tells.traffic hc hk hr) msg extra n' hh

theorem lines_handleBeacon (env : Env) (n : Node) (data : Bytes) (host : Str) :
    Ensures (n.handleBeacon env data host) (Lines env (n.tidings (.beacon data host)) n) := by
  intro n' hn'
  rcases handleBeacon_cases env n data host n' hn' with rfl | ⟨uuid, port, hh, hacc⟩
  · exact Lines.refl n'
  · refine lines_acceptBeacon (fun hp => Tells.beacon hh hp)
      (fun hp hk hq => Invites.announced (Announces.beacon hh hp) hk hq)
      (fun hown => ⟨fun key => ⟨fun ht => ?_, fun hkey => Teaches.beacon hh hown hkey (Or.inl rfl)⟩,
        fun key hkey => Teaches.beacon hh hown hkey (Or.inr rfl)⟩) n' hacc
    cases ht with
    | beacon hh' hown' hkey hx => exact hkey

/-- Every event is a sequence of steps on the lines, due to what it tells. -/
theorem lines_step (env : Env) {n : Node} (ht : Tables n) (input : Input) :
    Ensures (n.step env input) (Lines env (n.tidings input) n) := by
  cases input with
  | peerMsg frames => exact lines_handlePeerMsg env (Filed.of_tables ht) frames
  | beacon data host => exact lines_handleBeacon env n data host
  | gossip uuidHex endpoint =>
    refine lines_gossipRequire
      (fun _ _ hs => ⟨Tells.gossip hs, fun hk hq => Invites.announced (Announces.gossip hs) hk hq⟩)
      fun hown key => ⟨fun ht => ?_, fun hkey => Teaches.gossip hkey.1 hown hkey.2⟩
    obtain ⟨x, hx⟩ : ∃ x, x = n.cfg.rt.lower uuidHex := ⟨_, rfl⟩
    have ht' : n.Teaches (.gossip uuidHex endpoint) x key := hx ▸ ht
    cases ht' with
    | gossip hbar hown hkey => exact ⟨hbar, hkey⟩
  | command c => exact lines_runCommand n fun _ _ hc => Invites.asked (congrArg Input.command hc)
  | reap => exact lines_reap ht
  | setContestInGroup g => exact Ensures.ok (lines_setContestInGroup n g)
  | setHeader key value => exact Ensures.ok (Idle.lines ⟨rfl, fun _ => Peer.Wired.refl _⟩)
  | pinKey host port publicKey =>
    refine Ensures.ok ?_
    unfold pinKey learnKey
    cases hkey : curveKeyRaw n.cfg.rt publicKey with
    | none => exact Lines.refl n
    | some key =>
      refine (Line.learn fun y => ?_).lines
      rw [Dict.get_set]
      split
      · rename_i hy
        exact Or.inr ⟨key, rfl, hy ▸ Teaches.pin hkey⟩
      · exact Or.inl rfl
  | recv => exact Ensures.ok (Idle.lines ⟨rfl, fun _ => Peer.Wired.refl _⟩)

/-- What holds at the start and is preserved by every step on the lines holds in every reachable state. -/
theorem Reachable.of_lines {I : Node → Prop} (hinit : ∀ cfg, I (Node.init cfg))
    (hline : ∀ {env w n n'}, Filed n → Line env w n n' → I n → I n') {n : Node} (h : n.Reachable) : I n := by
  induction h with
  | init cfg => exact hinit cfg
  | step env input hn hs ih =>
    exact ((lines_step env hn.tables input _ hs).invariant (I := fun m => Filed m ∧ I m)
      (fun hl hi => ⟨hi.1.line hl, hline hi.1 hl hi.2⟩) ⟨Filed.of_tables hn.tables, ih⟩).2

end Node

end Zre
