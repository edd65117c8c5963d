import Zre.Elections
import Zre.Proofs.CodecProofs

/-!
# Proofs: what sending and electing leave alone

Sending frames, keeping the election books and emitting LEADER events never change who is in which
table. `Talk` states everything such a step can do to a node; all invariants of the tables are derived
from it.
-/

namespace Zre

open Fallible

/-- No send fails. -/
def Env.Lossless (env : Env) : Prop := ∀ i, env.send i = .sent

/-- What sending does to a `Peer` object: its counter moves, and a full queue tears it down. -/
def Peer.Sends (lossless : Prop) (p p' : Peer) : Prop :=
  ∃ s, p' = { p with sentSeq := s } ∨ ¬ lossless ∧ p' = { p with sentSeq := s }.disconnect

theorem Peer.Sends.refl (L : Prop) (p : Peer) : Peer.Sends L p p := ⟨p.sentSeq, Or.inl rfl⟩

theorem Peer.Sends.trans {L : Prop} {p q r : Peer} (h1 : Peer.Sends L p q) (h2 : Peer.Sends L q r) :
    Peer.Sends L p r := by
  obtain ⟨s, rfl | ⟨hl, rfl⟩⟩ := h1 <;> obtain ⟨t, rfl | ⟨hl', rfl⟩⟩ := h2
  · exact ⟨t, Or.inl rfl⟩
  · exact ⟨t, Or.inr ⟨hl', rfl⟩⟩
  · exact ⟨t, Or.inr ⟨hl, rfl⟩⟩
  · exact ⟨t, Or.inr ⟨hl, rfl⟩⟩

theorem Peer.Sends.uuidHex {L : Prop} {p q : Peer} (h : Peer.Sends L p q) :
    q.uuidHex = p.uuidHex := by
  obtain ⟨s, rfl | ⟨-, rfl⟩⟩ := h <;> rfl

theorem Peer.Sends.groups {L : Prop} {p q : Peer} (h : Peer.Sends L p q) : q.groups = p.groups := by
  obtain ⟨s, rfl | ⟨-, rfl⟩⟩ := h <;> rfl

theorem Peer.Sends.address {L : Prop} {p q : Peer} (h : Peer.Sends L p q) :
    q.addr = p.addr ∧ q.port = p.port := by
  obtain ⟨s, rfl | ⟨-, rfl⟩⟩ := h <;> exact ⟨rfl, rfl⟩

/-- A peer that is ready after the sending was not torn down. -/
theorem Peer.Sends.of_ready {L : Prop} {p q : Peer} (h : Peer.Sends L p q) (hq : q.ready = true) :
    ∃ s, q = { p with sentSeq := s } := by
  obtain ⟨s, rfl | ⟨-, rfl⟩⟩ := h
  · exact ⟨s, rfl⟩
  · simp [Peer.disconnect] at hq

theorem Peer.Sends.of_connected {L : Prop} {p q : Peer} (h : Peer.Sends L p q)
    (hq : q.connected = true) : p.connected = true := by
  obtain ⟨s, rfl | ⟨-, rfl⟩⟩ := h
  · exact hq
  · cases hq

/-- Without failures only the counter moves. -/
theorem Peer.Sends.of_lossless {L : Prop} {p q : Peer} (h : Peer.Sends L p q) (hl : L) :
    ∃ s, q = { p with sentSeq := s } := by
  obtain ⟨s, rfl | ⟨hnl, rfl⟩⟩ := h
  · exact ⟨s, rfl⟩
  · exact absurd hl hnl

/-- The socket and the address are kept, or the socket is closed. -/
def Peer.Holds (p q : Peer) : Prop :=
  (q.dealer = p.dealer ∧ q.connected = p.connected ∧ q.addr = p.addr ∧ q.port = p.port) ∨
    (q.dealer = none ∧ q.connected = false)

theorem Peer.Holds.refl (p : Peer) : p.Holds p := Or.inl ⟨rfl, rfl, rfl, rfl⟩

theorem Peer.Sends.holds {L : Prop} {p q : Peer} (h : Peer.Sends L p q) : p.Holds q := by
  obtain ⟨s, rfl | ⟨-, rfl⟩⟩ := h
  · exact Or.inl ⟨rfl, rfl, rfl, rfl⟩
  · exact Or.inr ⟨rfl, rfl⟩

/-- The command of the frame that was handed to a socket. -/
def Handed.cmd (h : Handed) : Option UInt8 := h.frames.head?.bind Codec.frameCmd

/-- What was handed over is a frame of this command. -/
def Handed.Is (c : UInt8) (h : Handed) : Prop := h.cmd = some c

theorem Handed.is_of_frames {h : Handed} {c : UInt8} {frame : Bytes} {more : List Bytes}
    (hh : h.frames = frame :: more) (hf : Codec.frameCmd frame = some c) : h.Is c := by
  simp [Handed.Is, Handed.cmd, hh, hf]

/-- An ELECT or a LEADER. -/
def Handed.IsElection (h : Handed) : Prop := h.Is Cmd.elect ∨ h.Is Cmd.leader

/-- The HELLO that the node says about itself. -/
def Node.OwnHello (n : Node) (h : Handed) : Prop :=
  ∃ seq endpoint frame, h.frames = [frame] ∧
    Codec.encodeHello seq endpoint n.ownGroups n.status n.cfg.name.raw n.headers = .ok frame

/-- A LEADER event. -/
def Event.IsLeader : Event → Prop
  | .leader _ _ _ => True
  | _ => False

/-- From `n` to `n'` the node handed over what satisfies `K`, kept its election books and emitted LEADER
events. -/
structure Talk (L : Prop) (K : Handed → Prop) (n n' : Node) : Prop where
  rest : n' = { n with
    obj := n'.obj, groups := n'.groups, outbox := n'.outbox, events := n'.events, queue := n'.queue }
  obj : ∀ r, (n.obj r).Sends L (n'.obj r)
  member : ∀ g p, n'.member g p = n.member g p
  outbox : ∃ l, n'.outbox = n.outbox ++ l ∧ ∀ h ∈ l, K h
  events : ∃ l, n'.events = n.events ++ l ∧ ∀ e ∈ l, Event.IsLeader e

namespace Talk

variable {L : Prop} {K K' : Handed → Prop} {n n' n'' : Node}

theorem refl (L : Prop) (K : Handed → Prop) (n : Node) : Talk L K n n :=
  ⟨rfl, fun r => Peer.Sends.refl L _, fun _ _ => rfl, ⟨[], by simp⟩, ⟨[], by simp⟩⟩

theorem trans (h1 : Talk L K n n') (h2 : Talk L K n' n'') : Talk L K n n'' := by
  obtain ⟨l1, ho1, hk1⟩ := h1.outbox
  obtain ⟨l2, ho2, hk2⟩ := h2.outbox
  obtain ⟨e1, he1, hl1⟩ := h1.events
  obtain ⟨e2, he2, hl2⟩ := h2.events
  refine ⟨?_, fun r => (h1.obj r).trans (h2.obj r), fun g p => (h2.member g p).trans (h1.member g p),
    ⟨l1 ++ l2, by rw [ho2, ho1, List.append_assoc], ?_⟩, ⟨e1 ++ e2, by rw [he2, he1, List.append_assoc], ?_⟩⟩
  · have hr := h2.rest
    rw [h1.rest] at hr
    exact hr
  · intro h hh
    exact (List.mem_append.1 hh).elim (hk1 h) (hk2 h)
  · intro e he
    exact (List.mem_append.1 he).elim (hl1 e) (hl2 e)

theorem mono (h : Talk L K n n') (hK : ∀ x, K x → K' x) : Talk L K' n n' := by
  obtain ⟨l, ho, hk⟩ := h.outbox
  exact ⟨h.rest, h.obj, h.member, ⟨l, ho, fun x hx => hK x (hk x hx)⟩, h.events⟩

theorem cfg (h : Talk L K n n') : n'.cfg = n.cfg := by rw [h.rest]

theorem running (h : Talk L K n n') : n'.running = n.running := by rw [h.rest]

theorem headers (h : Talk L K n n') : n'.headers = n.headers := by rw [h.rest]

theorem ownGroups (h : Talk L K n n') : n'.ownGroups = n.ownGroups := by rw [h.rest]

theorem contestGroups (h : Talk L K n n') : n'.contestGroups = n.contestGroups := by rw [h.rest]

theorem peers (h : Talk L K n n') : n'.peers = n.peers := by rw [h.rest]

theorem pending (h : Talk L K n n') : n'.pending = n.pending := by rw [h.rest]

theorem nextRef (h : Talk L K n n') : n'.nextRef = n.nextRef := by rw [h.rest]

theorem sockets (h : Talk L K n n') : n'.sockets = n.sockets := by rw [h.rest]

theorem status (h : Talk L K n n') : n'.status = n.status := by rw [h.rest]

theorem uuidHex (h : Talk L K n n') (r : Ref) : (n'.obj r).uuidHex = (n.obj r).uuidHex :=
  (h.obj r).uuidHex

theorem groups (h : Talk L K n n') (r : Ref) : (n'.obj r).groups = (n.obj r).groups :=
  (h.obj r).groups

theorem ownWireId (h : Talk L K n n') : n'.ownWireId = n.ownWireId := by
  simp [Node.ownWireId, Node.wireId, h.cfg]

end Talk

/-! ## Single writes -/

namespace Node

@[simp] theorem setObj_obj_self (n : Node) (r : Ref) (p : Peer) : (n.setObj r p).obj r = p := by
  simp [setObj]

theorem setObj_obj (n : Node) (r s : Ref) (p : Peer) :
    (n.setObj r p).obj s = if s = r then p else n.obj s := by
  simp [setObj, Function.update_apply]

/-- A field that the written object shares with the old one is the same everywhere. -/
theorem setObj_congr {α : Type} (f : Peer → α) (n : Node) (r : Ref) {p : Peer}
    (h : f p = f (n.obj r)) (s : Ref) : f ((n.setObj r p).obj s) = f (n.obj s) := by
  rw [setObj_obj]
  split
  · rename_i hs; rw [h, hs]
  · rfl

@[simp] theorem group_setGroup (n : Node) (g : Bytes) (group : Group) :
    (n.setGroup g group).group g = group := by
  simp [setGroup, Node.group]

theorem group_setGroup_ne (n : Node) {g g' : Bytes} (group : Group) (h : g ≠ g') :
    (n.setGroup g group).group g' = n.group g' := by
  simp [setGroup, Node.group, Dict.get_set_ne, h]

theorem member_eq (n : Node) (g : Bytes) (p : Str) : n.member g p = (n.group g).peers.get p := by
  unfold member Node.group
  cases n.groups.get g <;> simp [Group.new]

/-- Writing a group keeps the other groups' tables. -/
theorem member_setGroup (n : Node) (g g' : Bytes) (group : Group) (p : Str) :
    (n.setGroup g group).member g' p = if g = g' then group.peers.get p else n.member g' p := by
  by_cases h : g = g'
  · subst h; simp [member_eq]
  · simp [member_eq, h, group_setGroup_ne]

/-- Writing a group's books. -/
theorem talk_setGroup (L : Prop) (K : Handed → Prop) (n : Node) (g : Bytes) {group : Group}
    (h : group.peers = (n.group g).peers) : Talk L K n (n.setGroup g group) := by
  refine ⟨rfl, fun r => Peer.Sends.refl L _, ?_, ⟨[], by simp [setGroup]⟩, ⟨[], by simp [setGroup]⟩⟩
  intro g' p
  rw [member_setGroup]
  split
  · rename_i hg; subst hg; rw [h, member_eq]
  · rfl

theorem talk_openGroup (L : Prop) (K : Handed → Prop) (n : Node) (g : Bytes) :
    Talk L K n (n.openGroup g) := by
  unfold openGroup
  cases h : n.groups.get g with
  | none => exact talk_setGroup L K n g (by simp [Node.group, h])
  | some _ => exact Talk.refl L K n

theorem talk_requireGroup (L : Prop) (K : Handed → Prop) (n : Node) (g : Bytes) :
    Talk L K n (n.requireGroup g) := by
  have h1 := talk_openGroup L K n g
  unfold requireGroup
  simp only []
  split
  · exact h1.trans (talk_setGroup L K _ g rfl)
  · exact h1

theorem talk_emit (L : Prop) (K : Handed → Prop) (n : Node) {e : Event} (h : e.IsLeader) :
    Talk L K n (n.emit e) :=
  ⟨rfl, fun r => Peer.Sends.refl L _, fun _ _ => rfl, ⟨[], by simp [emit]⟩,
    ⟨[e], rfl, by simpa using h⟩⟩

/-! ## Sending -/

/-- What one send does. The attempt is recorded; the peer's counter moves, and `zmq.Again` tears the
peer down. -/
theorem sendEncoded_cases (env : Env) (n : Node) (r : Ref) (encode : Nat → Except PyError Bytes)
    (more : List Bytes) :
    Ensures (n.sendEncoded env r encode more) fun res =>
      (res.2 = n ∧ ((n.obj r).connected = false ∨ (n.obj r).dealer = none)) ∨
      ∃ dealer frame, (n.obj r).connected = true ∧ (n.obj r).dealer = some dealer ∧
        encode (((n.obj r).sentSeq + 1) % 65536) = .ok frame ∧
        res.2 = { (n.setObj r (if env.send n.outbox.length = .again
            then (n.bumpSeq r |>.obj r).disconnect else (n.bumpSeq r).obj r)) with
          outbox := n.outbox ++ [⟨dealer, frame :: more, env.send n.outbox.length⟩] } := by
  intro res hres
  unfold sendEncoded at hres
  split at hres
  · rename_i dealer hc hd
    obtain ⟨frame, hframe, hres⟩ := bind_eq_ok_iff.1 hres
    refine Or.inr ⟨dealer, frame, hc, hd, by simpa [bumpSeq] using hframe, ?_⟩
    have hout : (n.bumpSeq r).outbox.length = n.outbox.length := rfl
    simp only [hout] at hres
    cases ho : env.send n.outbox.length <;> rw [ho] at hres <;> cases hres <;>
      simp [bumpSeq, setObj, Peer.disconnect]
  · rename_i hcd
    cases hres
    refine Or.inl ⟨rfl, ?_⟩
    cases hc : (n.obj r).connected
    · exact Or.inl rfl
    · cases hd : (n.obj r).dealer with
      | none => exact Or.inr rfl
      | some d => exact absurd hd (hcd d hc)

theorem talk_sendEncoded (env : Env) (n : Node) (r : Ref) {encode : Nat → Except PyError Bytes}
    {more : List Bytes} {K : Handed → Prop}
    (hK : ∀ seq frame, encode seq = .ok frame → ∀ h : Handed, h.frames = frame :: more → K h) :
    Ensures (n.sendEncoded env r encode more) fun res => Talk env.Lossless K n res.2 := by
  intro res hres
  obtain ⟨h, -⟩ | ⟨dealer, frame, -, -, hframe, h⟩ := sendEncoded_cases env n r encode more res hres
  · rw [h]; exact Talk.refl _ _ n
  · rw [h]
    refine ⟨rfl, ?_, fun _ _ => rfl, ⟨_, rfl, ?_⟩, ⟨[], by simp [setObj]⟩⟩
    · intro s
      change (n.obj s).Sends _ ((n.setObj r _).obj s)
      rw [setObj_obj]
      by_cases hs : s = r
      · subst hs
        rw [if_pos rfl]
        split
        · rename_i hag
          refine ⟨((n.obj s).sentSeq + 1) % 65536, Or.inr ⟨fun hl => ?_, by simp [bumpSeq]⟩⟩
          rw [hl] at hag
          cases hag
        · exact ⟨((n.obj s).sentSeq + 1) % 65536, Or.inl (by simp [bumpSeq])⟩
      · rw [if_neg hs]
        exact Peer.Sends.refl _ _
    · simp only [List.mem_singleton, forall_eq]
      exact hK _ frame hframe _ rfl

theorem talk_sendCmd (env : Env) (n : Node) (r : Ref) (cmd : UInt8) (group : Option Bytes)
    (status : Option Nat) (more : List Bytes) :
    Ensures (n.sendCmd env r cmd group status more) (Talk env.Lossless (Handed.Is cmd) n) :=
  (talk_sendEncoded env n r fun seq frame hf _ hh =>
    Handed.is_of_frames hh (Codec.encodeSimple_cmd cmd seq group status frame hf)).bind
    fun _ h => Ensures.ok h

theorem talk_sendElection (env : Env) (n : Node) (r : Ref) (cmd : UInt8) (g id : Bytes) :
    Ensures (n.sendElection env r cmd g id) (Talk env.Lossless (Handed.Is cmd) n) :=
  (talk_sendEncoded env n r fun seq frame hf _ hh =>
    Handed.is_of_frames hh (Codec.encodeElection_cmd cmd seq g id frame hf)).bind
    fun _ h => Ensures.ok h

theorem talk_sendHello (env : Env) (n : Node) (r : Ref) :
    Ensures (n.sendHello env r) (Talk env.Lossless n.OwnHello n) := by
  refine (talk_sendEncoded env n r fun seq frame hf h hh => ?_).bind fun _ h => Ensures.ok h
  obtain ⟨endpoint, -, henc⟩ := bind_eq_ok_iff.1 hf
  exact ⟨seq, endpoint, frame, hh, henc⟩

/-! ## Elections -/

/-- A relation that elections cannot leave: it allows for their books, their LEADER events and their
frames. -/
structure Conversation (env : Env) (R : Node → Node → Prop) : Prop where
  refl : ∀ n, R n n
  trans : ∀ {n n' n''}, R n n' → R n' n'' → R n n''
  setGroup : ∀ n g {group : Group}, group.peers = (n.group g).peers → R n (n.setGroup g group)
  emit : ∀ n {e : Event}, e.IsLeader → R n (n.emit e)
  send : ∀ n r {cmd} g id, cmd = Cmd.elect ∨ cmd = Cmd.leader →
    Ensures (n.sendElection env r cmd g id) (R n)

theorem Conversation.setElection {env : Env} {R : Node → Node → Prop} (hR : Conversation env R) (n : Node)
    (g : Bytes) (e : Option Election) : R n (n.setElection g e) := hR.setGroup n g rfl

section Conversation

variable {env : Env} {R : Node → Node → Prop}

theorem Conversation.openGroup (hR : Conversation env R) (n : Node) (g : Bytes) : R n (n.openGroup g) := by
  unfold Node.openGroup
  cases h : n.groups.get g with
  | none => exact hR.setGroup n g (by simp [Node.group, h])
  | some _ => exact hR.refl n

theorem Conversation.requireGroup (hR : Conversation env R) (n : Node) (g : Bytes) :
    R n (n.requireGroup g) := by
  have h1 := hR.openGroup n g
  unfold Node.requireGroup
  simp only []
  split
  · exact hR.trans h1 (hR.setGroup _ g rfl)
  · exact h1

theorem Conversation.finishElection (hR : Conversation env R) (n : Node) (g : Bytes) (id : Str) :
    R n (n.finishElection g id) := by
  have hset : R n (n.setGroup g
      { n.group g with leader := some (n.cfg.rt.lower id), election := none }) := hR.setGroup n g rfl
  exact hR.trans hset (hR.emit _ (e := .leader _ _ _) trivial)

theorem Conversation.sendElections (hR : Conversation env R) {cmd : UInt8}
    (hcmd : cmd = Cmd.elect ∨ cmd = Cmd.leader) (g id : Bytes) (n : Node) (refs : List Ref) :
    Ensures (Node.sendElections env cmd g id n refs) (R n) :=
  Ensures.foldlM_rel hR.refl (fun _ _ _ => hR.trans) fun m r _ => hR.send m r g id hcmd

theorem Conversation.startElection (hR : Conversation env R) (n : Node) (g : Bytes) :
    Ensures (n.startElection env g) (R n) := by
  have h0 := hR.requireGroup n g
  unfold Node.startElection
  simp only []
  split
  · exact Ensures.ok h0
  · have h1 : R n ((n.requireGroup g).setGroup g
        { (n.requireGroup g).group g with
          election := some (newElection (n.requireGroup g).ownWireId none env.now), leader := none }) :=
      hR.trans h0 (hR.setGroup (n.requireGroup g) g rfl)
    split
    · exact Ensures.ok (hR.trans h1 (hR.finishElection _ g _))
    · exact (hR.sendElections (Or.inl rfl) g _ _ _).mono fun _ h => hR.trans h1 h

theorem Conversation.adoptChallenger (hR : Conversation env R) (n : Node) (r : Ref) (g : Bytes) (id : Str) :
    Ensures (n.adoptChallenger env r g id) (R n) := by
  have hadopt : ∀ e refs, Ensures (Node.sendElections env Cmd.elect g (encodeStr id) (n.setElection g e) refs)
      (R n) := fun e refs =>
    (hR.sendElections (Or.inl rfl) g _ _ refs).mono fun _ h => hR.trans (hR.setElection n g e) h
  unfold Node.adoptChallenger
  simp only []
  split
  · exact hadopt _ _
  · split
    · exact hadopt _ _
    · exact Ensures.ok (hR.refl n)

theorem Conversation.countChallenger (hR : Conversation env R) (n : Node) (g : Bytes) (id : Str) :
    Ensures (n.countChallenger env g id) (R n) := by
  unfold Node.countChallenger
  split
  · exact Ensures.ok (hR.refl n)
  · rename_i e _
    split
    · exact Ensures.ok (hR.refl n)
    · have h1 := hR.setElection n g (some { e with erec := e.erec + 1 })
      simp only []
      split
      · exact Ensures.ok h1
      · split
        · exact (hR.sendElections (Or.inr rfl) g _ _ _).mono fun _ h => hR.trans h1 h
        · split
          · exact Ensures.ok h1
          · split
            · exact Ensures.ok h1
            · exact (hR.send _ _ g _ (Or.inl rfl)).mono fun _ h => hR.trans h1 h

theorem Conversation.handleElect (hR : Conversation env R) (n : Node) (r : Ref) (g challenger : Bytes) :
    Ensures (n.handleElect env r g challenger) (R n) :=
  (hR.adoptChallenger _ r g _).bind fun _ h =>
    (hR.countChallenger _ g _).mono fun _ h' => hR.trans (hR.trans (hR.requireGroup n g) h) h'

theorem Conversation.forwardLeader (hR : Conversation env R) (n : Node) (g : Bytes) (lrec : Nat) (id : Str) :
    Ensures (n.forwardLeader env g lrec id) (R n) := by
  unfold Node.forwardLeader
  split
  · exact hR.sendElections (Or.inr rfl) g _ _ _
  · exact Ensures.ok (hR.refl n)

theorem Conversation.countLeader (hR : Conversation env R) (n : Node) (g : Bytes) (e : Election) (id : Str) :
    R n (n.countLeader g e id) := by
  have h1 := hR.setElection n g (some { e with lrec := e.lrec + 1, leader := some id })
  unfold Node.countLeader
  simp only []
  split
  · exact hR.trans h1 (hR.finishElection _ g id)
  · exact h1

theorem Conversation.handleLeader (hR : Conversation env R) (n : Node) (g leader : Bytes) :
    Ensures (n.handleLeader env g leader) (R n) := by
  have h0 := hR.requireGroup n g
  unfold Node.handleLeader
  simp only []
  split
  · exact Ensures.ok h0
  · exact (hR.forwardLeader _ g _ _).bind fun _ h =>
      Ensures.ok (hR.trans (hR.trans h0 h) (hR.countLeader _ g _ _))

theorem Conversation.restartElectionIfNeeded (hR : Conversation env R) (n : Node) (g : Bytes) :
    Ensures (n.restartElectionIfNeeded env g) (R n) := by
  unfold Node.restartElectionIfNeeded
  split
  · exact Ensures.ok (hR.refl n)
  · split
    · exact Ensures.ok (hR.refl n)
    · split
      · exact hR.startElection n g
      · split
        · exact Ensures.ok (hR.finishElection n g _)
        · split
          · exact Ensures.ok (hR.setElection n g none)
          · exact Ensures.ok (hR.refl n)

theorem Conversation.maintainElection (hR : Conversation env R) (n : Node) (g : Bytes) :
    Ensures (n.maintainElection env g) (R n) := by
  unfold Node.maintainElection
  split
  · exact Ensures.ok (hR.refl n)
  · rename_i e _
    split
    · exact Ensures.ok (hR.refl n)
    · simp only []
      split
      · exact Ensures.ok (hR.finishElection n g _)
      · split
        · exact Ensures.ok (hR.refl n)
        · have h1 := hR.setElection n g (some { e with resentAt := env.now })
          split
          · split
            · exact (hR.sendElections (Or.inr rfl) g _ _ _).mono fun _ h => hR.trans h1 h
            · exact (hR.sendElections (Or.inl rfl) g _ _ _).mono fun _ h => hR.trans h1 h
          · exact (hR.sendElections (Or.inl rfl) g _ _ _).mono fun _ h => hR.trans h1 h

theorem Conversation.maintainElections (hR : Conversation env R) (n : Node) :
    Ensures (n.maintainElections env) (R n) :=
  Ensures.foldlM_rel hR.refl (fun _ _ _ => hR.trans) fun m g _ => hR.maintainElection m g

end Conversation

theorem talk_conversation (env : Env) : Conversation env (Talk env.Lossless Handed.IsElection) where
  refl := Talk.refl _ _
  trans := Talk.trans
  setGroup n g _ h := talk_setGroup _ _ n g h
  emit n _ h := talk_emit _ _ n h
  send n r cmd g id hcmd := (talk_sendElection env n r cmd g id).mono fun _ h => h.mono fun x hx => by
    rcases hcmd with rfl | rfl
    · exact Or.inl hx
    · exact Or.inr hx

theorem talk_startElection (env : Env) (n : Node) (g : Bytes) :
    Ensures (n.startElection env g) (Talk env.Lossless Handed.IsElection n) :=
  (talk_conversation env).startElection n g

theorem talk_handleElect (env : Env) (n : Node) (r : Ref) (g challenger : Bytes) :
    Ensures (n.handleElect env r g challenger) (Talk env.Lossless Handed.IsElection n) :=
  (talk_conversation env).handleElect n r g challenger

theorem talk_handleLeader (env : Env) (n : Node) (g leader : Bytes) :
    Ensures (n.handleLeader env g leader) (Talk env.Lossless Handed.IsElection n) :=
  (talk_conversation env).handleLeader n g leader

theorem talk_restartElectionIfNeeded (env : Env) (n : Node) (g : Bytes) :
    Ensures (n.restartElectionIfNeeded env g) (Talk env.Lossless Handed.IsElection n) :=
  (talk_conversation env).restartElectionIfNeeded n g

theorem talk_maintainElections (env : Env) (n : Node) :
    Ensures (n.maintainElections env) (Talk env.Lossless Handed.IsElection n) :=
  (talk_conversation env).maintainElections n

end Node

end Zre
