import Zre.Proofs.Alerts
import Zre.Proofs.Conversation
import Zre.Proofs.Teardown
import Zre.Proofs.Wires

/-!
# Proofs: leaving the network

A node that stops in gossip mode says GOODBYE to every peer, and nothing that it says later is a HELLO. Wherever its
last frames arrive it is forgotten, and whatever else happens there does not bring it back.
-/

namespace Zre

open Fallible Attendance

/-- The command of the message that a frame is decoded to. -/
def Handed.command (h : Handed) : Option UInt8 := h.msg.map Msg.cmd

/-- There is a GOODBYE among the frames, and no HELLO after it. -/
def Final (l : List Handed) : Prop :=
  ∃ before f after, l = before ++ f :: after ∧ f.command = some Cmd.goodbye ∧ ∀ h ∈ after, h.command ≠ some Cmd.hello

theorem Final.append {l l' : List Handed} (h : Final l') : Final (l ++ l') := by
  obtain ⟨before, f, after, rfl, hf⟩ := h
  exact ⟨l ++ before, f, after, by simp, hf⟩

/-- The GOODBYE comes now, or later. -/
theorem Final.cons {f : Handed} {l : List Handed} (h : Final (f :: l)) :
    (f.command = some Cmd.goodbye ∧ ∀ h ∈ l, h.command ≠ some Cmd.hello) ∨ Final l := by
  obtain ⟨before, g, after, heq, hg, hno⟩ := h
  cases before with
  | nil =>
    cases heq
    exact Or.inl ⟨hg, hno⟩
  | cons b before =>
    cases heq
    exact Or.inr ⟨before, g, after, rfl, hg, hno⟩

namespace Node

/-- The entry of `x`, if there is one, is ready. -/
def Admits (n : Node) (x : Str) : Prop := ∀ r, n.peers.get x = some r → (n.obj r).ready = true

/-- No send to `x` has found the queue full. -/
def Flows (n : Node) (x : Str) : Prop := ∀ r, n.peers.get x = some r → ¬ n.Torn r

/-- `x` is not known, and whoever follows the events of the node has it as gone. -/
structure Gone (n : Node) (x : Str) : Prop where
  peers : n.peers.get x = none
  member : ∀ g, n.member g x = none
  told : ¬ Present x (n.events.map Event.notice)

/-- What can happen at a node after the node `uuid` has stopped: the last frames of that node arrive in their order,
and there are events that it has no part in. -/
inductive Aftermath (uuid : Bytes) (n : Node) (l : List Handed) : Node → List Handed → Prop where
  | start : Aftermath uuid n l n l
  | arrive {n1 n2 : Node} {f : Handed} {rest : List Handed} (h : Aftermath uuid n l n1 (f :: rest)) (env : Env)
      (hs : n1.step env (.peerMsg ((1 :: uuid) :: f.frames)) = .ok n2) (hf : n2.Flows (hex uuid)) :
      Aftermath uuid n l n2 rest
  | other {n1 n2 : Node} {rest : List Handed} (h : Aftermath uuid n l n1 rest) (env : Env) (input : Input)
      (hno : ¬ n1.Tells input (hex uuid)) (hs : n1.step env input = .ok n2) (hf : n2.Flows (hex uuid)) :
      Aftermath uuid n l n2 rest

/-! ## The entry of a node -/

/-- The entry of `x` is ready, or its connection is gone. -/
def Warm (n : Node) (x : Str) : Prop :=
  ∀ r, n.peers.get x = some r → (n.obj r).ready = true ∨ (n.obj r).connected = false

section Warm

variable {env : Env} {w : Tidings} {x : Str} {n n' : Node}

theorem Admits.warm (h : n.Admits x) : n.Warm x := fun r hk => Or.inl (h r hk)

/-- Where no queue was full the entry has its connection. -/
theorem Warm.admits (h : n.Warm x) (hw : Wires n) (hf : n.Flows x) : n.Admits x := by
  intro r hk
  rcases h r hk with hr | hc
  · exact hr
  · rcases hw.entry x r (Or.inl hk) with hd | ht
    · rw [hw.connected r] at hc
      exact absurd (Option.not_isSome_iff_eq_none.1 (by rw [hc]; exact Bool.false_ne_true)) hd
    · exact absurd ht (hf r hk)

/-- The entry was not filed anew, and its object stayed ready or was closed. -/
theorem Warm.of_obj (h : n.Warm x) (hp : ∀ r, n'.peers.get x = some r → n.peers.get x = some r)
    (hobj : ∀ r, n.peers.get x = some r → (n'.obj r).connected = false ∨
      ((n.obj r).ready = true → (n'.obj r).ready = true) ∧
        ((n.obj r).connected = false → (n'.obj r).connected = false)) : n'.Warm x := by
  intro r hk
  have hk' := hp r hk
  rcases hobj r hk' with hc | ⟨hready, hclosed⟩
  · exact Or.inr hc
  · exact (h r hk').imp hready hclosed

theorem Warm.setObj (h : n.Warm x) (r : Ref) {p : Peer}
    (hp : p.connected = false ∨ ((n.obj r).ready = true → p.ready = true) ∧
      ((n.obj r).connected = false → p.connected = false)) : (n.setObj r p).Warm x := by
  refine h.of_obj (fun _ => id) fun s _ => ?_
  rw [setObj_obj]
  split
  · rename_i hs
    subst hs
    exact hp
  · exact Or.inr ⟨id, id⟩

/-- An object that did not exist yet is in no table. -/
theorem Warm.allocated (h : n.Warm x) (hf : Filed n) {p : Peer}
    (hp : ∀ r, n'.peers.get x = some r → n.peers.get x = some r)
    (hobj : ∀ r, n'.obj r = if r = n.nextRef then p else n.obj r) : n'.Warm x := by
  refine h.of_obj hp fun r hk => ?_
  rw [hobj, if_neg (Nat.ne_of_lt (hf.alloc x r (Or.inl hk)))]
  exact Or.inr ⟨id, id⟩

/-- Closing an object. -/
theorem Warm.close (h : n.Warm x) (r : Ref) (hp : ∀ s, n'.peers.get x = some s → n.peers.get x = some s)
    (hobj : ∀ s, n'.obj s = (n.setObj r (n.obj r).disconnect).obj s) : n'.Warm x := by
  have hclosed : (n.setObj r (n.obj r).disconnect).Warm x := h.setObj r (Or.inl rfl)
  intro s hk
  rw [hobj]
  exact hclosed s (hp s hk)

theorem Warm.hand (h : n.Warm x) (r : Ref) (f : Handed) : (n.hand r f).Warm x := by
  refine h.setObj r ?_
  by_cases ho : f.outcome = .again
  · rw [Peer.handed_connected, if_pos ho]
    exact Or.inl rfl
  · rw [Peer.handed_connected, Peer.handed_ready, if_neg ho, if_neg ho]
    exact Or.inr ⟨id, id⟩

/-- An event that `x` has no part in does not file it. -/
theorem Warm.line (h : n.Warm x) (hf : Filed n) (hx : ¬ w.hears x) (hl : Line env w n n') : n'.Warm x := by
  have hset : ∀ {k : Str} {s : Ref}, w.hears k → ∀ r, (n.peers.set k s).get x = some r → n.peers.get x = some r := by
    intro k s hk r hr
    have hne : k ≠ x := fun he => hx (he ▸ hk)
    rwa [Dict.get_set_ne _ _ hne] at hr
  cases hl with
  | idle hidle =>
    refine h.of_obj (fun r hk => ?_) fun r _ => Or.inr ⟨fun hr => ?_, fun hc => ?_⟩
    · rw [hidle.rest] at hk
      exact hk
    · rw [(hidle.obj r).ready, hr]
    · rw [(hidle.obj r).connected, hc]
  | learn => exact h
  | hail k r p hk hp =>
    refine h.setObj r (Or.inr ⟨fun _ => hp.ready, fun hc => ?_⟩)
    rw [hp.connected]
    exact hc
  | refresh k r hk hh => exact h.setObj r (Or.inr ⟨id, id⟩)
  | hand r f cmd hc hd hs => exact h.hand r f
  | waste uuidHex addr port => exact h.allocated hf (fun _ => id) (allocated_obj n _)
  | greet k addr port p f hk hh hw hl hs hp hd hmsg =>
    have hfiled : (n.filed k p).Warm x := h.allocated hf (hset hh) (filed_obj n k p)
    exact hfiled.hand _ f
  | call k addr port f hk hw hs hd hmsg =>
    have hawaited : (n.awaited k (n.dialled env k addr port none)).Warm x :=
      h.allocated hf (fun _ => id) (awaited_obj n k _)
    exact hawaited.hand _ f
  | adopt k r rhex hp hk hh =>
    refine h.of_obj (hset hh) fun s hs => ?_
    have hne : s ≠ r := fun he => hf.apart x k r (he ▸ hs) hp
    have hsame : (n.adoptUnder env k r rhex).obj s = n.obj s := by
      show (n.setObj r _).obj s = n.obj s
      rw [setObj_obj, if_neg hne]
    rw [hsame]
    exact Or.inr ⟨id, id⟩
  | forget k r hk => exact h.close r (fun s hs => Dict.get_of_get_pop hs) fun _ => rfl
  | drop k r hp => exact h.close r (fun s hs => hs) fun _ => rfl

/-- Nobody but a node that is heard from is filed. -/
theorem unknown_line (hx : ¬ w.hears x) (hk : n.peers.get x = none) (hl : Line env w n n') : n'.peers.get x = none := by
  have hset : ∀ {k : Str} {s : Ref}, w.hears k → (n.peers.set k s).get x = none := by
    intro k s hh
    have hne : k ≠ x := fun he => hx (he ▸ hh)
    rw [Dict.get_set_ne _ _ hne]
    exact hk
  cases hl with
  | idle hidle =>
    rw [hidle.rest]
    exact hk
  | greet k addr port p f _ hh => exact hset hh
  | adopt k r rhex _ _ hh => exact hset hh
  | forget k r _ =>
    show (n.peers.pop k).get x = none
    rw [Dict.get_pop, hk, ite_self]
  | learn | hail | refresh | hand | waste | call | drop => exact hk

/-- After an event that `x` has no part in. -/
theorem step_other (env : Env) (hn : n.Reachable) {input : Input} (hno : ¬ n.Tells input x) :
    Ensures (n.step env input) fun n' => (n.Warm x → n'.Warm x) ∧ (n.peers.get x = none → n'.peers.get x = none) := by
  intro n' hn'
  have hlines := lines_step env hn.tables input n' hn'
  refine ⟨fun hw => ?_, fun hk => hlines.invariant (fun hl hm => unknown_line hno hm hl) hk⟩
  exact (hlines.invariant (I := fun m => Filed m ∧ m.Warm x) (fun hl hm => ⟨hm.1.line hl, hm.2.line hm.1 hno hl⟩)
    ⟨Filed.of_tables hn.tables, hw⟩).2

/-! ## The frames of a node -/

theorem Warm.move {allow : Kind → Prop} {hands : Handed → Prop} (h : n.Warm x) (ht : Tables n) (hm : ¬ allow .meet)
    (hmove : Move allow hands n n') : n'.Warm x := by
  cases hmove with
  | talk hL htalk =>
    refine h.of_obj (fun r hk => htalk.peers ▸ hk) fun r _ => ?_
    rcases htalk.obj r with ⟨s, hs | ⟨-, hs⟩⟩
    · rw [hs]
      exact Or.inr ⟨id, id⟩
    · rw [hs]
      exact Or.inl rfl
  | touch r p hp => exact h.setObj r (Or.inr ⟨fun hr => hp.ready.trans hr, fun hc => hp.connected.trans hc⟩)
  | hail ha k r p hk hp => exact h.setObj r (Or.inr ⟨fun _ => hp.ready, fun hc => hp.connected.trans hc⟩)
  | quiet hq | books ha hq hb =>
    rw [hq]
    exact h
  | emit e he => exact h
  | waste p hd hc => exact h.allocated (Filed.of_tables ht) (fun _ => id) (allocated_obj n p)
  | file ha | dial ha | adopt ha => exact absurd ha hm
  | enter ha k r g hk hq | leave ha k r g hk hq =>
    rw [hq]
    exact h.setObj r (Or.inr ⟨id, id⟩)
  | forget ha k r hk hq =>
    rw [hq]
    exact h.close r (fun s hs => Dict.get_of_get_pop hs) fun _ => rfl
  | dropDial ha k r hp => exact h.close r (fun s hs => hs) fun _ => rfl

theorem Warm.moves {ks : List Kind} {hands : Handed → Prop} (h : n.Warm x) (ht : Tables n) (hm : .meet ∉ ks)
    (hmoves : Moves (may env ks) hands n n') : n'.Warm x := by
  have hno : ¬ may env ks .meet := by
    rintro (hmeet | ⟨hmeet, -⟩)
    · exact hm hmeet
    · cases hmeet
  exact (hmoves.invariant (I := fun m => Tables m ∧ m.Warm x)
    (fun hmove hi => ⟨Tables.move hmove hi.1, hi.2.move hi.1 hno hmove⟩) ⟨ht, h⟩).2

/-- Whoever enters is ready, unless its connection is lost in the course of it. -/
theorem enterPeer_warm {r : Ref} (ht : Tables n) (hk : n.peers.get x = some r) (h : HelloFields) (epStr : Str)
    (reply : Bool) : Ensures (n.enterPeer env x r h epStr reply) (Warm · x) := by
  let p : Peer := hailed (n.obj r) h epStr
  have hhail : Move anything anything n (n.setObj r p) :=
    .hail trivial x r p hk ⟨rfl, rfl, rfl, rfl, ⟨rfl, rfl⟩, rfl⟩
  have hwarm : (n.setObj r p).Warm x := by
    intro s hs
    obtain rfl : r = s := Option.some.inj (hk.symm.trans hs)
    rw [setObj_obj_self]
    exact Or.inl rfl
  rw [enterPeer_eq]
  refine (talk_replyHello env (n.setObj r p) r reply).bind fun m hm => ?_
  have hmoves : Moves (may env []) _ (n.setObj r p) m := hm.moves
  have htm : Tables m := hmoves.invariant Tables.move (Tables.move hhail ht)
  refine (lines_entered (w := Tidings.silence) m x r h epStr).mono fun n' hl => ?_
  exact (hl.invariant (I := fun k => Filed k ∧ k.Warm x) (fun hline hi => ⟨hi.1.line hline, hi.2.line hi.1 id hline⟩)
    ⟨Filed.of_tables htm, hwarm.moves (Tables.move hhail ht) (by simp) hmoves⟩).2

theorem handleHello_warm (ht : Tables n) (hw : n.Warm x) (hown : x ≠ n.cfg.peerIdHex) (h : HelloFields) :
    Ensures (n.handleHello env x h (n.peers.get x)) (Warm · x) := by
  intro n' hn'
  rcases handleHello_awaits env n hown h n' hn' with ⟨hm, -⟩ | ⟨n1, r, epStr, reply, hawaits, henter⟩
  · exact hw.moves ht (by simp) hm
  · obtain ⟨n0, hm0, -, hp0, hcfg, hcase⟩ := hawaits
    have ht0 := hm0.invariant Tables.move ht
    rcases hcase with ⟨rfl, hk, -⟩ | ⟨hk, -, addr, port, -, hfinds⟩
    · exact enterPeer_warm ht0 hk h epStr reply n' henter
    · have hown0 : x ≠ n0.cfg.peerIdHex := hcfg ▸ hown
      have hm1 : Moves (may env [.meet]) anything n0 n1 := hfinds.moves hk hown0
      have ht1 : Tables n1 := hm1.invariant Tables.move ht0
      exact enterPeer_warm ht1 hfinds.filed h epStr reply n' henter

theorem trafficKinds_meet (cmd : UInt8) : Kind.meet ∉ trafficKinds cmd := by
  unfold trafficKinds
  split
  · simp
  split
  · simp
  split <;> simp

/-- What a frame of the node `uuid` carries, if it carries anything. -/
theorem Carries.frame {uuid uuid' : Bytes} (hlen : uuid.length = 16) {f : Handed} {msg : Msg} {extra : List Bytes}
    (h : Carries ((1 :: uuid) :: f.frames) uuid' msg extra) : uuid' = uuid ∧ f.msg = some msg := by
  obtain ⟨rid, data, heq, hu, hd⟩ := h
  obtain ⟨rfl, hframes⟩ := List.cons.inj heq
  rw [routingUuid_cons hlen] at hu
  exact ⟨(Option.some.inj hu).symm, (Handed.msg_eq_some hframes).2 hd⟩

section Frames

variable {uuid : Bytes} {f : Handed}

/-- A frame of `x` arrives. -/
theorem step_frame (env : Env) (ht : Tables n) (hlen : uuid.length = 16) (hown : uuid ≠ n.cfg.peerId)
    (hw : n.Warm (hex uuid)) (f : Handed) :
    Ensures (n.step env (.peerMsg ((1 :: uuid) :: f.frames))) (Warm · (hex uuid)) := by
  intro n' hn'
  rcases handlePeerMsg_cases env n _ n' hn' with rfl | ⟨uuid', msg, extra, hc, ⟨h, -, hh⟩ | ⟨-, r, hk, -, hh⟩⟩
  · exact hw
  · obtain ⟨rfl, -⟩ := hc.frame hlen
    obtain ⟨hm0, hp0, -⟩ := moves_resetSeq (may env []) (fun _ => False) n (hex uuid')
    have hown0 : hex uuid' ≠ (n.resetSeq (hex uuid')).cfg.peerIdHex := by
      rw [moves_cfg hm0]
      exact fun he => hown (hex_injective he)
    rw [← hp0] at hh
    exact handleHello_warm (hm0.invariant Tables.move ht) (hw.moves ht (by simp) hm0) hown0 h n' hh
  · obtain ⟨rfl, -⟩ := hc.frame hlen
    exact hw.moves ht (trafficKinds_meet msg.cmd) (moves_handleTraffic env ht hk msg extra n' hh)

/-- After the GOODBYE of `x` it is not known. -/
theorem step_goodbye (env : Env) (ht : Tables n) (hlen : uuid.length = 16) (ha : n.Admits (hex uuid))
    (hf : f.command = some Cmd.goodbye) :
    Ensures (n.step env (.peerMsg ((1 :: uuid) :: f.frames))) fun n' => n'.peers.get (hex uuid) = none := by
  obtain ⟨msg, hmsg, hcmd⟩ := Option.map_eq_some_iff.1 hf
  obtain ⟨data, extra, hframes⟩ : ∃ data extra, f.frames = data :: extra := by
    cases hl : f.frames with
    | nil => simp [Handed.msg, hl] at hmsg
    | cons data extra => exact ⟨data, extra, rfl⟩
  have hu := routingUuid_cons hlen
  have hd := (Handed.msg_eq_some hframes).1 hmsg
  have hhello : ∀ h, msg.fields ≠ .hello h := by
    intro h hh
    have hfields := (Handed.is_of_msg hmsg).2
    rw [hh] at hfields
    rw [hfields.1] at hcmd
    exact absurd hcmd (by decide)
  intro n' hn'
  rw [hframes] at hn'
  cases hk : n.peers.get (hex uuid) with
  | none =>
    have hdrop := handlePeerMsg_dropped (n := n) env hu hd hhello (fun r hr => by rw [hk] at hr; cases hr) extra
    rw [show n.step env (.peerMsg ((1 :: uuid) :: data :: extra)) = _ from hdrop] at hn'
    cases hn'
    exact hk
  | some r =>
    have htraffic := handlePeerMsg_traffic (n := n) env hu hd hhello hk (ha r hk) extra
    rw [show n.step env (.peerMsg ((1 :: uuid) :: data :: extra)) = _ from htraffic] at hn'
    exact (handleTraffic_goodbye env ht hk hcmd extra n' hn').2

/-- Without a HELLO of `x` it stays unknown. -/
theorem step_late (env : Env) (hlen : uuid.length = 16) (hk : n.peers.get (hex uuid) = none)
    (hf : f.command ≠ some Cmd.hello) :
    Ensures (n.step env (.peerMsg ((1 :: uuid) :: f.frames))) fun n' => n' = n := by
  intro n' hn'
  rcases handlePeerMsg_cases env n _ n' hn' with rfl | ⟨uuid', msg, extra, hc, ⟨h, hfields, -⟩ | ⟨-, r, hr, -⟩⟩
  · rfl
  · obtain ⟨-, hmsg⟩ := hc.frame hlen
    have hcmd := (Handed.is_of_msg hmsg).2
    rw [hfields] at hcmd
    refine absurd ?_ hf
    rw [Handed.command, hmsg, Option.map_some, hcmd.1]
  · obtain ⟨rfl, -⟩ := hc.frame hlen
    rw [hk] at hr
    cases hr

end Frames

end Warm

/-! ## What is left of a node that has gone -/

section Gone

variable {env : Env} {x : Str} {n n' : Node}

/-- By what was passed to `_emit`, exactly those peers are present whose HELLO was taken. -/
theorem Visits.present_iff {Q : Node → Env → Act → Prop} (h : Visits Q n) (x : Str) :
    Present x (n.events.map Event.notice) ↔ (n.standing x).Greeted := by
  have hall : n.Frank ∧ ∀ k, Present k (n.events.map Event.notice) ↔ (n.standing k).Greeted := by
    refine h.invariant (I := fun m => m.Frank ∧ ∀ k, Present k (m.events.map Event.notice) ↔
      (m.standing k).Greeted) (fun cfg => ⟨Frank.init cfg, fun k => ?_⟩) fun m env a m' ht hI ha _ hact => ?_
    · have hstand : (Node.init cfg).standing k = .absent := rfl
      rw [hstand]
      simp [Standing.Greeted, Present, marks, Node.init]
    · obtain ⟨hf, hs⟩ := hI
      obtain ⟨hf', l, he, hsteps⟩ := scene_act (P := False) env ht ha False.elim m' hact hf
      refine ⟨hf', fun k => ?_⟩
      rw [he, List.map_append]
      exact hsteps.greeted hs k
  exact hall.2 x

/-- Whoever is not in the peer table is in no group, and is not said to be there. -/
theorem Reachable.gone (hn : n.Reachable) (hk : n.peers.get x = none) : n.Gone x := by
  refine ⟨hk, fun g => ?_, fun hp => ?_⟩
  · cases hm : n.member g x with
    | none => rfl
    | some r =>
      have hr := ((hn.tables.member g x r).1 hm).1
      rw [hk] at hr
      cases hr
  · rw [hn.visits.present_iff, standing_eq_absent.2 hk] at hp
    rcases hp with hp | hp <;> cases hp

/-- The node `uuid` has yet to say GOODBYE and will be heard, or it is unknown and says no HELLO any more. -/
inductive Leaving (uuid : Bytes) (n : Node) (l : List Handed) : Prop where
  | parting (hl : Final l) (ha : n.Admits (hex uuid))
  | parted (hl : ∀ f ∈ l, f.command ≠ some Cmd.hello) (hk : n.peers.get (hex uuid) = none)

variable {uuid : Bytes} {l rest : List Handed}

theorem Leaving.arrive {f : Handed} (h : Leaving uuid n (f :: rest)) (hn : n.Reachable) (hlen : uuid.length = 16)
    (hown : uuid ≠ n.cfg.peerId) (hs : n.step env (.peerMsg ((1 :: uuid) :: f.frames)) = .ok n')
    (hf : n'.Flows (hex uuid)) : Leaving uuid n' rest := by
  cases h with
  | parting hl ha =>
    rcases hl.cons with ⟨hbye, hno⟩ | hl
    · exact .parted hno (step_goodbye env hn.tables hlen ha hbye n' hs)
    · have hwarm := step_frame env hn.tables hlen hown ha.warm f n' hs
      exact .parting hl (hwarm.admits (Reachable.step env _ hn hs).wires hf)
  | parted hl hk =>
    obtain rfl := step_late env hlen hk (hl f List.mem_cons_self) n' hs
    exact .parted (fun g hg => hl g (List.mem_cons_of_mem f hg)) hk

theorem Leaving.other (h : Leaving uuid n l) (hn : n.Reachable) {input : Input} (hno : ¬ n.Tells input (hex uuid))
    (hs : n.step env input = .ok n') (hf : n'.Flows (hex uuid)) : Leaving uuid n' l := by
  obtain ⟨hwarm, hunknown⟩ := step_other env hn hno n' hs
  cases h with
  | parting hl ha => exact .parting hl ((hwarm ha.warm).admits (Reachable.step env _ hn hs).wires hf)
  | parted hl hk => exact .parted hl (hunknown hk)

/-- What every event keeps holds in the end. -/
theorem Aftermath.invariant {I : Node → List Handed → Prop} (hrun : Aftermath uuid n l n' rest) (hn : n.Reachable)
    (harrive : ∀ {env m m' f rest}, m.Reachable → m.cfg = n.cfg →
      m.step env (.peerMsg ((1 :: uuid) :: f.frames)) = .ok m' → m'.Flows (hex uuid) → I m (f :: rest) → I m' rest)
    (hother : ∀ {env m m' input rest}, m.Reachable → ¬ m.Tells input (hex uuid) → m.step env input = .ok m' →
      m'.Flows (hex uuid) → I m rest → I m' rest) (h : I n l) : n'.Reachable ∧ I n' rest := by
  have hall : (n'.Reachable ∧ n'.cfg = n.cfg) ∧ I n' rest := by
    induction hrun with
    | start => exact ⟨⟨hn, rfl⟩, h⟩
    | arrive _ env hs hf ih =>
      obtain ⟨⟨hm, hcfg⟩, hI⟩ := ih
      exact ⟨⟨Reachable.step env _ hm hs, (moves_cfg (moves_step env hm.tables _ _ hs)).trans hcfg⟩,
        harrive hm hcfg hs hf hI⟩
    | other _ env input hno hs hf ih =>
      obtain ⟨⟨hm, hcfg⟩, hI⟩ := ih
      exact ⟨⟨Reachable.step env _ hm hs, (moves_cfg (moves_step env hm.tables _ _ hs)).trans hcfg⟩,
        hother hm hno hs hf hI⟩
  exact ⟨hall.1.1, hall.2⟩

/-- Once a node is not known and no HELLO of it is on the way, it stays away. -/
theorem Aftermath.stays_away (hrun : Aftermath uuid n l n' rest) (hn : n.Reachable) (hlen : uuid.length = 16)
    (hk : n.peers.get (hex uuid) = none) (hl : ∀ f ∈ l, f.command ≠ some Cmd.hello) : n'.Gone (hex uuid) := by
  obtain ⟨hn', hk', -⟩ := hrun.invariant
    (I := fun m rest => m.peers.get (hex uuid) = none ∧ ∀ f ∈ rest, f.command ≠ some Cmd.hello) hn
    (fun {env m m' f rest} hm _ hs _ hI => by
      obtain ⟨hk, hno⟩ := hI
      obtain rfl := step_late env hlen hk (hno f List.mem_cons_self) m' hs
      exact ⟨hk, fun g hg => hno g (List.mem_cons_of_mem f hg)⟩)
    (fun {env m m' input rest} hm hno hs _ hI => ⟨(step_other env hm hno m' hs).2 hI.1, hI.2⟩) ⟨hk, hl⟩
  exact hn'.gone hk'

/-- Once all that it had to say has arrived, a node that says GOODBYE is gone. -/
theorem Aftermath.departs (hrun : Aftermath uuid n l n' []) (hn : n.Reachable) (hlen : uuid.length = 16)
    (hown : uuid ≠ n.cfg.peerId) (ha : n.Admits (hex uuid)) (hl : Final l) : n'.Gone (hex uuid) := by
  obtain ⟨hn', hleaving⟩ := hrun.invariant (I := Leaving uuid) hn
    (fun hm hcfg hs hf hI => hI.arrive hm hlen (hcfg ▸ hown) hs hf)
    (fun hm hno hs hf hI => hI.other hm hno hs hf) (.parting hl ha)
  cases hleaving with
  | parting hl ha =>
    obtain ⟨before, f, after, hnil, -⟩ := hl
    cases before <;> cases hnil
  | parted hl hk => exact hn'.gone hk

/-- A node whose departure beacon has been handled is gone as well, if no HELLO of it was on the way: late frames do
not bring it back. -/
theorem Reachable.beacon_parts (hn : n.Reachable) {data : Bytes} {host : Str} (hh : n.Hears data uuid 0)
    (hown : uuid ≠ n.cfg.peerId) (hs : n.step env (.beacon data host) = .ok n') {n'' : Node}
    (hrun : Aftermath uuid n' l n'' rest) (hl : ∀ f ∈ l, f.command ≠ some Cmd.hello) : n''.Gone (hex uuid) := by
  have hlen : uuid.length = 16 := by
    obtain ⟨-, -, -, hsize, rfl, -⟩ := hh
    have hlong : 22 ≤ data.length := by
      unfold beaconSize at hsize
      split at hsize
      · have h54 : 54 = data.length := Option.some.inj hsize
        omega
      split at hsize
      · have h22 : 22 = data.length := Option.some.inj hsize
        omega
      · cases hsize
    exact slice_length (by omega)
  refine hrun.stays_away (Reachable.step env _ hn hs) hlen ?_ hl
  by_cases hk : n.peers.get (hex uuid) = none
  · -- a beacon for port 0 announces nobody
    refine (step_other env hn (fun htells => ?_) n' hs).2 hk
    generalize hex uuid = x at htells
    cases htells with
    | @beacon _ _ _ port hh' hp =>
      have hsame : (Except.ok 0 : Except PyError ℕ) = .ok port := hh.2.2.2.2.2.symm.trans hh'.2.2.2.2.2
      cases hsame
      exact hp rfl
  · exact (handleBeacon_departs env hh hown hk n' hs).2

end Gone

/-- A node that knows the peer `00…02`, and the same node after the departure beacon of that peer. -/
def sampleHost : Node := sampleA.after (Env.calm 0) (.peerMsg sampleHello)

def sampleLeftHost : Node := sampleHost.after (Env.calm 0) (.beacon (sampleBeaconData 0) "10.0.0.2".toList)

/-- A PING of that peer. -/
def sampleLatePing : Handed :=
  ⟨{ sock := 0, identity := 1 :: sampleUuid, addr := "10.0.0.1".toList, port := 4001, curve := none },
    [Codec.headBytes Cmd.ping 2], .sent⟩

theorem sampleHost_parts : sampleHost.peers.get (hex sampleUuid) ≠ none ∧
    (sampleLeftHost.after (Env.calm 0) (.peerMsg ((1 :: sampleUuid) :: sampleLatePing.frames))).Gone
      (hex sampleUuid) := by
  have hn : sampleHost.Reachable := (Reachable.init _).after _ _
  have hh : sampleHost.Hears (sampleBeaconData 0) sampleUuid 0 := by
    refine ⟨?_, ?_, ?_, ?_, ?_, ?_⟩ <;> decide +kernel
  have hl : ∀ f ∈ [sampleLatePing], f.command ≠ some Cmd.hello := by decide +kernel
  have hgone : ∀ n : Node, n.peers.get (hex sampleUuid) = none → n.Flows (hex sampleUuid) := by
    intro n hk r hr
    rw [hk] at hr
    cases hr
  have hs : sampleHost.step (Env.calm 0) (.beacon (sampleBeaconData 0) "10.0.0.2".toList) = .ok sampleLeftHost :=
    step_after _ (by decide +kernel)
  have hlate : Aftermath sampleUuid sampleLeftHost [sampleLatePing]
      (sampleLeftHost.after (Env.calm 0) (.peerMsg ((1 :: sampleUuid) :: sampleLatePing.frames))) [] :=
    Aftermath.start.arrive (Env.calm 0) (step_after _ (by decide +kernel)) (hgone _ (by decide +kernel))
  exact ⟨by decide +kernel, hn.beacon_parts hh (by decide +kernel) hs hlate hl⟩

/-- A HELLO that was still on its way does bring the peer back. -/
example : (sampleLeftHost.after (Env.calm 0) (.peerMsg sampleHello)).peers.get (hex sampleUuid) ≠ none := by
  decide +kernel

/-! ## The last frames -/

section Last

variable {env : Env} {net : Net} {s gossip : Bool} {x : Str} {n n' : Node}

theorem Farewell.not_hello {h : Handed} (hf : Farewell gossip h) : h.command ≠ some Cmd.hello := by
  intro hc
  obtain ⟨m, hm, hcmd⟩ := Option.map_eq_some_iff.1 hc
  have his : h.Is Cmd.hello := hcmd ▸ (Handed.is_of_msg hm).1
  rcases hf with ⟨-, hbye⟩ | hleave
  · exact Handed.not_is hbye (by decide) his
  · exact Handed.not_is hleave (by decide) his

/-- The GOODBYE of a node gets to the other one. -/
theorem goodbyes_reach (hl : env.Lossless) (hc : n.Contact x (net.leads s)) (ht : Tables n) (hlinks : Links n)
    (hk : n.peers.get x ≠ none) :
    Ensures (n.goodbyes env true) fun n' => ∃ l, n'.outbox = n.outbox ++ l ∧
      ∃ h ∈ l, Duo.carried net s h = true ∧ h.command = some Cmd.goodbye := by
  have hread : ∀ seq frame dealer outcome, Codec.encodeSimple Cmd.goodbye seq none none = .ok frame →
      Handed.command ⟨dealer, frame :: [], outcome⟩ = some Cmd.goodbye := by
    intro seq frame dealer outcome henc
    have hd := (Codec.decode_encoded .none ⟨by decide, by decide, by decide⟩ henc).1
    unfold Handed.command
    rw [(Handed.msg_eq_some rfl).2 hd]
    rfl
  have hsend : ∀ (m : Node) (r : Ref), Links m → Ensures (m.sendCmd env r Cmd.goodbye none none []) fun m' =>
      Talk env.Lossless (Handed.Is Cmd.goodbye) m m' ∧ ∃ l, m'.outbox = m.outbox ++ l ∧
        gist Handed.command net s l = if m.reaches net s r then [Cmd.goodbye] else [] :=
    fun m r hm => (talk_sendCmd env m r Cmd.goodbye none none []).and (sendCmd_gist hl hm r hread)
  refine (sends_gist hl hlinks hsend n.peers.values).mono fun n' hn' => ?_
  obtain ⟨l, hout, hgist⟩ := hn'
  obtain ⟨r, hr⟩ := Option.ne_none_iff_exists'.1 hk
  rw [filter_reaches ht hc fun _ _ => id, hr] at hgist
  have hmem : Cmd.goodbye ∈ gist Handed.command net s l := by rw [hgist]; simp
  obtain ⟨h, hh, hcmd⟩ := List.mem_filterMap.1 hmem
  obtain ⟨hin, hcarried⟩ := List.mem_filter.1 hh
  exact ⟨l, hout, h, hin, hcarried, hcmd⟩

/-- What a node hands over for the other one when it stops in gossip mode is final. -/
theorem stop_final (hl : env.Lossless) (hn : n.Reachable) (hc : n.Contact x (net.leads s))
    (hk : n.peers.get x ≠ none) (hs : n.stop env true = .ok n') :
    ∃ l, n'.outbox = n.outbox ++ l ∧ Final (l.filter (Duo.carried net s)) := by
  obtain ⟨m, hm, hclose⟩ := bind_eq_ok_iff.1 hs
  cases hclose
  obtain ⟨l, hout, hall⟩ := (takeLeave_takesLeave n m hm).outbox
  refine ⟨l, by rw [closeAll_rest]; exact hout, ?_⟩
  -- the GOODBYE is among them
  unfold takeLeave at hm
  rw [if_pos hn.running] at hm
  obtain ⟨m1, hm1, hm2⟩ := bind_eq_ok_iff.1 hm
  let n₀ : Node := { n with running := false }
  have hc₀ : n₀.Contact x (net.leads s) := { hc with }
  obtain ⟨l1, hout1, h, hin, hcarried, hbye⟩ :=
    goodbyes_reach hl hc₀ { hn.tables with } { hn.links with } hk m1 hm1
  obtain ⟨l2, hout2, -⟩ := (moves_leaveGroups m1 m hm2).outbox
  have hsplit : l = l1 ++ l2 := by
    have heq : n.outbox ++ l = n.outbox ++ (l1 ++ l2) := by rw [← hout, hout2, hout1, List.append_assoc]
    exact List.append_cancel_left heq
  have hmem : h ∈ l.filter (Duo.carried net s) := by
    refine List.mem_filter.2 ⟨?_, hcarried⟩
    rw [hsplit]
    exact List.mem_append_left l2 hin
  obtain ⟨before, after, heq⟩ := List.append_of_mem hmem
  refine ⟨before, h, after, heq, hbye, fun f hf => ?_⟩
  have hf' : f ∈ l.filter (Duo.carried net s) := by
    rw [heq]
    exact List.mem_append_right before (List.mem_cons_of_mem h hf)
  exact (hall f (List.mem_filter.1 hf').1).2.not_hello

end Last

end Node

namespace Duo

open Node

variable {net : Net} {d₀ d : Duo} {s : Bool}

/-- A node that stops in gossip mode is forgotten: in a run of two nodes that did not know each other, once the last
frames of the node have arrived the other one does not know it, whatever else has happened there. -/
theorem Unmet.parts (h : Unmet net d₀) {past : List (Duo × Deed)} (hrun : Deeds net (Connects net) d₀ past d)
    (hj : d.Joined s) {env : Env} (hl : env.Lossless) {n n' : Node} (hs : (d.node s).stop env true = .ok n)
    (hafter : Aftermath (d.node s).cfg.peerId (d.node !s)
      (d.link s ++ (n.outbox.drop (d.node s).outbox.length).filter (carried net s)) n' []) :
    n'.Gone (hex (d.node s).cfg.peerId) := by
  have hkept := h.keeps hrun
  have hcross : d₀.across s = d.across s := by
    unfold across
    rw [hkept.cfg]
  have hc : (d.node s).Contact (d.across s) (net.leads s) := hcross ▸ hkept.contact s
  obtain ⟨l, hout, hfinal⟩ := stop_final hl (hkept.reachable s) hc hj.1 hs
  rw [hout, List.drop_left] at hafter
  refine hafter.departs (hkept.reachable !s) (d.node s).cfg.peerId_length ?_ ?_ hfinal.append
  · have hne := h.isApart.ids s
    rw [← hkept.cfg, ← hkept.cfg] at hne
    exact hne.symm
  · intro r hk
    have hready := hj.2
    unfold record groupsOf across at hready
    rw [Bool.not_not] at hready
    rw [hk] at hready
    by_contra hr
    simp [hr] at hready

/-! ## A sample -/

/-- A frame from node `false` to node `true`. -/
def sampleLast (frame : Bytes) : Handed :=
  ⟨{ sock := 0, identity := 1 :: ((sampleAfter 5).node false).cfg.peerId, addr := "127.0.0.1".toList, port := 4002,
     curve := none }, [frame], .sent⟩

/-- Node `false` stops: it says GOODBYE, and leaves its group. -/
def sampleStopped : Node :=
  (((sampleAfter 5).node false).stop (Env.calm 0) true).toOption.getD ((sampleAfter 5).node false)

def sampleBye : Handed := sampleLast (Codec.headBytes Cmd.goodbye 3)

def sampleLeave : Handed := sampleLast (Codec.headBytes Cmd.leave 4 ++ [1, 0x67, 2])

/-- A frame of node `false`, as node `true` receives it. -/
def sampleArrival (f : Handed) : Input := .peerMsg ((1 :: ((sampleAfter 5).node false).cfg.peerId) :: f.frames)

/-- Node `true` after the GOODBYE, and after the LEAVE as well. -/
def sampleLeft : Node := ((sampleAfter 5).node !false).after (Env.calm 0) (sampleArrival sampleBye)

def sampleLate : Node := sampleLeft.after (Env.calm 0) (sampleArrival sampleLeave)

theorem sample_arrives {n : Node} {f : Handed} {rest : List Handed}
    (h : Aftermath ((sampleAfter 5).node false).cfg.peerId ((sampleAfter 5).node !false) [sampleBye, sampleLeave] n
      (f :: rest)) (hok : raised (n.step (Env.calm 0) (sampleArrival f)) = none)
    (hk : (n.after (Env.calm 0) (sampleArrival f)).peers.get (hex ((sampleAfter 5).node false).cfg.peerId) = none) :
    Aftermath ((sampleAfter 5).node false).cfg.peerId ((sampleAfter 5).node !false) [sampleBye, sampleLeave]
      (n.after (Env.calm 0) (sampleArrival f)) rest := by
  refine h.arrive (Env.calm 0) (step_after _ hok) fun r hr => ?_
  rw [hk] at hr
  cases hr

theorem sample_parts : ((sampleAfter 5).node !false).peers.get (hex ((sampleAfter 5).node false).cfg.peerId) = some 0 ∧
    sampleLate.Gone (hex ((sampleAfter 5).node false).cfg.peerId) := by
  obtain ⟨past, hrun⟩ := sample_run
  have hconnects : Deeds sampleNet (Connects sampleNet) samplePair past (sampleAfter 5) :=
    hrun.mono fun _ _ _ => And.left
  have hjoined : (sampleAfter 5).Joined false := by
    refine ⟨?_, by decide +kernel⟩
    have hk : ((sampleAfter 5).node false).peers.get ((sampleAfter 5).across false) = some 0 := by decide +kernel
    rw [hk]
    simp
  have hstop : ((sampleAfter 5).node false).stop (Env.calm 0) true = .ok sampleStopped :=
    eq_ok_getD (by decide +kernel)
  have hlast : (sampleAfter 5).link false ++ (sampleStopped.outbox.drop
      ((sampleAfter 5).node false).outbox.length).filter (carried sampleNet false) = [sampleBye, sampleLeave] := by
    decide +kernel
  have hbye := sample_arrives .start (by decide +kernel) (by decide +kernel)
  have hlate := sample_arrives hbye (by decide +kernel) (by decide +kernel)
  rw [← hlast] at hlate
  exact ⟨by decide +kernel, samplePair_unmet.parts hconnects hjoined (fun _ => rfl) hstop hlate⟩

end Duo

end Zre
