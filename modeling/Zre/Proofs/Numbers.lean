import Zre.Lib.Numbering
import Zre.Proofs.Teardown
import Zre.Proofs.Wires

/-!
# Proofs: the numbers on a connection

A `Peer` object numbers the sends on its socket from 1 on, starting with a HELLO. The number is spent
before the send is tried, so what is queued is numbered without a gap as long as nothing is queued after a
send that failed.
-/

namespace Zre

open Fallible Numbering

/-- The number in the first frame. -/
def Handed.seq (h : Handed) : ℕ :=
  match h.frames with
  | frame :: _ =>
    match Codec.decode frame with
    | .ok (some msg) => msg.seq
    | _ => 0
  | [] => 0

theorem Handed.Says.seq {h : Handed} {cmd : UInt8} {seq : ℕ} (hs : h.Says cmd seq) : h.seq = seq := by
  obtain ⟨frame, more, fields, hframes, hdec⟩ := hs
  unfold Handed.seq
  rw [hframes]
  simp only [hdec]

namespace Node

/-- The sends on the socket `s`, in their order. -/
def attempts (n : Node) (s : ℕ) : List Handed := n.outbox.filter fun h => h.dealer.sock = s

/-- The sends on the socket `s` that were queued. -/
def queued (n : Node) (s : ℕ) : List Handed := (n.attempts s).filter fun h => h.outcome = .sent

/-- What was queued on the socket `s` starts with a HELLO of number 1, and its numbers run on from there. -/
def InSequence (n : Node) (s : ℕ) : Prop :=
  (∀ h, (n.queued s).head? = some h → h.Says Cmd.hello 1) ∧
    ∀ i (hi : i < (n.queued s).length), ∃ cmd, ((n.queued s)[i]).Says cmd ((i + 1) % 65536)

/-- Nothing was queued on the socket `s` after a send that failed there with another error than
`zmq.Again`. -/
def Unbroken (n : Node) (s : ℕ) : Prop :=
  ∀ before h after, n.attempts s = before ++ h :: after → h.outcome = .sent →
    ∀ x ∈ before, x.outcome ≠ .failed

/-- The sends on each socket are numbered. -/
structure Numbered (n : Node) : Prop where
  message : ∀ h ∈ n.outbox, ∃ cmd, h.Says cmd h.seq
  runs : ∀ s, Runs 65536 Handed.seq 1 (n.attempts s)
  hello : ∀ s h, (n.attempts s).head? = some h → h.Says Cmd.hello 1
  last : ∀ s before h after, n.attempts s = before ++ h :: after → ∀ x ∈ before, x.outcome ≠ .again
  count : ∀ r d, (n.obj r).dealer = some d → (n.obj r).sentSeq = (n.attempts r).length % 65536
  greeted : ∀ r d, (n.obj r).dealer = some d → n.attempts r ≠ []

theorem Numbered.init (cfg : Config) : Numbered (Node.init cfg) := by
  constructor <;> simp [Node.init, attempts, Peer.new, Runs]

section Numbered

variable {env : Env} {w : Tidings} {n n' : Node}

theorem mem_attempts {s : ℕ} {h : Handed} : h ∈ n.attempts s ↔ h ∈ n.outbox ∧ h.dealer.sock = s := by
  simp [attempts]

theorem attempts_append {h : Handed} (ho : n'.outbox = n.outbox ++ [h]) (s : ℕ) :
    n'.attempts s = n.attempts s ++ if h.dealer.sock = s then [h] else [] := by
  unfold attempts
  rw [ho, List.filter_append]
  by_cases hs : h.dealer.sock = s <;> simp [hs]

/-- No frame was handed over, and no socket was opened. -/
theorem Numbered.still (hn : Numbered n) (ho : n'.outbox = n.outbox)
    (hobj : ∀ r d, (n'.obj r).dealer = some d →
      (n.obj r).dealer = some d ∧ (n'.obj r).sentSeq = (n.obj r).sentSeq) : Numbered n' := by
  have hatt : ∀ s, n'.attempts s = n.attempts s := fun s => by rw [attempts, attempts, ho]
  refine ⟨by rw [ho]; exact hn.message, fun s => ?_, fun s h => ?_, fun s before h after => ?_, fun r d hd => ?_,
    fun r d hd => ?_⟩
  · rw [hatt]
    exact hn.runs s
  · rw [hatt]
    exact hn.hello s h
  · rw [hatt]
    exact hn.last s before h after
  · rw [hatt, (hobj r d hd).2]
    exact hn.count r d (hobj r d hd).1
  · rw [hatt]
    exact hn.greeted r d (hobj r d hd).1

/-- A frame was handed over: it has the next number of its socket, and the first one is a HELLO. -/
theorem Numbered.next (hn : Numbered n) {r : Ref} {h : Handed} {cmd : UInt8}
    (ho : n'.outbox = n.outbox ++ [h]) (hsock : h.dealer.sock = r)
    (hs : h.Says cmd (((n.attempts r).length + 1) % 65536)) (hfirst : n.attempts r = [] → cmd = Cmd.hello)
    (hopen : ∀ x ∈ n.attempts r, x.outcome ≠ .again)
    (hself : (n'.obj r).sentSeq = ((n.attempts r).length + 1) % 65536)
    (hobj : ∀ s d, s ≠ r → (n'.obj s).dealer = some d →
      (n.obj s).dealer = some d ∧ (n'.obj s).sentSeq = (n.obj s).sentSeq) : Numbered n' := by
  have hatt := attempts_append ho
  have hother : ∀ s, s ≠ r → n'.attempts s = n.attempts s := by
    intro s hne
    rw [hatt, if_neg, List.append_nil]
    rw [hsock]
    exact fun he => hne he.symm
  have hown : n'.attempts r = n.attempts r ++ [h] := by rw [hatt, if_pos hsock]
  constructor
  · rw [ho]
    intro x hx
    rcases List.mem_append.1 hx with hx | hx
    · exact hn.message x hx
    · rw [List.mem_singleton.1 hx, hs.seq]
      exact ⟨cmd, hs⟩
  · intro s
    by_cases hsr : s = r
    · subst hsr
      rw [hown, runs_append]
      refine ⟨hn.runs s, ?_, trivial⟩
      rw [hs.seq, Nat.add_comm 1]
    · rw [hother s hsr]
      exact hn.runs s
  · intro s x hx
    by_cases hsr : s = r
    · subst hsr
      rw [hown] at hx
      cases hl : n.attempts s with
      | nil =>
        rw [hl] at hx hs hfirst
        cases hx
        rw [hfirst rfl] at hs
        exact hs
      | cons y l =>
        rw [hl] at hx
        cases hx
        exact hn.hello s x (by rw [hl]; rfl)
    · rw [hother s hsr] at hx
      exact hn.hello s x hx
  · intro s before x after hsplit y hy
    by_cases hsr : s = r
    · subst hsr
      rw [hown] at hsplit
      rcases List.append_eq_append_iff.1 hsplit with ⟨l, hb, hl⟩ | ⟨l, ha, -⟩
      · rw [hb] at hy
        rcases List.mem_append.1 hy with hy | hy
        · exact hopen y hy
        · cases l with
          | nil => cases hy
          | cons z l => simp at hl
      · refine hopen y ?_
        rw [ha]
        exact List.mem_append_left _ hy
    · rw [hother s hsr] at hsplit
      exact hn.last s before x after hsplit y hy
  · intro s d hd
    by_cases hsr : s = r
    · subst hsr
      rw [hself, hown, List.length_append, List.length_singleton]
    · rw [hother s hsr, (hobj s d hsr hd).2]
      exact hn.count s d (hobj s d hsr hd).1
  · intro s d hd
    by_cases hsr : s = r
    · subst hsr
      rw [hown]
      simp
    · rw [hother s hsr]
      exact hn.greeted s d (hobj s d hsr hd).1

theorem Numbered.line (hw : Wires n) (h : Line env w n n') (hn : Numbered n) :
    Numbered n' := by
  have hset : ∀ r {p : Peer}, p.dealer = (n.obj r).dealer → p.sentSeq = (n.obj r).sentSeq →
      Numbered (n.setObj r p) := by
    intro r p hd hs
    refine hn.still rfl fun s d hd' => ⟨?_, setObj_congr Peer.sentSeq n r hs s⟩
    rw [← setObj_congr Peer.dealer n r hd s]
    exact hd'
  have hclose : ∀ r, Numbered (n.setObj r (n.obj r).disconnect) := by
    intro r
    refine hn.still rfl fun s d hd => ?_
    rw [setObj_obj] at hd ⊢
    split at hd
    · cases hd
    · rename_i hsr
      rw [if_neg hsr]
      exact ⟨hd, rfl⟩
  -- no frame was handed to the socket of a new object
  have hfresh : n.attempts n.nextRef = [] := by
    refine List.eq_nil_iff_forall_not_mem.2 fun x hx => ?_
    obtain ⟨hx, hsock⟩ := mem_attempts.1 hx
    have hlt := (hw.opened x.dealer (Or.inr ⟨x, hx, rfl⟩)).1
    rw [hsock] at hlt
    exact absurd hlt (Nat.lt_irrefl _)
  cases h with
  | idle h =>
    have hout : n'.outbox = n.outbox := by rw [h.rest]
    refine hn.still hout fun r d hd => ⟨?_, (h.obj r).sentSeq⟩
    rw [← (h.obj r).dealer]
    exact hd
  | learn h => exact hn.still rfl fun r d hd => ⟨hd, rfl⟩
  | hail k r p hk hp => exact hset r hp.dealer hp.sentSeq
  | refresh k r hk hh => exact hset r rfl rfl
  | hand r h cmd hc hd hs =>
    have hopen : ∀ x ∈ n.attempts r, x.outcome ≠ .again := by
      intro x hx hagain
      obtain ⟨hx, hsock⟩ := mem_attempts.1 hx
      rw [hw.torn r ⟨x, hx, hsock, hagain⟩] at hd
      cases hd
    rw [hn.count r _ hd, Nat.mod_add_mod] at hs
    refine hn.next (hand_outbox n r h) (hw.own r _ hd) hs (fun he => absurd he (hn.greeted r _ hd)) hopen ?_
      fun s d hne hd' => ?_
    · rw [hand_obj, if_pos rfl, Peer.handed_sentSeq, hn.count r _ hd, Nat.mod_add_mod]
    · rw [hand_obj, if_neg hne] at hd' ⊢
      exact ⟨hd', rfl⟩
  | waste uuidHex addr port =>
    refine hn.still rfl fun s d hd => ?_
    rw [allocated_obj] at hd ⊢
    split at hd
    · cases hd
    · rename_i hne
      rw [if_neg hne]
      exact ⟨hd, rfl⟩
  | greet k addr port p h hk hh hd hkeys hs hp hdealer hmsg =>
    have hsock : h.dealer.sock = n.nextRef := by
      have hd' : p.dealer = some (n.lineTo addr port (some k)) := hp.dealer
      rw [← Option.some.inj (hd'.symm.trans hdealer)]
      exact hw.count.symm
    refine hn.next (by rw [hand_outbox, filed_outbox]) hsock (by rw [hfresh]; exact hmsg) (fun _ => rfl)
      (by simp [hfresh]) ?_ fun s d hne hd' => ?_
    · rw [hand_obj, if_pos rfl, Peer.handed_sentSeq, filed_obj, if_pos rfl, hfresh, hp.sentSeq]
      rfl
    · rw [hand_obj, if_neg hne, filed_obj, if_neg hne] at hd' ⊢
      exact ⟨hd', rfl⟩
  | call k addr port h hk hd hs hdealer hmsg =>
    have hsock : h.dealer.sock = n.nextRef := by
      rw [dialled_dealer] at hdealer
      rw [← Option.some.inj hdealer]
      exact hw.count.symm
    refine hn.next (by rw [hand_outbox, awaited_outbox]) hsock (by rw [hfresh]; exact hmsg) (fun _ => rfl)
      (by simp [hfresh]) ?_ fun s d hne hd' => ?_
    · rw [hand_obj, if_pos rfl, Peer.handed_sentSeq, awaited_obj, if_pos rfl, hfresh]
      rfl
    · rw [hand_obj, if_neg hne, awaited_obj, if_neg hne] at hd' ⊢
      exact ⟨hd', rfl⟩
  | adopt k r rhex hp hk hh =>
    have hrenamed : Numbered (n.setObj r
        ({ n.obj r with uuidHex := rhex }.refresh env.now n.cfg.evTimeout n.cfg.exTimeout)) := hset r rfl rfl
    exact hrenamed.still rfl fun _ _ hd => ⟨hd, rfl⟩
  | forget k r hk => exact (hclose r).still rfl fun _ _ hd => ⟨hd, rfl⟩
  | drop k r hp => exact (hclose r).still rfl fun _ _ hd => ⟨hd, rfl⟩

/-- A split of the sends on a socket: what comes before a later send found room in the queue, or failed. -/
theorem Numbered.lost (hn : Numbered n) {s : ℕ} {before after : List Handed} {h : Handed}
    (hsplit : n.attempts s = before ++ h :: after) :
    (before.countP fun x => !decide (x.outcome = .sent)) = before.countP fun x => x.outcome = .failed := by
  refine List.countP_congr fun x hx => ?_
  have hopen := hn.last s before h after hsplit x hx
  cases ho : x.outcome with
  | again => exact absurd ho hopen
  | sent | failed => simp

/-- What is queued on a socket is in sequence if nothing was queued there after a failed send. -/
theorem Numbered.inSequence (hn : Numbered n) {s : ℕ} (hu : n.Unbroken s) : n.InSequence s := by
  have hnone : ∀ before h after, n.attempts s = before ++ h :: after → h.outcome = .sent →
      before.countP (fun x => x.outcome = .failed) = 0 := by
    intro before h after hsplit hsent
    rw [List.countP_eq_zero]
    exact fun x hx => by simpa using hu before h after hsplit hsent x hx
  constructor
  · intro h hh
    rw [queued, List.head?_filter, List.find?_eq_some_iff_append] at hh
    obtain ⟨hsent, before, after, hsplit, hbefore⟩ := hh
    have hempty : before = [] := by
      refine List.eq_nil_iff_forall_not_mem.2 fun x hx => ?_
      have hlost : ¬ x.outcome = .sent := by simpa using hbefore x hx
      have hfailed := hu before h after hsplit (by simpa using hsent) x hx
      have hagain := hn.last s before h after hsplit x hx
      cases ho : x.outcome <;> simp_all
    subst hempty
    exact hn.hello s h (by rw [hsplit]; rfl)
  · have hruns : Runs 65536 Handed.seq 1 (n.queued s) := by
      refine (runs_filter_iff _ (hn.runs s)).2 fun before h after hsplit hsent => ?_
      rw [hn.lost hsplit, hnone before h after hsplit (by simpa using hsent)]
      exact Nat.dvd_zero _
    intro i hi
    have hmem : (n.queued s)[i] ∈ n.outbox :=
      (mem_attempts.1 (List.mem_of_mem_filter (List.getElem_mem hi))).1
    obtain ⟨cmd, hmsg⟩ := hn.message _ hmem
    rw [runs_iff.1 hruns i hi, Nat.add_comm 1] at hmsg
    exact ⟨cmd, hmsg⟩

/-- Conversely, only a multiple of 65536 failed sends goes unnoticed. -/
theorem Numbered.unnoticed (hn : Numbered n) {s : ℕ} (hs : n.InSequence s) {before after : List Handed}
    {h : Handed} (hsplit : n.attempts s = before ++ h :: after) (hsent : h.outcome = .sent) :
    65536 ∣ before.countP fun x => x.outcome = .failed := by
  have hruns : Runs 65536 Handed.seq 1 (n.queued s) := by
    refine runs_iff.2 fun i hi => ?_
    obtain ⟨cmd, hmsg⟩ := hs.2 i hi
    rw [hmsg.seq, Nat.add_comm 1]
  rw [← hn.lost hsplit]
  exact (runs_filter_iff _ (hn.runs s)).1 hruns before h after hsplit (by simpa using hsent)

end Numbered

theorem Reachable.numbered {n : Node} (h : n.Reachable) : Numbered n :=
  (h.of_lines (I := fun m => Wires m ∧ Numbered m) (fun cfg => ⟨Wires.init cfg, Numbered.init cfg⟩)
    fun hf hl hi => ⟨hi.1.line hf hl, hi.2.line hi.1 hl⟩).2

/-- The sends before the sockets are closed are numbered like all the others. -/
theorem Numbered.stopped {n n' : Node} {env : Env} {gossip : Bool} (hf : Filed n) (hw : Wires n) (hn : Numbered n)
    (hs : n.stop env gossip = .ok n') : Numbered n' := by
  obtain ⟨m, hm, hclose⟩ := bind_eq_ok_iff.1 hs
  cases hclose
  let n₀ : Node := { n with running := false }
  have hf₀ : Filed n₀ := ⟨hf.key, hf.apart, hf.alloc, hf.pendingInj⟩
  have hw₀ : Wires n₀ := ⟨hw.count, hw.own, hw.opened, hw.connected, hw.torn, hw.entry, hw.ready⟩
  have hn₀ : Numbered n₀ := hn.still rfl fun _ _ hd => ⟨hd, rfl⟩
  have hnm : Numbered m := ((takeLeave_takesLeave n m hm).lines.invariant
    (I := fun k => Filed k ∧ Wires k ∧ Numbered k)
    (fun hl hi => ⟨hi.1.line hl, hi.2.1.line hi.1 hl, hi.2.2.line hi.2.1 hl⟩) ⟨hf₀, hw₀, hn₀⟩).2.2
  have hrest := m.closeAll_rest
  have hobj : ∀ s, (m.closeAll.obj s).dealer = none ∨ m.closeAll.obj s = m.obj s := by
    intro s
    unfold closeAll
    simp only [disconnects_obj]
    split
    · exact Or.inl rfl
    split
    · exact Or.inl rfl
    · exact Or.inr rfl
  refine hnm.still (by rw [hrest]) fun r d hd => ?_
  rcases hobj r with hnone | hsame
  · rw [hnone] at hd
    cases hd
  · rw [hsame] at hd
    exact ⟨hd, by rw [hsame]⟩

/-- On every socket, what is queued starts with HELLO number 1 and is numbered without a gap, as long as
nothing is queued after a failed send; and a gap is what a failed send leaves, short of 65536 of them. This goes for
what `stop` sends as well. -/
theorem Reachable.in_sequence {n m : Node} (h : n.Reachable) (s : ℕ)
    (hm : m = n ∨ ∃ env gossip, n.stop env gossip = .ok m) :
    (m.Unbroken s → m.InSequence s) ∧
    (m.InSequence s → ∀ before x after, m.attempts s = before ++ x :: after → x.outcome = .sent →
      65536 ∣ before.countP fun y => y.outcome = .failed) := by
  have hn : Numbered m := by
    rcases hm with rfl | ⟨env, gossip, hs⟩
    · exact h.numbered
    · exact Numbered.stopped (Filed.of_tables h.tables) h.wires h.numbered hs
  exact ⟨hn.inSequence, fun hseq _ _ _ hsplit hsent => hn.unnoticed hseq hsplit hsent⟩

/-- A peer that was greeted, then sent a JOIN. -/
def sampleTwice : Node := sampleGreeted.after (Env.calm 0) (.command (.join sampleGroup))

/-- Then the node stops, in gossip mode. -/
def sampleStopped : Node := (sampleTwice.stop (Env.calm 0) true).toOption.getD sampleTwice

theorem in_sequence_stopped :
    (sampleStopped.queued 0).map Handed.seq = [1, 2, 3, 4] ∧ sampleStopped.InSequence 0 := by
  have hsent : ∀ h ∈ sampleStopped.outbox, h.outcome = .sent := by decide +kernel
  have hn : sampleTwice.Reachable := ((Reachable.init _).after _ _).after _ _
  have hstop : sampleTwice.stop (Env.calm 0) true = .ok sampleStopped := eq_ok_getD (by decide +kernel)
  refine ⟨by decide +kernel, (Reachable.in_sequence hn 0 (Or.inr ⟨_, _, hstop⟩)).1 ?_⟩
  intro before h after hsplit _ x hx
  have hmem : x ∈ sampleStopped.attempts 0 := by
    rw [hsplit]
    exact List.mem_append_left _ hx
  rw [hsent x (mem_attempts.1 hmem).1]
  simp

/-- Every send fails, but no queue is full. -/
def sampleBroken : Env := { Env.calm 0 with send := fun _ => .failed }

/-- The JOIN of a group is lost, the LEAVE is queued. -/
def sampleGap : Node :=
  (sampleGreeted.after sampleBroken (.command (.join sampleGroup))).after (Env.calm 0)
    (.command (.leave sampleGroup))

/-- The numbers 1 and 3 without 2. -/
theorem gap : ¬ ∀ n : Node, n.Reachable → ∀ s, n.InSequence s := by
  intro hall
  have hn : sampleGap.Reachable := (((Reachable.init _).after _ _).after _ _).after _ _
  have hseqs : (sampleGap.queued 0).map Handed.seq = [1, 3] := by decide +kernel
  have hlen : 1 < (sampleGap.queued 0).length := by
    rw [← List.length_map Handed.seq, hseqs]
    decide
  obtain ⟨cmd, hmsg⟩ := (hall sampleGap hn 0).2 1 hlen
  have hsecond : ((sampleGap.queued 0).map Handed.seq)[1]? = some 2 := by
    rw [List.getElem?_map, List.getElem?_eq_getElem hlen]
    exact congrArg some hmsg.seq
  rw [hseqs] at hsecond
  simp at hsecond

end Node

end Zre
