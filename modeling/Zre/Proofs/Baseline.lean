import Zre.Proofs.Counters
import Zre.Proofs.Licences
import Zre.Proofs.Wires

/-!
# Proofs: where a receiver starts to count

A HELLO sets the counter of its sender's record to 1, if there is a record. The record that the HELLO itself creates
or takes over starts at 0, and so does the count after a HELLO that is not the first frame of its connection: the
frame after it is then reported as a gap.
-/

namespace Zre

open Fallible

namespace Node

/-! ## Objects that no frame was received for -/

/-- Pending dials, and objects that do not exist yet, were not counted and are not ready. -/
structure Unheard (n : Node) : Prop where
  pending : ∀ k r, n.pending.get k = some r → (n.obj r).wantSeq = 0 ∧ (n.obj r).ready = false
  fresh : ∀ r, n.nextRef ≤ r → (n.obj r).wantSeq = 0 ∧ (n.obj r).ready = false

/-- A step finds its objects in the tables, or creates them. -/
structure Sources (n n' : Node) : Prop where
  next : n.nextRef ≤ n'.nextRef
  pending : ∀ k r, n'.pending.get k = some r → (∃ j, n.pending.get j = some r) ∨ n.nextRef ≤ r
  peers : ∀ k r, n'.peers.get k = some r →
    n.peers.get k = some r ∨ (∃ j, n.pending.get j = some r) ∨ n.nextRef ≤ r

section Sources

variable {env : Env} {w : Tidings} {l : Licence} {n n' n'' : Node}

theorem Sources.trans (h1 : Sources n n') (h2 : Sources n' n'') : Sources n n'' := by
  have hnew : ∀ {r}, n'.nextRef ≤ r → n.nextRef ≤ r := fun h => h1.next.trans h
  refine ⟨h1.next.trans h2.next, fun k r hk => ?_, fun k r hk => ?_⟩
  · rcases h2.pending k r hk with ⟨j, hj⟩ | h
    · exact h1.pending j r hj
    · exact Or.inr (hnew h)
  · rcases h2.peers k r hk with h | ⟨j, hj⟩ | h
    · exact h1.peers k r h
    · exact Or.inr (h1.pending j r hj)
    · exact Or.inr (Or.inr (hnew h))

/-- Nothing was filed. -/
theorem Sources.sub (hn : n.nextRef ≤ n'.nextRef)
    (hq : ∀ k r, n'.pending.get k = some r → n.pending.get k = some r)
    (hp : ∀ k r, n'.peers.get k = some r → n.peers.get k = some r) : Sources n n' :=
  ⟨hn, fun k r hk => Or.inl ⟨k, hq k r hk⟩, fun k r hk => Or.inl (hp k r hk)⟩

theorem sources_line (h : Line env w n n') : Sources n n' := by
  have hset : ∀ {d : Dict Str Ref} {j k : Str} {s r : Ref}, (d.set j s).get k = some r →
      d.get k = some r ∨ r = s := by
    intro d j k s r hk
    rw [Dict.get_set] at hk
    split at hk
    · exact Or.inr (Option.some.inj hk).symm
    · exact Or.inl hk
  cases h with
  | idle h => rw [h.rest]; exact Sources.sub le_rfl (fun _ _ => id) fun _ _ => id
  | learn | hail | refresh | hand => exact Sources.sub le_rfl (fun _ _ => id) fun _ _ => id
  | waste => exact Sources.sub (Nat.le_succ _) (fun _ _ => id) fun _ _ => id
  | greet k addr port p h =>
    refine ⟨Nat.le_succ _, fun j r hj => Or.inl ⟨j, hj⟩, fun j r hj => ?_⟩
    rcases hset hj with hj | rfl
    · exact Or.inl hj
    · exact Or.inr (Or.inr le_rfl)
  | call k addr port h =>
    refine ⟨Nat.le_succ _, fun j r hj => ?_, fun j r hj => Or.inl hj⟩
    rcases hset hj with hj | rfl
    · exact Or.inl ⟨j, hj⟩
    · exact Or.inr le_rfl
  | adopt k r rhex hp =>
    refine ⟨le_rfl, fun j s hj => Or.inl ⟨j, Dict.get_of_get_pop hj⟩, fun j s hj => ?_⟩
    rcases hset hj with hj | rfl
    · exact Or.inl hj
    · exact Or.inr (Or.inl ⟨k, hp⟩)
  | forget => exact Sources.sub le_rfl (fun _ _ => id) fun _ _ => Dict.get_of_get_pop
  | drop => exact Sources.sub le_rfl (fun _ _ => Dict.get_of_get_pop) fun _ _ => id

theorem sources_lines (h : Lines env w n n') : Sources n n' := by
  induction h with
  | refl => exact Sources.sub le_rfl (fun _ _ => id) fun _ _ => id
  | tail _ hl ih => exact ih.trans (sources_line hl)

/-- Whoever is ready in the table, and was not made ready, was ready in the table. -/
theorem Unheard.held (hn : Unheard n) (hs : Sources n n') (hc : Counted l n n') {k : Str} {r : Ref}
    (hk : n'.peers.get k = some r) (hl : ¬ l.readies r) (hr : (n'.obj r).ready = true) :
    n.peers.get k = some r ∧ (n.obj r).ready = true := by
  have hready := hc.ready r hl hr
  rcases hs.peers k r hk with h | ⟨j, hj⟩ | h
  · exact ⟨h, hready⟩
  · rw [(hn.pending j r hj).2] at hready
    cases hready
  · rw [(hn.fresh r h).2] at hready
    cases hready

/-- Whoever is new in the table was not counted. -/
theorem Unheard.uncounted (hn : Unheard n) (hs : Sources n n') (hc : Counted l n n') {k : Str} {r : Ref}
    (hk : n'.peers.get k = some r) (hnew : n.peers.get k ≠ some r) (hl : ¬ l.counts r) :
    (n'.obj r).wantSeq = 0 := by
  have hold : (n.obj r).wantSeq = 0 := by
    rcases hs.peers k r hk with h | ⟨j, hj⟩ | h
    · exact absurd h hnew
    · exact (hn.pending j r hj).1
    · exact (hn.fresh r h).1
  rcases hc.wantSeq r hl with h | ⟨-, h⟩
  · rw [h, hold]
  · exact h

/-- A licence to count those in the table, and to ready those who are there afterwards. -/
def mayHear (n n' : Node) : Licence :=
  ⟨fun _ => True, fun r => ∃ k, n.peers.get k = some r, fun r => ∃ k, n'.peers.get k = some r⟩

theorem covers_mayHear (n : Node) (input : Input) (n' : Node) : Covers (mayHear n n') n input n' :=
  ⟨fun _ uuid _ _ _ _ _ _ => ⟨fun _ => trivial, fun _ hk => ⟨hex uuid, hk⟩, fun _ hk => ⟨hex uuid, hk⟩⟩,
    fun _ uuid _ _ _ _ _ _ hk _ => ⟨fun _ => trivial, ⟨hex uuid, hk⟩⟩, fun _ _ _ _ _ _ _ _ _ => trivial⟩

theorem Unheard.step (hn : Unheard n) (ht : Tables n) {input : Input} (hs : n.step env input = .ok n') :
    Unheard n' := by
  have hlines := lines_step env ht input n' hs
  have hf' : Filed n' := (Filed.of_tables ht).lines hlines
  have hsrc := sources_lines hlines
  have hc := counted_step ht hs (covers_mayHear n input n')
  have hkeep : ∀ r, (∀ k, n.peers.get k ≠ some r) → (∀ k, n'.peers.get k ≠ some r) →
      (n.obj r).wantSeq = 0 ∧ (n.obj r).ready = false → (n'.obj r).wantSeq = 0 ∧ (n'.obj r).ready = false := by
    rintro r hout hout' ⟨hw, hr⟩
    constructor
    · rcases hc.wantSeq r (fun ⟨k, hk⟩ => hout k hk) with h | ⟨-, h⟩
      · rw [h, hw]
      · exact h
    · rw [Bool.eq_false_iff]
      intro hr'
      rw [hc.ready r (fun ⟨k, hk⟩ => hout' k hk) hr'] at hr
      cases hr
  have hnew : ∀ r, n.nextRef ≤ r → ∀ k, n.peers.get k ≠ some r := fun r hr k hk =>
    absurd (ht.alloc k r (Or.inl hk)) (Nat.not_lt.2 hr)
  constructor
  · intro k r hk
    have hout' : ∀ j, n'.peers.get j ≠ some r := fun j hj => hf'.apart j k r hj hk
    rcases hsrc.pending k r hk with ⟨j, hj⟩ | h
    · exact hkeep r (fun i hi => ht.apart i j r hi hj) hout' (hn.pending j r hj)
    · exact hkeep r (hnew r h) hout' (hn.fresh r h)
  · intro r hr
    have hr0 : n.nextRef ≤ r := hsrc.next.trans hr
    exact hkeep r (hnew r hr0) (fun k hk => absurd (hf'.alloc k r (Or.inl hk)) (Nat.not_lt.2 hr)) (hn.fresh r hr0)

theorem Reachable.unheard (h : n.Reachable) : Unheard n := by
  induction h with
  | init cfg => exact ⟨fun k r hk => absurd hk (by simp [Node.init, Dict.get_empty]), fun r _ => ⟨rfl, rfl⟩⟩
  | step env input hn hs ih => exact ih.step hn.tables hs

end Sources

/-! ## The stream of one sender -/

/-- A frame of the sender, and the state in which it was found. -/
structure Receipt where
  before : Node
  msg : Msg

/-- The message is a HELLO. -/
def IsHello (msg : Msg) : Prop := ∃ h, msg.fields = .hello h

/-- The frame is the next one after `l` on a connection on which nothing is lost: the frames are numbered from 1, by
a counter that has not started again, and the first is a HELLO. -/
structure Next (uuid : Bytes) (l : List Receipt) (frames : List Bytes) (msg : Msg) (extra : List Bytes) : Prop where
  carries : Carries frames uuid msg extra
  seq : msg.seq = l.length + 1
  lt : l.length + 1 < 65536
  first : l = [] → IsHello msg

/-- From some state that it can reach, the node has handled the frames `l` of the sender `uuid`, and whatever else
happened between them. -/
inductive Listens (uuid : Bytes) : List Receipt → Node → Prop where
  | start {n : Node} (hn : n.Reachable) : Listens uuid [] n
  | frame {l : List Receipt} {n n' : Node} {frames : List Bytes} {msg : Msg} {extra : List Bytes} (env : Env)
      (h : Listens uuid l n) (hnext : Next uuid l frames msg extra) (hs : n.step env (.peerMsg frames) = .ok n') :
      Listens uuid (l ++ [⟨n, msg⟩]) n'
  | other {l : List Receipt} {n n' : Node} (env : Env) (input : Input) (h : Listens uuid l n)
      (hno : ∀ frames msg extra, input = .peerMsg frames → ¬ Carries frames uuid msg extra)
      (hs : n.step env input = .ok n') : Listens uuid l n'

/-- `check_seq` reports a mismatch for the message of a ready peer. -/
def Reports (n : Node) (uuid : Bytes) (msg : Msg) : Prop :=
  ∃ r, n.peers.get (hex uuid) = some r ∧ (n.obj r).ready = true ∧
    ((n.obj r).checkSeq msg.cmd msg.seq).1 = true

/-- The last frame was a HELLO, and not one that is the first of its connection and finds a record. -/
def Astray (uuid : Bytes) (l : List Receipt) : Prop :=
  ∃ l0 a, l = l0 ++ [a] ∧ IsHello a.msg ∧ ¬ (l0 = [] ∧ a.before.peers.get (hex uuid) ≠ none)

/-- The record of a sender that is ready stands at the number of its last frame, unless that was a HELLO that went
astray. -/
def Level (uuid : Bytes) (l : List Receipt) (n : Node) : Prop :=
  l ≠ [] → ∀ r, n.peers.get (hex uuid) = some r → (n.obj r).ready = true →
    ((n.obj r).wantSeq = l.length ↔ ¬ Astray uuid l)

section Listens

variable {uuid : Bytes} {l : List Receipt} {n n' : Node} {env : Env}

theorem astray_append {a : Receipt} :
    Astray uuid (l ++ [a]) ↔ IsHello a.msg ∧ ¬ (l = [] ∧ a.before.peers.get (hex uuid) ≠ none) := by
  constructor
  · rintro ⟨l0, b, heq, hb⟩
    obtain ⟨rfl, rfl⟩ : l = l0 ∧ a = b := by simpa using List.append_inj' heq rfl
    exact hb
  · exact fun h => ⟨l, a, rfl, h⟩

theorem Listens.reachable (h : Listens uuid l n) : n.Reachable := by
  induction h with
  | start hn => exact hn
  | frame env _ _ hs ih => exact .step env _ ih hs
  | other env input _ _ hs ih => exact .step env input ih hs

/-- What is not from the sender leaves its record alone. -/
theorem Level.other (hn : n.Reachable) {input : Input}
    (hno : ∀ frames msg extra, input = .peerMsg frames → ¬ Carries frames uuid msg extra)
    (hs : n.step env input = .ok n') (h : Level uuid l n) : Level uuid l n' := by
  have ht := hn.tables
  have hlines := lines_step env ht input n' hs
  have hf' : Filed n' := (Filed.of_tables ht).lines hlines
  let l : Licence :=
    ⟨fun _ => True, fun r => n.peers.get (hex uuid) ≠ some r, fun r => n'.peers.get (hex uuid) ≠ some r⟩
  have hne : ∀ {frames uuid' msg extra}, input = .peerMsg frames → Carries frames uuid' msg extra →
      hex uuid' ≠ hex uuid := by
    intro frames uuid' msg extra hin hc heq
    exact hno frames msg extra hin (hex_injective heq ▸ hc)
  have hcount : ∀ {k : Str} {r : Ref}, k ≠ hex uuid → n.peers.get k = some r → l.counts r :=
    fun hk hr hr' => hk ((Filed.of_tables ht).inj hr hr')
  have hc : Counted l n n' := by
    refine counted_step ht hs ⟨?_, ?_, ?_⟩
    · intro frames uuid' msg extra h hin hcar hf
      exact ⟨fun _ => trivial, fun r hr => hcount (hne hin hcar) hr,
        fun r hr hr' => hne hin hcar (hf'.inj hr hr')⟩
    · intro frames uuid' msg extra r hin hcar hf hr hready
      exact ⟨fun _ => trivial, hcount (hne hin hcar) hr⟩
    · exact fun _ _ _ _ _ _ _ _ _ => trivial
  intro hl r hr hready
  obtain ⟨hk, hready0⟩ := hn.unheard.held (sources_lines hlines) hc hr (not_not.2 hr) hready
  have hlt : r < n.nextRef := ht.alloc _ r (Or.inl hk)
  have hsame := (hc.wantSeq r (not_not.2 hk)).resolve_right fun hnew => absurd hlt (Nat.not_lt.2 hnew.1)
  rw [hsame]
  exact h hl r hk hready0

/-- The HELLO of a known peer leaves the table as it is. -/
theorem handleHello_known {m : Node} {k : Str} {r : Ref} (hk : m.peers.get k = some r) (h : HelloFields) :
    Ensures (m.handleHello env k h (some r)) fun m' => m'.peers = m.peers := by
  unfold handleHello
  split
  · exact Ensures.ok rfl
  · split
    · split
      · exact Ensures.ok rfl
      · exact Ensures.error
    · split
      · exact Ensures.ok rfl
      · simp only [hk]
        split
        · exact Ensures.ok rfl
        · exact (enterPeer_record env _ k r h _ false).mono fun _ h => h.1

/-- A HELLO sets the counter of the record that it finds, and no other. -/
theorem Level.hello (hn : n.Reachable) {frames extra : List Bytes} {msg : Msg} (hc : Carries frames uuid msg extra)
    (hf : IsHello msg) (hs : n.step env (.peerMsg frames) = .ok n') : Level uuid (l ++ [⟨n, msg⟩]) n' := by
  have hsrc : Sources n n' := sources_lines (lines_step env hn.tables _ n' hs)
  obtain ⟨rid, data, rfl, hu, hd⟩ := hc
  obtain ⟨h, hfields⟩ := hf
  have hs' := (handlePeerMsg_hello env hu hd hfields extra).symm.trans hs
  have hpeers : (n.resetSeq (hex uuid)).peers = n.peers := (moves_resetSeq anything anything n _).2.1
  let lic : Licence := ⟨fun _ => True, fun _ => False, fun r => n'.peers.get (hex uuid) = some r⟩
  have hcounted : Counted lic (n.resetSeq (hex uuid)) n' := by
    rw [← hpeers] at hs'
    exact (within_handleHello (l := lic) _ (hex uuid) h (fun _ => trivial) n' hs' fun _ => id).toCounted
  intro _ r hr hready
  rw [astray_append, List.length_append, List.length_singleton]
  cases hk : n.peers.get (hex uuid) with
  | none =>
    have hreset : n.resetSeq (hex uuid) = n := by
      unfold resetSeq
      rw [hk]
    rw [hreset] at hcounted
    rw [hn.unheard.uncounted hsrc hcounted hr (by rw [hk]; simp) id]
    exact iff_of_false (by omega) fun hno => hno ⟨⟨h, hfields⟩, fun hknown => hknown.2 rfl⟩
  | some r0 =>
    have hsame : n'.peers = n.peers := by
      rw [hk] at hs'
      exact (handleHello_known (hpeers ▸ hk) h n' hs').trans hpeers
    rw [hsame, hk] at hr
    cases hr
    have hreset : ((n.resetSeq (hex uuid)).obj r).wantSeq = 1 := by
      unfold resetSeq
      rw [hk]
      exact congrArg Peer.wantSeq (setObj_obj_self n r _)
    have hnext : (n.resetSeq (hex uuid)).nextRef = n.nextRef := by
      unfold resetSeq
      split <;> rfl
    have hlt : r < (n.resetSeq (hex uuid)).nextRef := hnext ▸ hn.tables.alloc _ r (Or.inl hk)
    have hone : (n'.obj r).wantSeq = 1 := by
      rw [← hreset]
      exact (hcounted.wantSeq r id).resolve_right fun hnew => absurd hlt (Nat.not_lt.2 hnew.1)
    rw [hone]
    constructor
    · intro hlen hast
      exact hast.2 ⟨List.length_eq_zero_iff.1 (by omega), by simp⟩
    · intro hno
      have hl : l = [] := by
        by_contra hl
        exact hno ⟨⟨h, hfields⟩, fun hknown => hl hknown.1⟩
      rw [hl]
      rfl

/-- Any other frame of a ready peer is counted, and after it the counter stands at its number. -/
theorem Level.traffic (hn : n.Reachable) {frames extra : List Bytes} {msg : Msg}
    (hc : Carries frames uuid msg extra) (hf : ¬ IsHello msg) (hseq : msg.seq = l.length + 1)
    (hs : n.step env (.peerMsg frames) = .ok n') : Level uuid (l ++ [⟨n, msg⟩]) n' := by
  have hsrc : Sources n n' := sources_lines (lines_step env hn.tables _ n' hs)
  have hfields : ∀ h, msg.fields ≠ .hello h := fun h heq => hf ⟨h, heq⟩
  obtain ⟨rid, data, rfl, hu, hd⟩ := hc
  intro _ r hr hready
  by_cases hacc : ∃ r0, n.peers.get (hex uuid) = some r0 ∧ (n.obj r0).ready = true
  · obtain ⟨r0, hk, hr0⟩ := hacc
    have hs' := (handlePeerMsg_traffic env hu hd hfields hk hr0 extra).symm.trans hs
    have hkey := hn.tables.key _ r0 hk
    let lic : Licence := ⟨fun _ => True, fun s => s = r0, fun _ => False⟩
    have hcounted : Counted lic n n' :=
      (within_handleTraffic (l := lic) hkey msg extra (fun _ => trivial) rfl n' hs').toCounted
    obtain ⟨hheld, -⟩ := hn.unheard.held hsrc hcounted hr id hready
    rw [hk] at hheld
    cases hheld
    have harrive : ((n.arrive env (hex uuid) r msg).obj r).wantSeq = msg.seq := by
      unfold arrive refreshPeer
      simp only [checkSeq_eq]
      rw [setObj_congr Peer.wantSeq _ r (by rfl), setObj_obj_self, Peer.countFrame_wantSeq]
    have hnext : (n.arrive env (hex uuid) r msg).nextRef = n.nextRef := by
      unfold arrive refreshPeer
      simp only [checkSeq_eq]
      split <;> rfl
    let lic' : Licence := ⟨fun _ => True, fun _ => False, fun _ => False⟩
    have hkey' : ((n.arrive env (hex uuid) r msg).obj r).uuidHex = hex uuid := by rw [arrive_uuidHex, hkey]
    have hdispatch : Counted lic' (n.arrive env (hex uuid) r msg) n' :=
      (within_dispatch (l := lic') hkey' msg extra (fun _ => trivial) n' hs').toCounted
    have hlt : r < (n.arrive env (hex uuid) r msg).nextRef := hnext ▸ hn.tables.alloc _ r (Or.inl hk)
    have hstill := (hdispatch.wantSeq r id).resolve_right fun hnew => absurd hlt (Nat.not_lt.2 hnew.1)
    rw [hstill, harrive, hseq, List.length_append, List.length_singleton, astray_append]
    exact iff_of_true rfl fun h => hf h.1
  · push Not at hacc
    have hdropped := handlePeerMsg_dropped env hu hd hfields
      (fun r0 hk => Bool.eq_false_iff.2 (hacc r0 hk)) extra
    have hsame : n' = n := by
      have h := hdropped.symm.trans hs
      cases h
      rfl
    rw [hsame] at hr hready
    exact absurd hready (hacc r hr)

theorem Listens.level (h : Listens uuid l n) : Level uuid l n := by
  induction h with
  | start hn => exact fun hl => absurd rfl hl
  | @frame l n n' frames msg extra env h hnext hs ih =>
    by_cases hf : IsHello msg
    · exact Level.hello h.reachable hnext.carries hf hs
    · exact Level.traffic h.reachable hnext.carries hf hnext.seq hs
  | other env input h hno hs ih => exact Level.other h.reachable hno hs ih

/-- Only a HELLO is decoded from a frame with the command of one. -/
theorem isHello_of_cmd {data : Bytes} {msg : Msg} (h : Codec.decode data = .ok (some msg))
    (hcmd : msg.cmd = Cmd.hello) : IsHello msg := by
  unfold Codec.decode at h
  split at h
  · cases h
  · obtain ⟨sig, -, h⟩ := bind_eq_ok_iff.1 h
    split at h
    · cases h
    · obtain ⟨cmd, -, h⟩ := bind_eq_ok_iff.1 h
      obtain ⟨ver, -, h⟩ := bind_eq_ok_iff.1 h
      split at h
      · cases h
      · obtain ⟨seq, -, h⟩ := bind_eq_ok_iff.1 h
        obtain ⟨fields, hfields, h⟩ := bind_eq_ok_iff.1 h
        cases fields with
        | none => cases h
        | some fields =>
          cases h
          have hc : cmd = Cmd.hello := hcmd
          unfold Codec.decodeFields at hfields
          rw [if_pos hc] at hfields
          obtain ⟨hello, -, hfields⟩ := bind_eq_ok_iff.1 hfields
          cases hello with
          | none => cases hfields
          | some hello =>
            cases hfields
            exact ⟨hello, rfl⟩

/-- In every run, the next frame of the stream that is not a HELLO passes `check_seq` without a mismatch exactly
when its sender is not held as ready, or the frame before it did not go astray. -/
theorem Listens.passes_iff (h : Listens uuid l n) {frames extra : List Bytes} {msg : Msg}
    (hnext : Next uuid l frames msg extra) (hf : ¬ IsHello msg) :
    ¬ n.Reports uuid msg ↔ (n.Accepted (hex uuid) → ¬ Astray uuid l) := by
  have hl : l ≠ [] := fun hl => hf (hnext.first hl)
  have hcmd : msg.cmd ≠ Cmd.hello := by
    obtain ⟨rid, data, -, -, hd⟩ := hnext.carries
    exact fun hcmd => hf (isHello_of_cmd hd hcmd)
  have hcount : ∀ r, n.peers.get (hex uuid) = some r → (n.obj r).ready = true →
      (((n.obj r).checkSeq msg.cmd msg.seq).1 = true ↔ Astray uuid l) := by
    intro r hk hr
    have hlevel := h.level hl r hk hr
    have hrep : ((n.obj r).checkSeq msg.cmd msg.seq).1 = true ↔ (n.obj r).wantSeq ≠ l.length := by
      unfold Peer.checkSeq Peer.countSeq
      simp only [if_neg hcmd, hnext.seq, ne_eq, decide_eq_true_eq]
      omega
    rw [hrep, ne_eq, hlevel, not_not]
  constructor
  · rintro hno ⟨r, hk, hr⟩ hast
    exact hno ⟨r, hk, hr, (hcount r hk hr).2 hast⟩
  · rintro hno ⟨r, hk, hr, hrep⟩
    exact hno ⟨r, hk, hr⟩ ((hcount r hk hr).1 hrep)

end Listens

/-! ## A HELLO and a PING -/

/-- The HELLO of the peer `00…02`, decoded. -/
def sampleHelloMsg : Msg := ⟨Cmd.hello, zreVersion, 1, .hello sampleFields⟩

/-- The PING after it. -/
def samplePing : List Bytes := [1 :: sampleUuid, Codec.headBytes Cmd.ping 2]

def samplePingMsg : Msg := ⟨Cmd.ping, zreVersion, 2, .none⟩

theorem sampleHello_carries : Carries sampleHello sampleUuid sampleHelloMsg [] :=
  ⟨_, _, rfl, by decide +kernel, Codec.decode_hello (by decide) sampleFields_fits⟩

theorem samplePing_carries : Carries samplePing sampleUuid samplePingMsg [] :=
  ⟨_, _, rfl, by decide +kernel, Codec.decode_bare (by decide) ⟨by decide, by decide, by decide⟩⟩

theorem samplePing_not_hello : ¬ IsHello samplePingMsg := by
  rintro ⟨h, heq⟩
  cases heq

/-- The PING comes after the HELLO that the node `n` received first. -/
theorem samplePing_next (n : Node) : Next sampleUuid [⟨n, sampleHelloMsg⟩] samplePing samplePingMsg [] :=
  ⟨samplePing_carries, rfl, by simp, fun h => absurd h (List.cons_ne_nil _ _)⟩

theorem sampleHello_listens {n : Node} (hn : n.Reachable)
    (hs : raised (n.step (Env.calm 0) (.peerMsg sampleHello)) = none) :
    Listens sampleUuid [⟨n, sampleHelloMsg⟩] (n.after (Env.calm 0) (.peerMsg sampleHello)) :=
  .frame (Env.calm 0) (.start hn) ⟨sampleHello_carries, rfl, by simp, fun _ => ⟨sampleFields, rfl⟩⟩
    (step_after _ hs)

/-- A peer that was known from its beacon. -/
theorem passes_sample :
    ¬ (sampleGreeted.after (Env.calm 0) (.peerMsg sampleHello)).Reports sampleUuid samplePingMsg := by
  have hn : sampleGreeted.Reachable := Reachable.after (.init _) _ _
  refine ((sampleHello_listens hn (by decide +kernel)).passes_iff (samplePing_next _) samplePing_not_hello).2
    fun _ hast => ?_
  exact (astray_append (l := [])).1 hast |>.2 ⟨rfl, by decide +kernel⟩

/-- The PING of a peer that was unknown before its HELLO is reported as a gap. -/
theorem not_passes : ¬ ∀ (uuid : Bytes) (l : List Receipt) (n : Node) (frames extra : List Bytes) (msg : Msg),
    Listens uuid l n → Next uuid l frames msg extra → ¬ IsHello msg → ¬ n.Reports uuid msg := by
  intro hall
  have hn : sampleA.Reachable := .init _
  refine hall sampleUuid _ (sampleA.after (Env.calm 0) (.peerMsg sampleHello)) samplePing [] samplePingMsg
    (sampleHello_listens hn (by decide +kernel)) (samplePing_next _) samplePing_not_hello ?_
  exact ⟨0, by decide +kernel, by decide +kernel, by decide +kernel⟩

end Node

end Zre
