import Zre.Lib.Attendance
import Zre.Proofs.Rounds

/-!
# Proofs: the events about a peer

The events that a node emits about a peer are the reports of a directory. Each handler is taken apart
into steps of the directory, and the two laws of such reports are read off.
-/

namespace Zre

open Fallible Attendance

/-- What an event says about the attendance of a peer. -/
def Event.notice : Event → Notice Str
  | .enter id _ _ => .enter id
  | .exit id _ => .exit id
  | .join id _ _ => .word id
  | .leave id _ _ => .word id
  | .whisper id _ _ => .word id
  | .shout id _ _ _ => .word id
  | .leader _ _ _ => .other
  | .evasive _ _ => .other
  | .collision _ => .other

namespace Node

/-- How a node stands to an id. A record has a name from its first HELLO on. -/
def standing (n : Node) (k : Str) : Standing :=
  match n.peers.get k with
  | none => .absent
  | some r =>
    if (n.obj r).name = none then .stranger else if (n.obj r).ready then .ready else .torn

theorem standing_eq_absent {n : Node} {k : Str} : n.standing k = .absent ↔ n.peers.get k = none := by
  unfold standing
  cases n.peers.get k with
  | none => simp
  | some r =>
    simp only []
    split_ifs <;> simp

theorem standing_some {n : Node} {k : Str} {r : Ref} (hk : n.peers.get k = some r) :
    n.standing k = if (n.obj r).name = none then .stranger else if (n.obj r).ready then .ready else .torn := by
  unfold standing
  rw [hk]

/-- Who is ready has a name, and who is only dialled has none. -/
structure Frank (n : Node) : Prop where
  named : ∀ k r, n.peers.get k = some r → (n.obj r).ready = true → (n.obj r).name ≠ none
  pending : ∀ k r, n.pending.get k = some r → (n.obj r).name = none ∧ (n.obj r).ready = false

theorem Frank.init (cfg : Config) : (Node.init cfg).Frank := by
  constructor <;> simp [Node.init]

/-- A stretch of a run, as steps of the directory. -/
def Scene (P : Prop) (n n' : Node) : Prop :=
  n.Frank → n'.Frank ∧ ∃ l, n'.events = n.events ++ l ∧
    Steps P n.standing (l.map Event.notice) n'.standing

section Scene

variable {P : Prop} {n n' n'' : Node}

theorem Scene.refl (n : Node) : Scene P n n := fun hf => ⟨hf, [], by simp, Steps.refl⟩

theorem Scene.trans (h : Scene P n n') (h' : Scene P n' n'') : Scene P n n'' := by
  intro hf
  obtain ⟨hf', l, he, hs⟩ := h hf
  obtain ⟨hf'', l', he', hs'⟩ := h' hf'
  refine ⟨hf'', l ++ l', by rw [he', he, List.append_assoc], ?_⟩
  rw [List.map_append]
  exact hs.trans hs'

/-! ## Quiet stretches -/

/-- Nobody comes or goes, and nothing is said about anybody; a peer may stop being ready. -/
structure Hush (n n' : Node) : Prop where
  peers : n'.peers = n.peers
  pending : n'.pending = n.pending
  name : ∀ r, (n'.obj r).name = (n.obj r).name
  ready : ∀ r, (n'.obj r).ready = true → (n.obj r).ready = true
  events : ∃ l, n'.events = n.events ++ l ∧ ∀ e ∈ l, e.notice = .other

theorem Hush.refl (n : Node) : Hush n n :=
  ⟨rfl, rfl, fun _ => rfl, fun _ => id, [], by simp, by simp⟩

theorem Hush.trans (h : Hush n n') (h' : Hush n' n'') : Hush n n'' := by
  obtain ⟨l, he, hl⟩ := h.events
  obtain ⟨l', he', hl'⟩ := h'.events
  refine ⟨h'.peers.trans h.peers, h'.pending.trans h.pending, fun r => (h'.name r).trans (h.name r),
    fun r hr => h.ready r (h'.ready r hr), l ++ l', by rw [he', he, List.append_assoc], fun e hm => ?_⟩
  exact (List.mem_append.1 hm).elim (hl e) (hl' e)

theorem Hush.of_talk {L : Prop} {K : Handed → Prop} (h : Talk L K n n') : Hush n n' := by
  obtain ⟨l, he, hl⟩ := h.events
  refine ⟨h.peers, h.pending, fun r => ?_, fun r hr => ?_, l, he, fun e hm => ?_⟩
  · obtain ⟨s, hs | ⟨-, hs⟩⟩ := h.obj r <;> rw [hs]
    rfl
  · obtain ⟨s, hs⟩ := (h.obj r).of_ready hr
    rw [hs] at hr
    exact hr
  · have hlead := hl e hm
    cases e with
    | leader => rfl
    | _ => cases hlead

/-- A write that keeps the name and does not make anybody ready. -/
theorem Hush.setObj (n : Node) (r : Ref) {p : Peer} (hname : p.name = (n.obj r).name)
    (hready : p.ready = true → (n.obj r).ready = true) : Hush n (n.setObj r p) := by
  refine ⟨rfl, rfl, setObj_congr Peer.name n r hname, fun s hs => ?_, [], by simp [Node.setObj], by simp⟩
  rw [setObj_obj] at hs
  split at hs
  · rename_i hsr
    exact hsr ▸ hready hs
  · exact hs

/-- A node whose objects, tables and events are the same. -/
theorem Hush.of_eq (hp : n'.peers = n.peers) (hpend : n'.pending = n.pending) (hobj : n'.obj = n.obj)
    (he : n'.events = n.events) : Hush n n' :=
  ⟨hp, hpend, fun r => by rw [hobj], fun r => by rw [hobj]; exact id, [], by simp [he], by simp⟩

theorem Hush.emit (n : Node) {e : Event} (he : e.notice = .other) : Hush n (n.emit e) :=
  ⟨rfl, rfl, fun _ => rfl, fun _ => id, [e], rfl, by simpa using he⟩

theorem Hush.frank (h : Hush n n') (hf : n.Frank) : n'.Frank := by
  refine ⟨fun k r hk hr => ?_, fun k r hk => ?_⟩
  · rw [h.name]
    exact hf.named k r (h.peers ▸ hk) (h.ready r hr)
  · obtain ⟨hname, hidle⟩ := hf.pending k r (h.pending ▸ hk)
    refine ⟨(h.name r).trans hname, Bool.eq_false_iff.2 fun hr => ?_⟩
    rw [h.ready r hr] at hidle
    cases hidle

/-- An id whose record keeps its name stands as before, or is no longer ready. -/
theorem standing_kept {k : Str} (hp : n'.peers.get k = n.peers.get k)
    (hobj : ∀ r, n.peers.get k = some r →
      (n'.obj r).name = (n.obj r).name ∧ ((n'.obj r).ready = true → (n.obj r).ready = true)) :
    n'.standing k = n.standing k ∨ (n.standing k = .ready ∧ n'.standing k = .torn) := by
  unfold standing
  rw [hp]
  cases hk : n.peers.get k with
  | none => exact Or.inl rfl
  | some r =>
    obtain ⟨hname, hready⟩ := hobj r hk
    simp only [hname]
    cases hn : (n.obj r).name with
    | none => exact Or.inl rfl
    | some name =>
      cases hold : (n.obj r).ready <;> cases hnew : (n'.obj r).ready <;> simp_all

theorem Hush.scene (h : Hush n n') : Scene P n n' := by
  intro hf
  obtain ⟨l, he, hl⟩ := h.events
  refine ⟨h.frank hf, l, he, (Step.quiet (fun x hx => ?_) fun k => ?_).steps⟩
  · obtain ⟨e, hm, rfl⟩ := List.mem_map.1 hx
    exact hl e hm
  · exact standing_kept (by rw [h.peers]) fun r _ => ⟨h.name r, h.ready r⟩

/-! ## Meeting -/

/-- A new record is filed under an id that was not known. -/
theorem scene_meet {k : Str} {r : Ref} (hk : n.peers.get k = none)
    (hp : n'.peers = n.peers.set k r) (hr : n.Frank → (n'.obj r).name = none ∧ (n'.obj r).ready = false)
    (hobj : ∀ s, s ≠ r → n'.obj s = n.obj s) (hold : ∀ j, n.peers.get j ≠ some r)
    (hpend : ∀ j s, n'.pending.get j = some s → n.pending.get j = some s)
    (he : n'.events = n.events) : Scene P n n' := by
  intro hf
  obtain ⟨hname, hready⟩ := hr hf
  refine ⟨⟨fun j s hj hs => ?_, fun j s hj => ?_⟩, [], by simp [he],
    (Step.meet k ?_ ?_ fun j hj => ?_).steps⟩
  · by_cases hsr : s = r
    · rw [hsr, hready] at hs
      cases hs
    · rw [hobj s hsr] at hs ⊢
      rw [hp, Dict.get_set] at hj
      split at hj
      · cases hj
        exact absurd rfl hsr
      · exact hf.named j s hj hs
  · by_cases hsr : s = r
    · rw [hsr]
      exact ⟨hname, hready⟩
    · rw [hobj s hsr]
      exact hf.pending j s (hpend j s hj)
  · exact standing_eq_absent.2 hk
  · rw [standing_some (r := r) (by rw [hp]; exact Dict.get_set_self ..), if_pos hname]
  · have hget : n'.peers.get j = n.peers.get j := by rw [hp, Dict.get_set_ne _ _ (Ne.symm hj)]
    unfold standing
    rw [hget]
    cases hj' : n.peers.get j with
    | none => rfl
    | some s =>
      simp only []
      rw [hobj s fun e => hold j (e ▸ hj')]

/-- An object that no table knows may be anything. -/
theorem scene_alloc (ht : Tables n) (p : Peer) : Scene P n (n.allocated p) := by
  have hother : ∀ s, s < n.nextRef → (n.allocated p).obj s = n.obj s := fun s hs => by
    rw [allocated_obj, if_neg (Nat.ne_of_lt hs)]
  intro hf
  refine ⟨⟨fun j s hj hs => ?_, fun j s hj => ?_⟩, [], by simp [allocated, alloc, Node.setObj],
    (Step.quiet (by simp) fun k => Or.inl ?_).steps⟩
  · rw [hother s (ht.alloc j s (Or.inl hj))] at hs ⊢
    exact hf.named j s hj hs
  · rw [hother s (ht.alloc j s (Or.inr hj))]
    exact hf.pending j s hj
  · unfold standing
    show (match n.peers.get k with | none => _ | some r => _) = _
    cases hk : n.peers.get k with
    | none => rfl
    | some s =>
      simp only []
      rw [hother s (ht.alloc k s (Or.inl hk))]

/-- A dial that waits for its answer is not in the table. -/
theorem scene_dial (ht : Tables n) (env : Env) (k addr : Str) (port : Int)
    (curve : Option (Bytes × Bytes × Bytes)) :
    Scene P n { n.allocated (n.opened env k addr port curve) with
      pending := n.pending.set k n.nextRef } := by
  intro hf
  obtain ⟨hf', l, he, hs⟩ := scene_alloc (P := P) ht (n.opened env k addr port curve) hf
  refine ⟨⟨hf'.named, fun j s hj => ?_⟩, l, he, hs⟩
  simp only [Dict.get_set] at hj
  split at hj
  · cases hj
    exact ⟨congrArg Peer.name (allocated_obj_self n (n.opened env k addr port curve)),
      congrArg Peer.ready (allocated_obj_self n (n.opened env k addr port curve))⟩
  · exact hf'.pending j s hj

theorem scene_file (ht : Tables n) {k : Str} (hk : n.peers.get k = none) (env : Env) (addr : Str)
    (port : Int) (curve : Option (Bytes × Bytes × Bytes)) :
    Scene P n { n.allocated (n.opened env k addr port curve) with
      peers := n.peers.set k n.nextRef } := by
  refine scene_meet hk rfl (fun _ => ?_) (fun s hs => ?_) (fun j hj => ?_) (fun _ _ => id) rfl
  · exact ⟨congrArg Peer.name (allocated_obj_self n (n.opened env k addr port curve)),
      congrArg Peer.ready (allocated_obj_self n (n.opened env k addr port curve))⟩
  · show (n.allocated _).obj s = n.obj s
    rw [allocated_obj, if_neg hs]
  · exact absurd (ht.alloc j _ (Or.inl hj)) (Nat.lt_irrefl _)

theorem scene_adopt (ht : Tables n) (env : Env) {k rhex : Str} {r : Ref}
    (hp : n.pending.get k = some r) (hk : n.peers.get rhex = none) :
    Scene P n (n.adoptUnder env k r rhex) := by
  have hself : (n.adoptUnder env k r rhex).obj r =
      { n.obj r with uuidHex := rhex }.refresh env.now n.cfg.evTimeout n.cfg.exTimeout :=
    setObj_obj_self n r _
  refine scene_meet hk rfl (fun hf => ?_) (fun s hs => ?_) (fun j hj => ht.apart j k r hj hp)
    (fun j s hj => ?_) rfl
  · rw [hself]
    exact hf.pending k r hp
  · show (n.setObj r _).obj s = n.obj s
    rw [setObj_obj, if_neg hs]
  · have hj' : (n.pending.pop k).get j = some s := hj
    rw [Dict.get_pop] at hj'
    split at hj'
    · cases hj'
    · exact hj'

/-! ## Greetings, words and departures -/

/-- A known peer gets a name and is reported, followed by words about it. -/
theorem scene_greet (ht : Tables n) {k : Str} {r : Ref} (hk : n.peers.get k = some r)
    (hP : P → (n.obj r).name = none) (hp : n'.peers = n.peers) (hpend : n'.pending = n.pending)
    (hname : (n'.obj r).name ≠ none)
    (hobj : ∀ s, s ≠ r →
      (n'.obj s).name = (n.obj s).name ∧ ((n'.obj s).ready = true → (n.obj s).ready = true))
    {l l' : List Event} (he : n'.events = n.events ++ (l ++ l')) (hl : ∀ e ∈ l, e.notice = .other) {i : Nat}
    (hl' : l'.map Event.notice = .enter k :: List.replicate i (.word k)) : Scene P n n' := by
  intro hf
  have hne : ∀ j s, j ≠ k → n.peers.get j = some s → s ≠ r := by
    rintro j s hj hs rfl
    exact hj ((ht.key j s hs).symm.trans (ht.key k s hk))
  refine ⟨⟨fun j s hj hs => ?_, fun j s hj => ?_⟩, l ++ l', he, ?_⟩
  · by_cases hsr : s = r
    · rw [hsr]
      exact hname
    · rw [(hobj s hsr).1]
      exact hf.named j s (hp ▸ hj) ((hobj s hsr).2 hs)
  · have hj' : n.pending.get j = some s := hpend ▸ hj
    have hsr : s ≠ r := fun e => ht.apart k j r hk (e ▸ hj')
    obtain ⟨hn, hidle⟩ := hf.pending j s hj'
    refine ⟨(hobj s hsr).1.trans hn, Bool.eq_false_iff.2 fun hr => ?_⟩
    rw [(hobj s hsr).2 hr] at hidle
    cases hidle
  · -- the other peers first, then the one that is greeted
    have hquiet : Step P n.standing (l.map Event.notice)
        fun j => if j = k then n.standing k else n'.standing j := by
      refine Step.quiet (fun x hx => ?_) fun j => ?_
      · obtain ⟨e, hm, rfl⟩ := List.mem_map.1 hx
        exact hl e hm
      by_cases hj : j = k
      · left
        rw [if_pos hj, hj]
      · rw [if_neg hj]
        exact standing_kept (by rw [hp]) fun s hs => hobj s (hne j s hj hs)
    rw [List.map_append, hl']
    refine (hquiet.steps.tail (Step.greet k i (fun hp' => ?_) ?_ fun j hj => ?_))
    · rw [if_pos rfl, standing_some hk, if_pos (hP hp')]
    · rw [standing_some (r := r) (by rw [hp]; exact hk), if_neg hname]
      unfold Standing.Greeted
      cases (n'.obj r).ready <;> simp
    · rw [if_neg hj]

/-- Something is said about a ready peer. -/
theorem scene_word {k : Str} {r : Ref} (hk : n.peers.get k = some r) (hr : (n.obj r).ready = true)
    {e : Event} (he : e.notice = .word k) : Scene P n (n.emit e) := by
  intro hf
  refine ⟨⟨hf.named, hf.pending⟩, [e], rfl, ?_⟩
  rw [List.map_singleton, he]
  refine (Step.word k ?_).steps
  rw [standing_some hk, if_neg (hf.named k r hk hr), if_pos hr]

/-- A peer is given up. -/
theorem scene_forgotten (ht : Tables n) {k : Str} {r : Ref} (hk : n.peers.get k = some r)
    (hP : P → (n.obj r).name ≠ none) (gone : List Bytes) : Scene P n (n.forgotten k r gone) := by
  have hpop : ∀ j, (n.forgotten k r gone).peers.get j = if k = j then none else n.peers.get j :=
    fun j => Dict.get_pop n.peers k j
  have hobj : ∀ s, s ≠ r → (n.forgotten k r gone).obj s = n.obj s := fun s hs =>
    (setObj_obj n r s _).trans (if_neg hs)
  have hne : ∀ j s, k ≠ j → n.peers.get j = some s → s ≠ r := by
    rintro j s hj hs rfl
    exact hj ((ht.key k s hk).symm.trans (ht.key j s hs))
  intro hf
  refine ⟨⟨fun j s hj hs => ?_, fun j s hj => ?_⟩, [.exit k (pname (n.obj r))], rfl,
    (Step.depart k (fun hp => ?_) ?_ fun j hj => ?_).steps⟩
  · rw [hpop] at hj
    split at hj
    · cases hj
    · rename_i hkj
      rw [hobj s (hne j s hkj hj)] at hs ⊢
      exact hf.named j s hj hs
  · have hsr : s ≠ r := fun e => ht.apart k j r hk (e ▸ hj)
    rw [hobj s hsr]
    exact hf.pending j s hj
  · rw [standing_some hk, if_neg (hP hp)]
    unfold Standing.Greeted
    cases (n.obj r).ready <;> simp
  · rw [standing_eq_absent, hpop, if_pos rfl]
  · have hkj : k ≠ j := Ne.symm hj
    unfold standing
    rw [hpop, if_neg hkj]
    cases hj' : n.peers.get j with
    | none => rfl
    | some s =>
      simp only []
      rw [hobj s (hne j s hkj hj')]

/-- A dial that was not answered is given up. -/
theorem scene_dropDial (ht : Tables n) {k : Str} {r : Ref} (hp : n.pending.get k = some r) :
    Scene P n { n.setObj r (n.obj r).disconnect with pending := n.pending.pop k } := by
  have hobj : ∀ s, s ≠ r → (n.setObj r (n.obj r).disconnect).obj s = n.obj s := fun s hs => by
    rw [setObj_obj, if_neg hs]
  have hne : ∀ j s, n.peers.get j = some s → s ≠ r := by
    rintro j s hj rfl
    exact ht.apart j k s hj hp
  intro hf
  refine ⟨⟨fun j s hj hs => ?_, fun j s hj => ?_⟩, [], by simp [Node.setObj],
    (Step.quiet (by simp) fun j => Or.inl ?_).steps⟩
  · have hsame := hobj s (hne j s hj)
    exact hsame ▸ hf.named j s hj (hsame ▸ hs)
  · have hj' : (n.pending.pop k).get j = some s := hj
    rw [Dict.get_pop] at hj'
    split at hj'
    · cases hj'
    · rename_i hkj
      have hsr : s ≠ r := fun e => hkj (ht.pendingInj k j r hp (e ▸ hj'))
      have hsame := hobj s hsr
      exact hsame ▸ hf.pending j s hj'
  · unfold standing
    show (match n.peers.get j with | none => _ | some r => _) = _
    cases hj : n.peers.get j with
    | none => rfl
    | some s =>
      simp only []
      rw [hobj s (hne j s hj)]

end Scene

end Node

end Zre
