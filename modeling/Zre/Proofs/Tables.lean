import Zre.Run
import Zre.Proofs.Talk

/-!
# Proofs: the peer and group tables

`Tables` is the invariant that ties `_peers`, `_pending`, the peer tables of the groups and the group
sets of the peers together. Every handler is a sequence of a few moves on them, and each move has its
own lemma.
-/

namespace Zre

open Fallible

/-- The peer and group tables agree. -/
structure Tables (n : Node) : Prop where
  key : ∀ k r, n.peers.get k = some r → (n.obj r).uuidHex = k
  foreign : n.peers.get n.cfg.peerIdHex = none
  apart : ∀ k k' r, n.peers.get k = some r → n.pending.get k' ≠ some r
  member : ∀ g p r, n.member g p = some r ↔ n.peers.get p = some r ∧ g ∈ (n.obj r).groups
  alloc : ∀ k r, n.peers.get k = some r ∨ n.pending.get k = some r → r < n.nextRef
  pendingInj : ∀ k k' r, n.pending.get k = some r → n.pending.get k' = some r → k = k'
  pendingIdle : ∀ k r, n.pending.get k = some r → (n.obj r).groups = []

theorem Tables.peers_nodup {n : Node} (ht : Tables n) : n.peers.values.Nodup :=
  Dict.values_nodup _ fun k k' r hk hk' => (ht.key k r hk).symm.trans (ht.key k' r hk')

/-- Nothing that the tables speak about has changed; new objects are in no table. -/
structure Same (n n' : Node) : Prop where
  cfg : n'.cfg = n.cfg
  peers : n'.peers = n.peers
  pending : n'.pending = n.pending
  nextRef : n.nextRef ≤ n'.nextRef
  member : ∀ g p, n'.member g p = n.member g p
  uuidHex : ∀ r, r < n.nextRef → (n'.obj r).uuidHex = (n.obj r).uuidHex
  groups : ∀ r, r < n.nextRef → (n'.obj r).groups = (n.obj r).groups

namespace Same

/-- Sending and electing change nothing in the tables. -/
theorem of_talk {L : Prop} {K : Handed → Prop} {n n' : Node} (h : Talk L K n n') : Same n n' :=
  ⟨h.cfg, h.peers, h.pending, Nat.le_of_eq h.nextRef.symm, h.member, fun r _ => h.uuidHex r,
    fun r _ => h.groups r⟩

/-- Nor does a write to an object that keeps its id and its groups. -/
theorem setObj (n : Node) (r : Ref) {p : Peer} (hu : p.uuidHex = (n.obj r).uuidHex)
    (hg : p.groups = (n.obj r).groups) : Same n (n.setObj r p) :=
  ⟨rfl, rfl, rfl, le_rfl, fun _ _ => rfl, fun s _ => Node.setObj_congr Peer.uuidHex n r hu s,
    fun s _ => Node.setObj_congr Peer.groups n r hg s⟩

end Same

/-- The invariant only depends on what `Same` compares. -/
theorem Tables.of_same {n n' : Node} (h : Same n n') (ht : Tables n) : Tables n' := by
  obtain ⟨hcfg, hpeers, hpending, hnext, hmember, hu, hg⟩ := h
  constructor
  · intro k r hk
    rw [hpeers] at hk
    rw [hu r (ht.alloc k r (Or.inl hk))]
    exact ht.key k r hk
  · rw [hpeers, hcfg]; exact ht.foreign
  · intro k k' r hk; rw [hpending]; rw [hpeers] at hk; exact ht.apart k k' r hk
  · intro g p r
    rw [hmember, hpeers, ht.member]
    refine and_congr_right fun hp => ?_
    rw [hg r (ht.alloc p r (Or.inl hp))]
  · intro k r hk
    rw [hpeers, hpending] at hk
    exact lt_of_lt_of_le (ht.alloc k r hk) hnext
  · intro k k' r; rw [hpending]; exact ht.pendingInj k k' r
  · intro k r hk
    rw [hpending] at hk
    rw [hg r (ht.alloc k r (Or.inr hk))]
    exact ht.pendingIdle k r hk

theorem Tables.init (cfg : Config) : Tables (Node.init cfg) := by
  constructor <;> simp [Node.init, Node.member, Dict.get_empty]

/-! ## The moves -/

/-- A peer's set and a group's table are written together: afterwards the peer is in the group, or not. -/
theorem Tables.regroup {n n' : Node} (ht : Tables n) {k : Str} {r : Ref} {g : Bytes} {entry : Option Ref}
    (hentry : ∀ s, entry = some s → s = r)
    (hk : n.peers.get k = some r) (hcfg : n'.cfg = n.cfg) (hpeers : n'.peers = n.peers)
    (hpending : n'.pending = n.pending) (hnext : n'.nextRef = n.nextRef)
    (hu : ∀ s, (n'.obj s).uuidHex = (n.obj s).uuidHex)
    (hgr : ∀ x, x ∈ (n'.obj r).groups ↔ if x = g then entry = some r else x ∈ (n.obj r).groups)
    (hgs : ∀ s, s ≠ r → (n'.obj s).groups = (n.obj s).groups)
    (hm : ∀ g' p, n'.member g' p = if g' = g ∧ p = k then entry else n.member g' p) : Tables n' := by
  constructor
  · intro j s hj; rw [hu]; rw [hpeers] at hj; exact ht.key j s hj
  · rw [hpeers, hcfg]; exact ht.foreign
  · intro j j' s hj; rw [hpending]; rw [hpeers] at hj; exact ht.apart j j' s hj
  · intro g' p s
    rw [hm, hpeers]
    by_cases hp : g' = g ∧ p = k
    · obtain ⟨rfl, rfl⟩ := hp
      rw [if_pos ⟨rfl, rfl⟩, hk]
      constructor
      · intro h
        obtain rfl := hentry s h
        exact ⟨rfl, (hgr _).2 (by rwa [if_pos rfl])⟩
      · rintro ⟨⟨⟩, hmem⟩
        have h := (hgr _).1 hmem
        rwa [if_pos rfl] at h
    · rw [if_neg hp, ht.member]
      by_cases hs : s = r
      · subst hs
        rw [hgr]
        refine and_congr_right fun h => ?_
        have hne : ¬ g' = g := fun e => hp ⟨e, (ht.key p s h).symm.trans (ht.key k s hk)⟩
        rw [if_neg hne]
      · rw [hgs s hs]
  · intro j s hj; rw [hnext]; rw [hpeers, hpending] at hj; exact ht.alloc j s hj
  · intro j j' s; rw [hpending]; exact ht.pendingInj j j' s
  · intro j s hj
    rw [hpending] at hj
    have hs : s ≠ r := fun e => ht.apart k j r hk (e ▸ hj)
    rw [hgs s hs]
    exact ht.pendingIdle j s hj

/-- A peer enters a group. -/
theorem Tables.enter {n n' : Node} (ht : Tables n) {k : Str} {r : Ref} {g : Bytes}
    (hk : n.peers.get k = some r) (hcfg : n'.cfg = n.cfg) (hpeers : n'.peers = n.peers)
    (hpending : n'.pending = n.pending) (hnext : n'.nextRef = n.nextRef)
    (hu : ∀ s, (n'.obj s).uuidHex = (n.obj s).uuidHex)
    (hgr : ∀ x, x ∈ (n'.obj r).groups ↔ x ∈ (n.obj r).groups ∨ x = g)
    (hgs : ∀ s, s ≠ r → (n'.obj s).groups = (n.obj s).groups)
    (hm : ∀ g' p, n'.member g' p = if g' = g ∧ p = k then some r else n.member g' p) :
    Tables n' := by
  refine ht.regroup (fun s h => (Option.some.inj h).symm) hk hcfg hpeers hpending hnext hu (fun x => ?_) hgs hm
  rw [hgr]
  by_cases hx : x = g
  · simp [hx]
  · simp [hx]

/-- A peer leaves a group. -/
theorem Tables.leave {n n' : Node} (ht : Tables n) {k : Str} {r : Ref} {g : Bytes}
    (hk : n.peers.get k = some r) (hcfg : n'.cfg = n.cfg) (hpeers : n'.peers = n.peers)
    (hpending : n'.pending = n.pending) (hnext : n'.nextRef = n.nextRef)
    (hu : ∀ s, (n'.obj s).uuidHex = (n.obj s).uuidHex)
    (hgr : ∀ x, x ∈ (n'.obj r).groups ↔ x ∈ (n.obj r).groups ∧ x ≠ g)
    (hgs : ∀ s, s ≠ r → (n'.obj s).groups = (n.obj s).groups)
    (hm : ∀ g' p, n'.member g' p = if g' = g ∧ p = k then none else n.member g' p) :
    Tables n' := by
  refine ht.regroup (fun s h => by cases h) hk hcfg hpeers hpending hnext hu (fun x => ?_) hgs hm
  rw [hgr]
  by_cases hx : x = g
  · simp [hx]
  · simp [hx]

/-- A peer is forgotten, and with it its memberships. -/
theorem Tables.forget {n n' : Node} (ht : Tables n) {k : Str} (hcfg : n'.cfg = n.cfg)
    (hpeers : n'.peers = n.peers.pop k) (hpending : n'.pending = n.pending)
    (hnext : n'.nextRef = n.nextRef) (hu : ∀ s, (n'.obj s).uuidHex = (n.obj s).uuidHex)
    (hgs : ∀ s, (n'.obj s).groups = (n.obj s).groups)
    (hm : ∀ g' p, n'.member g' p = if p = k then none else n.member g' p) : Tables n' := by
  have hget : ∀ j s, n'.peers.get j = some s ↔ n.peers.get j = some s ∧ j ≠ k := by
    intro j s
    rw [hpeers, Dict.get_pop]
    by_cases h : k = j
    · simp [h]
    · rw [if_neg h]
      exact ⟨fun hj => ⟨hj, fun e => h e.symm⟩, fun hj => hj.1⟩
  constructor
  · intro j s hj; rw [hu]; exact ht.key j s ((hget j s).1 hj).1
  · rw [hpeers, hcfg, Dict.get_pop]
    split
    · rfl
    · exact ht.foreign
  · intro j j' s hj; rw [hpending]; exact ht.apart j j' s ((hget j s).1 hj).1
  · intro g' p s
    rw [hm, hget, hgs]
    by_cases hp : p = k
    · rw [if_pos hp]
      exact ⟨fun h => (by cases h), fun h => absurd hp h.1.2⟩
    · rw [if_neg hp, ht.member]
      exact ⟨fun h => ⟨⟨h.1, hp⟩, h.2⟩, fun h => ⟨h.1.1, h.2⟩⟩
  · intro j s hj
    rw [hnext]
    rw [hpending] at hj
    exact ht.alloc j s (hj.imp (fun h => ((hget j s).1 h).1) id)
  · intro j j' s; rw [hpending]; exact ht.pendingInj j j' s
  · intro j s; rw [hpending, hgs]; exact ht.pendingIdle j s

/-- A peer without groups is filed under an unused id that is not the node's own. It is a new object,
or one that was pending until now. -/
theorem Tables.file {n n' : Node} (ht : Tables n) {k : Str} {r : Ref} (hk : n.peers.get k = none)
    (hown : k ≠ n.cfg.peerIdHex) (hcfg : n'.cfg = n.cfg) (hpeers : n'.peers = n.peers.set k r)
    (hpending : ∀ j s, n'.pending.get j = some s ↔ n.pending.get j = some s ∧ s ≠ r)
    (hnext : n.nextRef ≤ n'.nextRef) (hr : r < n'.nextRef)
    (hold : ∀ j, n.peers.get j ≠ some r)
    (hur : (n'.obj r).uuidHex = k) (hgr : (n'.obj r).groups = [])
    (hu : ∀ s, s ≠ r → (n'.obj s).uuidHex = (n.obj s).uuidHex)
    (hgs : ∀ s, s ≠ r → (n'.obj s).groups = (n.obj s).groups)
    (hm : ∀ g p, n'.member g p = n.member g p) : Tables n' := by
  have hget : ∀ j s, n'.peers.get j = some s ↔ (j = k ∧ s = r) ∨ (j ≠ k ∧ n.peers.get j = some s) := by
    intro j s
    rw [hpeers, Dict.get_set]
    by_cases h : k = j
    · rw [if_pos h]
      constructor
      · rintro ⟨⟩; exact Or.inl ⟨h.symm, rfl⟩
      · rintro (⟨-, h2⟩ | ⟨h1, -⟩)
        · rw [h2]
        · exact absurd h.symm h1
    · rw [if_neg h]
      constructor
      · intro hj; exact Or.inr ⟨fun e => h e.symm, hj⟩
      · rintro (⟨h1, -⟩ | ⟨-, h2⟩)
        · exact absurd h1.symm h
        · exact h2
  constructor
  · intro j s hj
    rcases (hget j s).1 hj with ⟨rfl, rfl⟩ | ⟨-, hj'⟩
    · exact hur
    · rw [hu s (fun e => hold j (e ▸ hj'))]; exact ht.key j s hj'
  · rw [hcfg]
    cases hf : n'.peers.get n.cfg.peerIdHex with
    | none => rfl
    | some s =>
      rcases (hget _ s).1 hf with ⟨h1, -⟩ | ⟨-, h2⟩
      · exact absurd h1.symm hown
      · rw [ht.foreign] at h2; cases h2
  · intro j j' s hj hj'
    obtain ⟨hp, hs⟩ := (hpending j' s).1 hj'
    rcases (hget j s).1 hj with ⟨-, rfl⟩ | ⟨-, h2⟩
    · exact hs rfl
    · exact ht.apart j j' s h2 hp
  · intro g p s
    rw [hm, ht.member, hget]
    constructor
    · rintro ⟨h1, h2⟩
      have hs : s ≠ r := fun e => hold p (e ▸ h1)
      have hp : p ≠ k := by
        rintro rfl
        rw [hk] at h1
        cases h1
      exact ⟨Or.inr ⟨hp, h1⟩, by rw [hgs s hs]; exact h2⟩
    · rintro ⟨⟨rfl, rfl⟩ | ⟨-, h1⟩, h2⟩
      · rw [hgr] at h2; cases h2
      · have hs : s ≠ r := fun e => hold p (e ▸ h1)
        exact ⟨h1, by rw [hgs s hs] at h2; exact h2⟩
  · intro j s hj
    rcases hj with hj | hj
    · rcases (hget j s).1 hj with ⟨-, rfl⟩ | ⟨-, h2⟩
      · exact hr
      · exact lt_of_lt_of_le (ht.alloc j s (Or.inl h2)) hnext
    · exact lt_of_lt_of_le (ht.alloc j s (Or.inr ((hpending j s).1 hj).1)) hnext
  · intro j j' s hj hj'
    exact ht.pendingInj j j' s ((hpending j s).1 hj).1 ((hpending j' s).1 hj').1
  · intro j s hj
    obtain ⟨hp, hs⟩ := (hpending j s).1 hj
    rw [hgs s hs]
    exact ht.pendingIdle j s hp

/-- A new object is filed as a pending dial. -/
theorem Tables.dial {n n' : Node} (ht : Tables n) {k : Str} {r : Ref} (hcfg : n'.cfg = n.cfg)
    (hpeers : n'.peers = n.peers) (hpending : n'.pending = n.pending.set k r)
    (hnext : n.nextRef ≤ n'.nextRef) (hr : r < n'.nextRef) (hnew : n.nextRef ≤ r)
    (hgr : (n'.obj r).groups = [])
    (hu : ∀ s, s ≠ r → (n'.obj s).uuidHex = (n.obj s).uuidHex)
    (hgs : ∀ s, s ≠ r → (n'.obj s).groups = (n.obj s).groups)
    (hm : ∀ g p, n'.member g p = n.member g p) : Tables n' := by
  have hold : ∀ j s, n.peers.get j = some s ∨ n.pending.get j = some s → s ≠ r := by
    intro j s hj e
    have hlt := ht.alloc j s hj
    rw [e] at hlt
    exact absurd hlt (Nat.not_lt.2 hnew)
  have hget : ∀ j s, n'.pending.get j = some s → (j = k ∧ s = r) ∨ (n.pending.get j = some s ∧ s ≠ r) := by
    intro j s hj
    rw [hpending, Dict.get_set] at hj
    split at hj
    · rename_i h; cases hj; exact Or.inl ⟨h.symm, rfl⟩
    · exact Or.inr ⟨hj, hold j s (Or.inr hj)⟩
  constructor
  · intro j s hj
    rw [hpeers] at hj
    rw [hu s (hold j s (Or.inl hj))]
    exact ht.key j s hj
  · rw [hpeers, hcfg]; exact ht.foreign
  · intro j j' s hj hj'
    rw [hpeers] at hj
    rcases hget j' s hj' with ⟨-, rfl⟩ | ⟨h, -⟩
    · exact hold j s (Or.inl hj) rfl
    · exact ht.apart j j' s hj h
  · intro g p s
    rw [hm, ht.member, hpeers]
    constructor
    · rintro ⟨h1, h2⟩; exact ⟨h1, by rw [hgs s (hold p s (Or.inl h1))]; exact h2⟩
    · rintro ⟨h1, h2⟩; exact ⟨h1, by rw [hgs s (hold p s (Or.inl h1))] at h2; exact h2⟩
  · intro j s hj
    rw [hpeers] at hj
    rcases hj with hj | hj
    · exact lt_of_lt_of_le (ht.alloc j s (Or.inl hj)) hnext
    · rcases hget j s hj with ⟨-, rfl⟩ | ⟨h, -⟩
      · exact hr
      · exact lt_of_lt_of_le (ht.alloc j s (Or.inr h)) hnext
  · intro j j' s hj hj'
    rcases hget j s hj with ⟨rfl, rfl⟩ | ⟨h, hne⟩ <;> rcases hget j' s hj' with ⟨rfl, h2⟩ | ⟨h', hne'⟩
    · rfl
    · exact absurd rfl hne'
    · exact absurd h2 hne
    · exact ht.pendingInj j j' s h h'
  · intro j s hj
    rcases hget j s hj with ⟨-, rfl⟩ | ⟨h, hne⟩
    · exact hgr
    · rw [hgs s hne]; exact ht.pendingIdle j s h

/-- A pending dial is dropped. -/
theorem Tables.dropDial {n n' : Node} (ht : Tables n) (k : Str) (hcfg : n'.cfg = n.cfg)
    (hpeers : n'.peers = n.peers) (hpending : n'.pending = n.pending.pop k)
    (hnext : n'.nextRef = n.nextRef) (hu : ∀ s, (n'.obj s).uuidHex = (n.obj s).uuidHex)
    (hgs : ∀ s, (n'.obj s).groups = (n.obj s).groups)
    (hm : ∀ g p, n'.member g p = n.member g p) : Tables n' := by
  have hget : ∀ j s, n'.pending.get j = some s → n.pending.get j = some s := by
    intro j s hj
    rw [hpending, Dict.get_pop] at hj
    split at hj
    · cases hj
    · exact hj
  constructor
  · intro j s hj; rw [hu]; rw [hpeers] at hj; exact ht.key j s hj
  · rw [hpeers, hcfg]; exact ht.foreign
  · intro j j' s hj hj'; rw [hpeers] at hj; exact ht.apart j j' s hj (hget j' s hj')
  · intro g p s; rw [hm, hpeers, hgs]; exact ht.member g p s
  · intro j s hj
    rw [hnext]
    rw [hpeers] at hj
    exact ht.alloc j s (hj.imp id (hget j s))
  · intro j j' s hj hj'; exact ht.pendingInj j j' s (hget j s hj) (hget j' s hj')
  · intro j s hj; rw [hgs]; exact ht.pendingIdle j s (hget j s hj)

end Zre
