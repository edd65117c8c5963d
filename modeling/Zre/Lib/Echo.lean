import Mathlib.Data.Finset.Max
import Mathlib.Data.Fintype.Card
import Mathlib.Logic.Function.Basic

/-!
# Echo waves with extinction

Everybody on a complete network starts a wave for itself, and the wave of a lower candidate extinguishes those
of the higher ones. A wave is over when its candidate has heard it from everybody else; the candidate then
calls itself the leader, and the call is passed on once by everybody. Links are queues, and nothing is lost.

Who supports a candidate may also say so again. The counts do not tell a repetition from a new voice.
-/

namespace Echo

variable {V K : Type*}

/-- What somebody knows about the election: the candidate that is supported, from whom it was learned, and how
many waves and calls were heard for it. -/
structure Ballot (V : Type*) where
  caw : V
  father : Option V
  erec : ℕ
  lrec : ℕ

/-- A wave or a call. -/
inductive Msg (V : Type*) where
  | elect (w : V)
  | lead (w : V)

/-- The ballots, what is on its way, and the leaders that were announced. A closed election has no ballot. -/
structure State (V : Type*) where
  ballot : V → Option (Ballot V)
  link : V → V → List (Msg V)
  told : V → List V

/-- How many others there are. -/
def others (V : Type*) [Fintype V] : ℕ := Fintype.card V - 1

section Steps

variable [DecidableEq V]

namespace State

/-- Nobody has started. -/
def blank : State V := ⟨fun _ => none, fun _ _ => [], fun _ => []⟩

/-- Everybody has started a wave. -/
def start : State V where
  ballot v := some ⟨v, none, 0, 0⟩
  link u v := if u = v then [] else [.elect u]
  told _ := []

def put (s : State V) (v : V) (b : Option (Ballot V)) : State V :=
  { s with ballot := Function.update s.ballot v b }

/-- The first message from `u` to `v` is taken. -/
def take (s : State V) (u v : V) : State V :=
  { s with link := fun a c => if a = u ∧ c = v then (s.link a c).tail else s.link a c }

/-- `v` sends at most one message to each. -/
def post (s : State V) (v : V) (out : V → Option (Msg V)) : State V :=
  { s with link := fun a c => if a = v then s.link a c ++ (out c).toList else s.link a c }

def tell (s : State V) (v w : V) : State V :=
  { s with told := Function.update s.told v (s.told v ++ [w]) }

/-- No message is on its way. -/
def Quiet (s : State V) : Prop := ∀ u v, s.link u v = []

end State

/-- A message to everybody else, with one exception at most. -/
def toRest (x : Option V) (v : V) (msg : Msg V) : V → Option (Msg V) :=
  fun c => if c = v ∨ x = some c then none else some msg

/-- The wave, to the one from whom it was learned. -/
def back (b : Ballot V) : V → Option (Msg V) := fun c => if b.father = some c then some (.elect b.caw) else none

/-- The first call that is heard is passed on, unless it is one's own. -/
def relay (v w : V) (b : Ballot V) : V → Option (Msg V) :=
  if w ≠ v ∧ b.lrec = 0 then toRest none v (.lead w) else fun _ => none

/-- `v` takes over the wave of `w` from `u`, and passes it on. -/
def State.adopt (s : State V) (u v w : V) : State V :=
  (s.put v (some ⟨w, some u, 0, 0⟩)).post v (toRest (some u) v (.elect w))

variable [Fintype V] [LinearOrder K]

/-- `v` takes the first message of `u`, which is no lower wave. -/
inductive Takes (key : V → K) (u v : V) (s : State V) : State V → Prop where
  | ignore {w : V} {b : Ballot V} (hl : (s.link u v).head? = some (.elect w)) (hb : s.ballot v = some b)
      (hhigh : key b.caw < key w) : Takes key u v s (s.take u v)
  | count {b : Ballot V} (hl : (s.link u v).head? = some (.elect b.caw)) (hb : s.ballot v = some b)
      (hwait : b.erec + 1 < others V) :
      Takes key u v s ((s.take u v).put v (some { b with erec := b.erec + 1 }))
  | echo {b : Ballot V} (hl : (s.link u v).head? = some (.elect b.caw)) (hb : s.ballot v = some b)
      (hall : others V ≤ b.erec + 1) (hne : b.caw ≠ v) :
      Takes key u v s (((s.take u v).put v (some { b with erec := b.erec + 1 })).post v (back b))
  | win {b : Ballot V} (hl : (s.link u v).head? = some (.elect b.caw)) (hb : s.ballot v = some b)
      (hall : others V ≤ b.erec + 1) (hself : b.caw = v) :
      Takes key u v s
        (((s.take u v).put v (some { b with erec := b.erec + 1 })).post v (toRest none v (.lead v)))
  | deaf {w : V} (hl : (s.link u v).head? = some (.lead w)) (hb : s.ballot v = none) :
      Takes key u v s (s.take u v)
  | follow {w : V} {b : Ballot V} (hl : (s.link u v).head? = some (.lead w)) (hb : s.ballot v = some b)
      (hwait : b.lrec + 1 < others V) :
      Takes key u v s (((s.take u v).put v (some { b with lrec := b.lrec + 1 })).post v (relay v w b))
  | finish {w : V} {b : Ballot V} (hl : (s.link u v).head? = some (.lead w)) (hb : s.ballot v = some b)
      (hall : others V ≤ b.lrec + 1) :
      Takes key u v s ((((s.take u v).put v none).post v (relay v w b)).tell v w)

/-- `v` receives the first message of `u`. A lower wave is taken over before it is counted. -/
inductive Receives (key : V → K) (u v : V) (s : State V) : State V → Prop where
  | take {s' : State V} (h : Takes key u v s s') : Receives key u v s s'
  | adopt {w : V} {s' : State V} (hl : (s.link u v).head? = some (.elect w))
      (hlow : ∀ b, s.ballot v = some b → key w < key b.caw) (h : Takes key u v (s.adopt u v w) s') :
      Receives key u v s s'

/-- `v` says again what it said last. -/
inductive Repeats (v : V) (s : State V) : State V → Prop where
  | lead {b : Ballot V} (hb : s.ballot v = some b) (hself : b.caw = v) (hall : others V ≤ b.erec) :
      Repeats v s (s.post v (toRest none v (.lead v)))
  | own {b : Ballot V} (hb : s.ballot v = some b) (hself : b.caw = v) (hwait : b.erec < others V) :
      Repeats v s (s.post v (toRest none v (.elect v)))
  | other {b : Ballot V} (hb : s.ballot v = some b) (hne : b.caw ≠ v) :
      Repeats v s (s.post v (toRest b.father v (.elect b.caw)))

/-- From whom everybody has counted the wave that is supported, once `v` has received the first message of `u`. -/
def State.hears (key : V → K) (s : State V) (u v : V) (heard : V → Finset V) : V → Finset V :=
  match (s.link u v).head?, s.ballot v with
  | some (.elect w), some b =>
    if key w < key b.caw then Function.update heard v {u}
    else if w = b.caw then Function.update heard v (insert u (heard v))
    else heard
  | some (.elect _), none => Function.update heard v {u}
  | _, _ => heard

end Steps

namespace State

variable [DecidableEq V] (s : State V) (u v : V)

@[simp] theorem put_link (b : Option (Ballot V)) : (s.put v b).link = s.link := rfl

@[simp] theorem put_told (b : Option (Ballot V)) : (s.put v b).told = s.told := rfl

@[simp] theorem take_ballot : (s.take u v).ballot = s.ballot := rfl

@[simp] theorem take_told : (s.take u v).told = s.told := rfl

@[simp] theorem post_ballot (out : V → Option (Msg V)) : (s.post v out).ballot = s.ballot := rfl

@[simp] theorem post_told (out : V → Option (Msg V)) : (s.post v out).told = s.told := rfl

@[simp] theorem tell_ballot (w : V) : (s.tell v w).ballot = s.ballot := rfl

@[simp] theorem tell_link (w : V) : (s.tell v w).link = s.link := rfl

theorem put_ballot_self (b : Option (Ballot V)) : (s.put v b).ballot v = b := Function.update_self ..

theorem put_ballot_ne {x : V} (h : x ≠ v) (b : Option (Ballot V)) : (s.put v b).ballot x = s.ballot x :=
  Function.update_of_ne h ..

theorem post_link_ne {a : V} (h : a ≠ v) (c : V) (out : V → Option (Msg V)) :
    (s.post v out).link a c = s.link a c := if_neg h

theorem post_link_self (c : V) (out : V → Option (Msg V)) :
    (s.post v out).link v c = s.link v c ++ (out c).toList := if_pos rfl

theorem mem_post {a c : V} {msg : Msg V} {out : V → Option (Msg V)} :
    msg ∈ (s.post v out).link a c ↔ msg ∈ s.link a c ∨ a = v ∧ out c = some msg := by
  by_cases h : a = v
  · subst h
    rw [post_link_self, List.mem_append, Option.mem_toList]
    simp
  · rw [post_link_ne _ _ h]
    simp [h]

theorem post_none : s.post v (fun _ => none) = s := by
  unfold post
  simp

theorem take_link_self : (s.take u v).link u v = (s.link u v).tail := if_pos ⟨rfl, rfl⟩

theorem take_link_ne {a c : V} (h : ¬ (a = u ∧ c = v)) : (s.take u v).link a c = s.link a c := if_neg h

theorem take_sublist (a c : V) : ((s.take u v).link a c).Sublist (s.link a c) := by
  by_cases h : a = u ∧ c = v
  · obtain ⟨rfl, rfl⟩ := h
    rw [take_link_self]
    exact List.tail_sublist _
  · rw [take_link_ne _ _ _ h]

end State

theorem toRest_eq_some [DecidableEq V] {x : Option V} {v c : V} {msg msg' : Msg V} :
    toRest x v msg c = some msg' ↔ c ≠ v ∧ x ≠ some c ∧ msg' = msg := by
  unfold toRest
  split
  · rename_i h
    simp only [false_iff, not_and, reduceCtorEq]
    intro h1 h2
    exact absurd h (by simp [h1, h2])
  · rename_i h
    push Not at h
    simp [h.1, h.2, eq_comm]

theorem back_eq_some [DecidableEq V] {b : Ballot V} {c : V} {msg : Msg V} :
    back b c = some msg ↔ b.father = some c ∧ msg = .elect b.caw := by
  unfold back
  split <;> simp_all [eq_comm]

/-- From `s` to `s'` nobody but `v` did anything. -/
structure Only (v : V) (s s' : State V) : Prop where
  ballot : ∀ x, x ≠ v → s'.ballot x = s.ballot x
  told : ∀ x, x ≠ v → s'.told x = s.told x
  link : ∀ a c, a ≠ v → s'.link a c = s.link a c

section Only

variable {s s' s'' : State V} {u v : V}

theorem Only.refl (v : V) (s : State V) : Only v s s := ⟨fun _ _ => rfl, fun _ _ => rfl, fun _ _ _ => rfl⟩

theorem Only.trans (h : Only v s s') (h' : Only v s' s'') : Only v s s'' :=
  ⟨fun x hx => (h'.ballot x hx).trans (h.ballot x hx), fun x hx => (h'.told x hx).trans (h.told x hx),
    fun a c ha => (h'.link a c ha).trans (h.link a c ha)⟩

variable [DecidableEq V]

theorem only_put (s : State V) (v : V) (o : Option (Ballot V)) : Only v s (s.put v o) :=
  ⟨fun _ hx => s.put_ballot_ne v hx o, fun _ _ => rfl, fun _ _ _ => rfl⟩

theorem only_post (s : State V) (v : V) (out : V → Option (Msg V)) : Only v s (s.post v out) :=
  ⟨fun _ _ => rfl, fun _ _ => rfl, fun _ c ha => s.post_link_ne v ha c out⟩

theorem only_tell (s : State V) (v w : V) : Only v s (s.tell v w) :=
  ⟨fun _ _ => rfl, fun _ hx => Function.update_of_ne hx .., fun _ _ _ => rfl⟩

theorem Only.take (h : Only v s s') (u : V) : Only v (s.take u v) (s'.take u v) := by
  refine ⟨h.ballot, h.told, fun a c ha => ?_⟩
  by_cases hac : a = u ∧ c = v
  · obtain ⟨rfl, rfl⟩ := hac
    rw [State.take_link_self, State.take_link_self, h.link _ _ ha]
  · rw [State.take_link_ne _ _ _ hac, State.take_link_ne _ _ _ hac, h.link _ _ ha]

variable [Fintype V] [LinearOrder K] {key : V → K}

theorem Takes.only (h : Takes key u v s s') : Only v (s.take u v) s' := by
  cases h with
  | ignore hl hb hhigh => exact .refl v _
  | count hl hb hwait => exact only_put ..
  | echo hl hb hall hne => exact (only_put ..).trans (only_post ..)
  | win hl hb hall hself => exact (only_put ..).trans (only_post ..)
  | deaf hl hb => exact .refl v _
  | follow hl hb hwait => exact (only_put ..).trans (only_post ..)
  | finish hl hb hall => exact ((only_put ..).trans (only_post ..)).trans (only_tell ..)

theorem Receives.only (h : Receives key u v s s') : Only v (s.take u v) s' := by
  cases h with
  | take h => exact h.only
  | adopt hl hlow h => exact (((only_put ..).trans (only_post ..)).take u).trans h.only

theorem Repeats.only (h : Repeats v s s') : Only v s s' := by
  cases h <;> exact only_post ..

end Only

section Others

variable [Fintype V]

theorem others_pos (h : 2 ≤ Fintype.card V) : 0 < others V := by
  unfold others
  omega

/-- Some of the others. -/
theorem card_le_others {voices : Finset V} {v : V} (hv : v ∉ voices) : voices.card ≤ others V := by
  classical
  have hsub : voices ⊆ Finset.univ.erase v := fun x hx =>
    Finset.mem_erase.2 ⟨fun e => hv (e ▸ hx), Finset.mem_univ x⟩
  have hle := Finset.card_le_card hsub
  rwa [Finset.card_erase_of_mem (Finset.mem_univ v), Finset.card_univ] at hle

/-- Not all of the others. -/
theorem card_lt_others {voices : Finset V} {u v : V} (huv : u ≠ v) (hu : u ∉ voices) (hv : v ∉ voices) :
    voices.card < others V := by
  classical
  have hle := card_le_others (show v ∉ insert u voices by simp [hv, huv.symm])
  rw [Finset.card_insert_of_notMem hu] at hle
  exact hle

/-- All of the others. -/
theorem others_le_card {voices : Finset V} {v : V} (h : ∀ u, u ≠ v → u ∈ voices) : others V ≤ voices.card := by
  classical
  have hsub : Finset.univ.erase v ⊆ voices := fun u hu => h u (Finset.ne_of_mem_erase hu)
  have hle := Finset.card_le_card hsub
  rwa [Finset.card_erase_of_mem (Finset.mem_univ v), Finset.card_univ] at hle

end Others

end Echo
