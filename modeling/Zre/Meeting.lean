import Mathlib.Data.List.Basic
import Mathlib.Logic.Relation

/-!
# Two parties that get to know each other

The handshake without frames, sockets and tables: each party has a view of the other one, and what is
on the way is either a HELLO or something else. Two questions are settled here. When both parties start
from nothing, the exchange ends with both of them ready. When one of them has forgotten the other, one
more look heals the pair only if the other one has forgotten it too, or still has a HELLO on the way.
-/

namespace Zre

/-- What a party holds of the other one. -/
inductive View where
  | unknown
  /-- A dial whose answer is awaited. -/
  | dialled
  /-- An entry that has not been confirmed by a HELLO. -/
  | known
  | ready
  deriving DecidableEq, Repr

namespace View

/-- A beacon of the other party, and whether a HELLO is sent. -/
def look : View → View × Bool
  | unknown => (known, true)
  | dialled => (known, true)
  | known => (known, false)
  | ready => (ready, false)

/-- A dial to the other party's address. -/
def dial : View → View × Bool
  | unknown => (dialled, true)
  | v => (v, false)

/-- A HELLO of the other party. It is answered only by a party that knew nothing. -/
def hear : View → View × Bool
  | unknown => (ready, true)
  | _ => (ready, false)

theorem look_ne_unknown (v : View) : v.look.1 ≠ unknown := by cases v <;> simp [look]

theorem look_ne_dialled (v : View) : v.look.1 ≠ dialled := by cases v <;> simp [look]

@[simp] theorem hear_fst (v : View) : v.hear.1 = ready := by cases v <;> rfl

theorem dial_ne_unknown (v : View) : v.dial.1 ≠ unknown := by cases v <;> simp [dial]

end View

/-- Two parties, what each has said and the other has not received yet (`true` for a HELLO), and how
often each has announced the other one to its application. -/
structure Meeting where
  view : Bool → View
  link : Bool → List Bool
  enters : Bool → Nat

namespace Meeting

/-- What happens to a party. -/
inductive Act where
  | look (s : Bool)
  | dial (s : Bool)
  /-- The next message on the link to the party is received. -/
  | receive (s : Bool)
  /-- Anything else that keeps the view. -/
  | idle (s : Bool)
  /-- The party forgets the other one. -/
  | lose (s : Bool)

/-- The party that an act is about. -/
def Act.side : Act → Bool
  | look s | dial s | receive s | idle s | lose s => s

/-- A HELLO, if one is said. -/
def said (b : Bool) : List Bool := if b then [true] else []

/-- The party `s` comes to a new view, says a HELLO if it has to, and says other things. -/
def turn (m : Meeting) (s : Bool) (res : View × Bool) (more : List Bool) : Meeting where
  view := Function.update m.view s res.1
  link := Function.update m.link s (m.link s ++ said res.2 ++ more)
  enters := Function.update m.enters s
    (m.enters s + if res.1 = .ready ∧ m.view s ≠ .ready then 1 else 0)

/-- One act. The other things said are not HELLOs. -/
inductive Step (m : Meeting) : Act → Meeting → Prop where
  | look (s : Bool) {more : List Bool} (hm : true ∉ more) :
      Step m (.look s) (m.turn s (m.view s).look more)
  | dial (s : Bool) {more : List Bool} (hm : true ∉ more) :
      Step m (.dial s) (m.turn s (m.view s).dial more)
  | hear (s : Bool) {rest more : List Bool} (hl : m.link (!s) = true :: rest) (hm : true ∉ more) :
      Step m (.receive s)
        ({ m with link := Function.update m.link (!s) rest }.turn s (m.view s).hear more)
  | skip (s : Bool) {rest more : List Bool} (hl : m.link (!s) = false :: rest) (hm : true ∉ more) :
      Step m (.receive s)
        ({ m with link := Function.update m.link (!s) rest }.turn s (m.view s, false) more)
  | idle (s : Bool) {more : List Bool} (hm : true ∉ more) :
      Step m (.idle s) (m.turn s (m.view s, false) more)
  | lose (s : Bool) (n : Nat) {more : List Bool} (hm : true ∉ more) :
      Step m (.lose s)
        { m.turn s (.unknown, false) more with enters := Function.update m.enters s n }

/-- A run, with the acts that it consists of. -/
inductive Run (m : Meeting) : List Act → Meeting → Prop where
  | start : Run m [] m
  | step {as : List Act} {a : Act} {m1 m2 : Meeting} (hr : Run m as m1) (hs : Step m1 a m2) :
      Run m (as ++ [a]) m2

/-- What each act of a run preserves holds at its end. -/
theorem Run.invariant {I : Meeting → Prop} {P : Act → Prop} {m m' : Meeting} {as : List Act}
    (h : Run m as m') (hP : ∀ a ∈ as, P a)
    (hstep : ∀ m1 a m2, P a → Step m1 a m2 → I m1 → I m2) (hm : I m) : I m' := by
  induction h with
  | start => exact hm
  | step hr hs ih =>
    exact hstep _ _ _ (hP _ (by simp)) hs (ih fun a ha => hP a (by simp [ha]))

/-! ## A turn, from both sides -/

@[simp] theorem turn_view_self (m : Meeting) (s : Bool) (res : View × Bool) (more : List Bool) :
    (m.turn s res more).view s = res.1 := by simp [turn]

@[simp] theorem turn_view_other (m : Meeting) (s : Bool) (res : View × Bool) (more : List Bool) :
    (m.turn s res more).view (!s) = m.view (!s) := by simp [turn]

@[simp] theorem turn_link_self (m : Meeting) (s : Bool) (res : View × Bool) (more : List Bool) :
    (m.turn s res more).link s = m.link s ++ said res.2 ++ more := by simp [turn]

@[simp] theorem turn_link_other (m : Meeting) (s : Bool) (res : View × Bool) (more : List Bool) :
    (m.turn s res more).link (!s) = m.link (!s) := by simp [turn]

/-- A HELLO of `s` is on the way. -/
def Saying (m : Meeting) (s : Bool) : Prop := true ∈ m.link s

theorem saying_turn_self {m : Meeting} {s : Bool} {res : View × Bool} {more : List Bool}
    (hm : true ∉ more) : (m.turn s res more).Saying s ↔ m.Saying s ∨ res.2 = true := by
  unfold Saying
  rw [turn_link_self]
  cases res.2 <;> simp [hm, said]

theorem saying_turn_other {m : Meeting} {s : Bool} {res : View × Bool} {more : List Bool} :
    (m.turn s res more).Saying (!s) ↔ m.Saying (!s) := by
  unfold Saying
  rw [turn_link_other]

/-- How an act brings a party to the view `res.1`, with a HELLO said if `res.2`. A received HELLO may
have been the last one on the way. -/
def Act.Brings (m m' : Meeting) (v : View) (res : View × Bool) : Act → Prop
  | look s => res = v.look ∧ (m.Saying (!s) → m'.Saying (!s))
  | dial s => res = v.dial ∧ (m.Saying (!s) → m'.Saying (!s))
  | receive s => (res = v.hear ∧ m.Saying (!s)) ∨
      (res = (v, false) ∧ (m.Saying (!s) → m'.Saying (!s)))
  | idle s => res = (v, false) ∧ (m.Saying (!s) → m'.Saying (!s))
  | lose s => res = (.unknown, false) ∧ (m.Saying (!s) → m'.Saying (!s))

/-- What one act does, seen from the party that acts. -/
structure Effect (m : Meeting) (a : Act) (m' : Meeting) (res : View × Bool) : Prop where
  view : m'.view a.side = res.1
  other : m'.view (!a.side) = m.view (!a.side)
  tells : m'.Saying a.side ↔ m.Saying a.side ∨ res.2 = true
  takes : m'.Saying (!a.side) → m.Saying (!a.side)
  how : a.Brings m m' (m.view a.side) res

/-- Receiving a message leaves the links in the other direction alone. -/
theorem saying_pop {m : Meeting} {s : Bool} {rest : List Bool} :
    ({ m with link := Function.update m.link (!s) rest } : Meeting).Saying s ↔ m.Saying s := by
  simp [Saying]

theorem Step.effect {m m' : Meeting} {a : Act} (h : Step m a m') : ∃ res, Effect m a m' res := by
  cases h with
  | look s hm =>
    exact ⟨_, turn_view_self .., turn_view_other .., saying_turn_self hm, saying_turn_other.1,
      rfl, saying_turn_other.2⟩
  | dial s hm =>
    exact ⟨_, turn_view_self .., turn_view_other .., saying_turn_self hm, saying_turn_other.1,
      rfl, saying_turn_other.2⟩
  | hear s hl hm =>
    refine ⟨_, turn_view_self .., turn_view_other .., ?_, fun h => ?_, Or.inl ⟨rfl, ?_⟩⟩
    · exact (saying_turn_self hm).trans (or_congr_left saying_pop)
    · have h' := saying_turn_other.1 h
      simp only [Saying, Function.update_self] at h'
      simp only [Saying, Act.side, hl]
      exact List.mem_cons_of_mem _ h'
    · simp [Saying, hl]
  | skip s hl hm =>
    rename_i rest more
    have hrest : ({ m with link := Function.update m.link (!s) rest } : Meeting).Saying (!s) ↔
        m.Saying (!s) := by
      simp [Saying, hl]
    refine ⟨_, turn_view_self .., turn_view_other .., ?_, fun h => ?_, Or.inr ⟨rfl, fun h => ?_⟩⟩
    · exact (saying_turn_self hm).trans (or_congr_left saying_pop)
    · exact hrest.1 (saying_turn_other.1 h)
    · exact saying_turn_other.2 (hrest.2 h)
  | idle s hm =>
    exact ⟨_, turn_view_self .., turn_view_other .., saying_turn_self hm, saying_turn_other.1,
      rfl, saying_turn_other.2⟩
  | lose s n hm =>
    rename_i more
    exact ⟨_, turn_view_self m s (.unknown, false) more, turn_view_other m s (.unknown, false) more,
      (saying_turn_self hm : (m.turn s (.unknown, false) more).Saying s ↔ _), saying_turn_other.1, rfl,
      (saying_turn_other (m := m)).2⟩

/-- To prove something of both parties, prove it of the one that acts and of the other one. -/
theorem both {P : Bool → Prop} (s : Bool) (h1 : P s) (h2 : P (!s)) (t : Bool) : P t := by
  cases s <;> cases t <;> assumption

/-! ## From scratch -/

/-- Who knows the other party has a HELLO on the way to it, or is known to it for sure. -/
def Told (m : Meeting) : Prop := ∀ s, m.view s ≠ .unknown → m.Saying s ∨ m.view (!s) = .ready

/-- An act that forgets nothing. -/
def Act.Keeps : Act → Prop
  | lose _ => False
  | _ => True

/-- Such an act moves a view forwards only, from nothing only with a HELLO, and a HELLO that was
received has made its receiver ready. -/
theorem Act.Keeps.forward {a : Act} (ha : a.Keeps) {m m' : Meeting} {v : View} {res : View × Bool}
    (h : a.Brings m m' v res) :
    (v ≠ .unknown → res.1 ≠ .unknown) ∧ (v = .ready → res.1 = .ready) ∧
    (v = .unknown → res.1 = .unknown ∨ res.2 = true) ∧
    ((m.Saying (!a.side) → m'.Saying (!a.side)) ∨ res.1 = .ready) := by
  cases a with
  | look s =>
    obtain ⟨rfl, hs⟩ := h
    refine ⟨?_, ?_, ?_, Or.inl hs⟩ <;> cases v <;> simp [View.look]
  | dial s =>
    obtain ⟨rfl, hs⟩ := h
    refine ⟨?_, ?_, ?_, Or.inl hs⟩ <;> cases v <;> simp [View.dial]
  | receive s =>
    obtain ⟨rfl, -⟩ | ⟨rfl, hs⟩ := h
    · cases v <;> simp [View.hear]
    · exact ⟨id, id, Or.inl, Or.inl hs⟩
  | idle s =>
    obtain ⟨rfl, hs⟩ := h
    exact ⟨id, id, Or.inl, Or.inl hs⟩
  | lose s => exact ha.elim

theorem told_step {m m' : Meeting} {a : Act} (ha : a.Keeps) (h : Step m a m') (ht : m.Told) :
    m'.Told := by
  obtain ⟨res, he⟩ := h.effect
  obtain ⟨hkeep, hready, hfirst, hlast⟩ := ha.forward he.how
  have hself := ht a.side
  have hpeer := ht (!a.side)
  rw [Bool.not_not] at hpeer
  refine both a.side (fun hv => ?_) fun hv => ?_
  · -- whoever acts had a HELLO on the way before, or says one now
    rw [he.other, he.tells]
    rw [he.view] at hv
    by_cases hu : m.view a.side = .unknown
    · exact Or.inl (Or.inr ((hfirst hu).resolve_left hv))
    · exact (hself hu).imp Or.inl id
  · -- the HELLO of the other one is still on the way, or was received just now
    rw [he.other] at hv
    rw [Bool.not_not, he.view]
    rcases hpeer hv with hs | hr
    · exact hlast.imp (fun h => h hs) id
    · exact Or.inr (hready hr)

/-- How often each party has announced the other one, when it had done so `e` times at the start. -/
def Counted (e : Bool → Nat) (m : Meeting) : Prop :=
  ∀ s, m.enters s = e s + if m.view s = .ready then 1 else 0

theorem counted_turn {e : Bool → Nat} {m m1 : Meeting} {s : Bool} {res : View × Bool}
    {more : List Bool} (hv : m1.view = m.view) (he : m1.enters = m.enters) (hc : m.Counted e)
    (hr : m.view s = .ready → res.1 = .ready) : (m1.turn s res more).Counted e := by
  intro t
  have ht := hc t
  by_cases hts : t = s
  · subst hts
    simp only [turn, Function.update_self, hv, he, ht]
    by_cases h1 : m.view t = .ready
    · simp [h1, hr h1]
    · by_cases h2 : res.1 = .ready <;> simp [h1, h2]
  · simp [turn, Function.update_of_ne hts, hv, he, ht]

theorem counted_step {e : Bool → Nat} {m m' : Meeting} {a : Act} (ha : a.Keeps) (h : Step m a m')
    (hc : m.Counted e) : m'.Counted e := by
  obtain ⟨res, he⟩ := h.effect
  cases h with
  | look s hm => exact counted_turn rfl rfl hc fun hr => by rw [hr]; rfl
  | dial s hm => exact counted_turn rfl rfl hc fun hr => by rw [hr]; rfl
  | hear s hl hm => exact counted_turn rfl rfl hc fun hr => by rw [hr]; rfl
  | skip s hl hm => exact counted_turn rfl rfl hc fun hr => hr
  | idle s hm => exact counted_turn rfl rfl hc fun hr => hr
  | lose s n hm => exact ha.elim

/-- A look or a dial. -/
def Act.Discovers : Act → Prop
  | look _ | dial _ => True
  | _ => False

/-- Somebody knows the other one once a discovery step has happened, and from then on. -/
theorem Run.known {m m' : Meeting} {as : List Act} (h : Run m as m') (hk : ∀ a ∈ as, a.Keeps)
    (hd : ∃ a ∈ as, a.Discovers) : ∃ s, m'.view s ≠ .unknown := by
  induction h with
  | start => simp at hd
  | @step as a m1 m2 hr hs ih =>
    obtain ⟨res, he⟩ := hs.effect
    by_cases hda : a.Discovers
    · refine ⟨a.side, ?_⟩
      rw [he.view]
      have hhow := he.how
      cases a with
      | look s => obtain ⟨rfl, -⟩ := hhow; exact View.look_ne_unknown _
      | dial s => obtain ⟨rfl, -⟩ := hhow; exact View.dial_ne_unknown _
      | receive s | idle s | lose s => exact hda.elim
    · obtain ⟨b, hb, hdb⟩ := hd
      have hb' : b ∈ as := by
        rcases List.mem_append.1 hb with hb | hb
        · exact hb
        · rw [List.mem_singleton.1 hb] at hdb; exact absurd hdb hda
      obtain ⟨s, hs'⟩ := ih (fun a ha => hk a (by simp [ha])) ⟨b, hb', hdb⟩
      refine ⟨s, both (P := fun t => m1.view t ≠ .unknown → m2.view t ≠ .unknown) a.side ?_ ?_ s hs'⟩
      · rw [he.view]
        exact ((hk a (by simp)).forward he.how).1
      · rw [he.other]
        exact id

/-- Two parties that start from nothing and forget nothing: after a discovery step, once no HELLO is on
the way, both are ready and each has announced the other one once. -/
theorem Run.settles {e : Bool → Nat} {m m' : Meeting} {as : List Act} (h : Run m as m')
    (hk : ∀ a ∈ as, a.Keeps) (h0 : ∀ s, m.view s = .unknown) (he : m.enters = e)
    (hd : ∃ a ∈ as, a.Discovers) (hq : ∀ s, ¬ m'.Saying s) (s : Bool) :
    m'.view s = .ready ∧ m'.enters s = e s + 1 := by
  have ht : m'.Told := h.invariant hk (fun _ _ _ ha hs => told_step ha hs)
    fun s hs => absurd (h0 s) hs
  have hc : m'.Counted e := by
    refine h.invariant hk (fun _ _ _ ha hs => counted_step ha hs) fun s => ?_
    simp [h0 s, he]
  have hnext : ∀ t, m'.view t ≠ .unknown → m'.view (!t) = .ready := fun t ht' =>
    (ht t ht').resolve_left (hq t)
  obtain ⟨t, ht'⟩ := h.known hk hd
  have h1 := hnext t ht'
  have h2 := hnext (!t) (by rw [h1]; simp)
  rw [Bool.not_not] at h2
  have hready : m'.view s = .ready := both (P := fun t => m'.view t = .ready) t h2 h1 s
  exact ⟨hready, by rw [hc s, if_pos hready]⟩

/-! ## After a loss -/

/-- An act other than a dial. -/
def Act.Undialled : Act → Prop
  | dial _ => False
  | _ => True

/-- Without dials no answer is awaited. -/
theorem undialled_step {m m' : Meeting} {a : Act} (ha : a.Undialled) (h : Step m a m')
    (hm : ∀ s, m.view s ≠ .dialled) : ∀ s, m'.view s ≠ .dialled := by
  obtain ⟨res, he⟩ := h.effect
  refine both a.side ?_ (by rw [he.other]; exact hm _)
  rw [he.view]
  have hv := hm a.side
  have hhow := he.how
  cases a with
  | look s => obtain ⟨rfl, -⟩ := hhow; exact View.look_ne_dialled _
  | receive s =>
    obtain ⟨rfl, -⟩ | ⟨rfl, -⟩ := hhow
    · simp
    · exact hv
  | idle s => obtain ⟨rfl, -⟩ := hhow; exact hv
  | lose s => obtain ⟨rfl, -⟩ := hhow; simp
  | dial s => exact ha.elim

/-- An act of two parties that wait for the links to drain: beacons and deliveries. -/
def Act.Drains : Act → Prop
  | look _ | receive _ | idle _ => True
  | _ => False

/-- The party `s` looked at the other one and will be answered. -/
def Heals (s : Bool) (m : Meeting) : Prop :=
  m.view s ≠ .unknown ∧
  (m.view s = .ready ∨ m.Saying (!s) ∨ m.view (!s) = .unknown ∧ m.Saying s) ∧
  (m.view (!s) = .ready ∨ m.Saying s)

/-- The party `s` looked at the other one, which will not answer. -/
def Stuck (s : Bool) (m : Meeting) : Prop :=
  m.view s = .known ∧ (m.view (!s) = .known ∨ m.view (!s) = .ready) ∧ ¬ m.Saying (!s)

theorem Act.Drains.keeps {a : Act} (ha : a.Drains) : a.Keeps := by
  cases a <;> trivial

/-- A party that holds an entry for the other one answers nothing any more. -/
theorem Act.Drains.settled {a : Act} (ha : a.Drains) {m m' : Meeting} {v : View} {res : View × Bool}
    (hv : v = .known ∨ v = .ready) (h : a.Brings m m' v res) :
    (res.1 = .known ∨ res.1 = .ready) ∧ res.2 = false := by
  cases a with
  | look s => obtain ⟨rfl, -⟩ := h; rcases hv with rfl | rfl <;> simp [View.look]
  | receive s =>
    obtain ⟨rfl, -⟩ | ⟨rfl, -⟩ := h
    · rcases hv with rfl | rfl <;> simp [View.hear]
    · exact ⟨hv, rfl⟩
  | idle s => obtain ⟨rfl, -⟩ := h; exact ⟨hv, rfl⟩
  | dial s | lose s => exact ha.elim

theorem heals_step {s : Bool} {m m' : Meeting} {a : Act} (ha : a.Drains) (h : Step m a m')
    (hh : m.Heals s) : m'.Heals s := by
  obtain ⟨res, he⟩ := h.effect
  obtain ⟨hkeep, hready, hfirst, hlast⟩ := ha.keeps.forward he.how
  obtain ⟨h1, h2, h3⟩ := hh
  have hside : a.side = s ∨ a.side = !s := by cases s <;> cases a.side <;> simp
  rcases hside with hs | hs
  · -- `s` acts: it hears the HELLO of the other one, or that HELLO is still on the way
    have hv := he.view
    have ho := he.other
    have ht := he.tells
    rw [hs] at hkeep hready hlast hv ho ht
    refine ⟨by rw [hv]; exact hkeep h1, ?_, ?_⟩
    · rw [hv, ho, ht]
      rcases h2 with h2 | h2 | ⟨h2, h2'⟩
      · exact Or.inl (hready h2)
      · exact hlast.elim (fun hl => Or.inr (Or.inl (hl h2))) Or.inl
      · exact Or.inr (Or.inr ⟨h2, Or.inl h2'⟩)
    · rw [ho, ht]
      exact h3.imp id Or.inl
  · -- the other one acts: if it knew nothing, it says a HELLO as soon as it knows of `s`
    have hv := he.view
    have ho := he.other
    have ht := he.tells
    rw [hs] at hkeep hready hfirst hlast hv ho ht
    rw [Bool.not_not] at ho hlast
    refine ⟨by rw [ho]; exact h1, ?_, ?_⟩
    · rw [ho, ht, hv]
      rcases h2 with h2 | h2 | ⟨h2, h2'⟩
      · exact Or.inl h2
      · exact Or.inr (Or.inl (Or.inl h2))
      · rcases hfirst h2 with hu | hb
        · refine Or.inr (Or.inr ⟨hu, hlast.elim (fun hl => hl h2') fun hr => ?_⟩)
          rw [hu] at hr
          cases hr
        · exact Or.inr (Or.inl (Or.inr hb))
    · rw [hv]
      rcases h3 with h3 | h3
      · exact Or.inl (hready h3)
      · exact hlast.elim (fun hl => Or.inr (hl h3)) Or.inl

theorem stuck_step {s : Bool} {m m' : Meeting} {a : Act} (ha : a.Drains) (h : Step m a m')
    (hh : m.Stuck s) : m'.Stuck s := by
  obtain ⟨res, he⟩ := h.effect
  obtain ⟨h1, h2, h3⟩ := hh
  have hside : a.side = s ∨ a.side = !s := by cases s <;> cases a.side <;> simp
  rcases hside with hs | hs
  · -- nothing that `s` can receive makes it ready
    have hres : res.1 = .known := by
      have hhow := he.how
      rw [hs, h1] at hhow
      cases a with
      | look t => obtain ⟨rfl, -⟩ := hhow; rfl
      | receive t =>
        obtain ⟨-, hsay⟩ | ⟨rfl, -⟩ := hhow
        · rw [show t = s from hs] at hsay; exact absurd hsay h3
        · rfl
      | idle t => obtain ⟨rfl, -⟩ := hhow; rfl
      | dial t | lose t => exact ha.elim
    have hv := he.view
    have ho := he.other
    have ht := he.takes
    rw [hs] at hv ho ht
    exact ⟨by rw [hv, hres], by rw [ho]; exact h2, fun h => h3 (ht h)⟩
  · -- the other one holds an entry already, so it says no HELLO
    have hres : (res.1 = .known ∨ res.1 = .ready) ∧ res.2 = false := by
      have hhow := he.how
      rw [hs] at hhow
      exact ha.settled h2 hhow
    have hv := he.view
    have ho := he.other
    have ht := he.tells
    rw [hs] at hv ho ht
    rw [Bool.not_not] at ho
    exact ⟨by rw [ho, h1], by rw [hv]; exact hres.1, by rw [ht]; simp [h3, hres.2]⟩

/-- One look of a party that has forgotten the other one, and then beacons and deliveries until no
HELLO is on the way: both are ready exactly when the other one had forgotten it too or had a HELLO on
the way. -/
theorem Run.ready_iff {s : Bool} {m m1 m2 : Meeting} {as : List Act} (hlook : Step m (.look s) m1)
    (h : Run m1 as m2) (hk : ∀ a ∈ as, a.Drains) (h0 : m.view s = .unknown)
    (hdial : m.view (!s) ≠ .dialled) (hq : ∀ t, ¬ m2.Saying t) :
    (m2.view s = .ready ∧ m2.view (!s) = .ready) ↔ m.view (!s) = .unknown ∨ m.Saying (!s) := by
  obtain ⟨res, he⟩ := hlook.effect
  obtain ⟨rfl, hsay⟩ := he.how
  have hv : m1.view s = .known := by
    have hv := he.view
    simp only [Act.side, h0] at hv
    exact hv
  have ho : m1.view (!s) = m.view (!s) := he.other
  have ht : m1.Saying s := he.tells.2 (Or.inr (by simp [Act.side, h0, View.look]))
  by_cases hcond : m.view (!s) = .unknown ∨ m.Saying (!s)
  · refine iff_of_true ?_ hcond
    have h1 : m1.Heals s := by
      refine ⟨by rw [hv]; simp, ?_, Or.inr ht⟩
      exact hcond.elim (fun hu => Or.inr (Or.inr ⟨ho.trans hu, ht⟩)) fun hb => Or.inr (Or.inl (hsay hb))
    obtain ⟨-, h2, h3⟩ := h.invariant hk (fun _ _ _ ha hs => heals_step ha hs) h1
    refine ⟨?_, h3.resolve_right (hq s)⟩
    exact h2.elim id fun h2 => h2.elim (fun h2 => absurd h2 (hq _)) fun h2 => absurd h2.2 (hq s)
  · refine iff_of_false ?_ hcond
    obtain ⟨hu, hb⟩ := not_or.1 hcond
    have h1 : m1.Stuck s := by
      refine ⟨hv, ?_, fun h => hb (he.takes h)⟩
      rw [ho]
      cases hview : m.view (!s) <;> simp_all
    obtain ⟨h2, -⟩ := h.invariant hk (fun _ _ _ ha hs => stuck_step ha hs) h1
    rintro ⟨h3, -⟩
    rw [h2] at h3
    cases h3

end Meeting

end Zre
