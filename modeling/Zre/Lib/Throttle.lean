import Mathlib.Algebra.Order.Group.Basic
import Mathlib.Data.List.Chain

/-!
# Throttles

An alarm goes off again and again, and is to be reported at most once in an interval. The throttle keeps the time
of the last report, and may be lifted. As long as nobody lifts it, two reports are at least one interval apart.
-/

namespace Throttle

variable {T : Type*}

/-- One moment in the life of a throttle: the time, and what the throttle keeps before and after it. -/
structure Moment (T : Type*) where
  now : T
  before : Option T
  after : Option T

/-- The throttle stays as it is. -/
def Moment.Stays (m : Moment T) : Prop := m.after = m.before

/-- The alarm is reported: the last report lies one interval back, or far back if there is none. -/
def Moment.Reports [AddCommGroup T] [LinearOrder T] (interval : T) (m : Moment T) : Prop :=
  m.after = some m.now ∧ interval ≤ m.now - m.before.getD 0

/-- The second moment takes over from the first one, and the clock does not go back between them. -/
def Follows [LE T] (a b : Moment T) : Prop := b.before = a.after ∧ a.now ≤ b.now

variable [AddCommGroup T] [LinearOrder T] [IsOrderedAddMonoid T] {interval : T}

/-- After a moment at which the throttle is set to `t` or later, and not lifted before the report `b`. -/
theorem le_of_set {t : T} {a b : Moment T} {mid : List (Moment T)}
    (hchain : (a :: mid ++ [b]).IsChain Follows) (ht : t ≤ a.now) (hset : ∃ s, a.after = some s ∧ t ≤ s)
    (hmid : ∀ m ∈ mid, m.Stays ∨ m.Reports interval) (hb : b.Reports interval) : interval ≤ b.now - t := by
  induction mid generalizing a with
  | nil =>
    obtain ⟨s, hs, hts⟩ := hset
    obtain ⟨hbefore, -⟩ := List.isChain_pair.1 hchain
    have hlast := hb.2
    rw [hbefore, hs, Option.getD_some] at hlast
    exact hlast.trans (sub_le_sub_left hts b.now)
  | cons m mid ih =>
    obtain ⟨⟨hbefore, hnow⟩, hrest⟩ := List.isChain_cons_cons.1 hchain
    refine ih hrest (ht.trans hnow) ?_ fun x hx => hmid x (List.mem_cons_of_mem m hx)
    rcases hmid m List.mem_cons_self with hstay | hrep
    · rw [hstay, hbefore]
      exact hset
    · exact ⟨m.now, hrep.1, ht.trans hnow⟩

/-- Two reports less than an interval apart have a moment between them at which the throttle is lifted. -/
theorem lifted_between {a b : Moment T} {mid : List (Moment T)} (hchain : (a :: mid ++ [b]).IsChain Follows)
    (ha : a.Reports interval) (hb : b.Reports interval) (hlt : b.now - a.now < interval) :
    ∃ m ∈ mid, ¬ m.Stays ∧ ¬ m.Reports interval := by
  by_contra hno
  push Not at hno
  have hmid : ∀ m ∈ mid, m.Stays ∨ m.Reports interval := by
    intro m hm
    by_cases hs : m.Stays
    · exact Or.inl hs
    · exact Or.inr (hno m hm hs)
  exact absurd (le_of_set hchain le_rfl ⟨a.now, ha.1, le_rfl⟩ hmid hb) (not_le.2 hlt)

end Throttle
