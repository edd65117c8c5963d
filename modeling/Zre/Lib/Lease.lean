import Mathlib.Algebra.Order.Group.Basic

/-!
# Leases

Somebody keeps entries with deadlines, and hears from their owners now and then. The deadlines are exact
when each lies one span after the owner was last heard from. They stay exact as long as they move with what
is heard and with nothing else, and then an entry is overdue when its owner was silent for longer than the
span.
-/

namespace Lease

variable {K T : Type*}

/-- The owners in `told` are heard from at `now`. -/
def Hears (told : K → Prop) (now : T) (heard heard' : K → Option T) : Prop :=
  ∀ k, (told k → heard' k = some now) ∧ (¬ told k → heard' k = heard k)

theorem exists_hears (told : K → Prop) (now : T) (heard : K → Option T) :
    ∃ heard', Hears told now heard heard' := by
  classical
  exact ⟨fun k => if told k then some now else heard k, fun k => ⟨fun h => if_pos h, fun h => if_neg h⟩⟩

/-- The deadlines have moved to `renewed` for the owners in `told`, and for nobody else. -/
def Moves (told : K → Prop) (renewed : T) (deadline deadline' : K → Option T) : Prop :=
  ∀ k d, deadline' k = some d → told k ∧ d = renewed ∨ ¬ told k ∧ deadline k = some d

/-- Nobody was heard from after `now`. -/
theorem Hears.le [Preorder T] {told : K → Prop} {clock now : T} {heard heard' : K → Option T}
    (hh : Hears told now heard heard') (hc : clock ≤ now) (hle : ∀ k t, heard k = some t → t ≤ clock) :
    ∀ k t, heard' k = some t → t ≤ now := by
  intro k t ht
  by_cases hk : told k
  · rw [(hh k).1 hk] at ht
    exact le_of_eq (Option.some.inj ht).symm
  · rw [(hh k).2 hk] at ht
    exact (hle k t ht).trans hc

/-- Each deadline lies one span after the last time that its owner was heard from. -/
def Exact [Add T] (span : T) (heard deadline : K → Option T) : Prop :=
  ∀ k d, deadline k = some d → ∃ t, heard k = some t ∧ d = t + span

theorem Exact.step [Add T] {span now : T} {told : K → Prop} {heard heard' deadline deadline' : K → Option T}
    (he : Exact span heard deadline) (hh : Hears told now heard heard')
    (hm : Moves told (now + span) deadline deadline') : Exact span heard' deadline' := by
  intro k d hd
  rcases hm k d hd with ⟨hk, hd⟩ | ⟨hk, hd⟩
  · exact ⟨now, (hh k).1 hk, hd⟩
  · obtain ⟨t, ht, htd⟩ := he k d hd
    refine ⟨t, ?_, htd⟩
    rw [(hh k).2 hk]
    exact ht

/-- An exact deadline has passed when its owner was silent for longer than the span. -/
theorem Exact.overdue_iff [AddCommGroup T] [LinearOrder T] [IsOrderedAddMonoid T] {span : T}
    {heard deadline : K → Option T} (he : Exact span heard deadline) {k : K} {d : T}
    (hk : deadline k = some d) (now : T) : ∃ t, heard k = some t ∧ (d < now ↔ span < now - t) := by
  obtain ⟨t, ht, rfl⟩ := he k d hk
  exact ⟨t, ht, lt_sub_iff_add_lt'.symm⟩

end Lease
