import Mathlib.Logic.Basic

/-!
# The last word of an owner

Each key has an owner, who says a value for it, now and then another one, and others pass on what they have heard. All
of this is on the way to one place, which holds for each key what came last. If whoever passes on a value passes on the
owner's last word, and the owner says another value only when none is on the way, then nothing else is ever on the way,
and what the place holds in the end is the last word.
-/

namespace LastWord

variable {K V : Type*}

/-- What the owners have `said` last, what is on the way, what of that is `due` to arrive, and what is `held`. -/
structure Kept (said : K → Option V) (onWay due held : K → V → Prop) : Prop where
  current : ∀ k v, onWay k v → said k = some v
  arrives : ∀ k v, said k = some v → held k v ∨ due k v

section

variable {said said' : K → Option V} {onWay onWay' due due' held held' : K → V → Prop}

/-- What has been said at first is held. -/
theorem Kept.init (hsaid : ∀ k v, said k = some v → held k v) (honWay : ∀ k v, ¬ onWay k v) :
    Kept said onWay due held := ⟨fun k v h => absurd h (honWay k v), fun k v h => Or.inl (hsaid k v h)⟩

/-- Somebody says one value for each of some keys. -/
theorem Kept.speak (h : Kept said onWay due held) (new : K → V → Prop) (own : K → Prop)
    (hcurrent : ∀ k v, new k v → said k = some v ∨ own k ∧ ∀ w, ¬ onWay k w)
    (hsaid : ∀ k v, new k v → own k → said' k = some v)
    (hsame : ∀ k, (∀ v, new k v → ¬ own k) → said' k = said k)
    (honWay : ∀ k v, onWay' k v → onWay k v ∨ new k v) (hdue : ∀ k v, new k v → due' k v)
    (hstill : ∀ k v, (∀ w, ¬ new k w) → due k v → due' k v) : Kept said' onWay' due' held := by
  have hnew : ∀ k v, new k v → said' k = some v := by
    intro k v hv
    by_cases hown : own k
    · exact hsaid k v hv hown
    · rw [hsame k fun _ _ => hown]
      exact (hcurrent k v hv).resolve_right fun h => hown h.1
  have hold : ∀ k, (∀ v, ¬ new k v) → said' k = said k := fun k hno => hsame k fun v hv => absurd hv (hno v)
  constructor
  · intro k v hv
    rcases honWay k v hv with hv | hv
    · by_cases hsome : ∃ w, new k w
      · obtain ⟨w, hw⟩ := hsome
        rcases hcurrent k w hw with hlast | ⟨-, hclear⟩
        · rw [hnew k w hw, ← hlast]
          exact h.current k v hv
        · exact absurd hv (hclear v)
      · rw [hold k (not_exists.1 hsome)]
        exact h.current k v hv
    · exact hnew k v hv
  · intro k v hv
    by_cases hsome : ∃ w, new k w
    · obtain ⟨w, hw⟩ := hsome
      rw [hnew k w hw] at hv
      cases hv
      exact Or.inr (hdue k _ hw)
    · rw [hold k (not_exists.1 hsome)] at hv
      exact (h.arrives k v hv).imp_right (hstill k v (not_exists.1 hsome))

/-- What is on the way for some keys arrives; it may also be lost where it is not due. -/
theorem Kept.hear (h : Kept said onWay due held) (carried : K → V → Prop) (hcarried : ∀ k v, carried k v → onWay k v)
    (hheld : ∀ k v, carried k v → held' k v) (hkeeps : ∀ k v, (∀ w, ¬ carried k w) → held k v → held' k v)
    (honWay : ∀ k v, onWay' k v → onWay k v) (hdue : ∀ k v, due k v → due' k v ∨ carried k v) :
    Kept said onWay' due' held' := by
  refine ⟨fun k v hv => h.current k v (honWay k v hv), fun k v hv => ?_⟩
  by_cases hsome : ∃ w, carried k w
  · obtain ⟨w, hw⟩ := hsome
    rw [h.current k w (hcarried k w hw)] at hv
    cases hv
    exact Or.inl (hheld k _ hw)
  · have hno := not_exists.1 hsome
    rcases h.arrives k v hv with hv | hv
    · exact Or.inl (hkeeps k v hno hv)
    · exact Or.inr ((hdue k v hv).resolve_right (hno v))

/-- Nothing arrives. -/
theorem Kept.still (h : Kept said onWay due held) (hkeeps : ∀ k v, held k v → held' k v)
    (honWay : ∀ k v, onWay' k v → onWay k v) (hdue : ∀ k v, due k v → due' k v) : Kept said onWay' due' held' :=
  ⟨fun k v hv => h.current k v (honWay k v hv), fun k v hv => (h.arrives k v hv).imp (hkeeps k v) (hdue k v)⟩

/-- Once nothing is due, the last word is held. -/
theorem Kept.settles (h : Kept said onWay due held) {k : K} {v : V} (hsaid : said k = some v)
    (hnone : ∀ v, ¬ due k v) : held k v := (h.arrives k v hsaid).resolve_right (hnone v)

end

end LastWord
