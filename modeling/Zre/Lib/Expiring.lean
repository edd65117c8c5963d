import Mathlib.Data.Option.Basic
import Mathlib.Order.WithBot

/-!
# Tables whose entries expire

Every entry is stored together with the time up to which it lasts, and `live` is what is left of a table at
some time. A table that forgets its entries as they run out and a table that sweeps them out now and then
have the same live entries, as long as both are written to alike.
-/

/-- What is stored under each key, and up to when; `⊤` is forever. -/
def Expiring (K V T : Type*) := K → Option (V × WithTop T)

namespace Expiring

variable {K V T : Type*}

/-- The table without entries. -/
def empty : Expiring K V T := fun _ => none

/-- `v` is stored under `k`, whenever it runs out. -/
def Holds (s : Expiring K V T) (k : K) (v : V) : Prop := ∃ deadline, s k = some (v, deadline)

/-- The entries of the table, each of them once and in some order. -/
def Lists (s : Expiring K V T) (es : List (K × V)) : Prop :=
  (es.map Prod.fst).Nodup ∧ ∀ k v, (k, v) ∈ es ↔ s.Holds k v

section Writes

variable [DecidableEq K]

/-- Store `v` under `k` up to the deadline. -/
def store (s : Expiring K V T) (k : K) (v : V) (deadline : WithTop T) : Expiring K V T :=
  fun j => if j = k then some (v, deadline) else s j

/-- Remove what is stored under `k`. -/
def remove (s : Expiring K V T) (k : K) : Expiring K V T :=
  fun j => if j = k then none else s j

end Writes

variable [LinearOrder T]

/-- The deadline is not over yet. -/
def Lasts (now : T) (deadline : WithTop T) : Prop := (now : WithTop T) ≤ deadline

instance (now : T) (deadline : WithTop T) : Decidable (Lasts now deadline) :=
  inferInstanceAs (Decidable ((now : WithTop T) ≤ deadline))

@[simp] theorem lasts_top (now : T) : Lasts now ⊤ := le_top

@[simp] theorem lasts_coe {now t : T} : Lasts now (t : WithTop T) ↔ now ≤ t := WithTop.coe_le_coe

theorem Lasts.mono {t t' : T} {deadline : WithTop T} (h : Lasts t' deadline) (hle : t ≤ t') :
    Lasts t deadline := (WithTop.coe_le_coe.2 hle).trans h

/-- What is left of the table at `now`. -/
def live (s : Expiring K V T) (now : T) : Expiring K V T := fun k => (s k).filter fun e => Lasts now e.2

theorem live_eq_some_iff (s : Expiring K V T) (now : T) {k : K} {e : V × WithTop T} :
    s.live now k = some e ↔ s k = some e ∧ Lasts now e.2 := by
  simp [live, Option.filter_eq_some_iff]

/-- What is left later is left of what was left before. -/
theorem live_live (s : Expiring K V T) {t t' : T} (h : t ≤ t') : (s.live t).live t' = s.live t' := by
  funext k
  refine Option.ext fun e => ?_
  simp only [live_eq_some_iff]
  constructor
  · rintro ⟨⟨hk, -⟩, hlast⟩
    exact ⟨hk, hlast⟩
  · rintro ⟨hk, hlast⟩
    exact ⟨⟨hk, hlast.mono h⟩, hlast⟩

theorem live_store [DecidableEq K] (s : Expiring K V T) {now : T} (k : K) (v : V) {deadline : WithTop T}
    (h : Lasts now deadline) : (s.store k v deadline).live now = (s.live now).store k v deadline := by
  funext j
  by_cases hj : j = k
  · simp [live, store, hj, h]
  · simp [live, store, hj]

theorem live_remove [DecidableEq K] (s : Expiring K V T) (now : T) (k : K) :
    (s.remove k).live now = (s.live now).remove k := by
  funext j
  by_cases hj : j = k
  · simp [live, remove, hj]
  · simp [live, remove, hj]

end Expiring
