import Mathlib.Data.List.Induction
import Mathlib.Data.List.Perm.Basic
import Mathlib.Order.MinMax

/-!
# Extinction

Voices for candidates arrive one after the other. The lowest candidate is supported, and the voices for it are
counted; whoever is heard for a lower candidate becomes the father of the support for it, and the count starts
anew. What comes out depends on the order of the voices only in who the father is.
-/

namespace Extinction

variable {α β : Type*} [LinearOrder α]

/-- The candidate that is supported, from whom it was learned, and the voices for it. -/
structure Ballot (α β : Type*) where
  candidate : α
  father : Option β
  count : ℕ

namespace Ballot

/-- A lower candidate takes over. -/
def yield (b : Ballot α β) (v : β × α) : Ballot α β := if v.2 < b.candidate then ⟨v.2, some v.1, 0⟩ else b

/-- The voice is counted if it is one for the candidate. -/
def tally (b : Ballot α β) (c : α) : Ballot α β := if c = b.candidate then { b with count := b.count + 1 } else b

/-- One voice, with who raised it. -/
def hear (b : Ballot α β) (v : β × α) : Ballot α β := (b.yield v).tally v.2

/-- Voices, one after the other. -/
def hears (b : Ballot α β) (l : List (β × α)) : Ballot α β := l.foldl hear b

end Ballot

/-- How many voices there are for a candidate. -/
def voices (c : α) (l : List (β × α)) : ℕ := l.countP fun v => v.2 = c

/-- Who raised the first voice for a candidate. -/
def first (c : α) (l : List (β × α)) : Option β := (l.find? fun v => v.2 = c).map Prod.fst

theorem voices_concat (c : α) (l : List (β × α)) (v : β × α) :
    voices c (l ++ [v]) = voices c l + if v.2 = c then 1 else 0 := by
  simp [voices, List.countP_append, List.countP_cons]

theorem voices_eq_zero {c : α} {l : List (β × α)} (h : ∀ v ∈ l, v.2 ≠ c) : voices c l = 0 := by
  simpa [voices] using fun a b => h (a, b)

/-- A later voice does not change who was first. -/
theorem first_concat_of_some {c : α} {l : List (β × α)} {u : β} (h : first c l = some u) (v : β × α) :
    first c (l ++ [v]) = some u := by
  unfold first at h ⊢
  obtain ⟨x, hx, rfl⟩ := Option.map_eq_some_iff.1 h
  rw [List.find?_append, hx]
  rfl

theorem first_of_mem {c : α} {l : List (β × α)} {v : β × α} (hv : v ∈ l) (hc : v.2 = c) :
    ∃ u, first c l = some u := by
  have hsome : (l.find? fun v => v.2 = c).isSome := List.find?_isSome.2 ⟨v, hv, by simp [hc]⟩
  obtain ⟨x, hx⟩ := Option.isSome_iff_exists.1 hsome
  exact ⟨x.1, by rw [first, hx, Option.map_some]⟩

theorem first_concat_of_ne {c : α} {v : β × α} (l : List (β × α)) (hv : v.2 ≠ c) :
    first c (l ++ [v]) = first c l := by
  unfold first
  rw [List.find?_append, List.find?_singleton, decide_eq_false hv]
  simp

theorem first_concat_of_new {c : α} {l : List (β × α)} (h : ∀ v ∈ l, v.2 ≠ c) (u : β) :
    first c (l ++ [(u, c)]) = some u := by
  have hnone : l.find? (fun v => decide (v.2 = c)) = none := List.find?_eq_none.2 fun v hv => by simp [h v hv]
  unfold first
  rw [List.find?_append, hnone]
  simp

namespace Ballot

variable (b : Ballot α β)

@[simp] theorem yield_candidate (v : β × α) : (b.yield v).candidate = min b.candidate v.2 := by
  unfold yield
  split
  · rename_i h
    exact (min_eq_right h.le).symm
  · rename_i h
    exact (min_eq_left (not_lt.1 h)).symm

@[simp] theorem tally_candidate (c : α) : (b.tally c).candidate = b.candidate := by
  unfold tally
  split <;> rfl

@[simp] theorem tally_father (c : α) : (b.tally c).father = b.father := by
  unfold tally
  split <;> rfl

theorem tally_count (c : α) : (b.tally c).count = b.count + if c = b.candidate then 1 else 0 := by
  unfold tally
  split <;> rfl

theorem hear_candidate (v : β × α) : (b.hear v).candidate = min b.candidate v.2 := by simp [hear]

theorem hears_concat (l : List (β × α)) (v : β × α) : b.hears (l ++ [v]) = (b.hears l).hear v := by
  simp [hears]

theorem hears_candidate (l : List (β × α)) : (b.hears l).candidate = (l.map Prod.snd).foldl min b.candidate := by
  induction l using List.reverseRecOn with
  | nil => rfl
  | append_singleton l v ih =>
    rw [hears_concat, hear_candidate, ih]
    simp

/-- The candidate is one of those that were heard of. -/
theorem hears_mem (l : List (β × α)) : (b.hears l).candidate ∈ b.candidate :: l.map Prod.snd := by
  induction l using List.reverseRecOn with
  | nil => exact List.mem_cons_self
  | append_singleton l v ih =>
    rw [hears_concat, hear_candidate, List.map_append, ← List.cons_append]
    rcases min_choice (b.hears l).candidate v.2 with h | h
    · rw [h]
      exact List.mem_append_left _ ih
    · rw [h]
      exact List.mem_append_right _ List.mem_cons_self

/-- No candidate that was heard of is lower. -/
theorem hears_le (l : List (β × α)) {c : α} (hc : c ∈ b.candidate :: l.map Prod.snd) :
    (b.hears l).candidate ≤ c := by
  induction l using List.reverseRecOn with
  | nil => exact (List.mem_singleton.1 hc).ge
  | append_singleton l v ih =>
    rw [List.map_append, ← List.cons_append, List.mem_append] at hc
    rw [hears_concat, hear_candidate]
    rcases hc with hc | hc
    · exact (min_le_left _ _).trans (ih hc)
    · exact (min_le_right _ _).trans (List.mem_singleton.1 hc).ge

/-- In another order, the same candidate comes out. -/
theorem hears_candidate_perm {l l' : List (β × α)} (h : l'.Perm l) :
    (b.hears l').candidate = (b.hears l).candidate := by
  rw [hears_candidate, hears_candidate]
  exact (h.map Prod.snd).foldl_eq b.candidate

/-- No voice before was for the candidate that takes over. -/
theorem ne_of_lt {l : List (β × α)} {c : α} (h : c < (b.hears l).candidate) : ∀ v ∈ l, v.2 ≠ c := by
  rintro v hv rfl
  have hle := b.hears_le l (List.mem_cons_of_mem _ (List.mem_map_of_mem hv))
  exact absurd h (not_lt.2 hle)

/-- As long as the candidate stays, so does the father, and the voices for the candidate are added up. -/
theorem hears_of_stays {l : List (β × α)} (h : (b.hears l).candidate = b.candidate) :
    (b.hears l).father = b.father ∧ (b.hears l).count = b.count + voices b.candidate l := by
  induction l using List.reverseRecOn with
  | nil => simp [hears, voices]
  | append_singleton l v ih =>
    rw [hears_concat, hear_candidate] at h
    -- the candidate did not change before the last voice either
    have hle : b.candidate ≤ (b.hears l).candidate := h ▸ min_le_left _ _
    have hstay : (b.hears l).candidate = b.candidate := le_antisymm (b.hears_le l List.mem_cons_self) hle
    obtain ⟨hfather, hcount⟩ := ih hstay
    have hv : ¬ v.2 < (b.hears l).candidate := by
      rw [hstay, not_lt]
      exact h ▸ min_le_right _ _
    have hyield : (b.hears l).yield v = b.hears l := if_neg hv
    rw [hears_concat, hear, hyield, tally_father, tally_count, hstay, voices_concat, hcount, Nat.add_assoc]
    exact ⟨hfather, rfl⟩

/-- A candidate that took over has the first one who spoke for it as its father, and all voices for it are
counted. -/
theorem hears_of_changes {l : List (β × α)} (h : (b.hears l).candidate ≠ b.candidate) :
    (b.hears l).father = first (b.hears l).candidate l ∧
      (b.hears l).count = voices (b.hears l).candidate l := by
  induction l using List.reverseRecOn with
  | nil => exact absurd rfl h
  | append_singleton l v ih =>
    by_cases hv : v.2 < (b.hears l).candidate
    · have hyield : (b.hears l).yield v = ⟨v.2, some v.1, 0⟩ := if_pos hv
      have hhear : (b.hears l).hear v = ⟨v.2, some v.1, 1⟩ := by
        rw [hear, hyield, tally, if_pos rfl]
      have hnew := b.ne_of_lt hv
      rw [hears_concat, hhear]
      refine ⟨(first_concat_of_new hnew v.1).symm, ?_⟩
      rw [voices_concat, voices_eq_zero hnew]
      simp
    · have hyield : (b.hears l).yield v = b.hears l := if_neg hv
      have hsame : (b.hears (l ++ [v])).candidate = (b.hears l).candidate := by
        rw [hears_concat, hear, hyield, tally_candidate]
      rw [hsame] at h ⊢
      obtain ⟨hfather, hcount⟩ := ih h
      rw [hears_concat, hear, hyield, tally_father, tally_count, voices_concat, hcount]
      refine ⟨?_, rfl⟩
      by_cases hc : v.2 = (b.hears l).candidate
      · -- the voice is not the first one for the candidate
        have hmem : (b.hears l).candidate ∈ l.map Prod.snd := (List.mem_cons.1 (b.hears_mem l)).resolve_left h
        obtain ⟨w, hw, hwc⟩ := List.mem_map.1 hmem
        obtain ⟨u, hu⟩ := first_of_mem hw hwc
        rw [hfather, first_concat_of_some hu, hu]
      · rw [hfather, first_concat_of_ne l hc]

end Ballot

end Extinction
