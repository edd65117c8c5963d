import Mathlib.Data.List.Infix
import Mathlib.Data.Set.Insert

/-!
# Replicas of a set

A party holds a set, and tells another party about it over a link that keeps the order: now and then the
whole set, and its changes. The other party takes its copy from one of the full accounts, no matter which, and
follows the changes after it. Once nothing is on the way its copy is right about every item all of whose changes
were told. Every note has a number, and that of a change is the one after the number that was told last.
-/

namespace Replica

variable {α : Type*}

/-- What is told. -/
inductive Note (α : Type*) where
  | all (s : Set α)
  | add (a : α)
  | drop (a : α)

/-- What becomes of a copy. Whoever has one ignores a full account. -/
def Note.revise (s : Set α) : Note α → Set α
  | all _ => s
  | add a => insert a s
  | drop a => s \ {a}

/-- A copy after several notes. -/
def follow (s : Set α) (notes : List (Note α)) : Set α := notes.foldl Note.revise s

theorem follow_append (s : Set α) (notes : List (Note α)) (x : Note α) :
    follow s (notes ++ [x]) = x.revise (follow s notes) := List.foldl_concat ..

/-- One note is heard. A full account may be missed. -/
inductive Hears : Option (Set α) → Note α → Option (Set α) → Prop where
  | follow (s : Set α) (x : Note α) : Hears (some s) x (some (x.revise s))
  | miss (x : Note α) : Hears none x none
  | take (s : Set α) : Hears none (.all s) (some s)

/-- A copy is not lost. -/
theorem Hears.isSome {copy copy' : Option (Set α)} {x : Note α} (h : Hears copy x copy') (hs : copy.isSome) :
    copy'.isSome := by
  cases h with
  | follow | take => rfl
  | miss => cases hs

/-- What a note makes of an item does not depend on the other items. -/
theorem Note.revise_inter {s t K : Set α} (h : s ∩ K = t ∩ K) (x : Note α) : x.revise s ∩ K = x.revise t ∩ K := by
  have hmem : ∀ a ∈ K, a ∈ s ↔ a ∈ t := fun a ha => by simpa [ha] using Set.ext_iff.1 h a
  ext a
  cases x with
  | all => exact Set.ext_iff.1 h a
  | add b => exact and_congr_left fun ha => or_congr_right (hmem a ha)
  | drop b => exact and_congr_left fun ha => and_congr_left fun _ => hmem a ha

theorem follow_inter {s t K : Set α} (h : s ∩ K = t ∩ K) (notes : List (Note α)) :
    follow s notes ∩ K = follow t notes ∩ K := by
  induction notes generalizing s t with
  | nil => exact h
  | cons x notes ih => exact ih (x.revise_inter h)

/-- A note that makes no difference to the items in `K`. -/
def Note.Aside (K : Set α) (x : Note α) : Prop := ∀ s, x.revise s ∩ K = s ∩ K

theorem Note.aside_add {K : Set α} {a : α} (ha : a ∉ K) : (Note.add a).Aside K := by
  intro s
  ext b
  refine and_congr_left fun hb => or_iff_right ?_
  rintro rfl
  exact ha hb

theorem Note.aside_drop {K : Set α} {a : α} (ha : a ∉ K) : (Note.drop a).Aside K := by
  intro s
  ext b
  refine and_congr_left fun hb => and_iff_left ?_
  rintro rfl
  exact ha hb

/-- Whoever has a copy, or takes one from a full account that is on the way, comes to the set, as far as the items
in `K` go. -/
structure Traced (K own : Set α) (link : List (Note α)) (copy : Option (Set α)) : Prop where
  told : ∀ before s after, link = before ++ .all s :: after → follow s after ∩ K = own ∩ K
  copied : ∀ s, copy = some s → follow s link ∩ K = own ∩ K

/-- As long as nothing was told, the set is free. -/
theorem Traced.of_untold (K own : Set α) : Traced K own [] none := by
  constructor <;> simp

section

variable {K own own' : Set α} {link : List (Note α)} {copy copy' : Option (Set α)} {x : Note α}

/-- A change is told, or the whole set. -/
theorem Traced.tell (h : Traced K own link copy) (hx : ∀ s, x = .all s → s = own) :
    Traced K (x.revise own) (link ++ [x]) copy := by
  constructor
  · intro before s after hlink
    cases after using List.reverseRecOn with
    | nil =>
      obtain ⟨-, hlast⟩ := List.append_inj' hlink rfl
      obtain rfl := (List.cons.inj hlast).1
      rw [hx s rfl]
      rfl
    | append_singleton after y =>
      rw [← List.cons_append, ← List.append_assoc] at hlink
      obtain ⟨hinit, hlast⟩ := List.append_inj' hlink rfl
      obtain rfl := (List.cons.inj hlast).1
      rw [follow_append]
      exact x.revise_inter (h.told before s after hinit)
  · intro s hs
    rw [follow_append]
    exact x.revise_inter (h.copied s hs)

/-- The whole set is told, several times. -/
theorem Traced.retell (h : Traced K own link copy) {xs : List (Note α)} (hxs : ∀ x ∈ xs, x = .all own) :
    Traced K own (link ++ xs) copy := by
  induction xs generalizing link with
  | nil => simpa using h
  | cons x xs ih =>
    obtain rfl := hxs x List.mem_cons_self
    have hone : Traced K own (link ++ [.all own]) copy := h.tell fun s hs => (Note.all.inj hs).symm
    rw [List.append_cons]
    exact ih hone fun y hy => hxs y (List.mem_cons_of_mem _ hy)

/-- Another item changes, and nothing is told. -/
theorem Traced.untell (h : Traced K own link copy) (hown : own' ∩ K = own ∩ K) : Traced K own' link copy := by
  refine ⟨fun before s after hlink => ?_, fun s hs => ?_⟩
  · rw [hown]
    exact h.told before s after hlink
  · rw [hown]
    exact h.copied s hs

/-- The first note on the way is heard. -/
theorem Traced.hear (h : Traced K own (x :: link) copy) (hx : Hears copy x copy') : Traced K own link copy' := by
  constructor
  · intro before s after hlink
    exact h.told (x :: before) s after (by rw [hlink, List.cons_append])
  · intro s hs
    cases hx with
    | follow t =>
      obtain rfl := Option.some.inj hs
      exact h.copied t rfl
    | miss => cases hs
    | take t =>
      obtain rfl := Option.some.inj hs
      exact h.told [] t link rfl

/-- The first note on the way is ignored. -/
theorem Traced.ignore (h : Traced K own (x :: link) copy) (hx : x.Aside K) : Traced K own link copy := by
  constructor
  · intro before s after hlink
    exact h.told (x :: before) s after (by rw [hlink, List.cons_append])
  · intro s hs
    rw [← h.copied s hs]
    exact follow_inter (hx s).symm link

/-- Once nothing is on the way the copy is right. -/
theorem Traced.settles {s : Set α} (h : Traced K own [] (some s)) {a : α} (ha : a ∈ K) : a ∈ s ↔ a ∈ own := by
  have hcopied : s ∩ K = own ∩ K := h.copied s rfl
  simpa [ha] using Set.ext_iff.1 hcopied a

end

/-! ## Numbers -/

section Numbers

variable {β : Type*} (m : ℕ) (changes : β → Prop) (number : β → ℕ)

/-- The number of every change is the one after the number that was told before it. -/
def Counted (told : List β) : Prop :=
  ∀ before x after, told = before ++ x :: after → changes x →
    ∃ y, before.getLast? = some y ∧ number x = (number y + 1) % m

theorem Counted.nil : Counted m changes number [] := by
  intro before x after h
  simp at h

variable {m changes number}

theorem Counted.append {told : List β} (h : Counted m changes number told) {x : β}
    (hx : changes x → ∃ y, told.getLast? = some y ∧ number x = (number y + 1) % m) :
    Counted m changes number (told ++ [x]) := by
  intro before y after heq hy
  cases after using List.reverseRecOn with
  | nil =>
    obtain ⟨rfl, hlast⟩ := List.append_inj' heq rfl
    obtain rfl := (List.cons.inj hlast).1
    exact hx hy
  | append_singleton after z =>
    rw [← List.cons_append, ← List.append_assoc] at heq
    obtain ⟨hinit, -⟩ := List.append_inj' heq rfl
    exact h before y after hinit hy

/-- Something else is told. -/
theorem Counted.extend {told : List β} (h : Counted m changes number told) {xs : List β}
    (hxs : ∀ x ∈ xs, ¬ changes x) : Counted m changes number (told ++ xs) := by
  induction xs generalizing told with
  | nil => simpa using h
  | cons x xs ih =>
    rw [List.append_cons]
    exact ih (h.append fun hx => absurd hx (hxs x List.mem_cons_self)) fun y hy => hxs y (List.mem_cons_of_mem _ hy)

end Numbers

end Replica
