import Mathlib.Data.List.Chain

/-!
# Attendance

A directory knows some keys, greets them, and gives them up again, and it reports what it does. Two
laws of the reports are developed here: nothing is said about a key that is not present, and the
arrivals and departures of a key alternate.
-/

namespace Attendance

variable {K : Type}

/-- What is reported. -/
inductive Notice (K : Type) where
  | enter (k : K)
  | exit (k : K)
  /-- Something is said about a key. -/
  | word (k : K)
  | other

/-- How the directory stands to a key. -/
inductive Standing where
  | absent
  /-- Known, and never greeted. -/
  | stranger
  | ready
  /-- Greeted, and no longer ready. -/
  | torn
  deriving DecidableEq

/-- The key was greeted since it became known. -/
def Standing.Greeted (s : Standing) : Prop := s = ready ∨ s = torn

section Marks

variable [DecidableEq K]

/-- An arrival of `k` is `true`, a departure `false`. -/
def Notice.mark (k : K) : Notice K → Option Bool
  | enter j => if j = k then some true else none
  | exit j => if j = k then some false else none
  | _ => none

theorem Notice.mark_eq_true {k : K} {x : Notice K} : x.mark k = some true ↔ x = .enter k := by
  cases x <;> simp [Notice.mark]

theorem Notice.mark_eq_false {k : K} {x : Notice K} : x.mark k = some false ↔ x = .exit k := by
  cases x <;> simp [Notice.mark]

/-- The arrivals and departures of `k`. -/
def marks (k : K) (l : List (Notice K)) : List Bool := l.filterMap (Notice.mark k)

/-- The last mark of `k` is an arrival. -/
def Present (k : K) (l : List (Notice K)) : Prop := (marks k l).getLast? = some true

/-- Nothing is said about a key that is not present. -/
def Attended (l : List (Notice K)) : Prop := ∀ a k b, l = a ++ .word k :: b → Present k a

/-- The marks start with an arrival, and no two neighbours are equal. -/
def Alternating (bs : List Bool) : Prop := (false :: bs).IsChain (· ≠ ·)

theorem marks_append (k : K) (l l' : List (Notice K)) : marks k (l ++ l') = marks k l ++ marks k l' :=
  List.filterMap_append

theorem present_append_of_mark {k : K} {x : Notice K} (l : List (Notice K)) {b : Bool}
    (h : x.mark k = some b) : Present k (l ++ [x]) ↔ b = true := by
  simp [Present, marks, h]

theorem marks_append_of_no_mark {k : K} {l' : List (Notice K)} (l : List (Notice K))
    (h : ∀ x ∈ l', x.mark k = none) : marks k (l ++ l') = marks k l := by
  rw [marks_append, show marks k l' = [] from List.filterMap_eq_nil_iff.2 h, List.append_nil]

theorem present_append_of_no_mark {k : K} {l' : List (Notice K)} (l : List (Notice K))
    (h : ∀ x ∈ l', x.mark k = none) : Present k (l ++ l') ↔ Present k l := by
  unfold Present
  rw [marks_append_of_no_mark l h]

/-- A present key arrived, and has not left since. -/
theorem Present.arrived {k : K} {l : List (Notice K)} (h : Present k l) :
    ∃ a b, l = a ++ .enter k :: b ∧ .exit k ∉ b := by
  induction l using List.reverseRecOn with
  | nil => simp [Present, marks] at h
  | append_singleton l x ih =>
    cases hx : x.mark k with
    | some b =>
      have hb := (present_append_of_mark l hx).1 h
      subst hb
      exact ⟨l, [], by rw [Notice.mark_eq_true.1 hx], by simp⟩
    | none =>
      have hnone : ∀ y ∈ [x], y.mark k = none := by simpa using hx
      obtain ⟨a, b, rfl, hb⟩ := ih ((present_append_of_no_mark l hnone).1 h)
      refine ⟨a, b ++ [x], by simp, ?_⟩
      rw [List.mem_append, List.mem_singleton, not_or]
      refine ⟨hb, ?_⟩
      rintro rfl
      simp [Notice.mark] at hx

theorem Attended.append {l : List (Notice K)} (h : Attended l) {x : Notice K}
    (hx : ∀ k, x = .word k → Present k l) : Attended (l ++ [x]) := by
  intro a k b hab
  cases b using List.reverseRecOn with
  | nil =>
    obtain ⟨rfl, hx'⟩ := List.append_inj' hab rfl
    exact hx k (by simpa using hx')
  | append_singleton b y =>
    rw [← List.cons_append, ← List.append_assoc] at hab
    obtain ⟨rfl, -⟩ := List.append_inj' hab rfl
    exact h a k b rfl

theorem alternating_append {bs : List Bool} {b : Bool} :
    Alternating (bs ++ [b]) ↔ Alternating bs ∧ (bs.getLast? = some true ↔ b = false) := by
  unfold Alternating
  cases bs using List.reverseRecOn with
  | nil => cases b <;> simp
  | append_singleton bs c =>
    have hlast : (false :: (bs ++ [c])).getLast? = some c := by
      rw [← List.cons_append, List.getLast?_append]
      rfl
    have hsplit : false :: (bs ++ [c] ++ [b]) = (false :: (bs ++ [c])) ++ [b] := rfl
    rw [hsplit, List.isChain_append, hlast]
    cases b <;> cases c <;> simp

end Marks

/-! ## Steps -/

/-- One step of the directory, with what it reports. When `P` holds, only a stranger is greeted, and
only somebody who was greeted is given up. -/
inductive Step (P : Prop) (σ : K → Standing) : List (Notice K) → (K → Standing) → Prop where
  /-- Some keys may stop being ready. -/
  | quiet {l : List (Notice K)} {σ' : K → Standing} (hl : ∀ x ∈ l, x = .other)
      (h : ∀ j, σ' j = σ j ∨ (σ j = .ready ∧ σ' j = .torn)) : Step P σ l σ'
  | meet {σ' : K → Standing} (k : K) (hk : σ k = .absent) (hk' : σ' k = .stranger)
      (h : ∀ j, j ≠ k → σ' j = σ j) : Step P σ [] σ'
  | greet {σ' : K → Standing} (k : K) (i : Nat) (hp : P → σ k = .stranger) (hk' : (σ' k).Greeted)
      (h : ∀ j, j ≠ k → σ' j = σ j) : Step P σ (.enter k :: List.replicate i (.word k)) σ'
  | word (k : K) (hk : σ k = .ready) : Step P σ [.word k] σ
  | depart {σ' : K → Standing} (k : K) (hp : P → (σ k).Greeted) (hk' : σ' k = .absent)
      (h : ∀ j, j ≠ k → σ' j = σ j) : Step P σ [.exit k] σ'

/-- Several steps. -/
inductive Steps (P : Prop) (σ : K → Standing) : List (Notice K) → (K → Standing) → Prop where
  | refl : Steps P σ [] σ
  | tail {l l' : List (Notice K)} {σ' σ'' : K → Standing} (h : Steps P σ l σ') (hs : Step P σ' l' σ'') :
      Steps P σ (l ++ l') σ''

theorem Step.steps {P : Prop} {σ σ' : K → Standing} {l : List (Notice K)} (h : Step P σ l σ') :
    Steps P σ l σ' := Steps.refl.tail h

theorem Steps.trans {P : Prop} {σ σ' σ'' : K → Standing} {l l' : List (Notice K)}
    (h : Steps P σ l σ') (h' : Steps P σ' l' σ'') : Steps P σ (l ++ l') σ'' := by
  induction h' with
  | refl => rwa [List.append_nil]
  | tail _ hs ih =>
    rw [← List.append_assoc]
    exact ih.tail hs

section Laws

variable [DecidableEq K] {P : Prop} {σ σ' : K → Standing} {past l : List (Notice K)}

/-- Nothing was said about an absent key, and whoever is ready is present. -/
structure Sound (past : List (Notice K)) (σ : K → Standing) : Prop where
  attended : Attended past
  ready : ∀ k, σ k = .ready → Present k past

/-- The marks alternate, and exactly those who were greeted are present. -/
structure Paired (past : List (Notice K)) (σ : K → Standing) : Prop where
  alternating : ∀ k, Alternating (marks k past)
  greeted : ∀ k, Present k past ↔ (σ k).Greeted

theorem Attended.words {k : K} (h : Attended past) (hk : Present k past) (i : Nat) :
    Attended (past ++ List.replicate i (.word k)) := by
  induction i with
  | zero => simpa using h
  | succ i ih =>
    rw [List.replicate_succ', ← List.append_assoc]
    refine ih.append fun j hj => ?_
    cases hj
    exact (present_append_of_no_mark past fun x hx => by
      rw [List.eq_of_mem_replicate hx]
      rfl).2 hk

theorem Attended.others (h : Attended past) (hl : ∀ x ∈ l, x = .other) : Attended (past ++ l) := by
  induction l using List.reverseRecOn with
  | nil => simpa using h
  | append_singleton l x ih =>
    rw [← List.append_assoc]
    refine (ih fun y hy => hl y (by simp [hy])).append fun k hk => ?_
    rw [hl x (by simp)] at hk
    cases hk

theorem no_mark_of_others (hl : ∀ x ∈ l, x = .other) (k : K) : ∀ x ∈ l, x.mark k = none := by
  intro x hx
  rw [hl x hx]
  rfl

/-- The arrival of `k` with the words after it: `k` is present, and the other keys are not touched. -/
theorem present_greet (k j : K) (i : Nat) :
    Present j (past ++ .enter k :: List.replicate i (.word k)) ↔ j = k ∨ Present j past := by
  have hwords : ∀ x ∈ List.replicate i (Notice.word k), x.mark j = none := by
    intro x hx
    rw [List.eq_of_mem_replicate hx]
    rfl
  rw [List.append_cons, present_append_of_no_mark _ hwords]
  by_cases hj : j = k
  · subst hj
    rw [present_append_of_mark past (Notice.mark_eq_true.2 rfl)]
    simp
  · rw [present_append_of_no_mark past fun x hx => by
      rw [List.mem_singleton.1 hx, Notice.mark, if_neg (Ne.symm hj)]]
    simp [hj]

theorem present_depart (k j : K) : Present j (past ++ [.exit k]) ↔ j ≠ k ∧ Present j past := by
  by_cases hj : j = k
  · subst hj
    rw [present_append_of_mark past (Notice.mark_eq_false.2 rfl)]
    simp
  · rw [present_append_of_no_mark past fun x hx => by
      rw [List.mem_singleton.1 hx, Notice.mark, if_neg (Ne.symm hj)]]
    simp [hj]

theorem Step.sound (h : Step P σ l σ') (hs : Sound past σ) : Sound (past ++ l) σ' := by
  cases h with
  | quiet hl h =>
    refine ⟨hs.attended.others hl, fun k hk => ?_⟩
    rw [present_append_of_no_mark past (no_mark_of_others hl k)]
    rcases h k with hsame | ⟨-, htorn⟩
    · exact hs.ready k (hsame ▸ hk)
    · rw [htorn] at hk
      cases hk
  | meet k hk hk' h =>
    rw [List.append_nil]
    refine ⟨hs.attended, fun j hj => hs.ready j ?_⟩
    by_cases hjk : j = k
    · rw [hjk, hk'] at hj
      cases hj
    · rwa [h j hjk] at hj
  | greet k i hp hk' h =>
    constructor
    · rw [List.append_cons]
      refine (hs.attended.append fun j hj => by cases hj).words ?_ i
      exact (present_append_of_mark past (Notice.mark_eq_true.2 rfl)).2 rfl
    · intro j hj
      rw [present_greet]
      by_cases hjk : j = k
      · exact Or.inl hjk
      · exact Or.inr (hs.ready j (h j hjk ▸ hj))
  | word k hk =>
    refine ⟨hs.attended.append fun j hj => ?_, fun j hj => ?_⟩
    · cases hj
      exact hs.ready k hk
    · rw [present_append_of_no_mark past fun x hx => by rw [List.mem_singleton.1 hx]; rfl]
      exact hs.ready j hj
  | depart k hp hk' h =>
    refine ⟨hs.attended.append (fun j hj => by cases hj), fun j hj => ?_⟩
    have hjk : j ≠ k := by
      rintro rfl
      rw [hk'] at hj
      cases hj
    rw [present_depart]
    exact ⟨hjk, hs.ready j (h j hjk ▸ hj)⟩

/-- Every history of a directory is attended. -/
theorem Steps.sound (h : Steps P σ l σ') (hs : Sound past σ) : Sound (past ++ l) σ' := by
  induction h with
  | refl => rwa [List.append_nil]
  | tail _ hstep ih =>
    rw [← List.append_assoc]
    exact hstep.sound ih

theorem Step.paired (hP : P) (h : Step P σ l σ') (hs : Paired past σ) : Paired (past ++ l) σ' := by
  cases h with
  | quiet hl h =>
    refine ⟨fun k => ?_, fun k => ?_⟩
    · rw [marks_append_of_no_mark past (no_mark_of_others hl k)]
      exact hs.alternating k
    · rw [present_append_of_no_mark past (no_mark_of_others hl k), hs.greeted]
      rcases h k with hsame | ⟨hready, htorn⟩
      · rw [hsame]
      · rw [hready, htorn]
        simp [Standing.Greeted]
  | meet k hk hk' h =>
    rw [List.append_nil]
    refine ⟨hs.alternating, fun j => ?_⟩
    rw [hs.greeted]
    by_cases hjk : j = k
    · rw [hjk, hk, hk']
      simp [Standing.Greeted]
    · rw [h j hjk]
  | greet k i hp hk' h =>
    have hwords : ∀ j, ∀ x ∈ List.replicate i (Notice.word k), x.mark j = none := by
      intro j x hx
      rw [List.eq_of_mem_replicate hx]
      rfl
    refine ⟨fun j => ?_, fun j => ?_⟩
    · rw [List.append_cons, marks_append_of_no_mark _ (hwords j)]
      by_cases hjk : j = k
      · subst hjk
        have hnot : ¬ Present j past := by
          rw [hs.greeted, hp hP]
          simp [Standing.Greeted]
        rw [marks_append, show marks j [Notice.enter j] = [true] by simp [marks, Notice.mark],
          alternating_append]
        exact ⟨hs.alternating j, by simpa [Present] using hnot⟩
      · rw [marks_append_of_no_mark past fun x hx => by
          rw [List.mem_singleton.1 hx, Notice.mark, if_neg (Ne.symm hjk)]]
        exact hs.alternating j
    · rw [present_greet]
      by_cases hjk : j = k
      · rw [hjk]
        simp [hk']
      · rw [h j hjk, hs.greeted]
        simp [hjk]
  | word k hk =>
    have hnone : ∀ j, ∀ x ∈ [Notice.word k], x.mark j = none := by
      intro j x hx
      rw [List.mem_singleton.1 hx]
      rfl
    refine ⟨fun j => ?_, fun j => ?_⟩
    · rw [marks_append_of_no_mark past (hnone j)]
      exact hs.alternating j
    · rw [present_append_of_no_mark past (hnone j)]
      exact hs.greeted j
  | depart k hp hk' h =>
    refine ⟨fun j => ?_, fun j => ?_⟩
    · by_cases hjk : j = k
      · subst hjk
        have hpres := (hs.greeted j).2 (hp hP)
        rw [marks_append, show marks j [Notice.exit j] = [false] by simp [marks, Notice.mark],
          alternating_append]
        exact ⟨hs.alternating j, by simpa [Present] using hpres⟩
      · rw [marks_append_of_no_mark past fun x hx => by
          rw [List.mem_singleton.1 hx, Notice.mark, if_neg (Ne.symm hjk)]]
        exact hs.alternating j
    · rw [present_depart]
      by_cases hjk : j = k
      · rw [hjk, hk']
        simp [Standing.Greeted]
      · rw [h j hjk, hs.greeted]
        simp [hjk]

/-- The marks of every key alternate as long as only strangers are greeted and only those who were
greeted are given up. -/
theorem Steps.paired (hP : P) (h : Steps P σ l σ') (hs : Paired past σ) : Paired (past ++ l) σ' := by
  induction h with
  | refl => rwa [List.append_nil]
  | tail _ hstep ih =>
    rw [← List.append_assoc]
    exact hstep.paired hP ih

/-- Whatever is greeted or given up, exactly those who were greeted are present. -/
theorem Step.greeted (h : Step P σ l σ') (hs : ∀ k, Present k past ↔ (σ k).Greeted) (j : K) :
    Present j (past ++ l) ↔ (σ' j).Greeted := by
  cases h with
  | quiet hl h =>
    rw [present_append_of_no_mark past (no_mark_of_others hl j), hs]
    rcases h j with hsame | ⟨hready, htorn⟩
    · rw [hsame]
    · rw [hready, htorn]
      simp [Standing.Greeted]
  | meet k hk hk' h =>
    rw [List.append_nil, hs]
    by_cases hjk : j = k
    · rw [hjk, hk, hk']
      simp [Standing.Greeted]
    · rw [h j hjk]
  | greet k i hp hk' h =>
    rw [present_greet]
    by_cases hjk : j = k
    · rw [hjk]
      simp [hk']
    · rw [h j hjk, hs]
      simp [hjk]
  | word k hk =>
    rw [present_append_of_no_mark past fun x hx => by rw [List.mem_singleton.1 hx]; rfl]
    exact hs j
  | depart k hp hk' h =>
    rw [present_depart]
    by_cases hjk : j = k
    · rw [hjk, hk']
      simp [Standing.Greeted]
    · rw [h j hjk, hs]
      simp [hjk]

theorem Steps.greeted (h : Steps P σ l σ') (hs : ∀ k, Present k past ↔ (σ k).Greeted) (j : K) :
    Present j (past ++ l) ↔ (σ' j).Greeted := by
  induction h generalizing j with
  | refl =>
    rw [List.append_nil]
    exact hs j
  | tail _ hstep ih =>
    rw [← List.append_assoc]
    exact hstep.greeted ih j

end Laws

end Attendance
