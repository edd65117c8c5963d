import Mathlib.Data.Nat.ModEq

/-!
# Numbered attempts

A sender numbers its attempts one after the other, modulo `M`, and only some of them get through. What
gets through is numbered without a gap exactly when the number of attempts lost before each of them is a
multiple of `M`.
-/

namespace Numbering

variable {α : Type} {M : ℕ} {number : α → ℕ}

/-- The numbers of the list run on from `s`, modulo `M`. -/
def Runs (M : ℕ) (number : α → ℕ) : ℕ → List α → Prop
  | _, [] => True
  | s, x :: l => number x = s % M ∧ Runs M number (s + 1) l

theorem runs_iff {s : ℕ} {l : List α} :
    Runs M number s l ↔ ∀ i (hi : i < l.length), number l[i] = (s + i) % M := by
  induction l generalizing s with
  | nil => simp [Runs]
  | cons x l ih =>
    have hstep : ∀ i, s + 1 + i = s + (i + 1) := fun i => by omega
    simp only [Runs, ih, hstep]
    constructor
    · rintro ⟨hx, hl⟩ i hi
      cases i with
      | zero => exact hx
      | succ i => exact hl i (Nat.lt_of_succ_lt_succ hi)
    · intro h
      exact ⟨h 0 (Nat.succ_pos _), fun i hi => h (i + 1) (Nat.succ_lt_succ hi)⟩

theorem runs_append {s : ℕ} {l l' : List α} :
    Runs M number s (l ++ l') ↔ Runs M number s l ∧ Runs M number (s + l.length) l' := by
  induction l generalizing s with
  | nil => simp [Runs]
  | cons x l ih =>
    have hlen : s + 1 + l.length = s + (x :: l).length := by
      rw [List.length_cons]
      omega
    simp only [List.cons_append, Runs, ih, hlen, and_assoc]

/-- A property of every split of a list, taken apart at its head. -/
theorem forall_split_cons {P : List α → α → Prop} {x : α} {l : List α} :
    (∀ before y after, x :: l = before ++ y :: after → P before y) ↔
      P [] x ∧ ∀ before y after, l = before ++ y :: after → P (x :: before) y := by
  constructor
  · intro h
    refine ⟨h [] x l rfl, fun before y after hl => h (x :: before) y after ?_⟩
    rw [hl, List.cons_append]
  · rintro ⟨hx, hl⟩ before y after h
    cases before with
    | nil =>
      cases h
      exact hx
    | cons z before =>
      cases h
      exact hl before y after rfl

/-- What is kept of numbered attempts, of which `d` were lost before. -/
theorem runs_filter_iff_add (kept : α → Bool) {s d : ℕ} {l : List α} (h : Runs M number (s + d) l) :
    Runs M number s (l.filter kept) ↔ ∀ before x after, l = before ++ x :: after → kept x = true →
      M ∣ d + before.countP fun y => !kept y := by
  induction l generalizing s d with
  | nil => simp [Runs]
  | cons x l ih =>
    obtain ⟨hx, hl⟩ := h
    rw [forall_split_cons (P := fun before x => kept x = true → M ∣ d + before.countP fun y => !kept y)]
    cases hk : kept x with
    | true =>
      have hnext : Runs M number (s + 1 + d) l := by
        rwa [show s + 1 + d = s + d + 1 by omega]
      have hhead : number x = s % M ↔ M ∣ d := by
        rw [hx]
        exact Nat.add_modEq_left_iff
      rw [List.filter_cons_of_pos hk]
      simp [Runs, hhead, ih hnext, hk]
    | false =>
      have hnext : Runs M number (s + (d + 1)) l := by
        rwa [show s + (d + 1) = s + d + 1 by omega]
      rw [List.filter_cons_of_neg (by simp [hk]), ih hnext]
      simp [hk, Nat.add_assoc, Nat.add_comm 1]

/-- What is kept of numbered attempts. -/
theorem runs_filter_iff (kept : α → Bool) {s : ℕ} {l : List α} (h : Runs M number s l) :
    Runs M number s (l.filter kept) ↔ ∀ before x after, l = before ++ x :: after → kept x = true →
      M ∣ before.countP fun y => !kept y := by
  have h0 := runs_filter_iff_add kept (d := 0) h
  simpa using h0

/-! ## A receiver that counts on

The receiver takes over each number that it sees, and expects the next one without the modulus. -/

/-- After attempt `i` the next number that is seen, with `k` attempts lost in between, is the expected one
only if the losses are a multiple of `M` and the numbers have not just run around. -/
theorem expected_iff (hM : 0 < M) (i k : ℕ) : i % M + 1 = (i + k + 1) % M ↔ M ∣ k ∧ ¬ M ∣ i + 1 := by
  have hlt : (i + k + 1) % M < M := Nat.mod_lt _ hM
  have hrest : i % M + 1 ≤ M := Nat.mod_lt i hM
  have hsucc : ¬ M ∣ i + 1 ↔ i % M + 1 < M := by
    conv_lhs => rw [← Nat.div_add_mod i M, Nat.add_assoc, Nat.dvd_add_right (Nat.dvd_mul_right M _)]
    constructor
    · intro hd
      refine lt_of_le_of_ne hrest fun he => hd ?_
      rw [he]
    · exact fun hi hd => Nat.not_le_of_lt hi (Nat.le_of_dvd (Nat.succ_pos _) hd)
  have hmod : i % M + 1 < M → (i + 1) % M = i % M + 1 := fun h => by
    rw [← Nat.mod_add_mod, Nat.mod_eq_of_lt h]
  have hshift : i + k + 1 = i + 1 + k := by omega
  constructor
  · intro h
    have hi : i % M + 1 < M := h ▸ hlt
    refine ⟨?_, hsucc.2 hi⟩
    rw [← hmod hi, hshift] at h
    exact Nat.add_modEq_left_iff.1 h.symm
  · rintro ⟨hk, hi⟩
    rw [← hmod (hsucc.1 hi), hshift]
    exact (Nat.add_modEq_left_iff.2 hk).symm

end Numbering
