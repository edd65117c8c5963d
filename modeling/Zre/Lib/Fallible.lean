import Mathlib.Data.List.Basic

/-!
# Rules for programs that may raise

A program that may raise is an `Except`. `Ensures x P` says that a result of `x` satisfies `P`
(nothing is said when `x` raises), `Yields x P` says that `x` does not raise and its result satisfies
`P`. There is one rule for sequencing and one for loops over a list, for each of the two.
-/

namespace Fallible

variable {ε α β : Type}

@[simp] theorem bind_ok (a : α) (f : α → Except ε β) : (Except.ok a >>= f) = f a := rfl

@[simp] theorem bind_error (e : ε) (f : α → Except ε β) :
    ((Except.error e : Except ε α) >>= f) = .error e := rfl

@[simp] theorem pure_eq_ok (a : α) : (pure a : Except ε α) = .ok a := rfl

/-- A sequence returns when both parts return. -/
theorem bind_eq_ok_iff {x : Except ε α} {f : α → Except ε β} {b : β} :
    (x >>= f) = .ok b ↔ ∃ a, x = .ok a ∧ f a = .ok b := by
  cases x <;> simp

/-- A sequence raises what its first part raises, or what its second part raises after it. -/
theorem bind_eq_error_iff {x : Except ε α} {f : α → Except ε β} {e : ε} :
    (x >>= f) = .error e ↔ x = .error e ∨ ∃ a, x = .ok a ∧ f a = .error e := by
  cases x <;> simp

theorem eq_ok_of_toOption {x : Except ε α} {a : α} (h : x.toOption = some a) : x = .ok a := by
  cases x with
  | ok b => exact congrArg Except.ok (Option.some.inj h)
  | error e => cases h

/-- What returned is the result. -/
theorem eq_ok_getD {x : Except ε α} {a : α} (h : x.toOption.isSome = true) :
    x = .ok (x.toOption.getD a) := by
  cases x with
  | ok b => rfl
  | error e => cases h

/-- A result of `x` satisfies `P`. -/
def Ensures (x : Except ε α) (P : α → Prop) : Prop := ∀ a, x = .ok a → P a

/-- `x` does not raise, and its result satisfies `P`. -/
def Yields (x : Except ε α) (P : α → Prop) : Prop := ∃ a, x = .ok a ∧ P a

theorem Ensures.ok {a : α} {P : α → Prop} (h : P a) : Ensures (.ok a : Except ε α) P := by
  rintro b ⟨⟩; exact h

theorem Ensures.error {e : ε} {P : α → Prop} : Ensures (.error e : Except ε α) P := by
  rintro b ⟨⟩

theorem Ensures.mono {x : Except ε α} {P Q : α → Prop} (h : Ensures x P) (hPQ : ∀ a, P a → Q a) :
    Ensures x Q := fun a ha => hPQ a (h a ha)

theorem Ensures.and {x : Except ε α} {P Q : α → Prop} (hP : Ensures x P) (hQ : Ensures x Q) :
    Ensures x fun a => P a ∧ Q a := fun a ha => ⟨hP a ha, hQ a ha⟩

theorem Ensures.bind {x : Except ε α} {f : α → Except ε β} {P : α → Prop} {Q : β → Prop}
    (hx : Ensures x P) (hf : ∀ a, P a → Ensures (f a) Q) : Ensures (x >>= f) Q := by
  intro b hb
  obtain ⟨a, ha, hfa⟩ := bind_eq_ok_iff.1 hb
  exact hf a (hx a ha) b hfa

theorem Yields.ok {a : α} {P : α → Prop} (h : P a) : Yields (.ok a : Except ε α) P := ⟨a, rfl, h⟩

theorem Yields.mono {x : Except ε α} {P Q : α → Prop} (h : Yields x P) (hPQ : ∀ a, P a → Q a) :
    Yields x Q := by
  obtain ⟨a, ha, hP⟩ := h
  exact ⟨a, ha, hPQ a hP⟩

theorem Yields.of_returns {x : Except ε α} {P : α → Prop} (h : ∃ a, x = .ok a) (hP : Ensures x P) :
    Yields x P := by
  obtain ⟨a, ha⟩ := h
  exact ⟨a, ha, hP a ha⟩

theorem Yields.returns {x : Except ε α} {P : α → Prop} (h : Yields x P) : ∃ a, x = .ok a := by
  obtain ⟨a, ha, -⟩ := h
  exact ⟨a, ha⟩

theorem Yields.bind {x : Except ε α} {f : α → Except ε β} {P : α → Prop} {Q : β → Prop}
    (hx : Yields x P) (hf : ∀ a, P a → Yields (f a) Q) : Yields (x >>= f) Q := by
  obtain ⟨a, rfl, ha⟩ := hx
  exact hf a ha

section Loops

variable {f : β → α → Except ε β}

/-- The loop rule: what every round preserves holds after the loop. -/
theorem Ensures.foldlM {I : β → Prop} {l : List α} {b : β} (hb : I b)
    (h : ∀ c a, a ∈ l → I c → Ensures (f c a) I) : Ensures (l.foldlM f b) I := by
  induction l generalizing b with
  | nil => exact Ensures.ok hb
  | cons a l ih =>
    rw [List.foldlM_cons]
    exact (h b a (by simp) hb).bind fun c hc => ih hc fun d x hx => h d x (by simp [hx])

/-- The loop rule for a reflexive and transitive relation between the states before and after. -/
theorem Ensures.foldlM_rel {R : β → β → Prop} (hrefl : ∀ c, R c c)
    (htrans : ∀ c d e, R c d → R d e → R c e) {l : List α} {b : β}
    (h : ∀ c a, a ∈ l → Ensures (f c a) (R c)) : Ensures (l.foldlM f b) (R b) := by
  refine Ensures.foldlM (hrefl b) ?_
  intro c a ha hbc d hd
  exact htrans b c d hbc (h c a ha d hd)

/-- The rule for what one round brings about: `S` holds after the round of `x`, and no later round undoes
it. -/
theorem Ensures.foldlM_reach {I S : β → Prop} {l : List α} {b : β} {x : α} (hx : x ∈ l) (hb : I b)
    (hI : ∀ c a, a ∈ l → I c → Ensures (f c a) I) (hS : ∀ c, I c → Ensures (f c x) S)
    (hkeep : ∀ c a, a ∈ l → I c → S c → Ensures (f c a) S) : Ensures (l.foldlM f b) S := by
  induction l generalizing b with
  | nil => cases hx
  | cons a l ih =>
    have hI' : ∀ c y, y ∈ l → I c → Ensures (f c y) I := fun c y hy => hI c y (List.mem_cons_of_mem a hy)
    have hkeep' : ∀ c y, y ∈ l → I c ∧ S c → Ensures (f c y) fun d => I d ∧ S d := fun c y hy h =>
      (hI' c y hy h.1).and (hkeep c y (List.mem_cons_of_mem a hy) h.1 h.2)
    rw [List.foldlM_cons]
    rcases List.mem_cons.1 hx with rfl | hx
    · refine ((hI b x (by simp) hb).and (hS b hb)).bind fun c hc => ?_
      exact (Ensures.foldlM (I := fun d => I d ∧ S d) hc hkeep').mono fun _ h => h.2
    · exact (hI b a (by simp) hb).bind fun c hc =>
        ih hx hc hI' fun d y hy => hkeep d y (List.mem_cons_of_mem a hy)

/-- The loop rule for loops that do not raise. -/
theorem Yields.foldlM {I : β → Prop} {l : List α} {b : β} (hb : I b)
    (h : ∀ c a, a ∈ l → I c → Yields (f c a) I) : Yields (l.foldlM f b) I := by
  induction l generalizing b with
  | nil => exact Yields.ok hb
  | cons a l ih =>
    rw [List.foldlM_cons]
    exact (h b a (by simp) hb).bind fun c hc => ih hc fun d x hx => h d x (by simp [hx])

/-- A loop raises in one of its rounds. -/
theorem foldlM_eq_error {l : List α} {b : β} {e : ε} (h : l.foldlM f b = .error e) :
    ∃ before a after c, l = before ++ a :: after ∧ before.foldlM f b = .ok c ∧ f c a = .error e := by
  induction l generalizing b with
  | nil => cases h
  | cons a l ih =>
    rw [List.foldlM_cons] at h
    rcases bind_eq_error_iff.1 h with herr | ⟨c, hc, hrest⟩
    · exact ⟨[], a, l, b, rfl, rfl, herr⟩
    · obtain ⟨before, x, after, d, rfl, hbefore, hx⟩ := ih hrest
      refine ⟨a :: before, x, after, d, rfl, ?_, hx⟩
      rw [List.foldlM_cons, hc]
      exact hbefore

end Loops

end Fallible
