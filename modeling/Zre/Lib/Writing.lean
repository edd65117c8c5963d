/-!
# Programs that write and may raise

What a program has written when it raises is not taken back. A program is atomic if a raise leaves no trace. The
rules below follow the order in which such programs do their work: tests first, and nothing that may fail after
the first write.
-/

namespace Writing

variable {ε σ π α β : Type}

/-- A program over a state. The state survives a raise. -/
abbrev Prog (ε σ α : Type) := ExceptT ε (StateM σ) α

/-- The result or the exception, and the state that is left. -/
def exec (x : Prog ε σ α) (s : σ) : Except ε α × σ := Id.run (StateT.run (ExceptT.run x) s)

@[simp] theorem exec_pure (a : α) (s : σ) : exec (pure a : Prog ε σ α) s = (.ok a, s) := rfl

@[simp] theorem exec_throw (e : ε) (s : σ) : exec (throw e : Prog ε σ α) s = (.error e, s) := rfl

@[simp] theorem exec_modify (f : σ → σ) (s : σ) : exec (modify f : Prog ε σ PUnit) s = (.ok ⟨⟩, f s) := rfl

@[simp] theorem exec_get (s : σ) : exec (get : Prog ε σ σ) s = (.ok s, s) := rfl

theorem exec_bind (x : Prog ε σ α) (f : α → Prog ε σ β) (s : σ) :
    exec (x >>= f) s = match exec x s with
      | (.ok a, s') => exec (f a) s'
      | (.error e, s') => (.error e, s') := by
  change exec (ExceptT.mk (StateT.bind (ExceptT.run x) (ExceptT.bindCont f))) s = _
  unfold exec
  simp only [ExceptT.run, ExceptT.mk, StateT.run, StateT.bind, Id.run, bind]
  rcases x s with ⟨_ | a, s'⟩ <;> rfl

theorem exec_tryCatch (x : Prog ε σ α) (f : ε → Prog ε σ α) (s : σ) :
    exec (tryCatch x f) s = match exec x s with
      | (.ok a, s') => (.ok a, s')
      | (.error e, s') => exec (f e) s' := by
  change exec (ExceptT.tryCatch x f) s = _
  unfold exec
  simp only [ExceptT.tryCatch, ExceptT.run, ExceptT.mk, StateT.run, StateT.bind, Id.run, bind]
  rcases x s with ⟨_ | a, s'⟩ <;> rfl

/-- The program writes nothing. -/
def Reads (x : Prog ε σ α) : Prop := ∀ s, (exec x s).2 = s

/-- The program does not raise. -/
def Succeeds (x : Prog ε σ α) : Prop := ∀ s, ∃ a s', exec x s = (.ok a, s')

/-- If the program raises, it has written nothing. -/
def Atomic (x : Prog ε σ α) : Prop := ∀ s e s', exec x s = (.error e, s') → s' = s

/-- The program is atomic, and leaves a part of the state alone. -/
structure Guarded (part : σ → π) (x : Prog ε σ α) : Prop where
  atomic : Atomic x
  keeps : ∀ s, part (exec x s).2 = part s

section Rules

variable {part : σ → π} {x : Prog ε σ α} {f : α → Prog ε σ β}

theorem reads_pure (a : α) : Reads (pure a : Prog ε σ α) := fun _ => rfl

theorem reads_throw (e : ε) : Reads (throw e : Prog ε σ α) := fun _ => rfl

theorem reads_get : Reads (get : Prog ε σ σ) := fun _ => rfl

theorem succeeds_modify (g : σ → σ) : Succeeds (modify g : Prog ε σ PUnit) := fun s => ⟨⟨⟩, g s, rfl⟩

theorem Reads.atomic (h : Reads x) : Atomic x := by
  intro s e s' hs
  have := h s
  rwa [hs] at this

theorem Succeeds.atomic (h : Succeeds x) : Atomic x := by
  intro s e s' hs
  obtain ⟨a, s2, hok⟩ := h s
  rw [hok] at hs
  cases hs

theorem Reads.guarded (h : Reads x) : Guarded part x := ⟨h.atomic, fun s => congrArg part (h s)⟩

/-- A single write. -/
theorem guarded_modify {g : σ → σ} (h : ∀ s, part (g s) = part s) : Guarded part (modify g : Prog ε σ PUnit) :=
  ⟨(succeeds_modify g).atomic, h⟩

theorem guarded_ite {p : Prop} [Decidable p] {y : Prog ε σ α} (hx : Guarded part x) (hy : Guarded part y) :
    Guarded part (if p then x else y) := by
  split
  · exact hx
  · exact hy

theorem Reads.bind (hx : Reads x) (hf : ∀ a, Reads (f a)) : Reads (x >>= f) := by
  intro s
  have hs := hx s
  rw [exec_bind]
  rcases h : exec x s with ⟨_ | a, s'⟩ <;> rw [h] at hs
  · exact hs
  · exact (hf a s').trans hs

/-- Tests may come first. -/
theorem Reads.bind_guarded (hx : Reads x) (hf : ∀ a, Guarded part (f a)) : Guarded part (x >>= f) := by
  constructor
  · intro s e s2 hs2
    have hs := hx s
    rw [exec_bind] at hs2
    rcases h : exec x s with ⟨_ | a, s'⟩ <;> rw [h] at hs hs2
    · cases hs2
      exact hs
    · exact ((hf a).atomic s' e s2 hs2).trans hs
  · intro s
    have hs := hx s
    rw [exec_bind]
    rcases h : exec x s with ⟨_ | a, s'⟩ <;> rw [h] at hs
    · exact congrArg part hs
    · exact ((hf a).keeps s').trans (congrArg part hs)

/-- Writes that cannot fail may follow. -/
theorem Guarded.bind_succeeds (hx : Guarded part x) (hf : ∀ a, Succeeds (f a))
    (hkeep : ∀ a s, part (exec (f a) s).2 = part s) : Guarded part (x >>= f) := by
  constructor
  · intro s e s2 hs2
    rw [exec_bind] at hs2
    rcases h : exec x s with ⟨_ | a, s'⟩ <;> rw [h] at hs2
    · cases hs2
      exact hx.atomic s _ _ h
    · obtain ⟨b, s3, hok⟩ := hf a s'
      have hs2 : exec (f a) s' = (.error e, s2) := hs2
      rw [hok] at hs2
      cases hs2
  · intro s
    have hs := hx.keeps s
    rw [exec_bind]
    rcases h : exec x s with ⟨_ | a, s'⟩ <;> rw [h] at hs
    · exact hs
    · exact (hkeep a s').trans hs

end Rules

end Writing
