import Mathlib.Data.List.Basic
import Mathlib.Data.List.Infix

/-!
# Wire formats

A wire format writes a value as a list of symbols, and reads one from the front of a list. Two laws tie
the directions together: what was written is read back whatever follows it, and what was read is what
would have been written. From a part of a written value that was cut off, nothing can be read.

Formats are built from smaller ones: in sequence, where the second may depend on the first value,
repeated, carried over to another type, and behind a size.
-/

/-- A format for values of type `α` over symbols of type `σ`. -/
structure WireFormat (σ α : Type*) where
  /-- The values that can be written. -/
  Fits : α → Prop
  write : α → List σ
  /-- The value at the front of a list, and what follows it. -/
  read : List σ → Option (α × List σ)
  read_write : ∀ {a : α} (rest : List σ), Fits a → read (write a ++ rest) = some (a, rest)
  write_read : ∀ {data rest : List σ} {a : α}, read data = some (a, rest) → Fits a ∧ data = write a ++ rest

namespace WireFormat

variable {σ α β : Type*}

theorem read_written (F : WireFormat σ α) {a : α} (ha : F.Fits a) :
    F.read (F.write a) = some (a, []) := by
  simpa using F.read_write [] ha

/-- What follows does not change what is read. -/
theorem read_append (F : WireFormat σ α) {data rest : List σ} {a : α} (more : List σ)
    (h : F.read data = some (a, rest)) : F.read (data ++ more) = some (a, rest ++ more) := by
  obtain ⟨ha, rfl⟩ := F.write_read h
  rw [List.append_assoc]
  exact F.read_write _ ha

/-- What was read stands at the front of the data. -/
theorem write_prefix (F : WireFormat σ α) {data rest : List σ} {a : α}
    (h : F.read data = some (a, rest)) : F.write a <+: data := by
  rw [(F.write_read h).2]
  exact List.prefix_append _ _

/-- Nothing can be read from a written value that was cut short. -/
theorem read_cut (F : WireFormat σ α) {a : α} {cut : List σ} (ha : F.Fits a) (hp : cut <+: F.write a)
    (hne : cut ≠ F.write a) : F.read cut = none := by
  cases hcut : F.read cut with
  | none => rfl
  | some p =>
    obtain ⟨b, rest⟩ := p
    obtain ⟨more, hmore⟩ := hp
    have hread := F.read_append more hcut
    rw [hmore, F.read_written ha] at hread
    have hnil : rest ++ more = [] := (Prod.mk.inj (Option.some.inj hread)).2.symm
    rw [(List.append_eq_nil_iff.1 hnil).2, List.append_nil] at hmore
    exact absurd hmore hne

/-! ## Building blocks -/

/-- One symbol. -/
def symbol : WireFormat σ σ where
  Fits _ := True
  write a := [a]
  read
    | [] => none
    | a :: rest => some (a, rest)
  read_write _ _ := rfl
  write_read {data rest a} h := by
    cases data with
    | nil => cases h
    | cons b data =>
      cases h
      exact ⟨trivial, rfl⟩

/-- A given number of symbols. -/
def block (n : ℕ) : WireFormat σ (List σ) where
  Fits l := l.length = n
  write l := l
  read data := if n ≤ data.length then some (data.take n, data.drop n) else none
  read_write {l} rest hl := by
    subst hl
    simp
  write_read {data rest l} h := by
    split at h
    · rename_i hn
      cases h
      exact ⟨List.length_take_of_le hn, (List.take_append_drop n data).symm⟩
    · cases h

@[simp] theorem block_fits {n : ℕ} {l : List σ} : (block n).Fits l ↔ l.length = n := Iff.rfl

theorem block_read (n : ℕ) (data : List σ) :
    (block n).read data = if n ≤ data.length then some (data.take n, data.drop n) else none := rfl

/-- Fixed symbols, which carry no value. -/
def mark [DecidableEq σ] (l : List σ) : WireFormat σ Unit where
  Fits _ := True
  write _ := l
  read data := if data.take l.length = l then some ((), data.drop l.length) else none
  read_write _ _ := by simp
  write_read {data rest a} h := by
    split at h
    · rename_i hl
      cases h
      refine ⟨trivial, ?_⟩
      conv_lhs => rw [← List.take_append_drop l.length data, hl]
    · cases h

/-- One value, for which nothing is written. -/
def constant (a : α) : WireFormat σ α where
  Fits b := b = a
  write _ := []
  read data := some (a, data)
  read_write rest hb := by rw [hb]; rfl
  write_read h := by
    cases h
    exact ⟨rfl, rfl⟩

@[simp] theorem constant_fits {a b : α} : (constant a : WireFormat σ α).Fits b ↔ b = a := Iff.rfl

/-- No value at all. -/
def void : WireFormat σ α where
  Fits _ := False
  write _ := []
  read _ := none
  read_write _ h := h.elim
  write_read h := by cases h

/-- Two values one after the other; the format of the second may depend on the first. -/
def seq (F : WireFormat σ α) (G : α → WireFormat σ β) : WireFormat σ (α × β) where
  Fits p := F.Fits p.1 ∧ (G p.1).Fits p.2
  write p := F.write p.1 ++ (G p.1).write p.2
  read data := (F.read data).bind fun p => ((G p.1).read p.2).map fun q => ((p.1, q.1), q.2)
  read_write {p} rest hp := by
    rw [List.append_assoc, F.read_write _ hp.1, Option.bind_some, (G p.1).read_write _ hp.2]
    rfl
  write_read {data rest p} h := by
    obtain ⟨⟨a, mid⟩, hF, h⟩ := Option.bind_eq_some_iff.1 h
    obtain ⟨⟨b, rest'⟩, hG, h⟩ := Option.map_eq_some_iff.1 h
    cases h
    obtain ⟨ha, hdata⟩ := F.write_read hF
    obtain ⟨hb, hmid⟩ : (G a).Fits b ∧ mid = (G a).write b ++ rest' := (G a).write_read hG
    refine ⟨⟨ha, hb⟩, ?_⟩
    rw [hdata, hmid, List.append_assoc]

@[simp] theorem seq_fits {F : WireFormat σ α} {G : α → WireFormat σ β} {p : α × β} :
    (F.seq G).Fits p ↔ F.Fits p.1 ∧ (G p.1).Fits p.2 := Iff.rfl

theorem seq_read (F : WireFormat σ α) (G : α → WireFormat σ β) (data : List σ) :
    (F.seq G).read data =
      (F.read data).bind fun p => ((G p.1).read p.2).map fun q => ((p.1, q.1), q.2) := rfl

/-- The values of another type, each written as the value it stands for. -/
def iso (F : WireFormat σ α) (into : α → β) (back : β → α)
    (h : ∀ a, F.Fits a → back (into a) = a) :
    WireFormat σ β where
  Fits b := F.Fits (back b) ∧ into (back b) = b
  write b := F.write (back b)
  read data := (F.read data).map fun p => (into p.1, p.2)
  read_write {b} rest hb := by
    rw [F.read_write rest hb.1, Option.map_some, hb.2]
  write_read {data rest b} hread := by
    obtain ⟨⟨a, rest'⟩, hF, heq⟩ := Option.map_eq_some_iff.1 hread
    cases heq
    obtain ⟨ha, hdata⟩ := F.write_read hF
    have hback : back (into a) = a := h a ha
    refine ⟨⟨?_, ?_⟩, ?_⟩
    · rwa [hback]
    · rw [hback]
    · rw [hback]
      exact hdata

/-- The values of another type that stand for a value of this format. -/
def embed (F : WireFormat σ α) (into : α → β) (back : β → Option α)
    (h : ∀ {a b}, back b = some a ↔ into a = b) : WireFormat σ β where
  Fits b := ∃ a, back b = some a ∧ F.Fits a
  write b := (back b).elim [] F.write
  read data := (F.read data).map fun p => (into p.1, p.2)
  read_write {b} rest hb := by
    obtain ⟨a, hback, ha⟩ := hb
    rw [hback, Option.elim_some, F.read_write rest ha, Option.map_some, h.1 hback]
  write_read {data rest b} hread := by
    obtain ⟨⟨a, rest'⟩, hF, heq⟩ := Option.map_eq_some_iff.1 hread
    cases heq
    obtain ⟨ha, hdata⟩ := F.write_read hF
    refine ⟨⟨a, h.2 rfl, ha⟩, ?_⟩
    rw [h.2 rfl]
    exact hdata

theorem embed_fits {F : WireFormat σ α} {into : α → β} {back : β → Option α}
    {h : ∀ {a b}, back b = some a ↔ into a = b} {a : α} :
    (F.embed into back h).Fits (into a) ↔ F.Fits a := by
  constructor
  · rintro ⟨a', hback, ha'⟩
    rw [h.2 rfl] at hback
    cases hback
    exact ha'
  · intro ha
    exact ⟨a, h.2 rfl, ha⟩

theorem embed_write (F : WireFormat σ α) (into : α → β) (back : β → Option α)
    (h : ∀ {a b}, back b = some a ↔ into a = b) (a : α) :
    (F.embed into back h).write (into a) = F.write a := by
  show (back (into a)).elim [] F.write = _
  rw [h.2 rfl]
  rfl

theorem embed_read (F : WireFormat σ α) (into : α → β) (back : β → Option α)
    (h : ∀ {a b}, back b = some a ↔ into a = b) (data : List σ) :
    (F.embed into back h).read data = (F.read data).map fun p => (into p.1, p.2) := rfl

theorem iso_fits {F : WireFormat σ α} {into : α → β} {back : β → α}
    {h : ∀ a, F.Fits a → back (into a) = a} {b : β} :
    (F.iso into back h).Fits b ↔ F.Fits (back b) ∧ into (back b) = b := Iff.rfl

theorem iso_read (F : WireFormat σ α) (into : α → β) (back : β → α)
    (h : ∀ a, F.Fits a → back (into a) = a) (data : List σ) :
    (F.iso into back h).read data = (F.read data).map fun p => (into p.1, p.2) := rfl

/-- The reader of `many`. -/
def readMany (F : WireFormat σ α) : ℕ → List σ → Option (List α × List σ)
  | 0, data => some ([], data)
  | n + 1, data => (F.read data).bind fun p => (F.readMany n p.2).map fun q => (p.1 :: q.1, q.2)

theorem readMany_write (F : WireFormat σ α) {l : List α} (hl : ∀ a ∈ l, F.Fits a) (rest : List σ) :
    F.readMany l.length (l.flatMap F.write ++ rest) = some (l, rest) := by
  induction l with
  | nil => rfl
  | cons a l ih =>
    rw [List.length_cons, readMany, List.flatMap_cons, List.append_assoc, F.read_write _ (hl a (by simp)),
      Option.bind_some, ih fun b hb => hl b (by simp [hb])]
    rfl

theorem write_readMany (F : WireFormat σ α) {n : ℕ} {data rest : List σ} {l : List α}
    (h : F.readMany n data = some (l, rest)) :
    (l.length = n ∧ ∀ a ∈ l, F.Fits a) ∧ data = l.flatMap F.write ++ rest := by
  induction n generalizing data l with
  | zero =>
    cases h
    simp
  | succ n ih =>
    obtain ⟨⟨a, mid⟩, hF, h⟩ := Option.bind_eq_some_iff.1 h
    obtain ⟨⟨l', rest'⟩, hl, h⟩ := Option.map_eq_some_iff.1 h
    cases h
    obtain ⟨ha, hdata⟩ := F.write_read hF
    obtain ⟨⟨hlen, hfits⟩, hmid⟩ : _ ∧ mid = l'.flatMap F.write ++ rest' := ih hl
    refine ⟨⟨by rw [List.length_cons, hlen], ?_⟩, ?_⟩
    · intro b hb
      rcases List.mem_cons.1 hb with rfl | hb
      · exact ha
      · exact hfits b hb
    · rw [hdata, hmid, List.flatMap_cons, List.append_assoc]

/-- A given number of values of one format. -/
def many (F : WireFormat σ α) (n : ℕ) : WireFormat σ (List α) where
  Fits l := l.length = n ∧ ∀ a ∈ l, F.Fits a
  write l := l.flatMap F.write
  read := F.readMany n
  read_write {l} rest hl := by
    rw [← hl.1]
    exact F.readMany_write hl.2 rest
  write_read h := F.write_readMany h

@[simp] theorem many_fits {F : WireFormat σ α} {n : ℕ} {l : List α} :
    (F.many n).Fits l ↔ l.length = n ∧ ∀ a ∈ l, F.Fits a := Iff.rfl

theorem many_read (F : WireFormat σ α) (n : ℕ) (data : List σ) :
    (F.many n).read data = F.readMany n data := rfl

/-- A value behind its size. -/
def sized (N : WireFormat σ ℕ) (F : ℕ → WireFormat σ α) (size : α → ℕ)
    (h : ∀ n a, (F n).Fits a → size a = n) : WireFormat σ α :=
  (N.seq F).iso Prod.snd (fun a => (size a, a)) fun p hp => by rw [h p.1 p.2 hp.2]

theorem sized_fits {N : WireFormat σ ℕ} {F : ℕ → WireFormat σ α} {size : α → ℕ}
    {h : ∀ n a, (F n).Fits a → size a = n} {a : α} :
    (N.sized F size h).Fits a ↔ N.Fits (size a) ∧ (F (size a)).Fits a :=
  ⟨fun ha => ha.1, fun ha => ⟨ha, rfl⟩⟩

theorem sized_read (N : WireFormat σ ℕ) (F : ℕ → WireFormat σ α) (size : α → ℕ)
    (h : ∀ n a, (F n).Fits a → size a = n) (data : List σ) :
    (N.sized F size h).read data = (N.read data).bind fun p => (F p.1).read p.2 := by
  show (((N.read data).bind _).map _) = _
  cases hN : N.read data with
  | none => rfl
  | some p => cases hF : (F p.1).read p.2 <;> simp [hF]

end WireFormat
