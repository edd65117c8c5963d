import Mathlib.Data.List.Nodup
import Mathlib.Data.List.Perm.Basic

/-!
# Insertion-ordered dictionaries

`Dict K V` is a finite map that remembers the order in which its keys were first written, as the
dictionaries of scripting languages do: writing to a present key keeps its position, writing to a
new key appends it, and a removed key leaves no trace. The entries carry the proof that no key
occurs twice, so lookups, keys and values always agree.
-/

/-- An insertion-ordered dictionary. -/
structure Dict (K V : Type*) where
  /-- The key-value pairs, oldest key first. -/
  entries : List (K × V)
  /-- No key occurs twice. -/
  nodup : (entries.map Prod.fst).Nodup

namespace Dict

variable {K V : Type*}

theorem ext_entries {d d' : Dict K V} (h : d.entries = d'.entries) : d = d' := by
  cases d
  cases d'
  cases h
  rfl

/-- The dictionary without entries. -/
def empty : Dict K V := ⟨[], by simp⟩

instance : Inhabited (Dict K V) := ⟨empty⟩

/-- The keys, oldest first. -/
def keys (d : Dict K V) : List K := d.entries.map Prod.fst

/-- The values, in the order of their keys. -/
def values (d : Dict K V) : List V := d.entries.map Prod.snd

@[simp] theorem keys_empty : (empty : Dict K V).keys = [] := rfl

@[simp] theorem values_empty : (empty : Dict K V).values = [] := rfl

section Ops

variable [DecidableEq K]

/-- Look a key up in a list of pairs. -/
def lookupIn (k : K) : List (K × V) → Option V
  | [] => none
  | (k', v) :: es => if k' = k then some v else lookupIn k es

/-- Write a key into a list of pairs: in place when it is present, at the end when it is not. -/
def writeIn (k : K) (v : V) : List (K × V) → List (K × V)
  | [] => [(k, v)]
  | (k', v') :: es => if k' = k then (k, v) :: es else (k', v') :: writeIn k v es

/-- The value stored under `k`. -/
def get (d : Dict K V) (k : K) : Option V := lookupIn k d.entries

/-- `k` is a key of the dictionary. -/
def contains (d : Dict K V) (k : K) : Bool := (d.get k).isSome

theorem mem_keys_writeIn (k : K) (v : V) (es : List (K × V)) (x : K) :
    x ∈ (writeIn k v es).map Prod.fst ↔ x = k ∨ x ∈ es.map Prod.fst := by
  induction es with
  | nil => simp [writeIn]
  | cons e es ih =>
    obtain ⟨k', v'⟩ := e
    by_cases h : k' = k
    · subst h; simp [writeIn]
    · simp only [writeIn, h, if_false, List.map_cons, List.mem_cons, ih]
      tauto

theorem nodup_writeIn (k : K) (v : V) (es : List (K × V)) (h : (es.map Prod.fst).Nodup) :
    ((writeIn k v es).map Prod.fst).Nodup := by
  induction es with
  | nil => simp [writeIn]
  | cons e es ih =>
    obtain ⟨k', v'⟩ := e
    simp only [List.map_cons, List.nodup_cons] at h
    by_cases hk : k' = k
    · subst hk; simpa [writeIn] using h
    · simp only [writeIn, hk, if_false, List.map_cons, List.nodup_cons, mem_keys_writeIn]
      exact ⟨by simpa [hk] using h.1, ih h.2⟩

/-- Store `v` under `k`. -/
def set (d : Dict K V) (k : K) (v : V) : Dict K V :=
  ⟨writeIn k v d.entries, nodup_writeIn k v d.entries d.nodup⟩

/-- Remove `k`, if it is there. -/
def pop (d : Dict K V) (k : K) : Dict K V :=
  ⟨d.entries.filter (fun e => e.1 ≠ k), d.nodup.sublist (List.filter_sublist.map _)⟩

@[simp] theorem get_empty (k : K) : (empty : Dict K V).get k = none := rfl

theorem lookupIn_writeIn (k k' : K) (v : V) (es : List (K × V)) :
    lookupIn k' (writeIn k v es) = if k = k' then some v else lookupIn k' es := by
  induction es with
  | nil => simp [writeIn, lookupIn]
  | cons e es ih =>
    obtain ⟨j, w⟩ := e
    by_cases h : j = k
    · subst h
      by_cases h' : j = k' <;> simp [writeIn, lookupIn, h']
    · simp only [writeIn, h, if_false, lookupIn, ih]
      by_cases hj : j = k'
      · have : k ≠ k' := fun e => h (hj.trans e.symm)
        simp [hj, this]
      · simp [hj]

/-- Reading after a write. -/
theorem get_set (d : Dict K V) (k k' : K) (v : V) :
    (d.set k v).get k' = if k = k' then some v else d.get k' :=
  lookupIn_writeIn k k' v d.entries

@[simp] theorem get_set_self (d : Dict K V) (k : K) (v : V) : (d.set k v).get k = some v := by
  simp [get_set]

theorem get_set_ne (d : Dict K V) {k k' : K} (v : V) (h : k ≠ k') :
    (d.set k v).get k' = d.get k' := by
  simp [get_set, h]

theorem lookupIn_filter_ne (k k' : K) (es : List (K × V)) :
    lookupIn k' (es.filter (fun e => e.1 ≠ k)) = if k = k' then none else lookupIn k' es := by
  induction es with
  | nil => simp [lookupIn]
  | cons e es ih =>
    obtain ⟨j, w⟩ := e
    by_cases h : j = k
    · subst h
      by_cases h' : j = k' <;> simp_all [lookupIn]
    · by_cases hj : j = k'
      · have : k ≠ k' := fun e => h (hj.trans e.symm)
        subst hj
        simp [lookupIn, h, this]
      · simp_all [lookupIn]

/-- Reading after a removal. -/
theorem get_pop (d : Dict K V) (k k' : K) :
    (d.pop k).get k' = if k = k' then none else d.get k' :=
  lookupIn_filter_ne k k' d.entries

/-- What is there after a removal was there before. -/
theorem get_of_get_pop {d : Dict K V} {k j : K} {v : V} (h : (d.pop k).get j = some v) :
    d.get j = some v := by
  rw [get_pop] at h
  split at h
  · cases h
  · exact h

/-- Reading after several removals. -/
theorem get_foldl_pop (d : Dict K V) (ks : List K) (k : K) :
    (ks.foldl pop d).get k = if k ∈ ks then none else d.get k := by
  induction ks generalizing d with
  | nil => simp
  | cons j ks ih =>
    rw [List.foldl_cons, ih, get_pop]
    by_cases hj : j = k
    · simp [hj]
    · have hne : ¬ k = j := fun e => hj e.symm
      simp [hj, hne]

theorem get_of_get_foldl_pop {d : Dict K V} {ks : List K} {k : K} {v : V}
    (h : (ks.foldl pop d).get k = some v) : d.get k = some v := by
  rw [get_foldl_pop] at h
  split at h
  · cases h
  · exact h

@[simp] theorem get_pop_self (d : Dict K V) (k : K) : (d.pop k).get k = none := by
  simp [get_pop]

theorem lookupIn_eq_some_iff (k : K) (v : V) (es : List (K × V)) (h : (es.map Prod.fst).Nodup) :
    lookupIn k es = some v ↔ (k, v) ∈ es := by
  induction es with
  | nil => simp [lookupIn]
  | cons e es ih =>
    obtain ⟨j, w⟩ := e
    simp only [List.map_cons, List.nodup_cons] at h
    by_cases hj : j = k
    · subst hj
      have hnot : ∀ x, (j, x) ∉ es := fun x hx => h.1 (List.mem_map_of_mem hx)
      simp [lookupIn, hnot, eq_comm]
    · have hne : ¬ k = j := fun e => hj e.symm
      simp [lookupIn, hj, ih h.2, hne]

/-- A lookup succeeds exactly on the stored pairs. -/
theorem get_eq_some_iff (d : Dict K V) {k : K} {v : V} :
    d.get k = some v ↔ (k, v) ∈ d.entries :=
  lookupIn_eq_some_iff k v d.entries d.nodup

theorem mem_values (d : Dict K V) {v : V} : v ∈ d.values ↔ ∃ k, d.get k = some v := by
  simp only [values, List.mem_map, Prod.exists, exists_eq_right, get_eq_some_iff]

theorem contains_iff {d : Dict K V} {k : K} : d.contains k = true ↔ ∃ v, d.get k = some v := by
  simp [contains, Option.isSome_iff_exists]

/-- Distinct keys hold distinct values, so the values are listed without repetition. -/
theorem values_nodup (d : Dict K V)
    (h : ∀ k k' v, d.get k = some v → d.get k' = some v → k = k') : d.values.Nodup := by
  have hpairs : d.entries.Nodup := d.nodup.of_map
  refine hpairs.map_on ?_
  rintro ⟨k, v⟩ hk ⟨k', v'⟩ hk' (rfl : v = v')
  have := h k k' v (d.get_eq_some_iff.2 hk) (d.get_eq_some_iff.2 hk')
  rw [this]

theorem writeIn_of_not_mem (k : K) (v : V) (es : List (K × V)) (h : k ∉ es.map Prod.fst) :
    writeIn k v es = es ++ [(k, v)] := by
  induction es with
  | nil => rfl
  | cons e es ih =>
    obtain ⟨j, w⟩ := e
    simp only [List.map_cons, List.mem_cons, not_or] at h
    have hj : ¬ j = k := fun e => h.1 e.symm
    simp [writeIn, hj, ih h.2]

theorem keys_writeIn (k : K) (v : V) (es : List (K × V)) :
    (writeIn k v es).map Prod.fst =
      if k ∈ es.map Prod.fst then es.map Prod.fst else es.map Prod.fst ++ [k] := by
  induction es with
  | nil => simp [writeIn]
  | cons e es ih =>
    obtain ⟨j, w⟩ := e
    by_cases hj : j = k
    · subst hj; simp [writeIn]
    · have hne : ¬ k = j := fun e => hj e.symm
      simp only [writeIn, hj, if_false, List.map_cons, ih, List.mem_cons, hne, false_or]
      split <;> rfl

/-- A write adds its key at the end, when the key is new. -/
theorem keys_set (d : Dict K V) (k : K) (v : V) :
    (d.set k v).keys = if k ∈ d.keys then d.keys else d.keys ++ [k] :=
  keys_writeIn k v d.entries

theorem keys_pop (d : Dict K V) (k : K) : (d.pop k).keys = d.keys.filter (· ≠ k) := by
  simp only [keys, pop, List.filter_map]
  rfl

theorem mem_keys (d : Dict K V) {k : K} : k ∈ d.keys ↔ ∃ v, d.get k = some v := by
  simp only [keys, List.mem_map, Prod.exists, exists_and_right, exists_eq_right, get_eq_some_iff]

theorem writeIn_eq_self (k : K) (v : V) (es : List (K × V)) (h : lookupIn k es = some v) :
    writeIn k v es = es := by
  induction es with
  | nil => cases h
  | cons e es ih =>
    obtain ⟨j, w⟩ := e
    by_cases hj : j = k
    · subst hj
      rw [lookupIn, if_pos rfl] at h
      cases h
      simp [writeIn]
    · rw [lookupIn, if_neg hj] at h
      simp [writeIn, hj, ih h]

/-- Writing what is already there changes nothing. -/
theorem set_eq_self (d : Dict K V) {k : K} {v : V} (h : d.get k = some v) : d.set k v = d :=
  ext_entries (writeIn_eq_self k v d.entries h)

/-- Removing what is not there changes nothing. -/
theorem pop_eq_self (d : Dict K V) {k : K} (h : d.get k = none) : d.pop k = d := by
  refine ext_entries (List.filter_eq_self.2 fun e he => ?_)
  have hne : e.1 ≠ k := by
    rintro rfl
    rw [d.get_eq_some_iff.2 he] at h
    cases h
  simpa using hne

/-- Writing pairs with new, distinct keys one after the other appends them. -/
theorem entries_foldl_set (d : Dict K V) (es : List (K × V))
    (h : ((d.entries ++ es).map Prod.fst).Nodup) :
    (es.foldl (fun d e => d.set e.1 e.2) d).entries = d.entries ++ es := by
  induction es generalizing d with
  | nil => simp
  | cons e es ih =>
    have hnot : e.1 ∉ d.entries.map Prod.fst := by
      intro hmem
      simp only [List.map_append, List.map_cons, List.nodup_append, List.mem_cons, forall_eq_or_imp] at h
      exact (h.2.2 e.1 hmem).1 rfl
    have hset : (d.set e.1 e.2).entries = d.entries ++ [e] := writeIn_of_not_mem e.1 e.2 _ hnot
    rw [List.foldl_cons, ih (d.set e.1 e.2) (by rw [hset]; simpa using h), hset]
    simp

/-- A dictionary is rebuilt by writing its pairs in order. -/
theorem foldl_set_entries (d : Dict K V) :
    d.entries.foldl (fun d e => d.set e.1 e.2) empty = d := by
  apply ext_entries
  simpa [empty] using entries_foldl_set empty d.entries (by simpa [empty] using d.nodup)

end Ops

end Dict
