import Mathlib.Logic.Function.Basic
import Mathlib.Logic.Relation
import Mathlib.Data.Set.Insert
import Mathlib.Data.List.Basic

/-!
# Notice boards

A board holds at most one notice for each key. It tells its readers of every notice that is put up, and
a reader who subscribes of everything that hangs there. Notices may be taken down silently. Whoever has
subscribed once is up to date from then on: of every notice that hangs there, the board has told him the
current words last.
-/

/-- A board, and what it has told its readers. -/
structure NoticeBoard (I K V : Type*) where
  notices : K → Option V
  readers : Set I
  subscribers : Set I
  told : List (I × K × V)

namespace NoticeBoard

variable {I K V : Type*} [DecidableEq I] [DecidableEq K]

/-- What reader `i` was told about `k`. -/
def toldOf (told : List (I × K × V)) (i : I) (k : K) : List V :=
  told.filterMap fun t => if t.1 = i ∧ t.2.1 = k then some t.2.2 else none

/-- What reader `i` was told last about `k`. -/
def lastTold (told : List (I × K × V)) (i : I) (k : K) : Option V := (toldOf told i k).getLast?

theorem mem_toldOf {told : List (I × K × V)} {i : I} {k : K} {v : V} :
    v ∈ toldOf told i k ↔ (i, k, v) ∈ told := by
  unfold toldOf
  rw [List.mem_filterMap]
  constructor
  · rintro ⟨⟨j, l, w⟩, ht, hw⟩
    split at hw
    · rename_i hjl
      obtain ⟨rfl, rfl⟩ : j = i ∧ l = k := hjl
      cases hw
      exact ht
    · cases hw
  · intro h
    exact ⟨(i, k, v), h, by simp⟩

theorem toldOf_append (told told' : List (I × K × V)) (i : I) (k : K) :
    toldOf (told ++ told') i k = toldOf told i k ++ toldOf told' i k := List.filterMap_append

/-- Silence about `k` changes nothing. -/
theorem lastTold_append_of_silent {told copies : List (I × K × V)} {i : I} {k : K}
    (h : ∀ v, (i, k, v) ∉ copies) : lastTold (told ++ copies) i k = lastTold told i k := by
  have hnil : toldOf copies i k = [] := by
    rw [List.eq_nil_iff_forall_not_mem]
    intro v hv
    exact h v (mem_toldOf.1 hv)
  rw [lastTold, toldOf_append, hnil, List.append_nil, lastTold]

/-- New copies that agree about `k` are what counts. -/
theorem lastTold_append_of_told {told copies : List (I × K × V)} {i : I} {k : K} {v : V}
    (h : (i, k, v) ∈ copies) (hall : ∀ w, (i, k, w) ∈ copies → w = v) :
    lastTold (told ++ copies) i k = some v := by
  have hne : toldOf copies i k ≠ [] := List.ne_nil_of_mem (mem_toldOf.2 h)
  have hlast : (toldOf copies i k).getLast hne = v := hall _ (mem_toldOf.1 (List.getLast_mem hne))
  rw [lastTold, toldOf_append, List.getLast?_append, List.getLast?_eq_some_getLast hne, hlast]
  rfl

/-- What can happen to a board. -/
inductive Step : NoticeBoard I K V → NoticeBoard I K V → Prop where
  /-- A notice is put up, and copies of it go to all readers. -/
  | post (b : NoticeBoard I K V) (k : K) (v : V) (copies : List (I × K × V))
      (hall : ∀ i ∈ b.readers, (i, k, v) ∈ copies) (honly : ∀ t ∈ copies, t.2 = (k, v)) :
      Step b { b with notices := Function.update b.notices k (some v), told := b.told ++ copies }
  /-- Some notices are taken down. -/
  | remove (b : NoticeBoard I K V) (notices : K → Option V)
      (h : ∀ k v, notices k = some v → b.notices k = some v) : Step b { b with notices := notices }
  | enter (b : NoticeBoard I K V) (i : I) : Step b { b with readers := insert i b.readers }
  /-- A reader subscribes, and gets copies of everything. -/
  | subscribe (b : NoticeBoard I K V) (i : I) (copies : List (I × K × V)) (hi : i ∈ b.readers)
      (hall : ∀ k v, b.notices k = some v → (i, k, v) ∈ copies)
      (honly : ∀ t ∈ copies, b.notices t.2.1 = some t.2.2) :
      Step b { b with subscribers := insert i b.subscribers, told := b.told ++ copies }

/-- Any number of steps. -/
abbrev Steps : NoticeBoard I K V → NoticeBoard I K V → Prop := Relation.ReflTransGen Step

/-- Every subscriber is a reader, and is up to date. -/
structure Informed (b : NoticeBoard I K V) : Prop where
  reads : ∀ i ∈ b.subscribers, i ∈ b.readers
  current : ∀ i ∈ b.subscribers, ∀ k v, b.notices k = some v → lastTold b.told i k = some v

theorem Step.informed {b b' : NoticeBoard I K V} (h : Step b b') (hb : b.Informed) : b'.Informed := by
  cases h with
  | post k v copies hall honly =>
    refine ⟨hb.reads, fun i hi k' v' hk => ?_⟩
    by_cases hkey : k' = k
    · subst hkey
      have hv : v = v' := by simpa using hk
      subst hv
      refine lastTold_append_of_told (hall i (hb.reads i hi)) fun w hw => ?_
      exact (Prod.mk.inj (honly _ hw)).2
    · have hold : b.notices k' = some v' := by simpa [hkey] using hk
      have hsilent : ∀ w, (i, k', w) ∉ copies := fun w hw => hkey (Prod.mk.inj (honly _ hw)).1
      show lastTold (b.told ++ copies) i k' = _
      rw [lastTold_append_of_silent hsilent]
      exact hb.current i hi k' v' hold
  | remove notices hless => exact ⟨hb.reads, fun i hi k v hk => hb.current i hi k v (hless k v hk)⟩
  | enter i => exact ⟨fun j hj => Set.mem_insert_of_mem i (hb.reads j hj), hb.current⟩
  | subscribe i copies hi hall honly =>
    refine ⟨?_, fun j hj k v hk => ?_⟩
    · rintro j (rfl | hj)
      · exact hi
      · exact hb.reads j hj
    -- the copies go to one reader, but they are the truth for everyone
    · show lastTold (b.told ++ copies) j k = _
      by_cases htold : (j, k, v) ∈ copies
      · refine lastTold_append_of_told htold fun w hw => ?_
        have hnow : b.notices k = some w := honly _ hw
        exact Option.some.inj (hnow.symm.trans hk)
      · have hne : j ≠ i := by
          rintro rfl
          exact htold (hall k v hk)
        have hsilent : ∀ w, (j, k, w) ∉ copies := by
          intro w hw
          have hnow : b.notices k = some w := honly _ hw
          cases Option.some.inj (hnow.symm.trans hk)
          exact htold hw
        rw [lastTold_append_of_silent hsilent]
        exact hb.current j (hj.resolve_left hne) k v hk

/-- Over any run, subscribers stay informed. -/
theorem Steps.informed {b b' : NoticeBoard I K V} (h : Steps b b') (hb : b.Informed) : b'.Informed := by
  induction h with
  | refl => exact hb
  | tail _ hstep ih => exact hstep.informed ih

end NoticeBoard
