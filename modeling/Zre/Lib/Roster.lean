import Mathlib.Data.Finset.Image
import Zre.Lib.Attendance

/-!
# Rosters

Whoever follows the reports of a directory can keep a roster: who is present, and what each of them is reported to
belong to. What is reported are texts of the values that the directory holds.
-/

namespace Roster

open Attendance

variable {K V : Type}

/-- What is reported. -/
inductive Report (K V : Type) where
  | enter (k : K)
  | exit (k : K)
  | join (k : K) (v : V)
  | leave (k : K) (v : V)
  | word (k : K)
  | other

/-- What a report has to do with attendance. -/
def Report.notice : Report K V → Notice K
  | enter k => .enter k
  | exit k => .exit k
  | join k _ => .word k
  | leave k _ => .word k
  | word k => .word k
  | other => .other

variable [DecidableEq K] [DecidableEq V]

/-- The roster after one more report. Who enters again keeps what he had. -/
def hear (ro : K → Option (Finset V)) : Report K V → K → Option (Finset V)
  | .enter k => Function.update ro k (some ((ro k).getD ∅))
  | .exit k => Function.update ro k none
  | .join k v => Function.update ro k ((ro k).map (insert v))
  | .leave k v => Function.update ro k ((ro k).map fun s => s.erase v)
  | .word _ => ro
  | .other => ro

/-- The roster of somebody who has heard all the reports. -/
def replay (l : List (Report K V)) : K → Option (Finset V) := l.foldl hear fun _ => none

/-- What one report changes in what `k` belongs to, present or not. -/
def gather (k : K) (s : Finset V) : Report K V → Finset V
  | .exit j => if j = k then ∅ else s
  | .join j v => if j = k then insert v s else s
  | .leave j v => if j = k then s.erase v else s
  | _ => s

/-- What `k` was reported to belong to. -/
def gathered (k : K) (l : List (Report K V)) : Finset V := l.foldl (gather k) ∅

theorem gathered_append (k : K) (l l' : List (Report K V)) :
    gathered k (l ++ l') = l'.foldl (gather k) (gathered k l) := List.foldl_append

/-- Reports that change nothing. -/
theorem foldl_gather_of_idle {k : K} {l : List (Report K V)} (h : ∀ x ∈ l, ∀ s, gather k s x = s) (s : Finset V) :
    l.foldl (gather k) s = s := by
  induction l with
  | nil => rfl
  | cons x l ih =>
    rw [List.foldl_cons, h x List.mem_cons_self]
    exact ih fun y hy => h y (List.mem_cons_of_mem x hy)

/-- The roster has those who are present, each with all that was gathered about him. -/
theorem replay_eq {l : List (Report K V)} (h : Attended (l.map Report.notice)) (k : K) :
    (Present k (l.map Report.notice) → replay l k = some (gathered k l)) ∧
      (¬ Present k (l.map Report.notice) → replay l k = none ∧ gathered k l = ∅) := by
  induction l using List.reverseRecOn with
  | nil => exact ⟨fun hp => by simp [Present, marks] at hp, fun _ => ⟨rfl, rfl⟩⟩
  | append_singleton l x ih =>
    rw [List.map_append, List.map_singleton] at h ⊢
    have hold : Attended (l.map Report.notice) := fun a j b hab => h a j (b ++ [x.notice]) (by
      rw [hab, List.append_assoc]
      rfl)
    obtain ⟨hin, hout⟩ := ih hold
    have hreplay : replay (l ++ [x]) = hear (replay l) x := List.foldl_append
    have hgathered : gathered k (l ++ [x]) = gather k (gathered k l) x := List.foldl_append
    rw [hreplay, hgathered]
    have hsame : ∀ {j : K}, j ≠ k → ∀ v, Function.update (replay l) j v k = replay l k := fun hj v => by
      rw [Function.update_of_ne (Ne.symm hj)]
    -- a report that marks nothing keeps the present where they are
    have hidle : x.notice.mark k = none → (Present k (l.map Report.notice ++ [x.notice]) ↔
        Present k (l.map Report.notice)) := fun hx =>
      present_append_of_no_mark _ (by simpa using hx)
    have hword : ∀ {j : K} {φ : Finset V → Finset V}, x.notice = .word j →
        hear (replay l) x = Function.update (replay l) j ((replay l j).map φ) →
        gather k (gathered k l) x = (if j = k then φ (gathered k l) else gathered k l) →
        (Present k (l.map Report.notice ++ [x.notice]) → hear (replay l) x k = some (gather k (gathered k l) x)) ∧
          (¬ Present k (l.map Report.notice ++ [x.notice]) →
            hear (replay l) x k = none ∧ gather k (gathered k l) x = ∅) := by
      intro j φ hx hh hg
      rw [hidle (by rw [hx]; rfl), hh, hg]
      by_cases hj : j = k
      · subst hj
        have hp : Present j (l.map Report.notice) := h _ _ [] (by rw [hx])
        rw [Function.update_self, if_pos rfl, hin hp]
        exact ⟨fun _ => rfl, fun hno => absurd hp hno⟩
      · rw [hsame hj, if_neg hj]
        exact ⟨hin, hout⟩
    cases x with
    | enter j =>
      by_cases hj : j = k
      · subst hj
        have henter : (Report.enter j : Report K V).notice.mark j = some true := Notice.mark_eq_true.2 rfl
        rw [present_append_of_mark _ henter]
        refine ⟨fun _ => ?_, fun hno => absurd rfl hno⟩
        show Function.update (replay l) j (some ((replay l j).getD ∅)) j = some (gathered j l)
        rw [Function.update_self]
        by_cases hp : Present j (l.map Report.notice)
        · rw [hin hp]
          rfl
        · rw [(hout hp).1, (hout hp).2]
          rfl
      · rw [hidle (if_neg hj)]
        have hstill : hear (replay l) (Report.enter j) k = replay l k := hsame hj _
        rw [hstill]
        exact ⟨hin, hout⟩
    | exit j =>
      by_cases hj : j = k
      · subst hj
        have hexit : (Report.exit j : Report K V).notice.mark j = some false := Notice.mark_eq_false.2 rfl
        rw [present_append_of_mark _ hexit]
        refine ⟨fun hno => absurd hno Bool.false_ne_true, fun _ => ⟨?_, if_pos rfl⟩⟩
        simp [hear]
      · rw [hidle (if_neg hj)]
        have hstill : hear (replay l) (Report.exit j) k = replay l k := hsame hj _
        have hkept : gather k (gathered k l) (Report.exit j) = gathered k l := if_neg hj
        rw [hstill, hkept]
        exact ⟨hin, hout⟩
    | join j v => exact hword rfl rfl rfl
    | leave j v => exact hword rfl rfl rfl
    | word j =>
      rw [hidle rfl]
      exact ⟨hin, hout⟩
    | other =>
      rw [hidle rfl]
      exact ⟨hin, hout⟩

/-! ## What the directory holds -/

variable {B : Type} [DecidableEq B]

/-- The texts of what the directory holds of `k` include what was gathered and, where `P` holds, are all of it. -/
def Told (P : Prop) (f : B → V) (said : Finset V) (held : Finset B) : Prop :=
  said ⊆ held.image f ∧ (P → said = held.image f)

section Told

variable {P : Prop} {f : B → V} {said : Finset V} {held : Finset B}

omit [DecidableEq B] in
theorem told_empty : Told P f ∅ ∅ := ⟨Finset.empty_subset _, fun _ => rfl⟩

theorem Told.join (h : Told P f said held) (b : B) : Told P f (insert (f b) said) (insert b held) := by
  rw [Told, Finset.image_insert]
  exact ⟨Finset.insert_subset_insert _ h.1, fun hP => by rw [h.2 hP]⟩

/-- Where `P` holds, no other value that is held has the text of the one that goes. -/
theorem Told.leave (h : Told P f said held) {b : B} (hP : P → ∀ c ∈ held, f c = f b → c = b) :
    Told P f (said.erase (f b)) (held.erase b) := by
  have hsub : (held.image f).erase (f b) ⊆ (held.erase b).image f := fun v hv => by
    obtain ⟨hne, hmem⟩ := Finset.mem_erase.1 hv
    obtain ⟨c, hc, rfl⟩ := Finset.mem_image.1 hmem
    exact Finset.mem_image_of_mem f (Finset.mem_erase.2 ⟨fun e => hne (e ▸ rfl), hc⟩)
  refine ⟨(Finset.erase_subset_erase _ h.1).trans hsub, fun hp => ?_⟩
  refine Finset.Subset.antisymm ((Finset.erase_subset_erase _ h.1).trans hsub) fun v hv => ?_
  obtain ⟨c, hc, rfl⟩ := Finset.mem_image.1 hv
  obtain ⟨hne, hmem⟩ := Finset.mem_erase.1 hc
  rw [h.2 hp]
  exact Finset.mem_erase.2 ⟨fun e => hne (hP hp c hmem e), Finset.mem_image_of_mem f hmem⟩

/-- Several values are joined. -/
theorem Told.joins (h : Told P f said held) (k : K) (bs : List B) :
    Told P f ((bs.map fun b => Report.join k (f b)).foldl (gather k) said) (held ∪ bs.toFinset) := by
  induction bs generalizing said held with
  | nil => simpa using h
  | cons b bs ih =>
    have hone := ih (h.join b)
    rw [List.map_cons, List.foldl_cons, List.toFinset_cons, Finset.union_insert, ← Finset.insert_union]
    simpa [gather] using hone

end Told

end Roster
