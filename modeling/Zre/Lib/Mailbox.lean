import Mathlib.Data.List.Basic
import Mathlib.Data.List.Infix

/-!
# Bounded mailboxes

A first-in first-out buffer of a fixed size that drops what does not fit, and a reader that takes from it
at its own pace. Whatever the order of the two, what the reader gets continues with what was in the
buffer.
-/

namespace Mailbox

variable {α : Type} {size : Nat}

/-- Put `x` at the end if there is room. -/
def offer (size : Nat) (q : List α) (x : α) : List α := if q.length < size then q ++ [x] else q

/-- Put the elements of `l`, in order. -/
def offers (size : Nat) (q l : List α) : List α := l.foldl (offer size) q

@[simp] theorem offers_nil (q : List α) : offers size q [] = q := rfl

@[simp] theorem offers_cons (q : List α) (x : α) (l : List α) :
    offers size q (x :: l) = offers size (offer size q x) l := rfl

theorem offer_of_lt {q : List α} (h : q.length < size) (x : α) : offer size q x = q ++ [x] := if_pos h

theorem offer_of_le {q : List α} (h : size ≤ q.length) (x : α) : offer size q x = q :=
  if_neg (Nat.not_lt.2 h)

/-- Nothing gets into a full mailbox. -/
theorem offers_of_le {q : List α} (h : size ≤ q.length) (l : List α) : offers size q l = q := by
  induction l with
  | nil => rfl
  | cons x l ih => rw [offers_cons, offer_of_le h, ih]

/-- Where the mailbox has not filled up, everything got in. -/
theorem offers_of_lt {q l : List α} (h : (offers size q l).length < size) : offers size q l = q ++ l := by
  induction l generalizing q with
  | nil => rw [offers_nil, List.append_nil]
  | cons x l ih =>
    have hroom : q.length < size := by
      by_contra hfull
      rw [offers_of_le (Nat.not_lt.1 hfull)] at h
      exact hfull h
    rw [offers_cons, offer_of_lt hroom] at h ⊢
    rw [ih h, List.append_assoc, List.singleton_append]

/-- What is in the mailbox stays in front. -/
theorem initial_offers (q l : List α) : q <+: offers size q l := by
  induction l generalizing q with
  | nil => exact List.prefix_refl q
  | cons x l ih =>
    refine List.IsPrefix.trans ?_ (ih (offer size q x))
    unfold offer
    split
    · exact List.prefix_append q [x]
    · exact List.prefix_refl q

/-- The first of some elements gets in exactly when there is room. -/
theorem offers_cons_iff {q : List α} {x : α} {l : List α} :
    (q ++ [x]) <+: offers size q (x :: l) ↔ q.length < size := by
  constructor
  · intro h
    by_contra hfull
    rw [offers_of_le (Nat.not_lt.1 hfull)] at h
    have hlen := h.length_le
    rw [List.length_append, List.length_singleton] at hlen
    omega
  · intro h
    rw [offers_cons, offer_of_lt h]
    exact initial_offers _ l

/-- Puts and takes in any order: what was in the mailbox, what was taken, and what is left. -/
inductive Use (size : Nat) : List α → List α → List α → Prop where
  | idle (q : List α) : Use size q [] q
  | put {q taken q' : List α} (h : Use size q taken q') (l : List α) : Use size q taken (offers size q' l)
  | take {q taken q' : List α} (h : Use size q taken q') : Use size q (taken ++ q'.take 1) q'.tail

/-- The reader gets the old contents first: what is taken and what is left begin with them. -/
theorem Use.initial {q taken q' : List α} (h : Use size q taken q') : q <+: taken ++ q' := by
  induction h with
  | idle => exact List.prefix_refl q
  | @put _ q' h l ih =>
    obtain ⟨kept, hkept⟩ : q' <+: offers size q' l := initial_offers q' l
    rw [← hkept, ← List.append_assoc]
    exact ih.trans (List.prefix_append _ kept)
  | @take _ q' h ih =>
    have hq : q'.take 1 ++ q'.tail = q' := by
      cases q' <;> rfl
    rwa [List.append_assoc, hq]

/-- Once the mailbox is empty, everything that was in it has been taken. -/
theorem Use.drained {q taken : List α} (h : Use size q taken []) : q <+: taken := by
  have hp := h.initial
  rwa [List.append_nil] at hp

end Mailbox
