import Mathlib.Algebra.Order.Group.Defs
import Mathlib.Tactic.Abel

/-!
# Watches

A watch keeps two deadlines for everybody it knows. News of somebody set both anew. Now and then the watch checks:
whoever is beyond the second deadline is given up, and whoever is beyond the first one is asked for a sign of life.
Who is known was heard from not long ago. And if whoever is asked answers soon enough, nobody is ever given up.
-/

namespace Watch

variable {K T : Type*}

/-- How long somebody may be silent before he is asked, and before he is given up. -/
structure Rules (T : Type*) where
  ask : T
  drop : T

/-- The deadlines that news at `now` set. -/
def Rules.lease [Add T] (rules : Rules T) (now : T) : T × T := (now + rules.ask, now + rules.drop)

/-- One moment in the life of a watch: the time, whether the watch checks, who is heard from, who answers and who is
asked, and the deadlines before and after it. -/
structure Moment (K T : Type*) where
  now : T
  check : Bool
  told : K → Prop
  answers : K → Prop
  asked : K → Prop
  before : K → Option (T × T)
  after : K → Option (T × T)

/-- There may be news. An answer is news. -/
structure Moment.News [Add T] (rules : Rules T) (m : Moment K T) : Prop where
  second : ∀ k e, m.after k = some e →
    (∃ q, m.before k = some (q, e.2)) ∨ m.told k ∧ e.2 = m.now + rules.drop
  both : ∀ k e, m.after k = some e → m.before k = some e ∧ ¬ m.answers k ∨ e = rules.lease m.now

/-- The watch checks. -/
structure Moment.Checks [Add T] [LE T] (rules : Rules T) (m : Moment K T) : Prop where
  kept : ∀ k e, m.after k = some e → ∃ q, m.before k = some (q, e.2) ∧ m.now ≤ e.2 ∧
    (m.now ≤ q ∧ e.1 = q ∨ e.1 = m.now + rules.ask ∧ m.asked k)
  spared : ∀ k e, m.before k = some e → m.now ≤ e.2 → ∃ e', m.after k = some e'
  silent : ∀ k, ¬ m.answers k

/-- Nobody is given up. -/
def Moment.Keeps (m : Moment K T) : Prop := ∀ k e, m.before k = some e → ∃ e', m.after k = some e'

/-- The lives of a watch, with the time of the last check. `R` relates the times of two checks in a row. -/
inductive Life [Zero T] [Add T] [LT T] [LE T] (rules : Rules T) (R : T → T → Prop) :
    List (Moment K T) → T → (K → Option (T × T)) → Prop where
  | start (now : T) (hnow : 0 < now) : Life rules R [] now fun _ => none
  | news {ms : List (Moment K T)} {last : T} (m : Moment K T) (h : Life rules R ms last m.before)
      (hle : last ≤ m.now) (hcheck : m.check = false) (hm : m.News rules) : Life rules R (ms ++ [m]) last m.after
  | check {ms : List (Moment K T)} {last : T} (m : Moment K T) (h : Life rules R ms last m.before)
      (hle : last ≤ m.now) (hr : R last m.now) (hm : m.Checks rules) : Life rules R (ms ++ [m]) m.now m.after

/-- Whoever is asked answers before `delay` is over, unless he is given up before. -/
def Answered [Add T] [LE T] (delay : T) (ms : List (Moment K T)) : Prop :=
  ∀ pre a mid x post k, ms = pre ++ a :: (mid ++ x :: post) → a.asked k →
    (∀ y ∈ mid, ¬ y.answers k ∧ y.after k ≠ none) → x.now ≤ a.now + delay

theorem Answered.init [Add T] [LE T] {delay : T} {ms : List (Moment K T)} {m : Moment K T}
    (h : Answered delay (ms ++ [m])) : Answered delay ms := by
  intro pre a mid x post k hms
  refine h pre a mid x (post ++ [m]) k ?_
  rw [hms]
  simp

variable [AddCommGroup T] [LinearOrder T] [IsOrderedAddMonoid T] {rules : Rules T} {R : T → T → Prop}
  {ms : List (Moment K T)} {last : T} {book : K → Option (T × T)}

/-- Deadlines are later than the start of the clock. -/
theorem Life.positive (hask : 0 ≤ rules.ask) (hdrop : 0 ≤ rules.drop) (h : Life rules R ms last book) :
    0 < last ∧ ∀ k e, book k = some e → 0 < e.1 ∧ 0 < e.2 := by
  induction h with
  | start now hnow =>
    refine ⟨hnow, fun k e he => ?_⟩
    cases he
  | news m _ hle _ hm ih =>
    obtain ⟨hlast, hall⟩ := ih
    refine ⟨hlast, fun k e he => ?_⟩
    rcases hm.both k e he with ⟨hold, -⟩ | rfl
    · exact hall k e hold
    · have hnow := hlast.trans_le hle
      exact ⟨add_pos_of_pos_of_nonneg hnow hask, add_pos_of_pos_of_nonneg hnow hdrop⟩
  | check m _ hle _ hm ih =>
    obtain ⟨hlast, hall⟩ := ih
    have hnow := hlast.trans_le hle
    refine ⟨hnow, fun k e he => ?_⟩
    obtain ⟨q, hold, -, ⟨-, hq⟩ | ⟨hq, -⟩⟩ := hm.kept k e he
    · rw [hq]
      exact hall k _ hold
    · rw [hq]
      exact ⟨add_pos_of_pos_of_nonneg hnow hask, (hall k _ hold).2⟩

/-- Whoever is known was heard from, and his second deadline had not passed at the last check. -/
theorem Life.complete (hdrop : 0 ≤ rules.drop) (h : Life rules R ms last book) {k : K} {e : T × T}
    (he : book k = some e) : last ≤ e.2 ∧ ∃ m ∈ ms, m.told k ∧ e.2 = m.now + rules.drop := by
  induction h generalizing e with
  | start now hnow => cases he
  | news m _ hle _ hm ih =>
    rcases hm.second k e he with ⟨q, hold⟩ | ⟨htold, hd⟩
    · obtain ⟨hlast, x, hx, hd⟩ := ih hold
      exact ⟨hlast, x, List.mem_append_left _ hx, hd⟩
    · refine ⟨?_, m, by simp, htold, hd⟩
      rw [hd]
      exact hle.trans (le_add_of_nonneg_right hdrop)
  | check m _ hle _ hm ih =>
    obtain ⟨q, hold, hnow, -⟩ := hm.kept k e he
    obtain ⟨-, x, hx, hd⟩ := ih hold
    exact ⟨hnow, x, List.mem_append_left _ hx, hd⟩

/-- Nobody asked him since he was heard from last, and his first deadline had not passed at the last check. -/
def Calm (rules : Rules T) (last : T) (e : T × T) : Prop :=
  e.2 = e.1 + (rules.drop - rules.ask) ∧ last ≤ e.1

/-- He was asked, has not answered yet, and would be given up only after he should have. -/
def Asked (delay : T) (ms : List (Moment K T)) (k : K) (e : T × T) : Prop :=
  ∃ pre a mid, ms = pre ++ a :: mid ∧ a.asked k ∧ (∀ y ∈ mid, ¬ y.answers k ∧ y.after k ≠ none) ∧ a.now + delay ≤ e.2

theorem calm_lease (hask : 0 ≤ rules.ask) {now : T} (hle : last ≤ now) : Calm rules last (rules.lease now) := by
  refine ⟨?_, hle.trans (le_add_of_nonneg_right hask)⟩
  show now + rules.drop = now + rules.ask + (rules.drop - rules.ask)
  abel

/-- Who is asked for the first time has time to answer. -/
theorem Calm.patient {gap delay now : T} (hle : rules.ask + gap + delay ≤ rules.drop) {e : T × T}
    (he : Calm rules last e) (hnow : now ≤ last + gap) : now + delay ≤ e.2 := by
  have hspan : gap + delay ≤ rules.drop - rules.ask := by
    rw [le_sub_iff_add_le', ← add_assoc]
    exact hle
  calc now + delay ≤ last + gap + delay := add_le_add_left hnow delay
    _ = last + (gap + delay) := add_assoc _ _ _
    _ ≤ e.1 + (rules.drop - rules.ask) := add_le_add he.2 hspan
    _ = e.2 := he.1.symm

omit [IsOrderedAddMonoid T] in
theorem Asked.snoc {delay : T} {k : K} {e : T × T} (h : Asked delay ms k e) {m : Moment K T} (hno : ¬ m.answers k)
    (hin : m.after k ≠ none) {q : T} : Asked delay (ms ++ [m]) k (q, e.2) := by
  obtain ⟨pre, a, mid, rfl, hasked, hmid, hle⟩ := h
  refine ⟨pre, a, mid ++ [m], by simp, hasked, fun y hy => ?_, hle⟩
  rcases List.mem_append.1 hy with hy | hy
  · exact hmid y hy
  · obtain rfl := List.mem_singleton.1 hy
    exact ⟨hno, hin⟩

/-- If checks are at most `gap` apart and whoever is asked answers before `delay` is over, nobody is ever given up. -/
theorem Life.keeps {gap delay : T} (hask : 0 ≤ rules.ask) (hdelay : 0 ≤ delay)
    (hle : rules.ask + gap + delay ≤ rules.drop) (h : Life rules (fun a b => b ≤ a + gap) ms last book)
    (hans : Answered delay ms) : ∀ m ∈ ms, m.check = true → m.Keeps := by
  suffices hsafe : (∀ m ∈ ms, m.check = true → m.Keeps) ∧
      ∀ k e, book k = some e → Calm rules last e ∨ Asked delay ms k e from hsafe.1
  induction h with
  | start now hnow =>
    refine ⟨fun m hm => absurd hm List.not_mem_nil, fun k e he => ?_⟩
    cases he
  | @news ms last m _ hnow hcheck hm ih =>
    obtain ⟨hkeeps, hsafe⟩ := ih hans.init
    refine ⟨fun x hx => ?_, fun k e he => ?_⟩
    · rcases List.mem_append.1 hx with hx | hx
      · exact hkeeps x hx
      · obtain rfl := List.mem_singleton.1 hx
        intro htrue
        rw [hcheck] at htrue
        cases htrue
    · rcases hm.both k e he with ⟨hold, hno⟩ | rfl
      · rcases hsafe k e hold with hcalm | hasked
        · exact Or.inl hcalm
        · exact Or.inr (hasked.snoc hno (by rw [he]; simp))
      · exact Or.inl (calm_lease hask hnow)
  | @check ms last m _ hnow hgap hm ih =>
    obtain ⟨hkeeps, hsafe⟩ := ih hans.init
    -- the second deadline of somebody who was asked is after the answer that is due
    have halive : ∀ k e, m.before k = some e → m.now ≤ e.2 := by
      intro k e he
      rcases hsafe k e he with hcalm | ⟨pre, a, mid, rfl, hasked, hmid, hd⟩
      · exact (le_add_of_nonneg_right hdelay).trans (hcalm.patient hle hgap)
      · exact (hans pre a mid m [] k (by simp) hasked hmid).trans hd
    refine ⟨fun x hx => ?_, fun k e he => ?_⟩
    · rcases List.mem_append.1 hx with hx | hx
      · exact hkeeps x hx
      · obtain rfl := List.mem_singleton.1 hx
        exact fun _ k e he => hm.spared k e he (halive k e he)
    · obtain ⟨q, hold, -, ⟨hq, hsame⟩ | ⟨-, hasked⟩⟩ := hm.kept k e he
      · rcases hsafe k _ hold with ⟨hspan, -⟩ | hwas
        · refine Or.inl ⟨?_, ?_⟩
          · rw [hsame]
            exact hspan
          · rw [hsame]
            exact hq
        · exact Or.inr (hwas.snoc (hm.silent k) (by rw [he]; simp))
      · rcases hsafe k _ hold with hcalm | hwas
        · exact Or.inr ⟨ms, m, [], rfl, hasked, fun y hy => absurd hy List.not_mem_nil, hcalm.patient hle hgap⟩
        · exact Or.inr (hwas.snoc (hm.silent k) (by rw [he]; simp))

end Watch
