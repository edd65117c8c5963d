import Mathlib.Data.Finset.Max
import Zre.Lib.Echo

/-!
# The lowest wave

As long as nobody counts a voice twice, no wave but the lowest one gets over, also when waves are sent again.
When it is over everybody supports it, and afterwards nobody speaks of another candidate.
-/

namespace Echo

variable {V K : Type*}

section Waves

variable [Fintype V] [LinearOrder K] {key : V → K}

/-- `u` has passed on the wave that it supports to `v`. -/
def Spoken (b : V → Ballot V) (u v : V) : Prop := (b u).father ≠ some v ∨ (b u).erec = others V

/-- As long as the wave of the lowest candidate `m` is not over: everybody has a ballot, and has counted the
wave that it supports once from everybody in `heard`. The supporters of `m` are ordered by `rank`. -/
structure Waves (key : V → K) (m : V) (s : State V) (b : V → Ballot V) (heard : V → Finset V)
    (rank : V → ℕ) : Prop where
  ballot : ∀ v, s.ballot v = some (b v)
  lrec : ∀ v, (b v).lrec = 0
  told : ∀ v, s.told v = []
  low : ∀ v, key (b v).caw ≤ key v
  father : ∀ v, (b v).father = none ↔ (b v).caw = v
  foreign : ∀ v, (b v).father ≠ some v
  erec : ∀ v, (b v).erec = (heard v).card
  others : ∀ v, v ∉ heard v
  /-- Who was heard supports the same candidate and has said so, or a lower one. -/
  said : ∀ u v, u ∈ heard v → key (b u).caw ≤ key (b v).caw ∧ ((b u).caw = (b v).caw → Spoken b u v)
  behind : ∀ u v, u ∈ heard v → ∀ msg ∈ s.link u v, ∃ w, msg = .elect w ∧ key w ≤ key (b v).caw
  link : ∀ u v, ∀ msg ∈ s.link u v, ∃ w, msg = .elect w ∧ key (b u).caw ≤ key w ∧
    (w = (b u).caw → Spoken b u v)
  decreasing : ∀ u v, (s.link u v).Pairwise fun x y => ∀ w w', x = .elect w → y = .elect w' → key w' ≤ key w
  self : ∀ v, s.link v v = []
  lowest : ∀ v, (∀ w, .elect w ∈ s.link m v → w = m) ∧ (m ∈ heard v → (b v).caw = m)
  rank : ∀ v p, (b v).caw = m → (b v).father = some p → (b p).caw = m ∧ rank p < rank v
  unfinished : (b m).erec < Echo.others V

section Start

variable {m : V} [DecidableEq V]

omit [Fintype V] in
theorem mem_start {u v : V} {msg : Msg V} (h : msg ∈ (State.start : State V).link u v) :
    u ≠ v ∧ msg = .elect u := by
  unfold State.start at h
  simp only [] at h
  split at h
  · cases h
  · exact ⟨by assumption, List.mem_singleton.1 h⟩

theorem waves_start (hcard : 2 ≤ Fintype.card V) :
    Waves key m State.start (fun v => ⟨v, none, 0, 0⟩) (fun _ => ∅) fun _ => 0 where
  ballot _ := rfl
  lrec _ := rfl
  told _ := rfl
  low _ := le_rfl
  father _ := by simp
  foreign _ := by simp
  erec _ := by simp
  others _ := by simp
  said _ _ h := by simp at h
  behind _ _ h := by simp at h
  link u v msg h := ⟨u, (mem_start h).2, le_rfl, fun _ => Or.inl (by simp)⟩
  decreasing u v := by
    unfold State.start
    simp only []
    split <;> simp
  self v := by simp [State.start]
  lowest v := by
    refine ⟨fun w hw => ?_, fun h => by simp at h⟩
    have h := (mem_start hw).2
    cases h
    rfl
  rank v p _ h := by cases h
  unfinished := others_pos hcard

end Start

namespace Waves

variable {m : V} {s : State V} {b : V → Ballot V} {heard : V → Finset V} {rank : V → ℕ}

/-- The lowest candidate supports itself. -/
theorem caw_lowest (h : Waves key m s b heard rank) (hkey : Function.Injective key) (hm : ∀ v, key m ≤ key v) :
    (b m).caw = m := hkey (le_antisymm (h.low m) (hm _))

/-- Whoever is not heard yet leaves the count short of the others. -/
theorem erec_lt (h : Waves key m s b heard rank) {u v : V} (huv : u ≠ v) (hu : u ∉ heard v) :
    (b v).erec < Echo.others V := by
  rw [h.erec]
  exact card_lt_others huv hu (h.others v)

/-- A full count has heard everybody. -/
theorem heard_of_erec (h : Waves key m s b heard rank) {u v : V} (huv : u ≠ v)
    (hfull : Echo.others V ≤ (b v).erec) : u ∈ heard v := by
  by_contra hu
  exact absurd (h.erec_lt huv hu) (by omega)

/-- Nobody was called yet. -/
theorem elect (h : Waves key m s b heard rank) {u v : V} {msg : Msg V} (hl : msg ∈ s.link u v) :
    ∃ w, msg = .elect w := by
  obtain ⟨w, hw, -⟩ := h.link u v msg hl
  exact ⟨w, hw⟩

theorem ne_of_mem (h : Waves key m s b heard rank) {u v : V} {msg : Msg V} (hl : msg ∈ s.link u v) : u ≠ v := by
  rintro rfl
  rw [h.self] at hl
  cases hl

/-- Messages may be lost. -/
theorem lose (h : Waves key m s b heard rank) {s' : State V} (hb : s'.ballot = s.ballot) (ht : s'.told = s.told)
    (hl : ∀ a c, (s'.link a c).Sublist (s.link a c)) : Waves key m s' b heard rank where
  ballot v := by
    rw [hb]
    exact h.ballot v
  lrec := h.lrec
  told v := by
    rw [ht]
    exact h.told v
  low := h.low
  father := h.father
  foreign := h.foreign
  erec := h.erec
  others := h.others
  said := h.said
  behind a c ha msg hmsg := h.behind a c ha msg ((hl a c).subset hmsg)
  link a c msg hmsg := h.link a c msg ((hl a c).subset hmsg)
  decreasing a c := (h.decreasing a c).sublist (hl a c)
  self v := by
    have hv := hl v v
    rwa [h.self, List.sublist_nil] at hv
  lowest v := ⟨fun w hw => (h.lowest v).1 w ((hl m v).subset hw), (h.lowest v).2⟩
  rank := h.rank
  unfinished := h.unfinished

variable [DecidableEq V]

/-- The supported wave may be passed on. -/
theorem post (h : Waves key m s b heard rank) (hkey : Function.Injective key) (hm : ∀ v, key m ≤ key v) {v : V}
    {out : V → Option (Msg V)}
    (hout : ∀ c msg, out c = some msg → c ≠ v ∧ msg = .elect (b v).caw ∧ Spoken b v c) :
    Waves key m (s.post v out) b heard rank where
  ballot := h.ballot
  lrec := h.lrec
  told := h.told
  low := h.low
  father := h.father
  foreign := h.foreign
  erec := h.erec
  others := h.others
  said := h.said
  behind a c ha msg hmsg := by
    rcases (s.mem_post v).1 hmsg with hold | ⟨rfl, hnew⟩
    · exact h.behind a c ha msg hold
    · exact ⟨_, (hout c msg hnew).2.1, (h.said a c ha).1⟩
  link a c msg hmsg := by
    rcases (s.mem_post v).1 hmsg with hold | ⟨rfl, hnew⟩
    · exact h.link a c msg hold
    · obtain ⟨-, hw, hsp⟩ := hout c msg hnew
      exact ⟨_, hw, le_rfl, fun _ => hsp⟩
  decreasing a c := by
    by_cases hav : a = v
    · subst hav
      rw [State.post_link_self, List.pairwise_append]
      refine ⟨h.decreasing a c, by cases out c <;> simp, ?_⟩
      rintro x hx y hy w1 w2 rfl rfl
      obtain ⟨-, hw, -⟩ := hout c _ (Option.mem_toList.1 hy)
      cases hw
      obtain ⟨w', hw', hle, -⟩ := h.link a c _ hx
      cases hw'
      exact hle
    · rw [State.post_link_ne _ _ hav]
      exact h.decreasing a c
  self x := by
    refine List.eq_nil_iff_forall_not_mem.2 fun msg hmsg => ?_
    rcases (s.mem_post v).1 hmsg with hold | ⟨rfl, hnew⟩
    · rw [h.self] at hold
      cases hold
    · exact (hout x msg hnew).1 rfl
  lowest x := by
    refine ⟨fun w hw => ?_, (h.lowest x).2⟩
    rcases (s.mem_post v).1 hw with hold | ⟨rfl, hnew⟩
    · exact (h.lowest x).1 w hold
    · have hcaw := (hout x _ hnew).2.1
      rw [h.caw_lowest hkey hm] at hcaw
      cases hcaw
      rfl
  rank := h.rank
  unfinished := h.unfinished

/-- A lower candidate is taken over from one of its supporters. -/
theorem turn (h : Waves key m s b heard rank) (hkey : Function.Injective key) (hm : ∀ v, key m ≤ key v)
    {u v w : V} (huv : u ≠ v) (hlow : key w < key (b v).caw) (hle : key (b u).caw ≤ key w) :
    Waves key m (s.put v (some ⟨w, some u, 0, 0⟩)) (Function.update b v ⟨w, some u, 0, 0⟩)
      (Function.update heard v ∅) (Function.update rank v (rank u + 1)) := by
  have hwv : key w < key v := hlow.trans_le (h.low v)
  have hvm : v ≠ m := by
    rintro rfl
    exact absurd (hm w) (not_le.2 hwv)
  have hcawv : (b v).caw ≠ m := by
    intro hc
    rw [hc] at hlow
    exact absurd (hm w) (not_le.2 hlow)
  have hbv : Function.update b v ⟨w, some u, 0, 0⟩ v = ⟨w, some u, 0, 0⟩ := Function.update_self ..
  have hbo : ∀ x, x ≠ v → Function.update b v ⟨w, some u, 0, 0⟩ x = b x := fun x hx => Function.update_of_ne hx ..
  have hhv : Function.update heard v ∅ v = ∅ := Function.update_self ..
  have hho : ∀ x, x ≠ v → Function.update heard v ∅ x = heard x := fun x hx => Function.update_of_ne hx ..
  have hrv : Function.update rank v (rank u + 1) v = rank u + 1 := Function.update_self ..
  have hro : ∀ x, x ≠ v → Function.update rank v (rank u + 1) x = rank x := fun x hx => Function.update_of_ne hx ..
  generalize Function.update b v ⟨w, some u, 0, 0⟩ = b' at *
  generalize Function.update heard v ∅ = heard' at *
  generalize Function.update rank v (rank u + 1) = rank' at *
  have hspoken : ∀ a c, a ≠ v → (Spoken b' a c ↔ Spoken b a c) := by
    intro a c ha
    unfold Spoken
    rw [hbo a ha]
  have hheard : ∀ a c, a ∈ heard' c → c ≠ v ∧ a ∈ heard c := by
    intro a c ha
    by_cases hc : c = v
    · subst hc
      rw [hhv] at ha
      simp at ha
    · rw [hho c hc] at ha
      exact ⟨hc, ha⟩
  exact {
    ballot := by
      intro x
      by_cases hx : x = v
      · rw [hx, hbv, State.put_ballot_self]
      · rw [hbo x hx, State.put_ballot_ne s v hx, h.ballot]
    lrec := by
      intro x
      by_cases hx : x = v
      · rw [hx, hbv]
      · rw [hbo x hx]
        exact h.lrec x
    told := h.told
    low := by
      intro x
      by_cases hx : x = v
      · rw [hx, hbv]
        exact hwv.le
      · rw [hbo x hx]
        exact h.low x
    father := by
      intro x
      by_cases hx : x = v
      · rw [hx, hbv]
        exact iff_of_false (by simp) fun e => lt_irrefl _ (e ▸ hwv)
      · rw [hbo x hx]
        exact h.father x
    foreign := by
      intro x
      by_cases hx : x = v
      · rw [hx, hbv]
        simpa using huv
      · rw [hbo x hx]
        exact h.foreign x
    erec := by
      intro x
      by_cases hx : x = v
      · rw [hx, hbv, hhv]
        rfl
      · rw [hbo x hx, hho x hx]
        exact h.erec x
    others := fun x hx => h.others x (hheard x x hx).2
    -- who was heard by somebody is not above the candidate there, so `v` is below it now
    said := by
      intro a c ha
      obtain ⟨hc, ha⟩ := hheard a c ha
      rw [hbo c hc]
      by_cases hav : a = v
      · subst hav
        have hbelow : key w < key (b c).caw := hlow.trans_le (h.said a c ha).1
        rw [hbv]
        exact ⟨hbelow.le, fun e => absurd hbelow (by rw [← e]; exact lt_irrefl _)⟩
      · rw [hbo a hav, hspoken a c hav]
        exact h.said a c ha
    behind := by
      intro a c ha msg hmsg
      obtain ⟨hc, ha⟩ := hheard a c ha
      rw [hbo c hc]
      exact h.behind a c ha msg hmsg
    link := by
      intro a c msg hmsg
      by_cases hav : a = v
      · subst hav
        obtain ⟨w', rfl, hle', -⟩ := h.link a c msg hmsg
        have hlt := hlow.trans_le hle'
        rw [hbv]
        exact ⟨w', rfl, hlt.le, fun e => absurd hlt (by rw [e]; exact lt_irrefl _)⟩
      · rw [hbo a hav, hspoken a c hav]
        exact h.link a c msg hmsg
    decreasing := h.decreasing
    self := h.self
    lowest := by
      intro x
      refine ⟨(h.lowest x).1, fun hx => ?_⟩
      obtain ⟨hxv, hx⟩ := hheard m x hx
      rw [hbo x hxv]
      exact (h.lowest x).2 hx
    rank := by
      intro x p hcaw hp
      by_cases hx : x = v
      · subst hx
        rw [hbv] at hcaw hp
        obtain rfl : u = p := Option.some.inj hp
        obtain rfl : w = m := hcaw
        rw [hbo u huv, hrv, hro u huv]
        exact ⟨hkey (le_antisymm hle (hm _)), Nat.lt_succ_self _⟩
      · rw [hbo x hx] at hcaw hp
        obtain ⟨hpm, hlt⟩ := h.rank x p hcaw hp
        have hpv : p ≠ v := fun e => hcawv (e ▸ hpm)
        rw [hbo p hpv, hro p hpv, hro x hx]
        exact ⟨hpm, hlt⟩
    unfinished := by
      rw [hbo m hvm.symm]
      exact h.unfinished }

/-- A new voice is counted. -/
theorem hear (h : Waves key m s b heard rank) {u v : V} (huv : u ≠ v) (hnew : u ∉ heard v)
    (hsaid : key (b u).caw ≤ key (b v).caw ∧ ((b u).caw = (b v).caw → Spoken b u v))
    (hbehind : ∀ msg ∈ s.link u v, ∃ w, msg = .elect w ∧ key w ≤ key (b v).caw)
    (hlowest : u = m → (b v).caw = m) (hwait : v = m → (b v).erec + 1 < Echo.others V) :
    Waves key m (s.put v (some { b v with erec := (b v).erec + 1 }))
      (Function.update b v { b v with erec := (b v).erec + 1 })
      (Function.update heard v (insert u (heard v))) rank := by
  have hshort : (b v).erec < Echo.others V := h.erec_lt huv hnew
  have hbv : Function.update b v { b v with erec := (b v).erec + 1 } v = { b v with erec := (b v).erec + 1 } :=
    Function.update_self ..
  have hbo : ∀ x, x ≠ v → Function.update b v { b v with erec := (b v).erec + 1 } x = b x :=
    fun x hx => Function.update_of_ne hx ..
  have hhv : Function.update heard v (insert u (heard v)) v = insert u (heard v) := Function.update_self ..
  have hho : ∀ x, x ≠ v → Function.update heard v (insert u (heard v)) x = heard x :=
    fun x hx => Function.update_of_ne hx ..
  generalize Function.update b v { b v with erec := (b v).erec + 1 } = b' at *
  generalize Function.update heard v (insert u (heard v)) = heard' at *
  have hcaw : ∀ x, (b' x).caw = (b x).caw := by
    intro x
    by_cases hx : x = v
    · rw [hx, hbv]
    · rw [hbo x hx]
  have hfather : ∀ x, (b' x).father = (b x).father := by
    intro x
    by_cases hx : x = v
    · rw [hx, hbv]
    · rw [hbo x hx]
  have hspoken : ∀ a c, Spoken b a c → Spoken b' a c := by
    intro a c ha
    by_cases hav : a = v
    · rcases ha with hf | he
      · exact Or.inl (by rwa [hfather])
      · rw [hav] at he
        exact absurd he (Nat.ne_of_lt hshort)
    · unfold Spoken
      rwa [hbo a hav]
  have hheard : ∀ a c, a ∈ heard' c → a = u ∧ c = v ∨ a ∈ heard c := by
    intro a c ha
    by_cases hc : c = v
    · rw [hc, hhv, Finset.mem_insert] at ha
      exact ha.imp (fun e => ⟨e, hc⟩) fun h => hc ▸ h
    · rw [hho c hc] at ha
      exact Or.inr ha
  exact {
    ballot := by
      intro x
      by_cases hx : x = v
      · rw [hx, hbv, State.put_ballot_self]
      · rw [hbo x hx, State.put_ballot_ne s v hx, h.ballot]
    lrec := by
      intro x
      by_cases hx : x = v
      · rw [hx, hbv]
        exact h.lrec v
      · rw [hbo x hx]
        exact h.lrec x
    told := h.told
    low := fun x => by
      rw [hcaw]
      exact h.low x
    father := fun x => by
      rw [hcaw, hfather]
      exact h.father x
    foreign := fun x => by
      rw [hfather]
      exact h.foreign x
    erec := by
      intro x
      by_cases hx : x = v
      · rw [hx, hbv, hhv, Finset.card_insert_of_notMem hnew, ← h.erec]
      · rw [hbo x hx, hho x hx]
        exact h.erec x
    others := by
      intro x hx
      rcases hheard x x hx with ⟨hxu, hxv⟩ | hx
      · exact huv (hxu ▸ hxv)
      · exact h.others x hx
    said := by
      intro a c ha
      rw [hcaw, hcaw]
      rcases hheard a c ha with ⟨rfl, rfl⟩ | ha
      · exact ⟨hsaid.1, fun e => hspoken a c (hsaid.2 e)⟩
      · exact ⟨(h.said a c ha).1, fun e => hspoken a c ((h.said a c ha).2 e)⟩
    behind := by
      intro a c ha msg hmsg
      rw [hcaw]
      rcases hheard a c ha with ⟨rfl, rfl⟩ | ha
      · exact hbehind msg hmsg
      · exact h.behind a c ha msg hmsg
    link := by
      intro a c msg hmsg
      rw [hcaw]
      obtain ⟨w, rfl, hle, hsp⟩ := h.link a c msg hmsg
      exact ⟨w, rfl, hle, fun e => hspoken a c (hsp e)⟩
    decreasing := h.decreasing
    self := h.self
    lowest := by
      intro x
      rw [hcaw]
      refine ⟨(h.lowest x).1, fun hx => ?_⟩
      rcases hheard m x hx with ⟨rfl, rfl⟩ | hx
      · exact hlowest rfl
      · exact (h.lowest x).2 hx
    rank := by
      intro x p hx hp
      rw [hcaw] at hx ⊢
      rw [hfather] at hp
      exact h.rank x p hx hp
    unfinished := by
      by_cases hx : m = v
      · rw [hx, hbv]
        exact hwait hx.symm
      · rw [hbo m hx]
        exact h.unfinished }

/-- What the wave that stands first on a link tells of its sender and of the messages behind it. -/
structure Heads (key : V → K) (m : V) (s : State V) (b : V → Ballot V) (u v w : V) : Prop where
  ne : u ≠ v
  low : key (b u).caw ≤ key w
  spoken : w = (b u).caw → Spoken b u v
  behind : ∀ msg ∈ (s.take u v).link u v, ∃ w', msg = .elect w' ∧ key w' ≤ key w
  lowest : u = m → w = m

theorem heads (h : Waves key m s b heard rank) {u v w : V} (hl : (s.link u v).head? = some (.elect w)) :
    Heads key m s b u v w := by
  have hmem : Msg.elect w ∈ s.link u v := List.mem_of_mem_head? hl
  obtain ⟨w', hw', hlow, hspoken⟩ := h.link u v _ hmem
  cases hw'
  refine ⟨h.ne_of_mem hmem, hlow, hspoken, fun msg hmsg => ?_, ?_⟩
  · obtain ⟨w', rfl, -, -⟩ := h.link u v msg ((s.take_sublist u v u v).subset hmsg)
    obtain ⟨tail, htail⟩ := List.head?_eq_some_iff.1 hl
    have hdec := h.decreasing u v
    rw [htail, List.pairwise_cons] at hdec
    rw [State.take_link_self, htail] at hmsg
    exact ⟨w', rfl, hdec.1 _ hmsg _ _ rfl rfl⟩
  · rintro rfl
    exact (h.lowest v).1 w hmem

theorem take (h : Waves key m s b heard rank) (u v : V) : Waves key m (s.take u v) b heard rank :=
  h.lose rfl rfl (s.take_sublist u v)

/-- A lower wave is taken over and passed on. -/
theorem adopt (h : Waves key m s b heard rank) (hkey : Function.Injective key) (hm : ∀ v, key m ≤ key v)
    {u v w : V} (hl : (s.link u v).head? = some (.elect w)) (hlow : key w < key (b v).caw) :
    Waves key m (s.adopt u v w) (Function.update b v ⟨w, some u, 0, 0⟩) (Function.update heard v ∅)
      (Function.update rank v (rank u + 1)) := by
  have hhead := h.heads hl
  refine (h.turn hkey hm hhead.ne hlow hhead.low).post hkey hm fun c msg hout => ?_
  obtain ⟨hcv, hcu, rfl⟩ := toRest_eq_some.1 hout
  refine ⟨hcv, by rw [Function.update_self], Or.inl ?_⟩
  rw [Function.update_self]
  exact hcu

/-- The wave that stands first is counted. -/
theorem heard_head (h : Waves key m s b heard rank) {u v : V}
    (hl : (s.link u v).head? = some (.elect (b v).caw)) (hnew : u ∉ heard v)
    (hwait : v = m → (b v).erec + 1 < Echo.others V) :
    Waves key m ((s.take u v).put v (some { b v with erec := (b v).erec + 1 }))
      (Function.update b v { b v with erec := (b v).erec + 1 })
      (Function.update heard v (insert u (heard v))) rank := by
  have hhead := h.heads hl
  refine (h.take u v).hear hhead.ne hnew ⟨hhead.low, fun e => hhead.spoken e.symm⟩ hhead.behind ?_ hwait
  exact hhead.lowest

/-- The last one of a wave that was learned is passed back to where it came from. -/
theorem echoes (h : Waves key m s b heard rank) (hkey : Function.Injective key) (hm : ∀ v, key m ≤ key v)
    {u v : V} (hl : (s.link u v).head? = some (.elect (b v).caw)) (hnew : u ∉ heard v)
    (hall : Echo.others V ≤ (b v).erec + 1) (hne : (b v).caw ≠ v) :
    Waves key m (((s.take u v).put v (some { b v with erec := (b v).erec + 1 })).post v (back (b v)))
      (Function.update b v { b v with erec := (b v).erec + 1 })
      (Function.update heard v (insert u (heard v))) rank := by
  have hvm : v ≠ m := fun e => hne (by rw [e, h.caw_lowest hkey hm])
  have hshort := h.erec_lt (h.heads hl).ne hnew
  refine (h.heard_head hl hnew fun e => absurd e hvm).post hkey hm fun c msg hout => ?_
  obtain ⟨hf, rfl⟩ := back_eq_some.1 hout
  refine ⟨fun e => h.foreign v (e ▸ hf), by rw [Function.update_self], Or.inr ?_⟩
  rw [Function.update_self]
  exact (show (b v).erec + 1 = Echo.others V by omega)

/-- What holds when a wave is over: it is the lowest one, everybody supports it, and nothing else is on its way. -/
structure Over (m : V) (s : State V) (b : V → Ballot V) (heard : V → Finset V) (u v : V) : Prop where
  lowest : v = m
  supports : ∀ x, (b x).caw = m
  heard : ∀ a c, a ≠ c → a ∈ heard c ∨ a = u ∧ c = v
  link : ∀ a c, ∀ msg ∈ (s.take u v).link a c, msg = .elect m

theorem ends (h : Waves key m s b heard rank) (hkey : Function.Injective key) (hm : ∀ v, key m ≤ key v)
    {u v : V} (hl : (s.link u v).head? = some (.elect (b v).caw)) (hnew : u ∉ heard v)
    (hall : Echo.others V ≤ (b v).erec + 1) (hself : (b v).caw = v) : Over m s b heard u v := by
  have hhead := h.heads hl
  -- all others were heard, with the wave that is counted now
  have hvoice : ∀ x, x ≠ v → x ∈ heard v ∨ x = u := by
    intro x hx
    by_contra hno
    push Not at hno
    have hx' : x ∉ insert u (heard v) := by simp [hno.1, hno.2]
    have hv' : v ∉ insert u (heard v) := by simp [hhead.ne.symm, h.others v]
    have hlt := card_lt_others hx hx' hv'
    rw [Finset.card_insert_of_notMem hnew, ← h.erec] at hlt
    omega
  have hvm : v = m := by
    by_contra hne
    rcases hvoice m fun e => hne e.symm with hmem | rfl
    · exact hne (hself.symm.trans ((h.lowest v).2 hmem))
    · exact hne (hself.symm.trans (hhead.lowest rfl))
  subst hvm
  have hsaid : ∀ x, x ≠ v → key (b x).caw ≤ key (b v).caw ∧ ((b x).caw = (b v).caw → Spoken b x v) := by
    intro x hx
    rcases hvoice x hx with hmem | rfl
    · exact h.said x v hmem
    · exact ⟨hhead.low, fun e => hhead.spoken e.symm⟩
  have hsupports : ∀ x, (b x).caw = v := by
    intro x
    by_cases hx : x = v
    · rw [hx, hself]
    · have hle := (hsaid x hx).1
      rw [hself] at hle
      exact hkey (le_antisymm hle (hm _))
  -- from the candidate downwards, everybody has heard it from all others before it was passed back
  have hfull : ∀ k x, rank x ≤ k → x ≠ v → Echo.others V ≤ (b x).erec := by
    intro k
    induction k with
    | zero =>
      intro x hk hx
      cases hf : (b x).father with
      | none => exact absurd ((h.father x).1 hf) (by rw [hsupports]; exact hx.symm)
      | some p => exact absurd (h.rank x p (hsupports x) hf).2 (by omega)
    | succ k ih =>
      intro x hk hx
      cases hf : (b x).father with
      | none => exact absurd ((h.father x).1 hf) (by rw [hsupports]; exact hx.symm)
      | some p =>
        have hspoken : Spoken b x p := by
          by_cases hp : p = v
          · rw [hp]
            exact (hsaid x hx).2 ((hsupports x).trans hself.symm)
          · have hlt := (h.rank x p (hsupports x) hf).2
            have hxp : x ≠ p := fun e => h.foreign x (hf.trans (congrArg some e.symm))
            have hmem := h.heard_of_erec hxp (ih p (by omega) hp)
            exact (h.said x p hmem).2 ((hsupports x).trans (hsupports p).symm)
        exact hspoken.elim (fun hno => absurd hf hno) Eq.ge
  have hheard : ∀ a c, a ≠ c → a ∈ heard c ∨ a = u ∧ c = v := by
    intro a c hac
    by_cases hc : c = v
    · subst hc
      exact (hvoice a hac).imp_right fun e => ⟨e, rfl⟩
    · exact Or.inl (h.heard_of_erec hac (hfull _ c le_rfl hc))
  refine ⟨rfl, hsupports, hheard, fun a c msg hmsg => ?_⟩
  have hold := (s.take_sublist u v a c).subset hmsg
  have hlow : ∃ w, msg = .elect w ∧ key w ≤ key (b c).caw := by
    rcases hheard a c (h.ne_of_mem hold) with hmem | ⟨rfl, rfl⟩
    · exact h.behind a c hmem msg hold
    · exact hhead.behind msg hmsg
  obtain ⟨w, rfl, hle⟩ := hlow
  rw [hsupports] at hle
  rw [hkey (le_antisymm hle (hm w))]

end Waves

end Waves

/-! ## After the lowest wave -/

section Settled

/-- Once the wave of `m` is over: nobody speaks of another candidate. -/
structure Settled (m : V) (s : State V) : Prop where
  ballot : ∀ v b, s.ballot v = some b → b.caw = m
  link : ∀ u v, ∀ msg ∈ s.link u v, msg = .elect m ∨ msg = .lead m
  told : ∀ v, ∀ w ∈ s.told v, w = m

namespace Settled

variable [DecidableEq V] {m : V} {s : State V}

theorem take (h : Settled m s) (u v : V) : Settled m (s.take u v) :=
  ⟨h.ballot, fun a c msg hmsg => h.link a c msg ((s.take_sublist u v a c).subset hmsg), h.told⟩

theorem put (h : Settled m s) (v : V) {o : Option (Ballot V)} (ho : ∀ b ∈ o, b.caw = m) :
    Settled m (s.put v o) := by
  refine ⟨fun x b hb => ?_, h.link, h.told⟩
  by_cases hx : x = v
  · rw [hx, State.put_ballot_self] at hb
    exact ho b hb
  · rw [State.put_ballot_ne s v hx] at hb
    exact h.ballot x b hb

theorem put_some (h : Settled m s) (v : V) {b : Ballot V} (hb : b.caw = m) : Settled m (s.put v (some b)) :=
  h.put v fun _ hb' => Option.some.inj hb' ▸ hb

theorem post (h : Settled m s) (v : V) {out : V → Option (Msg V)}
    (hout : ∀ c msg, out c = some msg → msg = .elect m ∨ msg = .lead m) : Settled m (s.post v out) := by
  refine ⟨h.ballot, fun a c msg hmsg => ?_, h.told⟩
  rcases (s.mem_post v).1 hmsg with hold | ⟨-, hnew⟩
  · exact h.link a c msg hold
  · exact hout c msg hnew

theorem tell (h : Settled m s) (v : V) : Settled m (s.tell v m) := by
  refine ⟨h.ballot, h.link, fun x w hw => ?_⟩
  simp only [State.tell] at hw
  by_cases hx : x = v
  · rw [hx, Function.update_self, List.mem_append, List.mem_singleton] at hw
    exact hw.elim (h.told v w) id
  · rw [Function.update_of_ne hx] at hw
    exact h.told x w hw

/-- The calls that are passed on name `m`. -/
theorem relayed {v c : V} {b : Ballot V} {msg : Msg V} (h : relay v m b c = some msg) :
    msg = .elect m ∨ msg = .lead m := by
  unfold relay at h
  split at h
  · exact Or.inr (toRest_eq_some.1 h).2.2
  · cases h

theorem adopt (h : Settled m s) {u v w : V} (hl : (s.link u v).head? = some (.elect w)) :
    Settled m (s.adopt u v w) := by
  have hw : w = m := by
    rcases h.link u v _ (List.mem_of_mem_head? hl) with he | he <;> cases he
    rfl
  subst hw
  refine Settled.post (h.put_some v rfl) v fun c msg hout => ?_
  rw [(toRest_eq_some.1 hout).2.2]
  exact Or.inl rfl

variable [Fintype V] [LinearOrder K] {key : V → K}

theorem takes (h : Settled m s) {u v : V} {s' : State V} (ht : Takes key u v s s') : Settled m s' := by
  cases ht with
  | ignore hl hb hhigh => exact h.take u v
  | count hl hb hwait =>
    have hcaw := h.ballot v _ hb
    exact (h.take u v).put_some v (by exact hcaw)
  | echo hl hb hall hne =>
    have hcaw := h.ballot v _ hb
    refine Settled.post ((h.take u v).put_some v (by exact hcaw)) v fun c msg hout => ?_
    rw [(back_eq_some.1 hout).2, hcaw]
    exact Or.inl rfl
  | win hl hb hall hself =>
    have hcaw := h.ballot v _ hb
    refine Settled.post ((h.take u v).put_some v (by exact hcaw)) v fun c msg hout => ?_
    rw [(toRest_eq_some.1 hout).2.2, ← hself, hcaw]
    exact Or.inr rfl
  | deaf hl hb => exact h.take u v
  | @follow w b hl hb hwait =>
    have hcaw := h.ballot v _ hb
    have hw : w = m := by
      rcases h.link u v _ (List.mem_of_mem_head? hl) with he | he <;> cases he
      rfl
    subst hw
    exact Settled.post ((h.take u v).put_some v (by exact hcaw)) v fun c msg hout => relayed hout
  | @finish w b hl hb hall =>
    have hw : w = m := by
      rcases h.link u v _ (List.mem_of_mem_head? hl) with he | he <;> cases he
      rfl
    subst hw
    exact (((h.take u v).put v fun b' hb' => by cases hb').post v fun c msg hout => relayed hout).tell v

theorem receives (h : Settled m s) {u v : V} {s' : State V} (hr : Receives key u v s s') : Settled m s' := by
  cases hr with
  | take ht => exact h.takes ht
  | adopt hl _ ht => exact (h.adopt hl).takes ht

theorem repeats (h : Settled m s) {v : V} {s' : State V} (hr : Repeats v s s') : Settled m s' := by
  cases hr with
  | lead hb hself hall =>
    refine h.post v fun c msg hout => ?_
    rw [(toRest_eq_some.1 hout).2.2, ← hself, h.ballot v _ hb]
    exact Or.inr rfl
  | own hb hself hwait =>
    refine h.post v fun c msg hout => ?_
    rw [(toRest_eq_some.1 hout).2.2, ← hself, h.ballot v _ hb]
    exact Or.inl rfl
  | other hb hne =>
    refine h.post v fun c msg hout => ?_
    rw [(toRest_eq_some.1 hout).2.2, h.ballot v _ hb]
    exact Or.inl rfl

end Settled

end Settled

section Waves

variable [Fintype V] [LinearOrder K] {key : V → K}

namespace Waves

variable [DecidableEq V] {m : V} {s : State V} {b : V → Ballot V} {heard : V → Finset V} {rank : V → ℕ}

/-- The wave that is over settles the election. -/
theorem Over.settled (h : Waves key m s b heard rank) {u v : V} (ho : Over m s b heard u v) :
    Settled m
      (((s.take u v).put v (some { b v with erec := (b v).erec + 1 })).post v (toRest none v (.lead v))) := by
  have hlink : Settled m (s.take u v) := by
    refine ⟨fun x b' hb' => ?_, fun a c msg hmsg => Or.inl (ho.link a c msg hmsg), fun x w hw => ?_⟩
    · have hx := (h.ballot x).symm.trans hb'
      cases hx
      exact ho.supports x
    · rw [State.take_told, h.told] at hw
      cases hw
  refine Settled.post (hlink.put_some v (by exact ho.supports v)) v fun c msg hout => ?_
  rw [(toRest_eq_some.1 hout).2.2, ho.lowest]
  exact Or.inr rfl

/-- One message is taken, and no voice is counted a second time. -/
theorem takes (h : Waves key m s b heard rank) (hkey : Function.Injective key) (hm : ∀ v, key m ≤ key v) {u v : V}
    {s' : State V} (hfresh : (s.link u v).head? = some (.elect (b v).caw) → u ∉ heard v)
    (ht : Takes key u v s s') : (∃ b', Waves key m s' b' (s.hears key u v heard) rank) ∨ Settled m s' := by
  have hcount : (s.link u v).head? = some (.elect (b v).caw) →
      s.hears key u v heard = Function.update heard v (insert u (heard v)) := by
    intro hl
    simp [State.hears, hl, h.ballot v]
  have hlead : ∀ w, (s.link u v).head? ≠ some (.lead w) := by
    intro w hl
    obtain ⟨w', hw'⟩ := h.elect (List.mem_of_mem_head? hl)
    cases hw'
  cases ht with
  | ignore hl hb hhigh =>
    rename_i w b'
    cases (h.ballot v).symm.trans hb
    have hne : w ≠ (b v).caw := fun e => lt_irrefl _ (e ▸ hhigh)
    refine Or.inl ⟨b, ?_⟩
    have hsame : s.hears key u v heard = heard := by
      simp [State.hears, hl, h.ballot v, hhigh.not_gt, hne]
    rw [hsame]
    exact h.take u v
  | count hl hb hwait =>
    cases (h.ballot v).symm.trans hb
    rw [hcount hl]
    exact Or.inl ⟨_, h.heard_head hl (hfresh hl) fun _ => hwait⟩
  | echo hl hb hall hne =>
    cases (h.ballot v).symm.trans hb
    rw [hcount hl]
    exact Or.inl ⟨_, h.echoes hkey hm hl (hfresh hl) hall hne⟩
  | win hl hb hall hself =>
    cases (h.ballot v).symm.trans hb
    exact Or.inr (Over.settled h (h.ends hkey hm hl (hfresh hl) hall hself))
  | deaf hl hb => exact absurd hl (hlead _)
  | follow hl hb hwait => exact absurd hl (hlead _)
  | finish hl hb hall => exact absurd hl (hlead _)

/-- One message is received, and no voice is counted a second time. -/
theorem receives (h : Waves key m s b heard rank) (hkey : Function.Injective key) (hm : ∀ v, key m ≤ key v)
    {u v : V} {s' : State V} (hfresh : (s.link u v).head? = some (.elect (b v).caw) → u ∉ heard v)
    (hr : Receives key u v s s') :
    (∃ b' rank', Waves key m s' b' (s.hears key u v heard) rank') ∨ Settled m s' := by
  cases hr with
  | take ht => exact (h.takes hkey hm hfresh ht).imp_left fun ⟨b', h'⟩ => ⟨b', rank, h'⟩
  | @adopt w _ hl hlow ht =>
    have hlow := hlow _ (h.ballot v)
    have huv := (h.heads hl).ne
    have hl' : ((s.adopt u v w).link u v).head? = some (.elect w) := by
      rw [State.adopt, State.post_link_ne _ _ huv]
      exact hl
    have hb' : (s.adopt u v w).ballot v = some ⟨w, some u, 0, 0⟩ := State.put_ballot_self ..
    have hsame : (s.adopt u v w).hears key u v (Function.update heard v ∅) = s.hears key u v heard := by
      simp [State.hears, hl, hl', hb', h.ballot v, hlow]
    have hstep := (h.adopt hkey hm hl hlow).takes hkey hm (fun _ => by simp) ht
    rw [hsame] at hstep
    exact hstep.imp_left fun ⟨b', h'⟩ => ⟨b', _, h'⟩

/-- What is said again is counted by nobody yet. -/
theorem repeats (h : Waves key m s b heard rank) (hkey : Function.Injective key) (hm : ∀ v, key m ≤ key v) {v : V}
    {s' : State V} (hr : Repeats v s s') : Waves key m s' b heard rank := by
  cases hr with
  | lead hb hself hall =>
    cases (h.ballot v).symm.trans hb
    by_cases hv : m = v
    · subst hv
      exact absurd h.unfinished (not_lt.2 hall)
    · have hcaw := (h.lowest v).2 (h.heard_of_erec hv hall)
      exact absurd (hcaw.symm.trans hself) hv
  | own hb hself hwait =>
    cases (h.ballot v).symm.trans hb
    refine h.post hkey hm fun c msg hout => ?_
    obtain ⟨hcv, -, rfl⟩ := toRest_eq_some.1 hout
    refine ⟨hcv, by rw [hself], Or.inl ?_⟩
    rw [(h.father v).2 hself]
    simp
  | other hb hne =>
    cases (h.ballot v).symm.trans hb
    refine h.post hkey hm fun c msg hout => ?_
    obtain ⟨hcv, hcf, rfl⟩ := toRest_eq_some.1 hout
    exact ⟨hcv, rfl, Or.inl hcf⟩

end Waves

end Waves

end Echo
