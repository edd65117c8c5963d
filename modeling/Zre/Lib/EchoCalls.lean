import Zre.Lib.EchoWaves

/-!
# Elections without repetitions

If nothing is sent again, no voice is heard twice, and the lowest wave gets over: before that, something is
always on its way. Then everybody calls the leader once, and the election ends when all calls were heard.
-/

namespace Echo

variable {V K : Type*}

/-! ## Without repetitions -/

/-- No wave is on its way twice, or to somebody who has heard it. -/
structure Once [LinearOrder K] (key : V → K) (s : State V) (b : V → Ballot V) (heard : V → Finset V) : Prop where
  strict : ∀ u v, (s.link u v).Pairwise fun x y => ∀ w w', x = .elect w → y = .elect w' → key w' < key w
  new : ∀ u v, u ∈ heard v → ∀ w, .elect w ∈ s.link u v → key w < key (b v).caw

section Once

variable [LinearOrder K] {key : V → K} {s : State V} {b : V → Ballot V} {heard : V → Finset V}

theorem Once.lose (h : Once key s b heard) {s' : State V} (hl : ∀ a c, (s'.link a c).Sublist (s.link a c)) :
    Once key s' b heard :=
  ⟨fun a c => (h.strict a c).sublist (hl a c), fun a c ha w hw => h.new a c ha w ((hl a c).subset hw)⟩

/-- The sender of the wave that stands first was not heard yet. -/
theorem Once.fresh (h : Once key s b heard) {u v : V} (hl : (s.link u v).head? = some (.elect (b v).caw)) :
    u ∉ heard v := fun hu => lt_irrefl _ (h.new u v hu _ (List.mem_of_mem_head? hl))

variable [DecidableEq V]

theorem Once.start : Once key State.start (fun v => ⟨v, none, 0, 0⟩) (fun _ : V => ∅) where
  strict u v := by
    unfold State.start
    simp only []
    split <;> simp
  new u v h := by simp at h

/-- A wave may be passed on that is below all that was said before. -/
theorem Once.post (h : Once key s b heard) {v : V} {out : V → Option (Msg V)}
    (hout : ∀ c msg, out c = some msg → msg = .elect (b v).caw ∧
      (∀ w, .elect w ∈ s.link v c → key (b v).caw < key w) ∧ (v ∈ heard c → key (b v).caw < key (b c).caw)) :
    Once key (s.post v out) b heard where
  strict a c := by
    by_cases hav : a = v
    · subst hav
      rw [State.post_link_self, List.pairwise_append]
      refine ⟨h.strict a c, by cases out c <;> simp, ?_⟩
      rintro x hx y hy w1 w2 rfl rfl
      obtain ⟨hw, hlow, -⟩ := hout c _ (Option.mem_toList.1 hy)
      cases hw
      exact hlow w1 hx
    · rw [State.post_link_ne _ _ hav]
      exact h.strict a c
  new a c ha w hw := by
    rcases (s.mem_post v).1 hw with hold | ⟨rfl, hnew⟩
    · exact h.new a c ha w hold
    · obtain ⟨hw, -, hlow⟩ := hout c _ hnew
      cases hw
      exact hlow ha

theorem Once.hear (h : Once key s b heard) {u v : V} (hl : (s.link u v).head? = some (.elect (b v).caw)) :
    Once key ((s.take u v).put v (some { b v with erec := (b v).erec + 1 }))
      (Function.update b v { b v with erec := (b v).erec + 1 })
      (Function.update heard v (insert u (heard v))) := by
  have hcaw : ∀ x, (Function.update b v { b v with erec := (b v).erec + 1 } x).caw = (b x).caw := by
    intro x
    by_cases hx : x = v
    · rw [hx, Function.update_self]
    · rw [Function.update_of_ne hx]
  have htake := h.lose (s.take_sublist u v)
  refine ⟨htake.strict, fun a c ha w hw => ?_⟩
  rw [hcaw]
  by_cases hac : a = u ∧ c = v
  · obtain ⟨rfl, rfl⟩ := hac
    obtain ⟨tail, htail⟩ := List.head?_eq_some_iff.1 hl
    have hstrict := h.strict a c
    rw [htail, List.pairwise_cons] at hstrict
    rw [State.put_link, State.take_link_self, htail] at hw
    exact hstrict.1 _ hw _ _ rfl rfl
  · refine htake.new a c ?_ w hw
    by_cases hc : c = v
    · subst hc
      rw [Function.update_self, Finset.mem_insert] at ha
      exact ha.resolve_left fun e => hac ⟨e, rfl⟩
    · rwa [Function.update_of_ne hc] at ha

end Once

section Waves

variable [Fintype V] [LinearOrder K] {key : V → K}

/-- A supporter of `m` that has spoken was heard, or its word is on the way. -/
def Covered (m : V) (s : State V) (b : V → Ballot V) (heard : V → Finset V) : Prop :=
  ∀ u v, u ≠ v → (b u).caw = m → Spoken b u v → .elect m ∈ s.link u v ∨ (b v).caw = m ∧ u ∈ heard v

section Progress

variable [DecidableEq V] {m : V} {s : State V} {b : V → Ballot V} {heard : V → Finset V} {rank : V → ℕ}

theorem Covered.start : Covered m State.start (fun v : V => ⟨v, none, 0, 0⟩) fun _ => ∅ := by
  intro u v huv hcaw _
  have hum : u = m := hcaw
  subst hum
  simp [State.start, huv]

theorem Once.adopt (h : Once key s b heard) (hw : Waves key m s b heard rank) {u v w : V}
    (hlow : key w < key (b v).caw) :
    Once key (s.adopt u v w) (Function.update b v ⟨w, some u, 0, 0⟩) (Function.update heard v ∅) := by
  have hput : Once key (s.put v (some ⟨w, some u, 0, 0⟩)) (Function.update b v ⟨w, some u, 0, 0⟩)
      (Function.update heard v ∅) := by
    refine ⟨h.strict, fun a c ha x hx => ?_⟩
    by_cases hc : c = v
    · subst hc
      rw [Function.update_self] at ha
      simp at ha
    · rw [Function.update_of_ne hc] at ha
      rw [Function.update_of_ne hc]
      exact h.new a c ha x hx
  refine hput.post fun c msg hout => ?_
  obtain ⟨hcv, -, rfl⟩ := toRest_eq_some.1 hout
  rw [Function.update_self, Function.update_of_ne hcv, Function.update_of_ne hcv]
  refine ⟨rfl, fun x hx => ?_, fun hc => hlow.trans_le (hw.said v c hc).1⟩
  obtain ⟨w', hw', hle, -⟩ := hw.link v c _ hx
  cases hw'
  exact hlow.trans_le hle

/-- Before the echo nothing was said to the father. -/
theorem Once.echoes (h : Once key s b heard) (hw : Waves key m s b heard rank) (hkey : Function.Injective key)
    {u v : V} (hl : (s.link u v).head? = some (.elect (b v).caw)) :
    Once key (((s.take u v).put v (some { b v with erec := (b v).erec + 1 })).post v (back (b v)))
      (Function.update b v { b v with erec := (b v).erec + 1 })
      (Function.update heard v (insert u (heard v))) := by
  have hshort := hw.erec_lt (hw.heads hl).ne (h.fresh hl)
  refine (h.hear hl).post fun c msg hout => ?_
  obtain ⟨hf, rfl⟩ := back_eq_some.1 hout
  have hcv : c ≠ v := fun e => hw.foreign v (e ▸ hf)
  have hsilent : ¬ Spoken b v c := by
    rintro (hne | he)
    · exact hne hf
    · exact absurd he (Nat.ne_of_lt hshort)
  rw [Function.update_self, Function.update_of_ne hcv, Function.update_of_ne hcv]
  refine ⟨rfl, fun x hx => ?_, fun hc => ?_⟩
  · obtain ⟨w', hw', hle, hsp⟩ := hw.link v c _ ((s.take_sublist u v v c).subset hx)
    cases hw'
    exact lt_of_le_of_ne hle fun e => hsilent (hsp (hkey e).symm)
  · obtain ⟨hle, hsp⟩ := hw.said v c hc
    exact lt_of_le_of_ne hle fun e => hsilent (hsp (hkey e))

theorem Covered.adopt (h : Covered m s b heard) (hw : Waves key m s b heard rank) (hm : ∀ v, key m ≤ key v)
    {u v w : V} (hlow : key w < key (b v).caw) :
    Covered m (s.adopt u v w) (Function.update b v ⟨w, some u, 0, 0⟩) (Function.update heard v ∅) := by
  have hcawv : (b v).caw ≠ m := by
    intro hc
    rw [hc] at hlow
    exact absurd (hm w) (not_le.2 hlow)
  intro a c hac hcaw hsp
  by_cases hav : a = v
  · subst hav
    rw [Function.update_self] at hcaw
    obtain rfl : w = m := hcaw
    have hcu : u ≠ c := by
      rintro rfl
      unfold Spoken at hsp
      rw [Function.update_self] at hsp
      rcases hsp with hf | he
      · exact hf rfl
      · exact absurd he (Nat.ne_of_lt (lt_of_le_of_lt (Nat.zero_le _) hw.unfinished))
    refine Or.inl (((s.put a _).mem_post a).2 (Or.inr ⟨rfl, ?_⟩))
    exact toRest_eq_some.2 ⟨hac.symm, fun e => hcu (Option.some.inj e), rfl⟩
  · rw [Function.update_of_ne hav] at hcaw
    unfold Spoken at hsp
    rw [Function.update_of_ne hav] at hsp
    rcases h a c hac hcaw hsp with hmem | ⟨hc, ha⟩
    · exact Or.inl (((s.put v _).mem_post v).2 (Or.inl hmem))
    · have hcv : c ≠ v := fun e => hcawv (e ▸ hc)
      rw [Function.update_of_ne hcv, Function.update_of_ne hcv]
      exact Or.inr ⟨hc, ha⟩

theorem Covered.ignore (h : Covered m s b heard) (hm : ∀ v, key m ≤ key v) {u v w : V}
    (hl : (s.link u v).head? = some (.elect w)) (hhigh : key (b v).caw < key w) :
    Covered m (s.take u v) b heard := by
  intro a c hac hcaw hsp
  refine (h a c hac hcaw hsp).imp_left fun hmem => ?_
  by_cases hav : a = u ∧ c = v
  · obtain ⟨rfl, rfl⟩ := hav
    rw [State.take_link_self]
    obtain ⟨tail, htail⟩ := List.head?_eq_some_iff.1 hl
    rw [htail] at hmem ⊢
    rcases List.mem_cons.1 hmem with he | hmem
    · cases he
      exact absurd (hm _) (not_le.2 hhigh)
    · exact hmem
  · rw [State.take_link_ne s u v hav]
    exact hmem

/-- A voice is counted. If it is the last one, the father has to be told. -/
theorem Covered.hear (h : Covered m s b heard) {u v : V} (hl : (s.link u v).head? = some (.elect (b v).caw))
    {out : V → Option (Msg V)}
    (hout : (b v).erec + 1 = Echo.others V → ∀ c, (b v).father = some c → out c = some (.elect (b v).caw)) :
    Covered m (((s.take u v).put v (some { b v with erec := (b v).erec + 1 })).post v out)
      (Function.update b v { b v with erec := (b v).erec + 1 })
      (Function.update heard v (insert u (heard v))) := by
  have hbv : Function.update b v { b v with erec := (b v).erec + 1 } v = { b v with erec := (b v).erec + 1 } :=
    Function.update_self ..
  have hbo : ∀ x, x ≠ v → Function.update b v { b v with erec := (b v).erec + 1 } x = b x :=
    fun x hx => Function.update_of_ne hx ..
  have hhv : Function.update heard v (insert u (heard v)) v = insert u (heard v) := Function.update_self ..
  have hho : ∀ x, x ≠ v → Function.update heard v (insert u (heard v)) x = heard x :=
    fun x hx => Function.update_of_ne hx ..
  have hlink : ∀ a c msg, msg ∈ (s.take u v).link a c ∨ a = v ∧ out c = some msg →
      msg ∈ (((s.take u v).put v (some { b v with erec := (b v).erec + 1 })).post v out).link a c :=
    fun a c msg hmsg => (((s.take u v).put v _).mem_post v).2 hmsg
  generalize (((s.take u v).put v (some { b v with erec := (b v).erec + 1 })).post v out) = s' at *
  generalize Function.update b v { b v with erec := (b v).erec + 1 } = b' at *
  generalize Function.update heard v (insert u (heard v)) = heard' at *
  have hcaw : ∀ x, (b' x).caw = (b x).caw := by
    intro x
    by_cases hx : x = v
    · rw [hx, hbv]
    · rw [hbo x hx]
  intro a c hac hx hsp
  rw [hcaw] at hx ⊢
  by_cases hsp' : Spoken b a c
  · rcases h a c hac hx hsp' with hmsg | ⟨hc, ha⟩
    · by_cases hcut : a = u ∧ c = v
      · obtain ⟨rfl, rfl⟩ := hcut
        obtain ⟨tail, htail⟩ := List.head?_eq_some_iff.1 hl
        rw [htail, List.mem_cons] at hmsg
        rcases hmsg with he | hmsg
        · cases he
          exact Or.inr ⟨rfl, by rw [hhv]; exact Finset.mem_insert_self _ _⟩
        · refine Or.inl (hlink a c _ (Or.inl ?_))
          rw [State.take_link_self, htail]
          exact hmsg
      · refine Or.inl (hlink a c _ (Or.inl ?_))
        rwa [State.take_link_ne s u v hcut]
    · refine Or.inr ⟨hc, ?_⟩
      by_cases hcv : c = v
      · rw [hcv, hhv]
        exact Finset.mem_insert_of_mem (hcv ▸ ha)
      · rwa [hho c hcv]
  · -- only `v` has newly spoken, to its father
    have hav : a = v := by
      by_contra hav
      unfold Spoken at hsp hsp'
      rw [hbo a hav] at hsp
      exact hsp' hsp
    subst hav
    unfold Spoken at hsp hsp'
    push Not at hsp'
    rw [hbv] at hsp
    have hfull : (b a).erec + 1 = Echo.others V := hsp.resolve_left fun hne => hne hsp'.1
    refine Or.inl (hlink a c _ (Or.inr ⟨rfl, ?_⟩))
    rw [hout hfull c hsp'.1, hx]

/-- As long as the lowest wave is not over, something is on its way. -/
theorem Covered.not_quiet (h : Covered m s b heard) (hw : Waves key m s b heard rank)
    (hkey : Function.Injective key) (hm : ∀ v, key m ≤ key v) : ¬ s.Quiet := by
  intro hquiet
  have hcover : ∀ u v, u ≠ v → (b u).caw = m → Spoken b u v → (b v).caw = m ∧ u ∈ heard v := by
    intro u v huv hcaw hsp
    refine (h u v huv hcaw hsp).resolve_left ?_
    rw [hquiet]
    simp
  have hcawm := hw.caw_lowest hkey hm
  have hsupports : ∀ v, (b v).caw = m := by
    intro v
    by_cases hv : m = v
    · rw [← hv, hcawm]
    · refine (hcover m v hv hcawm (Or.inl ?_)).1
      rw [(hw.father m).2 hcawm]
      simp
  -- a supporter of highest rank that was not told by all has nobody left to wait for
  have hfull : ∀ v, Echo.others V ≤ (b v).erec := by
    by_contra hno
    push Not at hno
    have hne : (Finset.univ.filter fun v => (b v).erec < Echo.others V).Nonempty := by
      obtain ⟨v, hv⟩ := hno
      exact ⟨v, by simp [hv]⟩
    obtain ⟨v, hv, hmax⟩ := Finset.exists_max_image _ rank hne
    have hshort : (b v).erec < Echo.others V := (Finset.mem_filter.1 hv).2
    refine absurd hshort (not_lt.2 ?_)
    rw [hw.erec]
    refine others_le_card fun u huv => (hcover u v huv (hsupports u) ?_).2
    by_cases hf : (b u).father = some v
    · right
      have hrank := (hw.rank u v (hsupports u) hf).2
      have hfull : ¬ (b u).erec < Echo.others V := fun hlt =>
        absurd (hmax u (by simp [hlt])) (not_le.2 hrank)
      have hle : (b u).erec ≤ Echo.others V := by
        rw [hw.erec]
        exact card_le_others (hw.others u)
      exact le_antisymm hle (not_lt.1 hfull)
    · exact Or.inl hf
  exact absurd hw.unfinished (not_lt.2 (hfull m))

end Progress

/-! ## The calls -/

/-- `u` has called the leader. -/
def Called (m : V) (got : V → Finset V) (u : V) : Prop := u = m ∨ (got u).Nonempty

/-- After the wave of `m`: who was called by `got` has called everybody, once. -/
structure Flood (m : V) (s : State V) (got : V → Finset V) : Prop where
  ballot : ∀ v, (got v).card < others V → ∃ b, s.ballot v = some b ∧ b.caw = m ∧ b.lrec = (got v).card
  waiting : ∀ v, (got v).card < others V → s.told v = []
  closed : ∀ v, others V ≤ (got v).card → s.ballot v = none ∧ s.told v = [m]
  others : ∀ v, v ∉ got v
  called : ∀ u v, u ∈ got v → Called m got u
  onWay : ∀ u v, u ≠ v → Called m got u → u ∉ got v → s.link u v = [.lead m]
  silent : ∀ u v, u = v ∨ ¬ Called m got u ∨ u ∈ got v → s.link u v = []

section Flood

variable [DecidableEq V] {m : V} {s : State V} {b : V → Ballot V} {heard : V → Finset V} {rank : V → ℕ}

/-- The wave that is over leaves nothing behind but the first call. -/
theorem Waves.Over.flood {u v : V} (ho : Over m s b heard u v) (h : Waves key m s b heard rank)
    (honce : Once key s b heard) (hl : (s.link u v).head? = some (.elect (b v).caw)) :
    Flood m (((s.take u v).put v (some { b v with erec := (b v).erec + 1 })).post v (toRest none v (.lead v)))
      fun _ => ∅ := by
  obtain rfl := ho.lowest
  have hpos : 0 < Echo.others V := lt_of_le_of_lt (Nat.zero_le _) h.unfinished
  have hempty : ∀ a c, (s.take u v).link a c = [] := by
    intro a c
    refine List.eq_nil_iff_forall_not_mem.2 fun msg hmsg => ?_
    obtain rfl := ho.link a c msg hmsg
    have hold := (s.take_sublist u v a c).subset hmsg
    rcases ho.heard a c (h.ne_of_mem hold) with hmem | ⟨rfl, rfl⟩
    · have hlt := honce.new a c hmem v hold
      rw [ho.supports] at hlt
      exact lt_irrefl _ hlt
    · obtain ⟨tail, htail⟩ := List.head?_eq_some_iff.1 hl
      have hstrict := honce.strict a c
      rw [htail, List.pairwise_cons, ho.supports] at hstrict
      rw [State.take_link_self, htail] at hmsg
      exact lt_irrefl _ (hstrict.1 _ hmsg c c rfl rfl)
  have hcalled : ∀ x, Called v (fun _ => ∅) x ↔ x = v := by simp [Called]
  refine ⟨fun x _ => ?_, fun x _ => h.told x, fun x hx => ?_, fun x => by simp, fun a c ha => by simp at ha,
    fun a c hac ha _ => ?_, fun a c hac => ?_⟩
  · by_cases hx : x = v
    · subst hx
      exact ⟨_, State.put_ballot_self .., ho.supports x, h.lrec x⟩
    · exact ⟨b x, (State.put_ballot_ne _ _ hx _).trans (h.ballot x), ho.supports x, h.lrec x⟩
  · rw [Finset.card_empty] at hx
    omega
  · obtain rfl := (hcalled a).1 ha
    rw [State.post_link_self, State.put_link, hempty, toRest_eq_some.2 ⟨hac.symm, by simp, rfl⟩]
    rfl
  · rw [hcalled] at hac
    refine List.eq_nil_iff_forall_not_mem.2 fun msg hmsg => ?_
    rcases (State.mem_post _ _).1 hmsg with hold | ⟨hav, hnew⟩
    · rw [State.put_link, hempty] at hold
      cases hold
    · obtain ⟨hcv, -, -⟩ := toRest_eq_some.1 hnew
      rcases hac with hac | hno | hmem
      · exact hcv (hac.symm.trans hav)
      · exact hno hav
      · simp at hmem

namespace Flood

variable {got : V → Finset V}

omit [DecidableEq V] in
/-- A message on the way is a call. -/
theorem head (h : Flood m s got) {u v : V} {msg : Msg V} (hl : (s.link u v).head? = some msg) :
    u ≠ v ∧ Called m got u ∧ u ∉ got v ∧ msg = .lead m ∧ s.link u v = [.lead m] := by
  have hne : s.link u v ≠ [] := by
    intro hnil
    rw [hnil] at hl
    cases hl
  have huv : u ≠ v := fun e => hne (h.silent u v (Or.inl e))
  have hcalled : Called m got u := not_not.1 fun e => hne (h.silent u v (Or.inr (Or.inl e)))
  have hnew : u ∉ got v := fun e => hne (h.silent u v (Or.inr (Or.inr e)))
  have hlink := h.onWay u v huv hcalled hnew
  rw [hlink] at hl
  cases hl
  exact ⟨huv, hcalled, hnew, rfl, hlink⟩

/-- A call is heard. The first one is passed on, unless it is one's own. -/
theorem hear (h : Flood m s got) {u v : V} (huv : u ≠ v) (hcalled : Called m got u) (hnew : u ∉ got v)
    {b : Ballot V} (hb : s.ballot v = some b) {s' : State V}
    (hlink : s'.link = (((s.take u v).post v (relay v m b))).link)
    (hballot : ∀ x, x ≠ v → s'.ballot x = s.ballot x) (htold : ∀ x, x ≠ v → s'.told x = s.told x)
    (hwait : b.lrec + 1 < Echo.others V → s'.ballot v = some { b with lrec := b.lrec + 1 } ∧ s'.told v = s.told v)
    (hall : Echo.others V ≤ b.lrec + 1 → s'.ballot v = none ∧ s'.told v = s.told v ++ [m]) :
    Flood m s' (Function.update got v (insert u (got v))) := by
  have hshort := card_lt_others huv hnew (h.others v)
  obtain ⟨b', hb', hcaw, hlrec⟩ := h.ballot v hshort
  cases hb.symm.trans hb'
  have hgv : Function.update got v (insert u (got v)) v = insert u (got v) := Function.update_self ..
  have hgo : ∀ x, x ≠ v → Function.update got v (insert u (got v)) x = got x :=
    fun x hx => Function.update_of_ne hx ..
  generalize Function.update got v (insert u (got v)) = got' at *
  have hcard : (got' v).card = b.lrec + 1 := by rw [hgv, Finset.card_insert_of_notMem hnew, hlrec]
  have hcalled' : ∀ x, Called m got' x ↔ x = v ∨ Called m got x := by
    intro x
    unfold Called
    by_cases hx : x = v
    · subst hx
      rw [hgv]
      simp
    · rw [hgo x hx]
      simp [hx]
  have hsub : ∀ a c, a ∈ got c → a ∈ got' c := by
    intro a c ha
    by_cases hc : c = v
    · subst hc
      rw [hgv]
      exact Finset.mem_insert_of_mem ha
    · rwa [hgo c hc]
  -- `v` calls when it hears the first call, and not again
  have hfirst : (m ≠ v ∧ b.lrec = 0) ↔ ¬ Called m got v := by
    unfold Called
    rw [hlrec, Finset.card_eq_zero, not_or, Finset.not_nonempty_iff_eq_empty, ne_comm]
  have hlinkv : ∀ c, s'.link v c = s.link v c ++ (relay v m b c).toList := by
    intro c
    rw [hlink, State.post_link_self, State.take_link_ne _ _ _ fun e => huv e.1.symm]
  have hkeeps : Called m got v → ∀ c, s'.link v c = s.link v c := by
    intro hv c
    rw [hlinkv, relay, if_neg fun e => hfirst.1 e hv]
    exact List.append_nil _
  have hcalls : ¬ Called m got v → ∀ c, c ≠ v → s'.link v c = [.lead m] := by
    intro hv c hc
    rw [hlinkv, relay, if_pos (hfirst.2 hv), h.silent v c (Or.inr (Or.inl hv)), toRest_eq_some.2 ⟨hc, by simp, rfl⟩]
    rfl
  have hlinko : ∀ a c, a ≠ v → ¬ (a = u ∧ c = v) → s'.link a c = s.link a c := by
    intro a c hav hac
    rw [hlink, State.post_link_ne _ _ hav, State.take_link_ne _ _ _ hac]
  have hlinku : s'.link u v = [] := by
    rw [hlink, State.post_link_ne _ _ huv, State.take_link_self, h.onWay u v huv hcalled hnew]
    rfl
  constructor
  case ballot =>
    intro x hx
    by_cases hxv : x = v
    · subst hxv
      rw [hcard] at hx ⊢
      exact ⟨_, (hwait hx).1, hcaw, rfl⟩
    · rw [hgo x hxv] at hx ⊢
      rw [hballot x hxv]
      exact h.ballot x hx
  case waiting =>
    intro x hx
    by_cases hxv : x = v
    · subst hxv
      rw [hcard] at hx
      rw [(hwait hx).2]
      exact h.waiting x hshort
    · rw [hgo x hxv] at hx
      rw [htold x hxv]
      exact h.waiting x hx
  case closed =>
    intro x hx
    by_cases hxv : x = v
    · subst hxv
      rw [hcard] at hx
      rw [(hall hx).2, h.waiting x hshort]
      exact ⟨(hall hx).1, rfl⟩
    · rw [hgo x hxv] at hx
      rw [hballot x hxv, htold x hxv]
      exact h.closed x hx
  case others =>
    intro x hx
    by_cases hxv : x = v
    · subst hxv
      rw [hgv, Finset.mem_insert] at hx
      exact hx.elim (fun e => huv e.symm) (h.others x)
    · rw [hgo x hxv] at hx
      exact h.others x hx
  case called =>
    intro a c ha
    rw [hcalled']
    right
    by_cases hc : c = v
    · subst hc
      rw [hgv, Finset.mem_insert] at ha
      exact ha.elim (fun e => e ▸ hcalled) (h.called a c)
    · rw [hgo c hc] at ha
      exact h.called a c ha
  case onWay =>
    intro a c hac ha hnot
    have hold : a ∉ got c := fun e => hnot (hsub a c e)
    by_cases hav : a = v
    · subst hav
      by_cases hv : Called m got a
      · rw [hkeeps hv]
        exact h.onWay a c hac hv hold
      · exact hcalls hv c hac.symm
    · have hcut : ¬ (a = u ∧ c = v) := by
        rintro ⟨rfl, rfl⟩
        exact hnot (by rw [hgv]; exact Finset.mem_insert_self _ _)
      rw [hlinko a c hav hcut]
      exact h.onWay a c hac (((hcalled' a).1 ha).resolve_left hav) hold
  case silent =>
    intro a c hac
    by_cases hav : a = v
    · subst hav
      by_cases hc : c = a
      · subst hc
        rw [hlinkv, h.silent c c (Or.inl rfl)]
        unfold relay toRest
        split <;> simp
      · have hmem : a ∈ got c := by
          rcases hac with e | hno | hmem
          · exact absurd e.symm hc
          · exact absurd ((hcalled' a).2 (Or.inl rfl)) hno
          · rwa [hgo c hc] at hmem
        rw [hkeeps (h.called a c hmem)]
        exact h.silent a c (Or.inr (Or.inr hmem))
    · by_cases hcut : a = u ∧ c = v
      · rw [hcut.1, hcut.2]
        exact hlinku
      · rw [hlinko a c hav hcut]
        refine h.silent a c (hac.imp_right fun hac => hac.imp (fun hno e => ?_) fun hmem => ?_)
        · exact hno ((hcalled' a).2 (Or.inr e))
        · by_cases hc : c = v
          · subst hc
            rw [hgv, Finset.mem_insert] at hmem
            exact hmem.resolve_left fun e => hcut ⟨e, rfl⟩
          · rwa [hgo c hc] at hmem

theorem receives (h : Flood m s got) {u v : V} {s' : State V} (hr : Receives key u v s s') :
    ∃ got', Flood m s' got' := by
  have hcall : ∀ w, (s.link u v).head? ≠ some (.elect w) := by
    intro w hl
    obtain ⟨-, -, -, hw, -⟩ := h.head hl
    cases hw
  cases hr with
  | adopt hl hlow ht => exact absurd hl (hcall _)
  | take ht =>
    cases ht with
    | ignore hl hb hhigh => exact absurd hl (hcall _)
    | count hl hb hwait => exact absurd hl (hcall _)
    | echo hl hb hall hne => exact absurd hl (hcall _)
    | win hl hb hall hself => exact absurd hl (hcall _)
    | deaf hl hb =>
      obtain ⟨huv, hcalled, hnew, -, -⟩ := h.head hl
      obtain ⟨b', hb', -⟩ := h.ballot v (card_lt_others huv hnew (h.others v))
      rw [hb] at hb'
      cases hb'
    | follow hl hb hwait =>
      obtain ⟨huv, hcalled, hnew, hw, -⟩ := h.head hl
      cases hw
      refine ⟨_, h.hear huv hcalled hnew hb rfl (fun x hx => State.put_ballot_ne _ _ hx _) (fun x _ => rfl)
        (fun _ => ⟨State.put_ballot_self .., rfl⟩) fun hall => absurd hwait (not_lt.2 hall)⟩
    | finish hl hb hall =>
      obtain ⟨huv, hcalled, hnew, hw, -⟩ := h.head hl
      cases hw
      refine ⟨_, h.hear huv hcalled hnew hb rfl (fun x hx => State.put_ballot_ne _ _ hx _)
        (fun x hx => Function.update_of_ne hx ..) (fun hwait => absurd hwait (not_lt.2 hall))
        fun _ => ⟨State.put_ballot_self .., Function.update_self ..⟩⟩

omit [DecidableEq V] in
theorem told (h : Flood m s got) (v : V) : s.told v = [] ∨ s.told v = [m] := by
  by_cases hv : (got v).card < Echo.others V
  · exact Or.inl (h.waiting v hv)
  · exact Or.inr (h.closed v (not_lt.1 hv)).2

/-- The calls end when everybody was called by everybody. -/
theorem quiet (h : Flood m s got) (hq : s.Quiet) (v : V) : s.ballot v = none ∧ s.told v = [m] := by
  have hgot : ∀ u v, u ≠ v → Called m got u → u ∈ got v := by
    intro u v huv hu
    by_contra hnot
    have hlink := h.onWay u v huv hu hnot
    rw [hq u v] at hlink
    cases hlink
  have hcalled : ∀ u, Called m got u := by
    intro u
    by_cases hu : u = m
    · exact Or.inl hu
    · exact Or.inr ⟨m, hgot m u (Ne.symm hu) (Or.inl rfl)⟩
  exact h.closed v (others_le_card fun u huv => hgot u v huv (hcalled u))

end Flood

end Flood

/-! ## The whole election -/

/-- The waves of an election without repetitions are under way. -/
def Waving (key : V → K) (m : V) (s : State V) : Prop :=
  ∃ b heard rank, Waves key m s b heard rank ∧ Once key s b heard ∧ Covered m s b heard

section Waving

variable [DecidableEq V] {m : V} {s : State V}

theorem waving_start (hcard : 2 ≤ Fintype.card V) : Waving key m (State.start : State V) :=
  ⟨_, _, _, waves_start hcard, Once.start, Covered.start⟩

namespace Waving

omit [DecidableEq V] in
theorem told (h : Waving key m s) (v : V) : s.told v = [] := by
  obtain ⟨b, heard, rank, hw, -, -⟩ := h
  exact hw.told v

omit [DecidableEq V] in
/-- Nobody was called yet. -/
theorem elect (h : Waving key m s) {u v : V} {msg : Msg V} (hmsg : msg ∈ s.link u v) : ∃ w, msg = .elect w := by
  obtain ⟨b, heard, rank, hw, -, -⟩ := h
  exact hw.elect hmsg

theorem not_quiet (h : Waving key m s) (hkey : Function.Injective key) (hm : ∀ v, key m ≤ key v) : ¬ s.Quiet := by
  obtain ⟨b, heard, rank, hw, -, hcovered⟩ := h
  exact hcovered.not_quiet hw hkey hm

/-- A message is taken. It may be the last one, and then everybody supports `m`. -/
theorem takes (h : Waving key m s) (hkey : Function.Injective key) (hm : ∀ v, key m ≤ key v) {u v : V}
    {s' : State V} (ht : Takes key u v s s') :
    Waving key m s' ∨ v = m ∧ (∀ x, ∃ b, s.ballot x = some b ∧ b.caw = m) ∧ Flood m s' fun _ => ∅ := by
  have hlead : ∀ w, (s.link u v).head? ≠ some (.lead w) := by
    intro w hl
    obtain ⟨w', hw'⟩ := h.elect (List.mem_of_mem_head? hl)
    cases hw'
  obtain ⟨b, heard, rank, hw, honce, hcovered⟩ := h
  cases ht with
  | ignore hl hb hhigh =>
    cases (hw.ballot v).symm.trans hb
    exact Or.inl ⟨b, heard, rank, hw.take u v, honce.lose (s.take_sublist u v), hcovered.ignore hm hl hhigh⟩
  | count hl hb hwait =>
    cases (hw.ballot v).symm.trans hb
    have hcov : Covered m
        (((s.take u v).put v (some { b v with erec := (b v).erec + 1 })).post v fun _ => none)
        (Function.update b v { b v with erec := (b v).erec + 1 })
        (Function.update heard v (insert u (heard v))) := hcovered.hear hl fun he => absurd hwait (by omega)
    rw [State.post_none] at hcov
    exact Or.inl ⟨_, _, _, hw.heard_head hl (honce.fresh hl) fun _ => hwait, honce.hear hl, hcov⟩
  | echo hl hb hall hne =>
    cases (hw.ballot v).symm.trans hb
    exact Or.inl ⟨_, _, _, hw.echoes hkey hm hl (honce.fresh hl) hall hne, honce.echoes hw hkey hl,
      hcovered.hear hl fun _ c hf => back_eq_some.2 ⟨hf, rfl⟩⟩
  | win hl hb hall hself =>
    cases (hw.ballot v).symm.trans hb
    have hover := hw.ends hkey hm hl (honce.fresh hl) hall hself
    exact Or.inr ⟨hover.lowest, fun x => ⟨_, hw.ballot x, hover.supports x⟩, hover.flood hw honce hl⟩
  | deaf hl hb => exact absurd hl (hlead _)
  | follow hl hb hwait => exact absurd hl (hlead _)
  | finish hl hb hall => exact absurd hl (hlead _)

/-- A message is received. The first call is made when everybody supports `m`. -/
theorem receives (h : Waving key m s) (hkey : Function.Injective key) (hm : ∀ v, key m ≤ key v) {u v : V}
    {s' : State V} (hr : Receives key u v s s') :
    Waving key m s' ∨ (∀ x, ∃ b, s.ballot x = some b ∧ b.caw = m) ∧ Flood m s' fun _ => ∅ := by
  cases hr with
  | take ht => exact (h.takes hkey hm ht).imp_right And.right
  | @adopt w _ hl hlow ht =>
    obtain ⟨b, heard, rank, hw, honce, hcovered⟩ := h
    have hlow := hlow _ (hw.ballot v)
    have hadopt : Waving key m (s.adopt u v w) :=
      ⟨_, _, _, hw.adopt hkey hm hl hlow, honce.adopt hw hlow, hcovered.adopt hw hm hlow⟩
    rcases hadopt.takes hkey hm ht with hwaving | ⟨rfl, -, -⟩
    · exact Or.inl hwaving
    · -- the lowest candidate adopts nobody
      rw [hw.caw_lowest hkey hm] at hlow
      exact absurd (hm w) (not_le.2 hlow)

end Waving

end Waving

end Waves

end Echo
