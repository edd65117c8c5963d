import Zre.Redial
import Zre.Proofs.Announcements
import Zre.Proofs.Endpoints
import Mathlib.Data.List.DropRight

/-!
# Proofs: redialling a hub

A redial puts a new link in the place of the old one, towards the same host and port, and announces on it
first. Only `_gossip_targets` keeps the old link: after `k` redials it has `k` entries too many.
-/

namespace Zre

open Fallible

/-! ## The address of a hub -/

theorem dropWhile_strip (p : Char → Bool) (s : Str) :
    (stripWith p s).dropWhile p = stripWith p s := by
  have hprefix : stripWith p s <+: s.dropWhile p := List.rdropWhile_prefix p (s.dropWhile p)
  refine List.dropWhile_eq_self_iff.2 fun hpos => ?_
  obtain ⟨t, ht⟩ := hprefix
  have hlen : 0 < (s.dropWhile p).length := by
    rw [← ht, List.length_append]
    omega
  have hhead : (s.dropWhile p)[0] = (stripWith p s)[0] := by
    simp only [← ht, List.getElem_append_left hpos]
  rw [← hhead]
  exact List.dropWhile_get_zero_not p s hlen

/-- Stripping twice is stripping once. -/
theorem stripWith_idem (p : Char → Bool) (s : Str) : stripWith p (stripWith p s) = stripWith p s := by
  rw [stripWith.eq_1 p (stripWith p s), dropWhile_strip]
  exact List.rdropWhile_idempotent p (s.dropWhile p)

variable {rt : Runtime}

/-- The host of a hub is not empty, and has no brackets around it. -/
theorem splitHubEndpoint_host {e : Str} {target : Str × Int} (h : splitHubEndpoint rt e = .ok target) :
    target.1 ≠ [] ∧ stripBrackets target.1 = target.1 := by
  obtain ⟨port, -, h⟩ := bind_eq_ok_iff.1 h
  set host := stripBrackets (rpartition ':' ((afterScheme e).getD e)).1 with hhost
  have htarget : target.1 = if host = [] then "127.0.0.1".toList else host :=
    congrArg Prod.fst (Except.ok.inj h).symm
  rw [htarget]
  by_cases hempty : host = []
  · rw [if_pos hempty]
    exact ⟨List.cons_ne_nil _ _, by decide⟩
  · rw [if_neg hempty]
    exact ⟨hempty, stripWith_idem _ _⟩

/-- The rebuilt text of an address is read as that address. -/
theorem splitHubEndpoint_tcpText (hrt : rt.ReadsDigits) {target : Str × Int} (hne : target.1 ≠ [])
    (hstrip : stripBrackets target.1 = target.1) {p : Nat} (hp : target.2 = p) (hlt : p < 65536) :
    splitHubEndpoint rt (HubLinks.tcpText target) = .ok target := by
  obtain ⟨host, port⟩ := target
  simp only [] at hne hstrip hp
  subst hp
  have hint : intStr (p : Int) = natStr p := by simp [intStr]
  have htext : HubLinks.tcpText (host, (p : Int)) = "tcp://".toList ++ (host ++ ':' :: natStr p) := by
    rw [← hint]
    exact List.append_assoc _ _ _
  have hport := pyInt_natStr hrt hlt
  have hsplit := rpartition_append host (colon_notMem_natStr p)
  unfold splitHubEndpoint
  rw [htext, afterScheme_tcp, Option.getD_some]
  simp only [hsplit, hport, bind_ok, hstrip, if_neg hne, pure_eq_ok]

namespace HubLinks

/-! ## Runs -/

/-- A redial: the text that the old link was connected to, the new link, its text, and the messages of an
announcement at that time. -/
structure Redial where
  original : Str
  link : Nat
  text : Str
  known : List Zgs.Message

/-- What a redial of `link` does. -/
def redialOf (h : HubLinks) (link : Nat) : Redial where
  original := (h.dialled.get link).getD []
  link := h.client.nextLink
  text := tcpText ((h.targets.get link).getD ([], 0))
  known := h.client.announcement

/-- The runs of a node that was started with the hubs `connects`: redials of its links, and everything else
that can happen to it apart from the reaper. -/
inductive Runs (cfg : Config) (connects : List Str) : HubLinks → List Redial → Prop where
  | start {h : HubLinks} (env : HubEnv) (endpoint : Bytes)
      (hs : start env cfg endpoint connects = .ok h) : Runs cfg connects h []
  | redial {h h' : HubLinks} {ds : List Redial} (env : HubEnv) (link : Nat)
      (hr : Runs cfg connects h ds) (hl : link ∈ h.client.links) (ho : h.redial env link = .ok h') :
      Runs cfg connects h' (ds ++ [h.redialOf link])
  | event {h : HubLinks} {c : Client} {ds : List Redial} (env : GossipEnv) (event : Client.Event)
      (hr : Runs cfg connects h ds) (hev : event ≠ .node .reap)
      (hl : ∀ link body, event = .hub link body → link ∈ h.client.links)
      (ho : h.client.step env event = .ok c) : Runs cfg connects { h with client := c } ds

/-- The addresses of the configured hubs. -/
def hubAddresses (rt : Runtime) (connects : List Str) : List (Option (Str × Int)) :=
  connects.map fun e => (splitHubEndpoint rt e).toOption

/-- The redial announced itself first on its link: nothing was sent there before. -/
def Announced (outbox : List LinkSend) (d : Redial) : Prop :=
  ∃ before sent after, outbox = before ++ sent ++ after ∧ (∀ s ∈ before, s.link ≠ d.link) ∧
    Client.Carries d.link d.known sent

/-- The links have survived the redials `ds`. -/
structure Survives (cfg : Config) (connects : List Str) (h : HubLinks) (ds : List Redial) : Prop where
  nodup : h.client.links.Nodup
  endpoints : (h.client.links.map h.targets.get).Perm (hubAddresses cfg.rt connects)
  addresses : ∀ d ∈ ds, splitHubEndpoint cfg.rt d.text = splitHubEndpoint cfg.rt d.original
  targets : h.targets.keys.Perm h.client.links
  lastRx : h.client.lastRx.keys.Perm h.client.links
  announced : ∀ d ∈ ds, Announced h.client.outbox d

/-- The links are numbered in the order in which they are opened, and every link is in every table. -/
structure Sound (h : HubLinks) : Prop where
  nodup : h.client.links.Nodup
  links : ∀ l ∈ h.client.links, l < h.client.nextLink
  keys : ∀ l ∈ h.targets.keys, l < h.client.nextLink
  targets : h.client.links ⊆ h.targets.keys
  lastRx : h.client.lastRx.keys.Perm h.client.links
  sent : ∀ s ∈ h.client.outbox, s.link < h.client.nextLink

/-- What every run keeps. The old links stay in `targets`. -/
structure Kept (cfg : Config) (connects : List Str) (h : HubLinks) (ds : List Redial) : Prop where
  sound : h.Sound
  endpoints : (h.client.links.map h.targets.get).Perm (hubAddresses cfg.rt connects)
  count : h.targets.keys.length = h.client.links.length + ds.length
  announced : ∀ d ∈ ds, Announced h.client.outbox d

theorem Announced.grow {outbox : List LinkSend} {d : Redial} (h : Announced outbox d)
    (more : List LinkSend) : Announced (outbox ++ more) d := by
  obtain ⟨before, sent, after, rfl, hbefore, hcarries⟩ := h
  exact ⟨before, sent, after ++ more, by simp, hbefore, hcarries⟩

/-! ## A new link -/

/-- A dial appends a link to every table, and its announcement to the outbox. -/
theorem dial_cases {env : HubEnv} {h h' : HubLinks} {text : Str} {target : Str × Int}
    (ho : h.dial env text target = .ok h') : ∃ sent,
      Client.Carries h.client.nextLink h.client.announcement sent ∧
      h' = {
        client := { h.client.openLink env.now with outbox := h.client.outbox ++ sent }
        targets := h.targets.set h.client.nextLink target
        dialled := h.dialled.set h.client.nextLink text } := by
  unfold dial at ho
  split at ho
  · simp only [] at ho
    split at ho
    · cases ho
    · rename_i c hc
      cases ho
      obtain ⟨sent, rfl, hcarries⟩ := Client.announce_carries hc
      exact ⟨sent, hcarries, rfl⟩
  · cases ho

section Dial

variable {env : HubEnv} {h h' : HubLinks} {text : Str} {target : Str × Int}

theorem Sound.not_mem (hs : h.Sound) : h.client.nextLink ∉ h.client.links := fun hmem =>
  Nat.lt_irrefl _ (hs.links _ hmem)

theorem Sound.keys_dial (hs : h.Sound) :
    (h.targets.set h.client.nextLink target).keys = h.targets.keys ++ [h.client.nextLink] := by
  rw [Dict.keys_set, if_neg fun hmem => Nat.lt_irrefl _ (hs.keys _ hmem)]

theorem Sound.dial (hs : h.Sound) (ho : h.dial env text target = .ok h') : h'.Sound := by
  obtain ⟨sent, hcarries, rfl⟩ := dial_cases ho
  have hnew := hs.not_mem
  have hlt : ∀ {l : Nat} {ls : List Nat}, (∀ l ∈ ls, l < h.client.nextLink) →
      l ∈ ls ++ [h.client.nextLink] → l < h.client.nextLink + 1 := by
    intro l ls hls hl
    rcases List.mem_append.1 hl with hl | hl
    · exact Nat.lt_succ_of_lt (hls l hl)
    · rw [List.mem_singleton.1 hl]
      exact Nat.lt_succ_self _
  refine ⟨?_, fun l => hlt hs.links, fun l hl => ?_, fun l hl => ?_, ?_, fun s hmem => ?_⟩
  · refine List.nodup_append.2 ⟨hs.nodup, List.nodup_singleton _, fun a ha b hb => ?_⟩
    rw [List.mem_singleton.1 hb]
    rintro rfl
    exact hnew ha
  · rw [hs.keys_dial] at hl
    exact hlt hs.keys hl
  · rw [hs.keys_dial]
    rcases List.mem_append.1 hl with hl | hl
    · exact List.mem_append_left _ (hs.targets hl)
    · exact List.mem_append_right _ hl
  · show (h.client.lastRx.set h.client.nextLink env.now).keys.Perm (h.client.links ++ [h.client.nextLink])
    rw [Dict.keys_set, if_neg fun hmem => hnew (hs.lastRx.mem_iff.1 hmem)]
    exact hs.lastRx.append_right _
  · rcases List.mem_append.1 hmem with hmem | hmem
    · exact Nat.lt_succ_of_lt (hs.sent s hmem)
    · rw [hcarries.link s hmem]
      exact Nat.lt_succ_self _

/-- The addresses of the links after a dial. -/
theorem Sound.dial_endpoints (hs : h.Sound) (ho : h.dial env text target = .ok h') :
    (h'.client.links.map h'.targets.get).Perm (some target :: h.client.links.map h.targets.get) := by
  obtain ⟨sent, -, rfl⟩ := dial_cases ho
  have hold : h.client.links.map (h.targets.set h.client.nextLink target).get =
      h.client.links.map h.targets.get := List.map_congr_left fun l hl =>
    Dict.get_set_ne _ _ fun heq => hs.not_mem (heq ▸ hl)
  show ((h.client.links ++ [h.client.nextLink]).map _).Perm _
  rw [List.map_append, hold, List.map_singleton, Dict.get_set_self]
  exact List.perm_append_singleton _ _

theorem Sound.dial_count (hs : h.Sound) (ho : h.dial env text target = .ok h') :
    h'.targets.keys.length = h.targets.keys.length + 1 ∧
      h'.client.links.length = h.client.links.length + 1 := by
  obtain ⟨sent, -, rfl⟩ := dial_cases ho
  refine ⟨?_, List.length_append⟩
  show (h.targets.set h.client.nextLink target).keys.length = _
  rw [hs.keys_dial, List.length_append]
  rfl

/-- A dial announces first on its link. -/
theorem Sound.dial_announced (hs : h.Sound) (ho : h.dial env text target = .ok h') {d : Redial}
    (hd : d.link = h.client.nextLink) (hknown : d.known = h.client.announcement) :
    Announced h'.client.outbox d := by
  obtain ⟨sent, hcarries, rfl⟩ := dial_cases ho
  refine ⟨h.client.outbox, sent, [], by simp, fun s hmem => ?_, ?_⟩
  · rw [hd]
    exact Nat.ne_of_lt (hs.sent s hmem)
  · rw [hd, hknown]
    exact hcarries

theorem dial_outbox (ho : h.dial env text target = .ok h') :
    ∃ sent, h'.client.outbox = h.client.outbox ++ sent := by
  obtain ⟨sent, -, rfl⟩ := dial_cases ho
  exact ⟨sent, rfl⟩

end Dial

/-! ## Start -/

/-- What `start` has done after some of its hubs. -/
theorem openHubs_kept {env : HubEnv} {cfg : Config} {connects : List Str} {h h' : HubLinks}
    (hcfg : h.client.node.cfg = cfg) {opened : List Str} (hk : Kept cfg opened h [])
    (ho : connects.foldlM (fun h e => h.openHub env e) h = .ok h') : Kept cfg (opened ++ connects) h' [] := by
  induction connects generalizing h opened with
  | nil =>
    cases ho
    rw [List.append_nil]
    exact hk
  | cons e connects ih =>
    rw [List.foldlM_cons] at ho
    obtain ⟨h1, hopen, ho⟩ := bind_eq_ok_iff.1 ho
    unfold openHub at hopen
    split at hopen
    · cases hopen
    · rename_i target htarget
      have hsound := hk.sound.dial hopen
      obtain ⟨sent, -, hh1⟩ := dial_cases hopen
      have hstep : Kept cfg (opened ++ [e]) h1 [] := by
        obtain ⟨hc1, hc2⟩ := hk.sound.dial_count hopen
        refine ⟨hsound, ?_, ?_, by simp⟩
        · refine (hk.sound.dial_endpoints hopen).trans ?_
          have haddr : hubAddresses cfg.rt (opened ++ [e]) = hubAddresses cfg.rt opened ++ [some target] := by
            rw [← hcfg, hubAddresses, List.map_append, List.map_singleton, htarget]
            rfl
          rw [haddr]
          exact (hk.endpoints.cons _).trans (List.perm_append_singleton _ _).symm
        · rw [hc1, hc2, hk.count]
          rfl
      have hcfg1 : h1.client.node.cfg = cfg := by rw [hh1]; exact hcfg
      simpa using ih hcfg1 hstep ho

theorem start_kept {env : HubEnv} {cfg : Config} {endpoint : Bytes} {connects : List Str} {h : HubLinks}
    (hs : start env cfg endpoint connects = .ok h) : Kept cfg connects h [] := by
  have hinit : Kept cfg [] (init cfg endpoint) [] :=
    ⟨⟨List.nodup_nil, by simp [init], by simp [init], by simp [init], by simp [init], by simp [init]⟩,
      by simp [init, hubAddresses], rfl, by simp⟩
  exact openHubs_kept rfl hinit hs

/-! ## Redials -/

/-- The node without the link that is redialled. -/
def without (h : HubLinks) (link : Nat) : HubLinks :=
  { h with client := { h.client with
      links := h.client.links.erase link
      lastRx := h.client.lastRx.pop link } }

theorem redial_cases {env : HubEnv} {h h' : HubLinks} {link : Nat} (hl : link ∈ h.client.links)
    {target : Str × Int} (ht : h.targets.get link = some target) (ho : h.redial env link = .ok h') :
    (h.without link).dial env (tcpText target) target = .ok h' := by
  unfold redial at ho
  rw [ht] at ho
  simp only [if_pos hl] at ho
  exact ho

theorem Sound.without {h : HubLinks} (hs : h.Sound) (link : Nat) : (h.without link).Sound := by
  have hsub : ∀ l ∈ h.client.links.erase link, l ∈ h.client.links := fun l => List.mem_of_mem_erase
  refine ⟨hs.nodup.erase link, fun l hl => hs.links l (hsub l hl), hs.keys,
    fun l hl => hs.targets (hsub l hl), ?_, hs.sent⟩
  show (h.client.lastRx.pop link).keys.Perm (h.client.links.erase link)
  rw [Dict.keys_pop, hs.nodup.erase_eq_filter]
  refine (hs.lastRx.filter _).trans (List.Perm.of_eq (List.filter_congr fun l _ => ?_))
  by_cases hl : l = link <;> simp [hl]

theorem Kept.redial {cfg : Config} {connects : List Str} {env : HubEnv} {h h' : HubLinks}
    {ds : List Redial} (hk : Kept cfg connects h ds) {link : Nat} (hl : link ∈ h.client.links)
    (ho : h.redial env link = .ok h') : Kept cfg connects h' (ds ++ [h.redialOf link]) := by
  obtain ⟨target, ht⟩ := (Dict.mem_keys _).1 (hk.sound.targets hl)
  have hdial := redial_cases hl ht ho
  have hs := hk.sound.without link
  obtain ⟨hc1, hc2⟩ := hs.dial_count hdial
  refine ⟨hs.dial hdial, ?_, ?_, fun d hd => ?_⟩
  · refine (hs.dial_endpoints hdial).trans (List.Perm.trans ?_ hk.endpoints)
    rw [← ht]
    show ((link :: h.client.links.erase link).map h.targets.get).Perm _
    exact (List.perm_cons_erase hl).symm.map _
  · rw [hc1, hc2, List.length_append]
    show h.targets.keys.length + 1 = (h.client.links.erase link).length + 1 + _
    rw [hk.count, List.length_erase_of_mem hl, List.length_singleton]
    have hpos := List.length_pos_of_mem hl
    omega
  · rcases List.mem_append.1 hd with hd | hd
    · obtain ⟨sent, hout⟩ := dial_outbox hdial
      rw [hout]
      exact (hk.announced d hd).grow sent
    · rw [List.mem_singleton.1 hd]
      exact hs.dial_announced hdial rfl rfl

/-- On the node itself a redial is `Client.redial`. -/
theorem redial_client {env : HubEnv} {h h' : HubLinks} {link : Nat} (hl : link ∈ h.client.links)
    {target : Str × Int} (ht : h.targets.get link = some target) (ho : h.redial env link = .ok h') :
    h.client.redial env.toGossipEnv link = .ok h'.client := by
  have hdial := redial_cases hl ht ho
  unfold dial at hdial
  split at hdial
  · simp only [] at hdial
    split at hdial
    · cases hdial
    · rename_i c hc
      cases hdial
      exact hc
  · cases hdial

/-- On the node itself opening the links is `Client.start`. -/
theorem start_client {env : HubEnv} {cfg : Config} {endpoint : Bytes} {connects : List Str} {h : HubLinks}
    (hs : start env cfg endpoint connects = .ok h) :
    Client.start env.toGossipEnv cfg endpoint connects.length = .ok h.client := by
  suffices hloop : ∀ (es : List Str) (is : List Nat) (g : HubLinks), es.length = is.length →
      es.foldlM (fun h e => h.openHub env e) g = .ok h →
      is.foldlM (fun c _ => (c.openLink env.now).announce env.toGossipEnv c.nextLink) g.client =
        .ok h.client from
    hloop connects (List.range connects.length) (init cfg endpoint) (by simp) hs
  intro es
  induction es with
  | nil =>
    intro is g hlen hg
    cases is with
    | nil =>
      cases hg
      rfl
    | cons i is => cases hlen
  | cons e es ih =>
    intro is g hlen hg
    cases is with
    | nil => cases hlen
    | cons i is =>
      rw [List.foldlM_cons] at hg ⊢
      obtain ⟨g1, hopen, hg⟩ := bind_eq_ok_iff.1 hg
      unfold openHub at hopen
      split at hopen
      · cases hopen
      · unfold dial at hopen
        split at hopen
        · simp only [] at hopen
          split at hopen
          · cases hopen
          · rename_i c hc
            cases hopen
            rw [hc]
            exact ih is _ (Nat.succ.inj hlen) hg
        · cases hopen

/-! ## Everything else -/

/-- Without the reaper, the links stay as they are, and only links are talked to. -/
structure Stays (c c' : Client) : Prop where
  links : c'.links = c.links
  nextLink : c'.nextLink = c.nextLink
  lastRx : c'.lastRx.keys = c.lastRx.keys
  outbox : ∃ sent, c'.outbox = c.outbox ++ sent ∧ ∀ s ∈ sent, s.link ∈ c.links

theorem stays_of_eq {c c' : Client} (hlinks : c'.links = c.links) (hnext : c'.nextLink = c.nextLink)
    (hlast : c'.lastRx.keys = c.lastRx.keys) (hout : c'.outbox = c.outbox) : Stays c c' :=
  ⟨hlinks, hnext, hlast, [], by rw [hout, List.append_nil], by simp⟩

theorem step_stays {env : GossipEnv} {c c' : Client} {event : Client.Event} (hev : event ≠ .node .reap)
    (hl : ∀ link body, event = .hub link body → link ∈ c.lastRx.keys ∧ link ∈ c.links)
    (ho : c.step env event = .ok c') : Stays c c' := by
  have hnode : ∀ x : Except PyError Node,
      (do return { c with node := ← x } : Except PyError Client) = .ok c' → Stays c c' := by
    intro x hx
    obtain ⟨n', -, hx⟩ := bind_eq_ok_iff.1 hx
    cases hx
    exact stays_of_eq rfl rfl rfl rfl
  cases event with
  | unpublish key =>
    cases ho
    exact stays_of_eq rfl rfl rfl rfl
  | node input =>
    cases input with
    | reap => exact absurd rfl hev
    | _ => exact hnode _ ho
  | hub link body =>
    obtain ⟨hrx, hlink⟩ := hl link body rfl
    have hkeys : (c.lastRx.set link env.now).keys = c.lastRx.keys := by rw [Dict.keys_set, if_pos hrx]
    obtain ⟨m, -, ho⟩ := bind_eq_ok_iff.1 ho
    split at ho
    · split at ho
      · obtain ⟨n', -, ho⟩ := bind_eq_ok_iff.1 ho
        cases ho
        exact stays_of_eq rfl rfl hkeys rfl
      · cases ho
        exact stays_of_eq rfl rfl hkeys rfl
    · obtain ⟨sent, rfl, hcarries⟩ := Client.announce_carries ho
      exact ⟨rfl, rfl, hkeys, sent, rfl, fun s hs => hcarries.link s hs ▸ hlink⟩
    · cases ho
      exact stays_of_eq rfl rfl hkeys rfl

theorem Kept.stays {cfg : Config} {connects : List Str} {h : HubLinks} {ds : List Redial}
    (hk : Kept cfg connects h ds) {c : Client} (hc : Stays h.client c) :
    Kept cfg connects { h with client := c } ds := by
  obtain ⟨hlinks, hnext, hlast, sent, hout, hsent⟩ := hc
  obtain ⟨hnodup, hl, hkeys, ht, hrx, hs⟩ := hk.sound
  refine ⟨⟨?_, ?_, ?_, ?_, ?_, ?_⟩, ?_, ?_, fun d hd => ?_⟩
  · exact hlinks ▸ hnodup
  · rw [hlinks, hnext]; exact hl
  · rw [hnext]; exact hkeys
  · rw [hlinks]; exact ht
  · rw [hlinks, hlast]; exact hrx
  · rw [hnext, hout]
    intro s hmem
    rcases List.mem_append.1 hmem with hmem | hmem
    · exact hs s hmem
    · exact hl _ (hsent s hmem)
  · rw [hlinks]; exact hk.endpoints
  · rw [hlinks]; exact hk.count
  · rw [hout]; exact (hk.announced d hd).grow sent

/-! ## The whole run -/

section Runs

variable {cfg : Config} {connects : List Str} {h : HubLinks} {ds : List Redial}

theorem Runs.kept (hr : Runs cfg connects h ds) : Kept cfg connects h ds := by
  induction hr with
  | start env endpoint hs => exact start_kept hs
  | redial env link _ hl ho ih => exact ih.redial hl ho
  | event env event _ hev hl ho ih =>
    refine ih.stays (step_stays hev (fun link body he => ?_) ho)
    exact ⟨ih.sound.lastRx.mem_iff.2 (hl link body he), hl link body he⟩

/-- The address of a hub, as a port number and a host without brackets. -/
structure IsAddress (target : Str × Int) : Prop where
  host : target.1 ≠ []
  plain : stripBrackets target.1 = target.1
  port : ∃ p : Nat, p < 65536 ∧ target.2 = p

/-- Every link is connected to the address that `targets` has for it. -/
def Dialled (cfg : Config) (h : HubLinks) : Prop := ∀ l ∈ h.client.links, ∃ text target,
  h.dialled.get l = some text ∧ h.targets.get l = some target ∧
    splitHubEndpoint cfg.rt text = .ok target ∧ IsAddress target

theorem Dialled.dial {env : HubEnv} {h h' : HubLinks} (hs : h.Sound) (hd : Dialled cfg h) {text : Str}
    {target : Str × Int} (ho : h.dial env text target = .ok h')
    (htext : splitHubEndpoint cfg.rt text = .ok target) (haddr : IsAddress target) : Dialled cfg h' := by
  obtain ⟨sent, -, rfl⟩ := dial_cases ho
  intro l hl
  rcases List.mem_append.1 hl with hl | hl
  · obtain ⟨text', target', h1, h2, h3, h4⟩ := hd l hl
    have hne : h.client.nextLink ≠ l := fun heq => hs.not_mem (heq ▸ hl)
    exact ⟨text', target', (Dict.get_set_ne _ _ hne).trans h1, (Dict.get_set_ne _ _ hne).trans h2, h3, h4⟩
  · rw [List.mem_singleton.1 hl]
    exact ⟨text, target, Dict.get_set_self _ _ _, Dict.get_set_self _ _ _, htext, haddr⟩

/-- The configured hubs have ports. -/
def HasPorts (rt : Runtime) (connects : List Str) : Prop := ∀ e ∈ connects, ∀ target,
  splitHubEndpoint rt e = .ok target → ∃ p : Nat, p < 65536 ∧ target.2 = p

theorem openHubs_dialled {env : HubEnv} {connects : List Str} {h h' : HubLinks}
    (hcfg : h.client.node.cfg = cfg) (hs : h.Sound) (hd : Dialled cfg h) (hports : HasPorts cfg.rt connects)
    (ho : connects.foldlM (fun h e => h.openHub env e) h = .ok h') : Dialled cfg h' := by
  induction connects generalizing h with
  | nil =>
    cases ho
    exact hd
  | cons e connects ih =>
    rw [List.foldlM_cons] at ho
    obtain ⟨h1, hopen, ho⟩ := bind_eq_ok_iff.1 ho
    unfold openHub at hopen
    split at hopen
    · cases hopen
    · rename_i target htarget
      rw [hcfg] at htarget
      obtain ⟨hhost, hplain⟩ := splitHubEndpoint_host htarget
      have hd1 := hd.dial hs hopen htarget ⟨hhost, hplain, hports e (by simp) target htarget⟩
      have hcfg1 : h1.client.node.cfg = cfg := by
        obtain ⟨sent, -, rfl⟩ := dial_cases hopen
        exact hcfg
      exact ih hcfg1 (hs.dial hopen) hd1 (fun e' he' => hports e' (List.mem_cons_of_mem e he')) ho

/-- A link that is redialled goes to the address of the old one. -/
theorem Runs.addresses (hr : Runs cfg connects h ds) (hrt : cfg.rt.ReadsDigits)
    (hports : HasPorts cfg.rt connects) :
    Dialled cfg h ∧ ∀ d ∈ ds, splitHubEndpoint cfg.rt d.text = splitHubEndpoint cfg.rt d.original := by
  induction hr with
  | @start h env endpoint hs =>
    have hinit : Dialled cfg (init cfg endpoint) := by simp [Dialled, init]
    have hsound : (init cfg endpoint).Sound :=
      ⟨List.nodup_nil, by simp [init], by simp [init], by simp [init], by simp [init], by simp [init]⟩
    exact ⟨openHubs_dialled rfl hsound hinit hports hs, by simp⟩
  | @redial h h' ds env link hr hl ho ih =>
    obtain ⟨hd, hds⟩ := ih
    obtain ⟨text, target, htext, ht, hsplit, haddr⟩ := hd link hl
    obtain ⟨p, hp, hport⟩ := haddr.port
    have hread := splitHubEndpoint_tcpText hrt haddr.host haddr.plain hport hp
    refine ⟨?_, fun d hmem => ?_⟩
    · have hd' : Dialled cfg (h.without link) := fun l hmem => hd l (List.mem_of_mem_erase hmem)
      exact hd'.dial (hr.kept.sound.without link) (redial_cases hl ht ho) hread haddr
    · rcases List.mem_append.1 hmem with hmem | hmem
      · exact hds d hmem
      · rw [List.mem_singleton.1 hmem]
        simp only [redialOf, htext, ht, Option.getD_some, hsplit, hread]
  | @event h c ds env event hr hev hl ho ih =>
    have hstays := step_stays hev (fun link body he =>
      ⟨hr.kept.sound.lastRx.mem_iff.2 (hl link body he), hl link body he⟩) ho
    refine ⟨fun l hmem => ih.1 l ?_, ih.2⟩
    rw [← hstays.links]
    exact hmem

/-- The links survive everything but the redials: each of these leaves the old link in `targets`. -/
theorem Runs.survives_iff (hr : Runs cfg connects h ds) : Survives cfg connects h ds ↔ ds = [] := by
  have hk := hr.kept
  constructor
  · intro hsurvives
    have hlen := hsurvives.targets.length_eq
    rw [hk.count] at hlen
    exact List.eq_nil_of_length_eq_zero (by omega)
  · rintro rfl
    refine ⟨hk.sound.nodup, hk.endpoints, by simp, ?_, hk.sound.lastRx, by simp⟩
    have hsub : h.client.links.Subperm h.targets.keys := List.subperm_of_subset hk.sound.nodup hk.sound.targets
    have hcount : h.targets.keys.length = h.client.links.length := hk.count
    exact (hsub.perm_of_length_le (Nat.le_of_eq hcount)).symm

/-- Whatever was redialled, the links are one for each configured hub and go to its address, the times of
their last frames are kept for exactly these links, and each new link began with an announcement. -/
theorem Runs.keeps_links (hr : Runs cfg connects h ds) (hrt : cfg.rt.ReadsDigits)
    (hports : HasPorts cfg.rt connects) :
    (h.client.links.Nodup ∧ (h.client.links.map h.targets.get).Perm (hubAddresses cfg.rt connects)) ∧
      (∀ d ∈ ds, splitHubEndpoint cfg.rt d.text = splitHubEndpoint cfg.rt d.original) ∧
      h.client.lastRx.keys.Perm h.client.links ∧ (∀ d ∈ ds, Announced h.client.outbox d) ∧
      h.targets.keys.length = h.client.links.length + ds.length :=
  ⟨⟨hr.kept.sound.nodup, hr.kept.endpoints⟩, (hr.addresses hrt hports).2, hr.kept.sound.lastRx,
    hr.kept.announced, hr.kept.count⟩

end Runs

/-- The hub of the examples. -/
def sampleHubs : List Str := ["tcp://[::1]:5670".toList]

/-- The node of the examples with one link. -/
def sample : HubLinks :=
  match start (HubEnv.calm 0) Node.sampleA.cfg Client.sampleEndpoint sampleHubs with
  | .ok h => h
  | .error _ => init Node.sampleA.cfg []

theorem sample_start :
    start (HubEnv.calm 0) Node.sampleA.cfg Client.sampleEndpoint sampleHubs = .ok sample := by
  have hok : (start (HubEnv.calm 0) Node.sampleA.cfg Client.sampleEndpoint sampleHubs).isOk = true := by
    decide +kernel
  unfold sample
  cases hs : start (HubEnv.calm 0) Node.sampleA.cfg Client.sampleEndpoint sampleHubs with
  | ok h => rfl
  | error e =>
    rw [hs] at hok
    cases hok

theorem sample_runs : Runs Node.sampleA.cfg sampleHubs sample [] :=
  .start (HubEnv.calm 0) Client.sampleEndpoint sample_start

/-- The state after an event that is no redial. -/
def after (h : HubLinks) (env : GossipEnv) (event : Client.Event) : HubLinks :=
  { h with client := h.client.after env event }

theorem Runs.after {h : HubLinks} {ds : List Redial} (hr : Runs cfg connects h ds) (env : GossipEnv)
    (event : Client.Event) (hev : event ≠ .node .reap)
    (hl : ∀ link body, event = .hub link body → link ∈ h.client.links)
    (hok : Node.raised (h.client.step env event) = none) : Runs cfg connects (h.after env event) ds :=
  hr.event env event hev hl (Client.step_after event hok)

/-- The hub announces a peer. -/
def sampleTold : HubLinks := sample.after (GossipEnv.calm 0) (.hub 0 Client.samplePublish)

/-- The node joins a group. -/
def sampleHeard : HubLinks := sampleTold.after (GossipEnv.calm 0) (.node (.command (.join sampleGroup)))

theorem sampleHeard_runs : Runs Node.sampleA.cfg sampleHubs sampleHeard [] := by
  have htold : Runs Node.sampleA.cfg sampleHubs sampleTold [] := by
    refine sample_runs.after (GossipEnv.calm 0) (.hub 0 Client.samplePublish) nofun ?_ (by decide +kernel)
    intro link body h
    cases h
    decide +kernel
  exact htold.after (GossipEnv.calm 0) (.node (.command (.join sampleGroup))) nofun nofun (by decide +kernel)

/-- The links survive what the node hears and does, and no redial. -/
theorem survives_sampleHeard : sampleHeard.client.node.peers.keys = [hex sampleUuid] ∧
    Survives Node.sampleA.cfg sampleHubs sampleHeard [] ∧
    ∀ h, sampleHeard.redial (HubEnv.calm 0) 0 = .ok h →
      ¬ Survives Node.sampleA.cfg sampleHubs h [sampleHeard.redialOf 0] := by
  refine ⟨by decide +kernel, sampleHeard_runs.survives_iff.2 rfl, fun h ho hs => ?_⟩
  have hrun := sampleHeard_runs.redial (HubEnv.calm 0) 0 (by decide +kernel) ho
  rw [List.nil_append] at hrun
  exact absurd (hrun.survives_iff.1 hs) (List.cons_ne_nil _ _)

/-- After one redial `targets` has the old link and the new one. -/
theorem not_survives : ¬ ∀ (cfg : Config) (connects : List Str) (h : HubLinks) (ds : List Redial),
    Runs cfg connects h ds → Survives cfg connects h ds := by
  intro hall
  have hl : 0 ∈ sample.client.links := by decide +kernel
  have hok : (sample.redial (HubEnv.calm 0) 0).isOk = true := by decide +kernel
  have hkeys : ∀ h, sample.redial (HubEnv.calm 0) 0 = .ok h →
      h.targets.keys.length = 2 ∧ h.client.links.length = 1 := by
    intro h ho
    have hpair : (sample.redial (HubEnv.calm 0) 0).toOption.map (fun h =>
        (h.targets.keys.length, h.client.links.length)) = some (2, 1) := by decide +kernel
    rw [ho] at hpair
    simpa [Except.toOption] using hpair
  cases ho : sample.redial (HubEnv.calm 0) 0 with
  | error e =>
    rw [ho] at hok
    cases hok
  | ok h =>
    have hlen := (hall _ _ _ _ (sample_runs.redial (HubEnv.calm 0) 0 hl ho)).targets.length_eq
    obtain ⟨h2, h1⟩ := hkeys h ho
    rw [h2, h1] at hlen
    cases hlen

end HubLinks

end Zre
