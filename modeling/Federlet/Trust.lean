import Federlet.Coherence
import Federlet.Convergence

/-! The cache and the membership table. Between operations that run one after
another a peer is trusted exactly when its record is live. -/

namespace Federlet

open Coop

def PeerState.Standing (state : PeerState) : Prop := state ≠ .revoked ∧ state ≠ .rejected

/-- The table holds a record of the node that is neither revoked nor rejected. -/
def Standing (n : String) (s : NodeState) : Prop := ∃ rec, s.membershipTable.get n = some rec ∧
    rec.state.Standing

def Cached (n : String) (s : NodeState) : Prop := ∃ manifest, s.peerManifests.get n = some manifest

/-- Exactly the live members are cached, and the store holds no other manifests. -/
structure Trust (node : FederationNode) (s : NodeState) : Prop where
  cached : ∀ n, Cached n s ↔ Standing n s
  stored : node.manifestStore = true → ∀ n manifest, s.manifestStore.get n = some manifest →
    Cached n s

section States

variable {node : FederationNode} {s s' : NodeState} {n k : String} {rec : MemberRecord}
  {manifest : Manifest}

theorem cached_remember : Cached n (s.remember node manifest) ↔ manifest.nodeId = n ∨
    Cached n s := by
  simp only [Cached, NodeState.remember, Keyed.get_upsert]
  by_cases h : manifest.nodeId = n <;> simp [h]

theorem cached_forget : Cached n (s.forget node k) ↔ k ≠ n ∧ Cached n s := by
  simp only [Cached, NodeState.forget, Keyed.get_erase]
  by_cases h : k = n <;> simp [h]

theorem standing_file : Standing n (s.file rec) ↔ (rec.nodeId = n ∧ rec.state.Standing) ∨
    (rec.nodeId ≠ n ∧ Standing n s) := by
  simp only [Standing, NodeState.file, Keyed.get_upsert]
  by_cases h : rec.nodeId = n <;> simp [h]

theorem Trust.of_passes (h : Trust node s) (hs : Passes s s') : Trust node s' := by
  obtain ⟨t, _, rfl⟩ := hs
  exact ⟨h.cached, h.stored⟩

theorem stored_remember (h : node.manifestStore = true →
    ∀ n m, s.manifestStore.get n = some m → Cached n s) :
    node.manifestStore = true → ∀ n m, (s.remember node manifest).manifestStore.get n = some m →
      Cached n (s.remember node manifest) := by
  intro hstore n m hm
  rw [cached_remember]
  simp only [NodeState.remember, hstore, ↓reduceIte, Keyed.get_upsert] at hm
  by_cases he : manifest.nodeId = n
  · exact .inl he
  · rw [if_neg he] at hm
    exact .inr (h hstore n m hm)

theorem stored_forget (h : node.manifestStore = true →
    ∀ n m, s.manifestStore.get n = some m → Cached n s) :
    node.manifestStore = true → ∀ n m, (s.forget node k).manifestStore.get n = some m →
      Cached n (s.forget node k) := by
  intro hstore n m hm
  rw [cached_forget]
  simp only [NodeState.forget, hstore, ↓reduceIte, Keyed.get_erase] at hm
  by_cases he : k = n
  · simp [he] at hm
  · rw [if_neg he] at hm
    exact ⟨he, h hstore n m hm⟩

theorem Trust.record (h : Trust node s) (hsame : rec.nodeId = manifest.nodeId)
    (hlive : rec.state.Standing) :
    Trust node ((s.remember node manifest).file rec) := by
  have hstored := @stored_remember node s manifest h.stored
  refine ⟨fun n => ?_, hstored⟩
  have hcached : Cached n ((s.remember node manifest).file rec) ↔
      Cached n (s.remember node manifest) := Iff.rfl
  have hbefore : Standing n (s.remember node manifest) ↔ Standing n s := Iff.rfl
  rw [hcached, cached_remember, standing_file, hbefore, h.cached n, hsame]
  by_cases he : manifest.nodeId = n <;> simp [he, hlive]

theorem Trust.file (h : Trust node s) (hbefore : Standing rec.nodeId s)
    (hlive : rec.state.Standing) :
    Trust node (s.file rec) := by
  refine ⟨fun n => ?_, h.stored⟩
  have hcached : Cached n (s.file rec) ↔ Cached n s := Iff.rfl
  rw [hcached, standing_file, h.cached n]
  by_cases he : rec.nodeId = n
  · subst he
    simp [hlive, hbefore]
  · simp [he]

theorem Trust.forget (h : Trust node s) (hdead : ¬ Standing k s) :
    Trust node (s.forget node k) := by
  have hstored := @stored_forget node s k h.stored
  refine ⟨fun n => ?_, hstored⟩
  have hlive : Standing n (s.forget node k) ↔ Standing n s := Iff.rfl
  rw [cached_forget, hlive, h.cached n]
  constructor
  · exact And.right
  · intro hn
    refine ⟨?_, hn⟩
    rintro rfl
    exact hdead hn

theorem Trust.evict (h : Trust node s) (hdead : ¬ rec.state.Standing) :
    Trust node ((s.file rec).forget node rec.nodeId) := by
  have hstored := @stored_forget node (s.file rec) rec.nodeId h.stored
  refine ⟨fun n => ?_, hstored⟩
  have hlive : Standing n ((s.file rec).forget node rec.nodeId) ↔ Standing n (s.file rec) := Iff.rfl
  have hcached : Cached n (s.file rec) ↔ Cached n s := Iff.rfl
  rw [cached_forget, hlive, standing_file, hcached, h.cached n]
  simp [hdead]

theorem cached_rememberAll {manifests : List Manifest} :
    Cached n (s.rememberAll node manifests) ↔ Cached n s ∨ n ∈ manifests.map Manifest.nodeId := by
  induction manifests generalizing s with
  | nil => simp [NodeState.rememberAll]
  | cons m manifests ih =>
    have hstep : s.rememberAll node (m :: manifests) = (s.remember node m).rememberAll node
        manifests := rfl
    rw [hstep, ih, cached_remember]
    simp only [List.map_cons, List.mem_cons, eq_comm]
    tauto

theorem stored_rememberAll {manifests : List Manifest}
    (h : node.manifestStore = true → ∀ n m, s.manifestStore.get n = some m → Cached n s) :
    node.manifestStore = true → ∀ n m, (s.rememberAll node manifests).manifestStore.get n = some m →
      Cached n (s.rememberAll node manifests) := by
  induction manifests generalizing s with
  | nil => exact h
  | cons m manifests ih => exact ih (stored_remember h)

end States

section Operations

variable {sem : Sem Call Resp NodeState} {background : NodeState → NodeState → Prop} {P : Platform}
  {node : FederationNode} {s : NodeState}

theorem returns_file (henv : Narrows sem background) (o : Origin) (rec : MemberRecord)
    (s : NodeState) :
    Task.Returns sem background (MembershipTable.upsert o rec) s fun _ _ s' =>
      Passes (s.file rec) s' :=
  Task.Returns.mono (returns_upsert henv o rec s) fun _ _ _ h => h.2

theorem returns_stamp (henv : Narrows sem background) (o : Origin) (f : DateTime → MemberRecord)
    (s : NodeState) :
    Task.Returns sem background (do let now ← utcNow o; MembershipTable.upsert o (f now)) s
      fun _ _ s' => ∃ now, Passes (s.file (f now)) s' := by
  refine Task.Returns.bind (Task.Returns.mono (returns_offline henv (utcNow_routine o)) ?_)
  rintro _ now s₁ ⟨_, hs₁, _⟩
  refine Task.Returns.mono (returns_file henv o _ s₁) ?_
  exact fun _ _ s' hs' => ⟨now, (hs₁.map (timeless_file _)).trans hs'⟩

theorem recordPeer_trust (henv : Narrows sem background) (h : Trust node s) (o : Origin)
    (manifest : Manifest) (url : String) :
    Task.Returns sem background (node.recordPeer o manifest url) s fun _ _ s' => Trust node s' := by
  refine Task.Returns.locked
    (Task.Returns.bind (Task.Returns.mono (returns_tableGet henv o _ s) ?_))
  rintro _ existing s₁ ⟨_, hs₁, _⟩
  have h₁ := h.of_passes hs₁
  dsimp only
  split
  · exact Task.Returns.pure h₁
  · refine Task.Returns.bind (Task.Returns.mono (rememberManifest_returns henv o manifest s₁) ?_)
    intro _ _ s₂ hs₂
    refine Task.Returns.mono (returns_stamp henv o _ s₂) ?_
    rintro _ _ s₃ ⟨now, hs₃⟩
    have hlive : PeerState.active.Standing := by simp [PeerState.Standing]
    exact (h₁.record rfl hlive).of_passes ((hs₂.2.map (timeless_file _)).trans hs₃)

theorem admitPeer_trust (henv : Narrows sem background) (h : Trust node s) (manifest : Manifest)
    (url : Option String) (skew : Int) :
    Task.Returns sem background (node.admitPeer P manifest url skew) s fun _ _ s' =>
      Trust node s' := by
  refine Task.Returns.bind
    (Task.Returns.mono (returns_outward henv
      (admitManifest_routine .admission manifest _ skew).outward) ?_)
  rintro _ decision s₁ ⟨hs₁, _⟩
  have h₁ := h.of_passes hs₁
  split
  · split
    · refine Task.Returns.bind (Task.Returns.mono (recordPeer_trust henv h₁ _ manifest _) ?_)
      exact fun _ _ s₂ h₂ => Task.Returns.pure h₂
    · exact Task.Returns.pure h₁
  · exact Task.Returns.pure h₁

theorem recordSeeds_trust (henv : Narrows sem background) (h : Trust node s)
    (outcomes : List SeedBootstrapOutcome) :
    Task.Returns sem background (node.recordSeeds outcomes) s fun _ _ s' => Trust node s' := by
  induction outcomes generalizing s with
  | nil => exact Task.Returns.pure h
  | cons outcome rest ih =>
    rw [FederationNode.recordSeeds]
    split
    · refine Task.Returns.bind (Task.Returns.mono (recordPeer_trust henv h _ _ _) ?_)
      exact fun _ _ s₁ h₁ => ih h₁
    · exact ih h

theorem bootstrapFromSeeds_trust (henv : Narrows sem background) (h : Trust node s)
    (urls : List String) (skew : Int) :
    Task.Returns sem background (node.bootstrapFromSeeds P urls skew) s fun _ _ s' =>
      Trust node s' := by
  have hnone : ({} : SeedBootstrapReport).Admits P anyCallback node.admissionPolicy := by
    simp [SeedBootstrapReport.Admits]
  refine Task.Returns.bind (Task.Returns.mono
    (returns_outward henv (Federlet.bootstrapFromSeeds_routine node.client _ skew urls hnone)) ?_)
  rintro _ report s₁ ⟨hs₁, _⟩
  refine Task.Returns.bind (Task.Returns.mono (recordSeeds_trust henv (h.of_passes hs₁) _) ?_)
  exact fun _ _ s₂ h₂ => Task.Returns.pure h₂

theorem discover_trust (henv : Narrows sem background) (h : Trust node s) (skew cap : Int)
    (since : Option String) :
    Task.Returns sem background (node.discover P skew cap since) s fun _ _ s' => Trust node s' := by
  refine Task.Returns.mono (discover_returns henv skew cap since s) ?_
  rintro _ report s' ⟨visits, tr, s₁, hround, _, hs'⟩
  have hcached₁ : ∀ n, Cached n s₁ ↔ Cached n s := by
    obtain ⟨t, _, hs₁⟩ := hround.leaves
    intro n
    rw [hs₁]
    exact Iff.rfl
  have hstored₁ : node.manifestStore = true → ∀ n m, s₁.manifestStore.get n = some m →
      Cached n s₁ := by
    obtain ⟨t, _, hs₁⟩ := hround.leaves
    rw [hs₁]
    exact h.stored
  have hlive₁ : ∀ n, Standing n s₁ ↔ Standing n s ∨ n ∈ ((hintsOf visits).filterMap Hint.gained).map
      MemberRecord.nodeId := by
    intro n
    constructor
    · rintro ⟨rec, hrec, hlive⟩
      obtain ⟨hmem, rfl⟩ := Keyed.get_eq_some_iff.mp hrec
      rw [hround.entries] at hmem
      rcases List.mem_append.mp hmem with hold | hnew
      · exact .inl ⟨rec, Keyed.get_of_mem hold, hlive⟩
      · exact .inr (List.mem_map_of_mem hnew)
    · rintro (⟨rec, hrec, hlive⟩ | hnew)
      · exact ⟨rec, hround.kept hrec, hlive⟩
      · obtain ⟨rec, hrec, rfl⟩ := List.mem_map.mp hnew
        have hmem : rec ∈ s₁.membershipTable.entries := by simp [hround.entries, hrec]
        have hactive : rec.state = .active := gained_active hround.justified hrec
        exact ⟨rec, Keyed.get_of_mem hmem, by simp [hactive, PeerState.Standing]⟩
  have htrust : Trust node
      (s₁.rememberAll node (report.accepted.filterMap DiscoveryOutcome.manifest)) := by
    refine ⟨fun n => ?_, stored_rememberAll hstored₁⟩
    have htable : Standing n
        (s₁.rememberAll node (report.accepted.filterMap DiscoveryOutcome.manifest)) ↔
          Standing n s₁ := by
      rw [Standing, rememberAll_table]
      exact Iff.rfl
    rw [cached_rememberAll, htable, hlive₁, hcached₁, h.cached, hround.manifests]
  exact htrust.of_passes hs'

theorem Passes.table {s s' : NodeState} (h : Passes s s') :
    s'.membershipTable = s.membershipTable := h.leaves.table

theorem Standing.of_passes {n : String} {s s' : NodeState} (hs : Passes s s') :
    Standing n s' ↔ Standing n s := by
  rw [Standing, Standing, hs.table]

/-- The state is trusted, and no record but the node's own has changed. -/
def TrustBut (node : FederationNode) (n : String) (s s' : NodeState) : Prop :=
  Trust node s' ∧ ∀ k, k ≠ n → s'.membershipTable.get k = s.membershipTable.get k

theorem applyRefreshDecision_trust (henv : Narrows sem background) (h : Trust node s) {n : String}
    {decision : ManifestRefreshDecision} (hfits : FitsNode P n decision)
    (hlive : decision.action ≠ .reject → Standing n s) :
    Task.Returns sem background (node.applyRefreshDecision n decision) s fun _ _ s' =>
      TrustBut node n s s' := by
  refine Task.Returns.locked
    (Task.Returns.bind (Task.Returns.mono (returns_tableGet henv .refresh n s) ?_))
  rintro _ rec? s₁ ⟨_, hs₁, hrec?⟩
  have h₁ := h.of_passes hs₁
  have hsame₁ : ∀ k, k ≠ n → s₁.membershipTable.get k = s.membershipTable.get k :=
    by simp [hs₁.table]
  have hnode : ∀ rec, rec? = some rec → rec.nodeId = n :=
    fun rec hrec => Keyed.key_of_get (hrec?.symm.trans hrec)
  have hothers : ∀ (rec : MemberRecord) (s₂ : NodeState), s₂.membershipTable =
      (s₁.file rec).membershipTable →
      rec.nodeId = n → ∀ k, k ≠ n → s₂.membershipTable.get k = s.membershipTable.get k := by
    intro rec s₂ htable hn k hk
    have hne : rec.nodeId ≠ k := fun he => hk (he.symm.trans hn)
    rw [htable, ← hsame₁ k hk]
    exact Keyed.get_upsert_ne _ hne
  cases haction : decision.action
  case accept | unchanged =>
    dsimp only
    obtain ⟨rec, hrec, _⟩ : Standing n s := hlive (by simp [haction])
    obtain rfl : rec? = some rec := hrec?.trans hrec
    have hn : rec.nodeId = n := hnode rec rfl
    split
    · rename_i manifest hm
      obtain ⟨hid, _⟩ := hfits (by simp [haction]) manifest hm
      refine Task.Returns.bind
        (Task.Returns.mono (rememberManifest_returns henv .refresh manifest s₁) ?_)
      intro _ _ s₂ hs₂
      refine Task.Returns.mono (returns_stamp henv .refresh _ s₂) ?_
      rintro _ _ s' ⟨now, hs'⟩
      have hpasses := (hs₂.2.map (timeless_file _)).trans hs'
      have htrust : Trust node ((s₁.remember node manifest).file
          ({ rec with manifestRevision := manifest.revision }.admitRecord none now)) :=
        h₁.record (hn.trans hid.symm) (by simp [PeerState.Standing])
      exact ⟨htrust.of_passes hpasses, hothers _ s' hpasses.table hn⟩
    · exact Task.Returns.pure ⟨h₁, hsame₁⟩
  case quarantine =>
    obtain ⟨rec, hrec, hrecord⟩ : Standing n s := hlive (by simp [haction])
    obtain rfl : rec? = some rec := hrec?.trans hrec
    have hn : rec.nodeId = n := hnode rec rfl
    refine Task.Returns.mono (returns_stamp henv .refresh _ s₁) ?_
    rintro _ _ s' ⟨now, hs'⟩
    have hbefore : Standing rec.nodeId s₁ := (Standing.of_passes hs₁).mpr ⟨rec, hn ▸ hrec, hrecord⟩
    have htrust : Trust node (s₁.file (rec.setState .staleManifest now)) :=
      h₁.file hbefore (by simp [PeerState.Standing])
    exact ⟨htrust.of_passes hs', hothers _ s' hs'.table hn⟩
  case reject =>
    cases rec? with
    | some rec =>
      have hn : rec.nodeId = n := hnode rec rfl
      refine Task.Returns.bind
        (Task.Returns.mono (returns_offline henv (utcNow_routine .refresh)) ?_)
      rintro _ now s₂ ⟨_, hs₂, _⟩
      refine Task.Returns.bind (Task.Returns.mono (returns_file henv .refresh _ s₂) ?_)
      intro _ _ s₃ hs₃
      refine Task.Returns.mono (forgetManifest_returns henv .refresh n s₃) ?_
      intro _ _ s' hs'
      have hpasses := (((hs₂.map (timeless_file _)).trans hs₃).map (timeless_forget node n)).trans
        hs'.2
      have hdead : ¬ (rec.setState .rejected now).state.Standing := by simp [PeerState.Standing]
      have htrust := h₁.evict hdead
      rw [MemberRecord.setState_nodeId, hn] at htrust
      exact ⟨htrust.of_passes hpasses, hothers _ s' hpasses.table hn⟩
    | none =>
      have hdead : ¬ Standing n s₁ := by
        rintro ⟨rec, hrec, _⟩
        rw [hs₁.table, ← hrec?] at hrec
        cases hrec
      refine Task.Returns.mono (forgetManifest_returns henv .refresh n s₁) ?_
      intro _ _ s' hs'
      exact ⟨(h₁.forget hdead).of_passes hs'.2, fun k hk => (congrArg (·.get k) hs'.2.table).trans
        (hsame₁ k hk)⟩

theorem refreshPeer_trust (henv : Narrows sem background) (h : Trust node s) (nodeId : String)
    (policy : Option KeyContinuityPolicy) (skew : Int) :
    Task.Returns sem background (node.refreshPeer P nodeId policy skew) s fun _ _ s' =>
      Trust node s' := by
  refine Task.Returns.bind (Task.Returns.mono (returns_tableGet henv .refresh nodeId s) ?_)
  rintro _ rec? s₁ ⟨_, hs₁, _⟩
  refine Task.Returns.bind (Task.Returns.mono (returns_cacheGet henv .refresh nodeId s₁) ?_)
  rintro _ manifest? s₂ ⟨hs₂, hmanifest⟩
  have h₂ := h.of_passes (hs₁.trans hs₂)
  split
  · rename_i _ _ rec manifest _
    have hcached : Cached nodeId s₂ := ⟨manifest, by rw [hs₂.cache, ← hmanifest]⟩
    have hnode : manifest.nodeId = nodeId := Keyed.key_of_get hmanifest.symm
    refine Task.Returns.bind (Task.Returns.mono
      (returns_outward henv (refreshPeerManifest_routine node.client manifest _ policy skew)) ?_)
    rintro _ decision s₃ ⟨hs₃, hkeeps⟩
    have hfits := hkeeps.fitsNode
    rw [hnode] at hfits
    have h₃ := h₂.of_passes hs₃
    have hstands : Standing nodeId s₃ :=
      (Standing.of_passes hs₃).mpr ((h₂.cached nodeId).mp hcached)
    refine Task.Returns.bind
      (Task.Returns.mono (applyRefreshDecision_trust henv h₃ hfits fun _ => hstands) ?_)
    exact fun _ _ s' h' => Task.Returns.pure h'.1
  · exact Task.Returns.pure h₂

theorem returns_eligiblePeers (henv : Narrows sem background) (o : Origin) (s : NodeState) :
    Task.Returns sem background (eligiblePeers o) s fun _ records s' =>
      Passes s s' ∧ ∃ now : DateTime, s.clock.instant ≤ now.instant ∧
        now.instant ≤ s'.clock.instant ∧
        records = s.membershipTable.entries.filter (fun rec => rec.isEligible now) := by
  refine Task.Returns.bind (Task.Returns.call (e := (⟨o, .utcNow⟩ : Call)) ?_)
  rintro s₁ hb now s₂ hsem _ ⟨⟩
  have hs₁ := henv.passes _ _ hb
  obtain ⟨rfl, rfl⟩ := henv.does _ _ _ _ hsem
  refine Task.Returns.bind (Task.Returns.call (e := (⟨o, .tableValues⟩ : Call)) ?_)
  rintro s₃ hb₃ values s₄ hsem₃ records rfl
  have hs₃ := henv.passes _ _ hb₃
  rcases henv.does _ _ _ _ hsem₃ with ⟨e, he, _⟩ | ⟨hrecords, rfl⟩
  · cases he
  have hboth := hs₁.trans hs₃
  obtain rfl : records = s₄.membershipTable.entries := Except.ok.inj hrecords
  rw [hboth.table]
  refine Task.Returns.pure ⟨hboth, s₂.clock, ?_, ?_, rfl⟩
  · obtain ⟨t, ht, rfl⟩ := hs₁
    exact ht
  · obtain ⟨t, ht, rfl⟩ := hs₃
    exact ht

theorem MemberRecord.isEligible_active {rec : MemberRecord} {now : DateTime}
    (h : rec.isEligible now = true) :
    rec.state = .active := by
  by_contra hne
  simp [MemberRecord.isEligible, hne] at h

/-- A record and its manifest, as far as one is cached: what `refresh_all` asks for. -/
def NodeState.target (s : NodeState) (rec : MemberRecord) : Option (Manifest × String) :=
  (s.peerManifests.get rec.nodeId).map fun manifest => (manifest, rec.manifestUrl)

theorem refreshTargets_returns (henv : Narrows sem background) (records : List MemberRecord)
    (hcached : ∀ rec ∈ records, Cached rec.nodeId s) :
    Task.Returns sem background (node.refreshTargets records) s fun _ r s' =>
      Passes s s' ∧ r = (records.filterMap s.target, []) := by
  induction records generalizing s with
  | nil => exact Task.Returns.pure ⟨Passes.refl s, rfl⟩
  | cons rec records ih =>
    obtain ⟨⟨manifest, hm⟩, hrest⟩ := List.forall_mem_cons.mp hcached
    refine Task.Returns.bind (Task.Returns.mono (returns_cacheGet henv .refresh rec.nodeId s) ?_)
    rintro _ manifest? s₁ ⟨hs₁, hmanifest⟩
    obtain rfl : manifest? = some manifest := hmanifest.trans hm
    have htarget : s.target rec = some (manifest, rec.manifestUrl) := by simp [NodeState.target, hm]
    have hsame : s₁.target = s.target := by
      funext rec
      rw [NodeState.target, NodeState.target, hs₁.cache]
    have hcached₁ : ∀ rec ∈ records, Cached rec.nodeId s₁ := by
      intro rec hrec
      rw [Cached, hs₁.cache]
      exact hrest rec hrec
    refine Task.Returns.bind (Task.Returns.mono (ih hcached₁) ?_)
    rintro _ _ s₂ ⟨hs₂, rfl⟩
    rw [List.filterMap_cons_some htarget, ← hsame]
    exact Task.Returns.pure ⟨hs₁.trans hs₂, rfl⟩

theorem get_of_target {rec : MemberRecord} {t : Manifest × String} (h : s.target rec = some t) :
    s.peerManifests.get rec.nodeId = some t.1 ∧ t.1.nodeId = rec.nodeId ∧
      t.2 = rec.manifestUrl := by
  obtain ⟨manifest, hm, rfl⟩ := Option.map_eq_some_iff.mp h
  exact ⟨hm, Keyed.key_of_get hm, rfl⟩

theorem applyRefreshDecisions_trust (henv : Narrows sem background) (h : Trust node s)
    (decisions : List (String × ManifestRefreshDecision)) (hnodup : (decisions.map Prod.fst).Nodup)
    (hfits : ∀ d ∈ decisions, FitsNode P d.1 d.2) (hstands : ∀ d ∈ decisions, Standing d.1 s) :
    Task.Returns sem background (node.applyRefreshDecisions decisions) s fun _ _ s' =>
      Trust node s' := by
  induction decisions generalizing s with
  | nil => exact Task.Returns.pure h
  | cons d rest ih =>
    obtain ⟨hfit, hfits⟩ := List.forall_mem_cons.mp hfits
    obtain ⟨hstand, hstands⟩ := List.forall_mem_cons.mp hstands
    obtain ⟨hnew, hnodup⟩ := List.nodup_cons.mp hnodup
    refine Task.Returns.bind
      (Task.Returns.mono (applyRefreshDecision_trust henv h hfit fun _ => hstand) ?_)
    rintro _ _ s₁ ⟨h₁, hothers⟩
    refine ih h₁ hnodup hfits ?_
    intro d' hd'
    have hne : d'.1 ≠ d.1 := fun he => hnew (he ▸ List.mem_map_of_mem hd')
    rw [Standing, hothers _ hne]
    exact hstands d' hd'

theorem refreshAll_trust (henv : Narrows sem background) (h : Trust node s)
    (policy : Option KeyContinuityPolicy) (skew : Int) :
    Task.Returns sem background (node.refreshAll P policy skew) s fun _ _ s' => Trust node s' := by
  refine Task.Returns.bind (Task.Returns.mono (returns_eligiblePeers henv .refresh s) ?_)
  rintro _ records s₁ ⟨hs₁, now, _, _, rfl⟩
  have h₁ := h.of_passes hs₁
  have hcached : ∀ rec ∈ s.membershipTable.entries.filter (fun rec => rec.isEligible now),
      Cached rec.nodeId s₁ := by
    intro rec hrec
    obtain ⟨hmem, heligible⟩ := List.mem_filter.mp hrec
    have hactive := MemberRecord.isEligible_active heligible
    refine (h₁.cached _).mpr ⟨rec, ?_, by simp [PeerState.Standing, hactive]⟩
    rw [hs₁.table]
    exact Keyed.get_of_mem hmem
  refine Task.Returns.bind (Task.Returns.mono (refreshTargets_returns henv _ hcached) ?_)
  rintro _ _ s₂ ⟨hs₂, rfl⟩
  have h₂ := h₁.of_passes hs₂
  dsimp only
  generalize htargets : (s.membershipTable.entries.filter (fun rec => rec.isEligible now)).filterMap
    s₁.target = targets
  have htrusted : ∀ t ∈ targets, Standing t.1.nodeId s₂ := by
    intro t ht
    rw [← htargets] at ht
    obtain ⟨rec, _, hrec⟩ := List.mem_filterMap.mp ht
    obtain ⟨hget, hnode, _⟩ := get_of_target hrec
    rw [hnode]
    exact (h₂.cached _).mp ⟨t.1, by rw [hs₂.cache, hget]⟩
  refine Task.Returns.bind (Task.Returns.mono
    (returns_outward henv (refreshAllManifests_routine node.client policy skew targets)) ?_)
  rintro _ refreshed s₃ ⟨hs₃, hrefreshed⟩
  have hdecided : ∀ d ∈ (Keyed.ofList ([] ++ refreshed) : Dict ManifestRefreshDecision).entries,
      FitsNode P d.1 d.2 ∧ Standing d.1 s₃ := by
    intro d hd
    obtain ⟨current, hcurrent, hnode, hkeeps⟩ := hrefreshed d (Keyed.mem_of_mem_ofList hd)
    obtain ⟨t, ht, rfl⟩ := List.mem_map.mp hcurrent
    rw [hnode]
    exact ⟨hkeeps.fitsNode, (Standing.of_passes hs₃).mpr (htrusted t ht)⟩
  refine Task.Returns.bind (Task.Returns.mono (applyRefreshDecisions_trust henv (h₂.of_passes hs₃) _
    (Keyed.nodup _) (fun d hd => (hdecided d hd).1) fun d hd => (hdecided d hd).2) ?_)
  exact fun _ _ s' h' => Task.Returns.pure h'

/-- The checks of a notice about a recorded node, in the order of the source. -/
def RevocationNotice.effective (P : Platform) (notice : RevocationNotice) (federationId : String)
    (trustedIssuerKeys : Dict JWK) (authorize : RevocationNotice → Bool) : Except Exc Bool :=
  match notice.signature with
  | none => .ok false
  | some signature =>
    if notice.federationId ≠ federationId then .ok false
    else if !authorize notice then .ok false
    else
      match trustedIssuerKeys.lookup signature.keyId with
      | none => .ok false
      | some jwk => verifyRevocationNotice P notice jwk

/-- What a notice with the given verdict makes of a state. -/
def NodeState.heed (node : FederationNode) (n : String) (verdict : Bool) (now : DateTime)
    (s : NodeState) : NodeState :=
  match s.membershipTable.get n with
  | none => s
  | some rec =>
    if verdict then (s.file (rec.setState .revoked now)).forget node n
    else if rec.state = .revoked then s.forget node n
    else s

theorem applyMembershipRevocationNotice_eq (notice : RevocationNotice) (federationId : String)
    (keys : Dict JWK) (authorize : RevocationNotice → Bool) :
    applyMembershipRevocationNotice P notice federationId keys authorize = (do
      match ← MembershipTable.get .revocation notice.revokedNodeId with
      | none => return none
      | some rec =>
        if !(← raising (notice.effective P federationId keys authorize)) then return some rec.state
        let now ← utcNow .revocation
        MembershipTable.upsert .revocation (rec.setState .revoked now)
        return some .revoked) := by
  refine bind_congr fun rec? => ?_
  cases rec? with
  | none => rfl
  | some rec =>
    simp only [RevocationNotice.effective]
    cases notice.signature with
    | none => rfl
    | some signature =>
      by_cases hfederation : notice.federationId = federationId
      · cases hauthorized : authorize notice with
        | false => simp [hfederation, raising, Task.Raising.lift]; rfl
        | true =>
          cases hkey : keys.lookup signature.keyId with
          | none => simp [hfederation, hkey, raising, Task.Raising.lift]; rfl
          | some jwk => simp [hfederation, hkey]
      · simp [hfederation, raising, Task.Raising.lift]; rfl

theorem revokeRecord_returns (henv : Narrows sem background) (notice : RevocationNotice)
    (federationId : String) (keys : Dict JWK) (authorize : RevocationNotice → Bool)
    (s : NodeState) :
    Task.Returns sem background
      (applyMembershipRevocationNotice P notice federationId keys authorize) s fun _ state s' =>
        (s.membershipTable.get notice.revokedNodeId = none ∧ state = none ∧ Passes s s') ∨
        ∃ rec verdict, s.membershipTable.get notice.revokedNodeId = some rec ∧
          notice.effective P federationId keys authorize = .ok verdict ∧
          if verdict then state = some .revoked ∧
          ∃ now, Passes (s.file (rec.setState .revoked now)) s'
          else state = some rec.state ∧ Passes s s' := by
  rw [applyMembershipRevocationNotice_eq]
  refine Task.Returns.bind
    (Task.Returns.mono (returns_tableGet henv .revocation notice.revokedNodeId s) ?_)
  rintro _ rec? s₁ ⟨_, hs₁, hrec?⟩
  cases rec? with
  | none => exact Task.Returns.pure (.inl ⟨hrec?.symm, rfl, hs₁⟩)
  | some rec =>
    refine Task.Returns.bind (Task.Returns.lift ?_)
    intro verdict hverdict
    cases verdict with
    | false => exact Task.Returns.pure (.inr ⟨rec, false, hrec?.symm, hverdict, rfl, hs₁⟩)
    | true =>
      refine Task.Returns.bind
        (Task.Returns.mono (returns_offline henv (utcNow_routine .revocation)) ?_)
      rintro _ now s₂ ⟨_, hs₂, _⟩
      refine Task.Returns.bind (Task.Returns.mono (returns_file henv .revocation _ s₂) ?_)
      intro _ _ s₃ hs₃
      have hfiled := ((hs₁.trans hs₂).map (timeless_file (rec.setState .revoked now))).trans hs₃
      exact Task.Returns.pure (.inr ⟨rec, true, hrec?.symm, hverdict, rfl, now, hfiled⟩)

theorem applyRevocationNotice_returns (henv : Narrows sem background) (notice : RevocationNotice)
    (keys : Dict JWK) (authorize : RevocationNotice → Bool) (s : NodeState) :
    Task.Returns sem background (node.applyRevocationNotice P notice keys authorize) s fun _ _ s' =>
      ∃ verdict now, (Recorded notice.revokedNodeId s →
        notice.effective P node.federationId keys authorize = .ok verdict) ∧
        Passes (s.heed node notice.revokedNodeId verdict now) s' := by
  refine Task.Returns.locked (Task.Returns.bind (Task.Returns.mono
    (revokeRecord_returns henv notice node.federationId keys authorize s) ?_))
  rintro _ state s₁ (⟨hnone, rfl, hs₁⟩ | ⟨rec, verdict, hrec, hverdict, hstate⟩)
  · refine Task.Returns.pure ⟨false, s.clock, ?_, ?_⟩
    · rintro ⟨rec, hrec⟩
      rw [hnone] at hrec
      cases hrec
    · simpa only [NodeState.heed, hnone] using hs₁
  · have hforget : ∀ s₀ : NodeState, Passes s₀ s₁ → Task.Returns sem background (do
        node.forgetManifest .revocation notice.revokedNodeId
        return state) s₁ fun _ _ s' => Passes (s₀.forget node notice.revokedNodeId) s' := by
      intro s₀ hs₀
      refine Task.Returns.bind (Task.Returns.mono (forgetManifest_returns henv .revocation _ s₁) ?_)
      exact fun _ _ s' hs' => Task.Returns.pure ((hs₀.map (timeless_forget node _)).trans hs'.2)
    cases verdict with
    | true =>
      obtain ⟨rfl, now, hs₁⟩ := hstate
      rw [if_pos rfl]
      refine Task.Returns.mono (hforget _ hs₁) fun _ _ s' hs' => ⟨true, now, fun _ => hverdict, ?_⟩
      simpa [NodeState.heed, hrec] using hs'
    | false =>
      obtain ⟨rfl, hs₁⟩ := hstate
      by_cases hrevoked : rec.state = .revoked
      · rw [hrevoked] at hforget ⊢
        rw [if_pos rfl]
        refine Task.Returns.mono (hforget _ hs₁) fun _ _ s' hs' =>
          ⟨false, s.clock, fun _ => hverdict, ?_⟩
        simpa [NodeState.heed, hrec, hrevoked] using hs'
      · rw [if_neg (by simpa using hrevoked)]
        refine Task.Returns.pure ⟨false, s.clock, fun _ => hverdict, ?_⟩
        simpa [NodeState.heed, hrec, hrevoked] using hs₁

theorem Trust.heed (h : Trust node s) (n : String) (verdict : Bool) (now : DateTime) :
    Trust node (s.heed node n verdict now) := by
  cases hrec : s.membershipTable.get n with
  | none => simpa only [NodeState.heed, hrec] using h
  | some rec =>
    have hnode : rec.nodeId = n := Keyed.key_of_get hrec
    by_cases hverdict : verdict = true
    · have hdead : ¬ (rec.setState .revoked now).state.Standing := by simp [PeerState.Standing]
      have hevicted := h.evict hdead
      rw [MemberRecord.setState_nodeId, hnode] at hevicted
      simpa only [NodeState.heed, hrec, hverdict, ↓reduceIte] using hevicted
    by_cases hrevoked : rec.state = .revoked
    · have hdead : ¬ Standing n s := by
        rintro ⟨rec', hrec', hstands⟩
        rw [hrec] at hrec'
        cases hrec'
        exact hstands.1 hrevoked
      simpa [NodeState.heed, hrec, hverdict, hrevoked] using h.forget hdead
    · simpa [NodeState.heed, hrec, hverdict, hrevoked] using h

theorem hydrate_trust (henv : Narrows sem background) (h : Trust node s) :
    Task.Returns sem background node.hydrate s fun _ _ s' => Trust node s' := by
  refine Task.Returns.locked ?_
  split
  · rename_i hstore
    refine Task.Returns.bind (Task.Returns.call (e := (⟨.hydrate, .cacheIsEmpty⟩ : Call)) ?_)
    rintro s₁ hb empty s₂ hsem _ ⟨⟩
    have hs₁ := henv.passes _ _ hb
    obtain ⟨rfl, rfl⟩ := henv.does _ _ _ _ hsem
    have h₁ := h.of_passes hs₁
    split
    · rename_i hempty
      refine Task.Returns.bind (Task.Returns.call (e := (⟨.hydrate, .storeValues⟩ : Call)) ?_)
      rintro s₃ hb₃ values s₄ hsem₃ manifests rfl
      have h₃ := h₁.of_passes (henv.passes _ _ hb₃)
      have hsame := (henv.passes _ _ hb₃).cache
      rcases henv.does _ _ _ _ hsem₃ with ⟨e, he, _⟩ | ⟨hvalues, rfl⟩
      · cases he
      obtain rfl : manifests = s₄.manifestStore.entries := Except.ok.inj hvalues
      have hnothing : ∀ n, ¬ Cached n s₄ := by
        rintro n ⟨manifest, hm⟩
        have hmem := Keyed.mem_of_get hm
        rw [hsame, List.isEmpty_iff.mp hempty] at hmem
        cases hmem
      have hnone : s₄.manifestStore.entries = [] := by
        apply List.eq_nil_iff_forall_not_mem.mpr
        intro manifest hm
        exact hnothing _ (h₃.stored hstore _ manifest (Keyed.get_of_mem hm))
      refine Task.Returns.call (e := (⟨.hydrate, .cacheReplace s₄.manifestStore.entries⟩ : Call)) ?_
      rintro s₅ hb₅ _ s₆ hsem₅ _ _
      have h₅ := h₃.of_passes (henv.passes _ _ hb₅)
      have hnothing₅ : ∀ n, ¬ Cached n s₅ := by
        intro n
        rw [Cached, (henv.passes _ _ hb₅).cache]
        exact hnothing n
      obtain rfl : s₆ = _ := henv.does _ _ _ _ hsem₅
      rw [hnone]
      have hafter : ∀ n, ¬ Cached n
          { s₅ with peerManifests := Keyed.ofList [], cacheRef := s₅.cacheRef + 1 } := by
        rintro n ⟨manifest, hm⟩
        cases hm
      refine ⟨fun n => iff_of_false (hafter n) ?_, fun hstore n manifest hm => ?_⟩
      · exact fun hstands => hnothing₅ n ((h₅.cached n).mpr hstands)
      · exact absurd (h₅.stored hstore n manifest hm) (hnothing₅ n)
    · exact Task.Returns.pure h₁
  · exact Task.Returns.pure h

theorem LifecycleOp.trust (henv : Narrows sem background) (h : Trust node s) (op : LifecycleOp) :
    Task.Returns sem background (op.run P node) s fun _ _ s' => Trust node s' := by
  have hdone : ∀ {α : Type} {t : Py α}, Task.Returns sem background t s
      (fun _ _ s' => Trust node s') →
      Task.Returns sem background (do let _ ← t; return) s fun _ _ s' => Trust node s' := by
    intro α t ht
    exact Task.Returns.bind (Task.Returns.mono ht fun _ _ _ h' => Task.Returns.pure h')
  cases op with
  | hydrate => exact hydrate_trust henv h
  | operation op =>
    cases op with
    | admitPeer manifest url skew => exact hdone (admitPeer_trust henv h manifest url skew)
    | bootstrapFromSeeds urls skew => exact hdone (bootstrapFromSeeds_trust henv h urls skew)
    | discover skew cap since => exact hdone (discover_trust henv h skew cap since)
    | refreshPeer nodeId policy skew => exact hdone (refreshPeer_trust henv h nodeId policy skew)
    | refreshAll policy skew => exact hdone (refreshAll_trust henv h policy skew)
    | applyRevocationNotice notice keys authorize =>
      refine hdone (Task.Returns.mono
        (applyRevocationNotice_returns henv notice keys authorize s) ?_)
      rintro _ _ s' ⟨verdict, now, _, hs'⟩
      exact (h.heed _ verdict now).of_passes hs'

end Operations

section Sequences

variable (P : Platform) (node : FederationNode)

/-- Operations one after another, each with what it came to, and all their calls. -/
inductive Sequence : NodeState → List (LifecycleOp × Except Exc Unit) → Trace →
    NodeState → Prop where
  | nil (s : NodeState) : Sequence s [] [] s
  | cons {s s₁ s₂ s' : NodeState} {op : LifecycleOp} {r : Except Exc Unit} {tr tr' : Trace}
      {ops : List (LifecycleOp × Except Exc Unit)} (hidle : Passes s s₁)
      (hrun : Task.Runs Does Passes (op.run P node).run s₁ tr r s₂)
      (hrest : Sequence s₂ ops tr' s') : Sequence s ((op, r) :: ops) (tr ++ tr') s'

/-- Every operation ran to its end. -/
def Completed (ops : List (LifecycleOp × Except Exc Unit)) : Prop := ∀ x ∈ ops, x.2 = .ok ()

/-- The node has no record, no cached and no stored manifest. -/
structure Empty (node : FederationNode) (s : NodeState) : Prop where
  table : s.membershipTable.entries = []
  cache : s.peerManifests.entries = []
  store : node.manifestStore = true → s.manifestStore.entries = []

variable {P node}

theorem narrows_does : Narrows Does Passes := ⟨fun _ _ _ _ h => h, fun _ _ h => h⟩

theorem Sequence.trust {s s' : NodeState} {ops : List (LifecycleOp × Except Exc Unit)} {tr : Trace}
    (h : Sequence P node s ops tr s') (hcompleted : Completed ops) (hs : Trust node s) :
    Trust node s' := by
  induction h with
  | nil s => exact hs
  | @cons s s₁ s₂ s' op r tr tr' ops hidle hrun hrest ih =>
    obtain ⟨hr, hrest⟩ := List.forall_mem_cons.mp hcompleted
    have h₁ := hs.of_passes hidle
    exact ih hrest (op.trust narrows_does h₁ _ _ _ hrun () hr)

theorem Empty.trust {s : NodeState} (h : Empty node s) : Trust node s := by
  refine ⟨fun n => iff_of_false ?_ ?_, ?_⟩
  · rintro ⟨manifest, hm⟩
    have hmem := Keyed.mem_of_get hm
    simp [h.cache] at hmem
  · rintro ⟨rec, hrec, _⟩
    have hmem := Keyed.mem_of_get hrec
    simp [h.table] at hmem
  · intro hinjected n manifest hm
    have hmem := Keyed.mem_of_get hm
    simp [h.store hinjected] at hmem

/-- After every operation exactly the members that are neither revoked nor
rejected are cached, each under its own name. -/
theorem cache_is_live_membership (P : Platform) (node : FederationNode) {s s' : NodeState}
    {ops : List (LifecycleOp × Except Exc Unit)} {tr : Trace} (hempty : Empty node s)
    (hrun : Sequence P node s ops tr s') (hcompleted : Completed ops) :
    ∀ n, (Cached n s' ↔ ∃ rec, s'.membershipTable.get n = some rec ∧ rec.state ≠ .revoked ∧
      rec.state ≠ .rejected) ∧
      ∀ manifest, s'.peerManifests.get n = some manifest → manifest.nodeId = n := by
  have htrust := hrun.trust hcompleted hempty.trust
  exact fun n => ⟨htrust.cached n, fun manifest hm => Keyed.key_of_get hm⟩

def playOps (P : Platform) (node : FederationNode) (env : Env) :
    List LifecycleOp → NodeState → List (LifecycleOp × Except Exc Unit) × Trace × NodeState
  | [], s => ([], [], s)
  | op :: ops, s =>
    let t := (op.run P node).run
    let (r, s₁) := t.eval env.handle s
    let (rest, tr, s') := playOps P node env ops s₁
    ((op, r) :: rest, t.trace env.handle s ++ tr, s')

theorem playOps_sequence {env : Env} (hnow : ∀ o t, env.now o t = t) (ops : List LifecycleOp)
    (s : NodeState) :
    Sequence P node s (playOps P node env ops s).1 (playOps P node env ops s).2.1
      (playOps P node env ops s).2.2 := by
  induction ops generalizing s with
  | nil => exact .nil s
  | cons op ops ih =>
    have hrun : Task.Runs Does Passes (op.run P node).run s _ _ _ :=
      Task.runs_trace env.handle Passes.refl (fun c s => (Env.reliable hnow c s).1) _ s
    exact .cons (Passes.refl s) hrun (ih _)

theorem playOps_stores {env : Env} (hnow : ∀ o t, env.now o t = t) (ops : List LifecycleOp)
    (s : NodeState) :
    ∀ ev ∈ (playOps P node env ops s).2.1, ¬ storeRaised ev.eff ev.resp := by
  induction ops generalizing s with
  | nil => simp [playOps]
  | cons op ops ih =>
    have hrun : Task.Runs Reliable Passes (op.run P node).run s _ _ _ :=
      Task.runs_trace env.handle Passes.refl (fun c s => Env.reliable hnow c s) _ s
    refine List.forall_mem_append.mpr ⟨fun ev hev => ?_, ih _⟩
    exact (hrun.sem_of_mem ev hev).2

theorem playOps_ops (env : Env) (ops : List LifecycleOp) (s : NodeState) :
    (playOps P node env ops s).1.map Prod.fst = ops := by
  induction ops generalizing s with
  | nil => rfl
  | cons op ops ih => exact congrArg (op :: ·) (ih _)

theorem playOps_told {env : Env} (hnow : ∀ o t, env.now o t = t) {ops : List LifecycleOp}
    {s : NodeState} {x : List (LifecycleOp × Except Exc Unit) × Trace × NodeState}
    (h : playOps P node env ops s = x) :
    x.1.map Prod.fst = ops ∧ Sequence P node s x.1 x.2.1 x.2.2 ∧
      ∀ ev ∈ x.2.1, ¬ storeRaised ev.eff ev.resp := by
  subst h
  exact ⟨playOps_ops env ops s, playOps_sequence hnow ops s, playOps_stores hnow ops s⟩

theorem completed_of_all {ops : List (LifecycleOp × Except Exc Unit)}
    (h : ops.all (fun x => x.2.isOk) = true) :
    Completed ops := by
  intro x hx
  have hok := List.all_eq_true.mp h x hx
  cases hr : x.2 with
  | error e => simp [hr, Except.isOk, Except.toBool] at hok
  | ok _ => rfl

/-- `beta` starts empty, admits `alpha`, learns of `gamma` from it and of its revocation. -/
def learnAndRevoke : List LifecycleOp :=
  [.hydrate, .operation admitAlpha, .operation discoverGamma, .operation revokeGamma]

theorem emptyNode_empty (node : FederationNode) : Empty node emptyNode := ⟨rfl, rfl, fun _ => rfl⟩

theorem learnAndRevoke_trusts_alpha :
    Completed (playOps hintPlatform beta hintWorld learnAndRevoke emptyNode).1 ∧
      ∀ n, (Cached n (playOps hintPlatform beta hintWorld learnAndRevoke emptyNode).2.2 ↔
        ∃ rec, (playOps hintPlatform beta hintWorld learnAndRevoke
          emptyNode).2.2.membershipTable.get n = some rec ∧
          rec.state ≠ .revoked ∧ rec.state ≠ .rejected) ∧
        ∀ manifest, (playOps hintPlatform beta hintWorld learnAndRevoke
          emptyNode).2.2.peerManifests.get n = some manifest → manifest.nodeId = n := by
  have hall : (playOps hintPlatform beta hintWorld learnAndRevoke emptyNode).1.all
      (fun x => x.2.isOk) = true := by
    decide +kernel
  have hrun := @playOps_sequence hintPlatform beta hintWorld (fun _ _ => rfl)
    learnAndRevoke emptyNode
  have hcompleted := completed_of_all hall
  exact ⟨hcompleted, cache_is_live_membership hintPlatform beta (emptyNode_empty beta)
    hrun hcompleted⟩

end Sequences

end Federlet
