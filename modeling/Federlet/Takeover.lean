import Federlet.Writes

/-! What may take the place of a cached manifest, over sequences of operations. A
refresh brings what continues the manifest it started from, and finds that one
still cached; introductions do not look at what they replace. -/

namespace Federlet

open Coop

/-- The call caches a manifest where another one is cached for the node. -/
def Replaces (ev : Event Call Resp NodeState) (old new : Manifest) : Prop :=
  ev.eff.caches new ∧ ev.pre.peerManifests.get new.nodeId = some old ∧ old ≠ new

/-- `check_key_continuity` accepts, and the revision is not lower. -/
def Follows (P : Platform) (old new : Manifest) : Prop :=
  Continues P .refresh old new none ∧ old.revision ≤ new.revision

/-- What that takes of another manifest of the node. -/
structure Renews (P : Platform) (old new : Manifest) : Prop where
  orgId : old.orgId = new.orgId
  revision : old.revision ≤ new.revision
  keys : sameKeys (keyDict old.publicKeys) (keyDict new.publicKeys) = true ∨
    ∃ signature jwk, new.signature = some signature ∧
      (keyDict old.publicKeys).lookup signature.keyId = some jwk ∧
      verifyModel P new jwk = .ok true

theorem follows_iff_renews {P : Platform} {old new : Manifest} (h : old.nodeId = new.nodeId) :
    Follows P old new ↔ Renews P old new := by
  have hrotation : ((none : Option KeyContinuityPolicy).getD {}).allowKeyRotation = true := rfl
  rw [Follows, continues_iff rfl, hrotation]
  constructor
  · rintro ⟨⟨_, horg, hkeys⟩, hrevision⟩
    exact ⟨horg, hrevision, hkeys.imp id And.right⟩
  · rintro ⟨horg, hrevision, hkeys⟩
    exact ⟨⟨h, horg, hkeys.imp id fun hsigned => ⟨rfl, hsigned⟩⟩, hrevision⟩

theorem Continued.follows {P : Platform} {o : Origin} {policy : Option KeyContinuityPolicy}
    {old new : Manifest} (h : Continued P o policy old new)
    (hpolicy : (policy.getD {}).evidenceVerifier = none) : Follows P old new := by
  obtain ⟨hnode, horg, hkeys⟩ := (continues_iff hpolicy).mp (h.continuity hpolicy)
  exact (follows_iff_renews hnode).mpr ⟨horg, h.revision, hkeys.imp id And.right⟩

/-- A refresh does not replace a manifest by one that does not follow it. -/
def RefreshFollows (P : Platform) (ev : Event Call Resp NodeState) : Prop :=
  ∀ old new, Replaces ev old new → ev.eff.origin = .refresh → Follows P old new

/-- The cache has lost entries at most. -/
def Shrinks (s s' : NodeState) : Prop :=
  ∀ n old, s'.peerManifests.get n = some old → s.peerManifests.get n = some old

section Steps

variable {P : Platform} {s s' : NodeState} {c : Call} {r : Resp c}

/-- The calls that cache nothing. -/
def Call.sheds (c : Call) : Prop :=
  match c.op with
  | .cachePut _ | .cacheReplace _ => False
  | _ => True

theorem Call.quiet.sheds (h : c.quiet) : c.sheds := by
  obtain ⟨o, op⟩ := c
  cases op
  case cachePut | cacheReplace => exact h.elim
  all_goals trivial

theorem Call.sheds.follows (h : c.sheds) : RefreshFollows P ⟨s, c, r, s'⟩ := by
  rintro old new ⟨hcaches, _⟩ _
  obtain ⟨o, op⟩ := c
  cases op
  case cachePut | cacheReplace => exact h.elim
  all_goals exact hcaches.elim

theorem Shrinks.refl (s : NodeState) : Shrinks s s := fun _ _ h => h

theorem Shrinks.of_cache (h : s'.peerManifests = s.peerManifests) : Shrinks s s' := by
  intro n old hold
  rwa [h] at hold

theorem Shrinks.trans {s₁ s₂ s₃ : NodeState} (h : Shrinks s₁ s₂) (h' : Shrinks s₂ s₃) :
    Shrinks s₁ s₃ :=
  fun n old hold => h n old (h' n old hold)

theorem Passes.shrinks (h : Passes s s') : Shrinks s s' := .of_cache h.cache

theorem Call.sheds.shrinks (hc : c.sheds) (h : Does c s r s') : Shrinks s s' := by
  by_cases hspares : c.sparesManifests
  · exact .of_cache (h.manifests hspares).1
  obtain ⟨o, op⟩ := c
  cases op
  case cachePop k =>
    obtain rfl : s' = _ := h
    intro n old hold
    by_cases hn : k = n
    · subst hn
      rw [Keyed.get_erase_self] at hold
      cases hold
    · rwa [Keyed.get_erase_ne _ hn] at hold
  case storeUpsert | storeDelete =>
    rcases h with ⟨e, _, rfl⟩ | ⟨_, rfl⟩
    · exact .refl _
    · exact .refl _
  case cachePut | cacheReplace => exact hc.elim
  all_goals exact absurd trivial hspares

end Steps

/-- Each decision continues what is cached under its node, or is what is cached there. -/
def Pending (P : Platform) (policy : Option KeyContinuityPolicy)
    (decisions : List (String × ManifestRefreshDecision)) (s : NodeState) : Prop :=
  ∀ d ∈ decisions, ∀ old, s.peerManifests.get d.1 = some old →
    d.2.manifest = some old ∨ ∃ o, Keeps P o policy old d.2

/-- The calls that cache only what one of the decisions brings for its node. -/
def Applies (decisions : List (String × ManifestRefreshDecision)) (c : Call) : Prop :=
  match c.op with
  | .cachePut manifest => ∃ d ∈ decisions, manifest.nodeId = d.1 ∧ d.2.manifest = some manifest ∧
      (d.2.action = .accept ∨ d.2.action = .unchanged)
  | .cacheReplace _ => False
  | _ => True

section Decisions

variable {P : Platform} {node : FederationNode} {policy : Option KeyContinuityPolicy}
  {decisions : List (String × ManifestRefreshDecision)} {s s' : NodeState}

theorem Pending.shrinks (h : Pending P policy decisions s) (hs : Shrinks s s') :
    Pending P policy decisions s' :=
  fun d hd old hold => h d hd old (hs _ old hold)

theorem eq_of_key (hnodup : (decisions.map Prod.fst).Nodup)
    {d d' : String × ManifestRefreshDecision} (hd : d ∈ decisions) (hd' : d' ∈ decisions)
    (h : d.1 = d'.1) : d = d' :=
  List.inj_on_of_nodup_map hnodup hd hd' h

theorem Pending.step (hpolicy : (policy.getD {}).evidenceVerifier = none)
    (hnodup : (decisions.map Prod.fst).Nodup) (h : Pending P policy decisions s) {c : Call}
    {r : Resp c} (hc : Applies decisions c) (hdoes : Does c s r s') :
    RefreshFollows P ⟨s, c, r, s'⟩ ∧ Pending P policy decisions s' := by
  by_cases hsheds : c.sheds
  · exact ⟨hsheds.follows, h.shrinks (hsheds.shrinks hdoes)⟩
  obtain ⟨o, op⟩ := c
  cases op
  case cachePut manifest =>
    obtain ⟨d, hd, hnode, hm, haction⟩ := hc
    obtain rfl : s' = _ := hdoes
    constructor
    · rintro old new ⟨hcaches, hold, hne⟩ _
      obtain rfl : manifest = new := hcaches
      rw [hnode] at hold
      rcases h d hd old hold with hsame | ⟨o', hkeeps⟩
      · exact absurd (Option.some.inj (hsame.symm.trans hm)) hne
      · exact (hkeeps haction manifest hm).follows hpolicy
    · intro d' hd' old hold
      by_cases hn : manifest.nodeId = d'.1
      · obtain rfl : d = d' := eq_of_key hnodup hd hd' (hnode.symm.trans hn)
        have hcached : (s.peerManifests.upsert manifest).get d.1 = some manifest :=
          hn ▸ Keyed.get_upsert_self _ manifest
        exact .inl (hm.trans (hcached.symm.trans hold))
      · have hsame : s.peerManifests.get d'.1 = some old :=
          (Keyed.get_upsert_ne _ hn).symm.trans hold
        exact h d' hd' old hsame
  case cacheReplace => exact hc.elim
  all_goals exact absurd trivial hsheds

end Decisions

section Refreshing

variable {P : Platform} {node : FederationNode} {policy : Option KeyContinuityPolicy}
  {decisions : List (String × ManifestRefreshDecision)}

theorem after_then {α β : Type} {t : Py α} {f : α → Py β} {s : NodeState} {Q : α → NodeState → Prop}
    (h : Task.after Does Passes (RefreshFollows P) t.run s fun r s' => ∀ a, r = .ok a → Q a s')
    (hf : ∀ a s', Q a s' → Task.after Does Passes (RefreshFollows P) (f a).run s' fun _ _ => True) :
    Task.after Does Passes (RefreshFollows P) (t >>= f).run s fun _ _ => True := by
  refine Task.after_run_bind.mpr (Task.after_mono ?_ h)
  intro r s' hr
  cases r with
  | error e => exact trivial
  | ok a => exact hf a s' (hr a rfl)

theorem follows_of_quiet {α : Type} {t : Py α} {Q : α → Prop}
    (h : Routine Call.quiet anyCallback (fun _ _ => False) Q t) (s : NodeState) :
    Task.after Does Passes (RefreshFollows P) t.run s
      fun r (s' : NodeState) => ∀ a, r = .ok a → Q a ∧ s'.peerManifests = s.peerManifests := by
  have hafter : Task.after Does Passes (RefreshFollows P) t.run s
      fun r (s' : NodeState) => (∀ a, r = .ok a → Q a) ∧ s'.peerManifests = s.peerManifests := by
    refine Task.Composed.after (I := fun s' : NodeState => s'.peerManifests = s.peerManifests)
      ?_ ?_ ?_ h rfl
    · exact fun s₁ s₂ hs hb => hb.cache.trans hs
    · intro c s₁ r s₂ hc hs hdoes
      obtain rfl := hdoes.eq_of_quiet hc
      exact ⟨hdoes.answered (callbackAnswers_any c r), hc.sheds.follows, hs⟩
    · exact fun _ _ _ h => h.elim
  exact Task.after_mono (fun _ _ hr a ha => ⟨hr.1 a ha, hr.2⟩) hafter

def PendingSections (P : Platform) (policy : Option KeyContinuityPolicy)
    (decisions : List (String × ManifestRefreshDecision)) : Sections :=
  fun _ t => ∀ s, Pending P policy decisions s →
    Task.after Does Passes (RefreshFollows P) t s fun _ s' => Pending P policy decisions s'

theorem pending_of_makes (hpolicy : (policy.getD {}).evidenceVerifier = none)
    (hnodup : (decisions.map Prod.fst).Nodup) {α : Type} {t : Py α}
    (h : Makes (Applies decisions) (PendingSections P policy decisions) t) :
    PendingSections P policy decisions _ t.run := by
  intro s hs
  refine Task.after_mono (fun _ _ h => h.2)
    (Task.Composed.after (I := Pending P policy decisions) ?_ ?_ ?_ h hs)
  · exact fun s₁ s₂ hs hb => hs.shrinks hb.shrinks
  · intro c s₁ r s₂ hc hs hdoes
    obtain ⟨hfollows, hs₂⟩ := hs.step hpolicy hnodup hc hdoes
    exact ⟨trivial, hfollows, hs₂⟩
  · exact fun _ _ s ht hs => ht s hs

theorem applyRefreshDecision_pending (hpolicy : (policy.getD {}).evidenceVerifier = none)
    (hnodup : (decisions.map Prod.fst).Nodup) {d : String × ManifestRefreshDecision}
    (hd : d ∈ decisions) (hfits : FitsNode P d.1 d.2) :
    PendingSections P policy decisions _ (node.applyRefreshDecision d.1 d.2).run := by
  have hupsert : ∀ rec : MemberRecord, rec.state ≠ .revoked →
      Applies decisions ⟨.refresh, .tableUpsert rec⟩ :=
    fun _ _ => trivial
  have hremember : ∀ manifest, d.2.action = .accept ∨ d.2.action = .unchanged →
      d.2.manifest = some manifest →
      PendingSections P policy decisions _ (node.rememberManifest .refresh manifest).run := by
    intro manifest haction hm
    have happlies : Applies decisions ⟨.refresh, .cachePut manifest⟩ :=
      ⟨d, hd, (hfits haction manifest hm).1, hm, haction⟩
    exact pending_of_makes hpolicy hnodup (Makes.rememberManifest happlies trivial)
  obtain ⟨body, hbody, hmakes⟩ := FederationNode.applyRefreshDecision_parts trivial trivial
    hupsert hremember (pending_of_makes hpolicy hnodup (Makes.forgetManifest trivial trivial))
  intro s hs
  rw [hbody, Task.run_locked, Task.after_withLock]
  exact pending_of_makes hpolicy hnodup hmakes s hs

theorem applyRefreshDecisions_follows (hpolicy : (policy.getD {}).evidenceVerifier = none)
    (hnodup : (decisions.map Prod.fst).Nodup) (hfits : ∀ d ∈ decisions, FitsNode P d.1 d.2)
    {s : NodeState} (hs : Pending P policy decisions s) :
    Task.after Does Passes (RefreshFollows P) (node.applyRefreshDecisions decisions).run s
      fun _ _ => True := by
  have hroutine : Routine Call.quiet anyCallback (PendingSections P policy decisions)
      (fun _ => True) (node.applyRefreshDecisions decisions) :=
    FederationNode.applyRefreshDecisions_routine decisions fun d hd =>
      applyRefreshDecision_pending hpolicy hnodup hd (hfits d hd)
  refine Task.after_mono (fun _ _ _ => trivial)
    (Task.Composed.after (I := Pending P policy decisions) ?_ ?_ ?_ hroutine hs)
  · exact fun s₁ s₂ hs hb => hs.shrinks hb.shrinks
  · intro c s₁ r s₂ hc hs hdoes
    obtain rfl := hdoes.eq_of_quiet hc
    exact ⟨hdoes.answered (callbackAnswers_any c r), hc.sheds.follows, hs⟩
  · exact fun _ _ s ht hs => ht s hs

theorem refreshPeer_follows (hpolicy : (policy.getD {}).evidenceVerifier = none)
    (nodeId : String) (skew : Int) (s : NodeState) :
    Task.after Does Passes (RefreshFollows P) (node.refreshPeer P nodeId policy skew).run s
      fun _ _ => True := by
  have hrecord : Routine Call.quiet anyCallback (fun _ _ => False) (fun _ => True)
      (MembershipTable.get .refresh nodeId) :=
    Routine.read (c := ⟨.refresh, .tableGet nodeId⟩) trivial _
  refine after_then (follows_of_quiet hrecord s) fun rec? s₁ _ => ?_
  refine after_then (Q := fun manifest? s' => manifest? = s'.peerManifests.get nodeId) ?_ ?_
  · intro s₂ _ r s₃ hdoes
    obtain ⟨rfl, rfl⟩ := hdoes
    have hread : Call.quiet ⟨.refresh, .cacheGet nodeId⟩ := trivial
    refine ⟨hread.sheds.follows, ?_⟩
    rintro _ ⟨⟩
    rfl
  intro manifest? s₂ hmanifest
  split
  · rename_i rec manifest
    have hroutine : Routine Call.quiet anyCallback (fun _ _ => False)
        (Keeps P (.fetch manifest.nodeId) policy manifest)
        (refreshPeerManifest P node.client manifest rec.manifestUrl policy skew) :=
      (refreshPeerManifest_routine node.client manifest rec.manifestUrl policy skew).quiet
    have hnode : manifest.nodeId = nodeId := Keyed.key_of_get hmanifest.symm
    refine after_then (follows_of_quiet hroutine s₂) ?_
    rintro decision s₃ ⟨hkeeps, hcache⟩
    have hpending : Pending P policy [(nodeId, decision)] s₃ := by
      intro d hd old hold
      obtain rfl := List.mem_singleton.mp hd
      rw [hcache, ← hmanifest] at hold
      obtain rfl := Option.some.inj hold
      exact .inr ⟨_, hkeeps⟩
    have hfits : FitsNode P nodeId decision := hnode ▸ hkeeps.fitsNode
    have happly : Task.after Does Passes (RefreshFollows P)
        (node.applyRefreshDecision nodeId decision).run s₃ fun _ s' =>
          Pending P policy [(nodeId, decision)] s' :=
      applyRefreshDecision_pending hpolicy (by simp) (List.mem_singleton.mpr rfl) hfits s₃ hpending
    exact after_then (Q := fun _ _ => True) (Task.after_mono (fun _ _ _ _ _ => trivial) happly)
      fun _ _ _ => trivial
  · exact trivial

def ShedSections (P : Platform) (s : NodeState) : Sections :=
  fun _ t => ∀ s₁, Shrinks s s₁ → Task.after Does Passes (RefreshFollows P) t s₁
    fun _ s' => Shrinks s s'

theorem sheds_of_makes {α : Type} {t : Py α} {s : NodeState}
    (h : Makes Call.sheds (ShedSections P s) t) :
    ShedSections P s _ t.run := by
  intro s₁ hs₁
  refine Task.after_mono (fun _ _ h => h.2) (Task.Composed.after (I := Shrinks s) ?_ ?_ ?_ h hs₁)
  · exact fun _ _ hs hb => hs.trans hb.shrinks
  · exact fun c _ _ _ hc hs hdoes => ⟨trivial, hc.follows, hs.trans (hc.shrinks hdoes)⟩
  · exact fun _ _ s₂ ht hs => ht s₂ hs

theorem unknownPeer_sheds (nodeId : String) (s : NodeState) :
    Task.after Does Passes (RefreshFollows P)
      (node.applyRefreshDecision nodeId FederationNode.unknownPeer).run s fun _ s' =>
        Shrinks s s' := by
  have hupsert : ∀ rec : MemberRecord, rec.state ≠ .revoked →
      Call.sheds ⟨.refresh, .tableUpsert rec⟩ :=
    fun _ _ => trivial
  have hremember : ∀ manifest, FederationNode.unknownPeer.action = .accept ∨
      FederationNode.unknownPeer.action = .unchanged →
      FederationNode.unknownPeer.manifest = some manifest →
      ShedSections P s _ (node.rememberManifest .refresh manifest).run := by
    intro _ _ hm
    cases hm
  have hforget : ShedSections P s _ (node.forgetManifest .refresh nodeId).run :=
    sheds_of_makes (Makes.forgetManifest trivial trivial)
  obtain ⟨body, hbody, hmakes⟩ :=
    FederationNode.applyRefreshDecision_parts trivial trivial hupsert hremember hforget
  rw [hbody, Task.run_locked, Task.after_withLock]
  exact sheds_of_makes hmakes s (.refl s)

theorem refreshTargets_follows (records : List MemberRecord) (s : NodeState) :
    Task.after Does Passes (RefreshFollows P) (node.refreshTargets records).run s fun r s' =>
      Shrinks s s' ∧ ∀ a, r = .ok a →
        (∀ t ∈ a.1, ∀ old, s'.peerManifests.get t.1.nodeId = some old → old = t.1) ∧
        ∀ d ∈ a.2, d.2 = FederationNode.unknownPeer := by
  induction records generalizing s with
  | nil =>
    refine ⟨.refl s, ?_⟩
    rintro _ ⟨⟩
    simp
  | cons rec records ih =>
    have hread : Call.quiet ⟨.refresh, .cacheGet rec.nodeId⟩ := trivial
    refine Task.after_run_bind.mpr ?_
    intro s₁ hb r s₂ hdoes
    obtain ⟨rfl, rfl⟩ := hdoes
    refine ⟨hread.sheds.follows, ?_⟩
    cases hmanifest : s₂.peerManifests.get rec.nodeId with
    | none =>
      refine Task.after_run_bind.mpr (Task.after_mono ?_ (unknownPeer_sheds rec.nodeId s₂))
      intro r s₃ hs₃
      have hs : Shrinks s s₃ := hb.shrinks.trans hs₃
      cases r with
      | error e => exact ⟨hs, by simp⟩
      | ok _ =>
        refine Task.after_run_bind.mpr (Task.after_mono ?_ (ih s₃))
        rintro r s₄ ⟨hs₄, hgathered⟩
        cases r with
        | error e => exact ⟨hs.trans hs₄, by simp⟩
        | ok a =>
          obtain ⟨htargets, hunknown⟩ := hgathered a rfl
          refine ⟨hs.trans hs₄, ?_⟩
          rintro _ ⟨⟩
          exact ⟨htargets, List.forall_mem_cons.mpr ⟨rfl, hunknown⟩⟩
    | some manifest =>
      refine Task.after_run_bind.mpr (Task.after_mono ?_ (ih s₂))
      rintro r s₃ ⟨hs₃, hgathered⟩
      have hs : Shrinks s s₃ := hb.shrinks.trans hs₃
      cases r with
      | error e => exact ⟨hs, by simp⟩
      | ok a =>
        obtain ⟨htargets, hunknown⟩ := hgathered a rfl
        refine ⟨hs, ?_⟩
        rintro _ ⟨⟩
        refine ⟨List.forall_mem_cons.mpr ⟨fun old hold => ?_, htargets⟩, hunknown⟩
        have hbefore := hs₃ _ old hold
        rw [show manifest.nodeId = rec.nodeId from Keyed.key_of_get hmanifest, hmanifest] at hbefore
        exact (Option.some.inj hbefore).symm

theorem refreshAll_follows (hpolicy : (policy.getD {}).evidenceVerifier = none) (skew : Int)
    (s : NodeState) :
    Task.after Does Passes (RefreshFollows P) (node.refreshAll P policy skew).run s
      fun _ _ => True := by
  have heligible : Routine Call.quiet anyCallback (fun _ _ => False) _ (eligiblePeers .refresh) :=
    eligiblePeers_routine trivial trivial
  refine after_then (follows_of_quiet heligible s) fun records s₁ _ => ?_
  refine after_then (Task.after_mono (fun _ _ h => h.2) (refreshTargets_follows records s₁)) ?_
  rintro ⟨targets, unknown⟩ s₂ ⟨htargets, hunknown⟩
  dsimp only at htargets hunknown ⊢
  have hroutine : Routine Call.quiet anyCallback (fun _ _ => False) _
      (refreshAllManifests P node.client targets policy skew) :=
    (refreshAllManifests_routine node.client policy skew targets).quiet
  refine after_then (follows_of_quiet hroutine s₂) ?_
  rintro refreshed s₃ ⟨hrefreshed, hcache⟩
  have hdecided :
      ∀ d ∈ (Keyed.ofList (unknown ++ refreshed) : Dict ManifestRefreshDecision).entries,
      FitsNode P d.1 d.2 ∧ ∀ old, s₃.peerManifests.get d.1 = some old →
        ∃ o, Keeps P o policy old d.2 := by
    intro d hd
    rcases List.mem_append.mp (Keyed.mem_of_mem_ofList hd) with hmem | hmem
    · rw [hunknown d hmem]
      refine ⟨fitsNode_unknownPeer P _, fun _ _ => ⟨.refresh, ?_⟩⟩
      simp [Keeps, FederationNode.unknownPeer]
    · obtain ⟨current, hcurrent, hnode, hkeeps⟩ := hrefreshed d hmem
      obtain ⟨t, ht, rfl⟩ := List.mem_map.mp hcurrent
      refine ⟨hnode ▸ hkeeps.fitsNode, fun old hold => ⟨.fetch t.1.nodeId, ?_⟩⟩
      rw [hcache, hnode] at hold
      rw [htargets t ht old hold]
      exact hkeeps
  have hpending : Pending P policy
      (Keyed.ofList (unknown ++ refreshed) : Dict ManifestRefreshDecision).entries s₃ :=
    fun d hd old hold => .inr ((hdecided d hd).2 old hold)
  have happly : Task.after Does Passes (RefreshFollows P)
      (node.applyRefreshDecisions
        (Keyed.ofList (unknown ++ refreshed) : Dict ManifestRefreshDecision).entries).run s₃
      fun _ _ => True :=
    applyRefreshDecisions_follows hpolicy (Keyed.nodup _) (fun d hd => (hdecided d hd).1) hpending
  exact after_then (Q := fun _ _ => True) (Task.after_mono (fun _ _ _ _ _ => trivial) happly)
    fun _ _ _ => trivial

end Refreshing

section Sequences

variable {P : Platform} {node : FederationNode}

/-- An operation of a running node, without an evidence verifier for key continuity. -/
def LifecycleOp.unverified : LifecycleOp → Prop
  | .hydrate => False
  | .operation (.refreshPeer _ policy _) | .operation (.refreshAll policy _) =>
    (policy.getD {}).evidenceVerifier = none
  | .operation _ => True

theorem refreshFollows_of_puts {ev : Event Call Resp NodeState}
    (h : Puts (fun o _ => o ≠ .refresh) ev.eff) :
    RefreshFollows P ev :=
  fun _ _ hreplaces ho => absurd ho (h.caches hreplaces.1)

theorem LifecycleOp.follows {op : LifecycleOp} (hop : op.unverified) {s s' : NodeState}
    {r : Except Exc Unit} {tr : Trace}
    (hrun : Task.Runs Does Passes (op.run P node).run s tr r s') :
    ∀ ev ∈ tr, RefreshFollows P ev := by
  have hanswers : ∀ c s r s', Does c s r s' → Answered anyCallback c r :=
    fun c s r s' hdoes => hdoes.answered (callbackAnswers_any c r)
  have hintroduces : ∀ {t : Py Unit},
      Routine Call.quiet anyCallback (PutSections Does Passes fun o _ => o ≠ .refresh)
        (fun _ => True) t →
      ∀ s tr r s', Task.Runs Does Passes t.run s tr r s' → ∀ ev ∈ tr, RefreshFollows P ev := by
    intro t ht s tr r s' hrun ev hev
    exact refreshFollows_of_puts ((hrun.of_after (puts_of_routine hanswers ht s)).2 ev hev)
  cases op with
  | hydrate => exact hop.elim
  | operation op =>
    cases op with
    | admitPeer manifest url skew =>
      refine hintroduces ((FederationNode.admitPeer_routine manifest url skew fun url _ => ?_).bind
        fun _ _ => Routine.pure trivial) s tr r s' hrun
      exact recordPeer_puts (by simp) url
    | bootstrapFromSeeds urls skew =>
      refine hintroduces
        ((FederationNode.bootstrapFromSeeds_routine urls skew fun manifest url _ => ?_).bind
          fun _ _ => Routine.pure trivial) s tr r s' hrun
      exact recordPeer_puts (by simp) url
    | discover skew cap since =>
      refine hintroduces
        ((FederationNode.discover_routine skew cap since (fun rec _ _ => upsertDiscovered_puts rec)
          fun manifest _ => rememberDiscovered_puts (by simp)).bind fun _ _ => Routine.pure trivial)
        s tr r s' hrun
    | refreshPeer nodeId policy skew =>
      exact (hrun.of_after (after_then (Q := fun _ _ => True)
        (Task.after_mono (fun _ _ _ _ _ => trivial) (refreshPeer_follows hop nodeId skew s))
        fun _ _ _ => trivial)).2
    | refreshAll policy skew =>
      exact (hrun.of_after (after_then (Q := fun _ _ => True)
        (Task.after_mono (fun _ _ _ _ _ => trivial) (refreshAll_follows hop skew s))
        fun _ _ _ => trivial)).2
    | applyRevocationNotice notice keys authorize =>
      exact hintroduces
        ((Routine.of_section (applyRevocationNotice_puts notice keys authorize)).bind fun _ _ =>
          Routine.pure trivial) s tr r s' hrun

theorem Sequence.follows {s s' : NodeState}
    {ops : List (LifecycleOp × Except Exc Unit)} {tr : Trace} (h : Sequence P node s ops tr s')
    (hops : ∀ x ∈ ops, x.1.unverified) : ∀ ev ∈ tr, RefreshFollows P ev := by
  induction h with
  | nil s => simp
  | cons hidle hrun hrest ih =>
    obtain ⟨hop, hothers⟩ := List.forall_mem_cons.mp hops
    exact List.forall_mem_append.mpr ⟨LifecycleOp.follows hop hrun, ih hothers⟩

/-- No manifest is replaced by one that does not follow it, exactly if what an introduction
caches in the place of another manifest renews that one. -/
theorem replacements_follow_iff (P : Platform) (node : FederationNode) {s s' : NodeState}
    {ops : List (LifecycleOp × Except Exc Unit)} {tr : Trace} (hrun : Sequence P node s ops tr s')
    (hops : ∀ x ∈ ops, x.1.unverified) :
    (∀ ev ∈ tr, ∀ old new, Replaces ev old new → Follows P old new) ↔
    ∀ ev ∈ tr, ∀ old new, Replaces ev old new → ev.eff.origin ≠ .refresh → Renews P old new := by
  have hfollows := hrun.follows hops
  have hnode : ∀ ev old new, Replaces ev old new → old.nodeId = new.nodeId := fun ev old new h =>
    Keyed.key_of_get h.2.1
  constructor
  · intro h ev hev old new hreplaces _
    exact (follows_iff_renews (hnode ev old new hreplaces)).mp (h ev hev old new hreplaces)
  · intro h ev hev old new hreplaces
    by_cases ho : ev.eff.origin = .refresh
    · exact hfollows ev hev old new hreplaces ho
    · exact (follows_iff_renews (hnode ev old new hreplaces)).mpr (h ev hev old new hreplaces ho)

end Sequences

def forgedAlpha : Manifest :=
  { alphaManifest with
    orgId := "evil"
    revision := 4
    publicKeys := [{ keyId := "k1", publicJwk := malloryKey }]
    signature :=
      some { keyId := "k1", sig :=
        "2gh-AuT2m9H0r5nWLUUHRgFeqeqG17RH5xL8-JHRPjiRXii3bdKaHtTeP_1GEzJGvuTkmXmjHh6w_p-tPRLVDw" } }

def forgedText : JWK × String × List String :=
  (malloryKey,
   "2gh-AuT2m9H0r5nWLUUHRgFeqeqG17RH5xL8-JHRPjiRXii3bdKaHtTeP_1GEzJGvuTkmXmjHh6w_p-tPRLVDw",
    ["\x7b\"auth_methods\":[\"signed_http\"],", "\"endpoint\":\"https:",
     "//alpha.example\",\"expires_at\":", "\"2026-02-01T00:00:", "00Z\",\"extensions\":",
     "\x7b\x7d,\"federations\":[\"fed\"],", "\"membership\":\x7b\"introduce_url\":",
     "\"https://alpha.example/", "introduce\",\"members_url\":", "\"https://alpha.example/",
     "members\"\x7d,\"node_id\":", "\"alpha\",\"org_id\":\"evil\",", "\"protocol_versions\":",
     "[\"1\"],\"public_keys\":", "[\x7b\"alg\":\"EdDSA\",\"key_id\":", "\"k1\",\"public_jwk\":",
     "\x7b\"alg\":\"EdDSA\",\"crv\":", "\"Ed25519\",\"kty\":\"OKP\",",
     "\"x\":\"PUAXw-hDiVqStwqnTRt-vJyYLM8ux", "JaMwM1V8Sr0Zgw\"\x7d,\"use\":",
     "\"sig\"\x7d],\"revision\":", "4\x7d"])

def forgingPlatform : Platform := knows [alphaText, forgedText]

def twoAdmissions (manifest : Manifest) : List LifecycleOp :=
  [.operation admitAlpha, .operation
    (.admitPeer manifest (some "https://alpha.example/manifest") 300)]

def takeoverRun : List (LifecycleOp × Except Exc Unit) × Trace × NodeState :=
  playOps forgingPlatform beta silentWorld (twoAdmissions forgedAlpha) emptyNode

theorem takeoverRun_eq :
    playOps forgingPlatform beta silentWorld (twoAdmissions forgedAlpha) emptyNode =
      takeoverRun := rfl

theorem twoAdmissions_unverified {manifest : Manifest} {ops : List (LifecycleOp × Except Exc Unit)}
    (h : ops.map Prod.fst = twoAdmissions manifest) : ∀ x ∈ ops, x.1.unverified := by
  intro x hx
  have hmem := List.mem_map_of_mem (f := Prod.fst) hx
  rw [h] at hmem
  rcases List.mem_pair.mp hmem with hop | hop <;> rw [hop] <;> trivial

def swapsOrg (ev : Event Call Resp NodeState) : Bool :=
  match ev.eff.op with
  | .cachePut manifest =>
    (ev.pre.peerManifests.get manifest.nodeId).any fun old => old.orgId != manifest.orgId
  | _ => false

theorem replaces_of_swapsOrg {ev : Event Call Resp NodeState} (h : swapsOrg ev = true) :
    ∃ old new, Replaces ev old new ∧ old.orgId ≠ new.orgId := by
  obtain ⟨s, ⟨o, op⟩, r, s'⟩ := ev
  cases op
  case cachePut manifest =>
    cases hold : s.peerManifests.get manifest.nodeId with
    | none => simp [swapsOrg, hold] at h
    | some old =>
      have hne : old.orgId ≠ manifest.orgId := by simpa [swapsOrg, hold] using h
      exact ⟨old, manifest, ⟨rfl, hold, fun he => hne (he ▸ rfl)⟩, hne⟩
  all_goals cases h

/-- `mallory` signs for `alpha` with a key of its own, and is admitted in its place. -/
theorem forged_alpha_takes_over :
    ∃ ops tr s', Sequence forgingPlatform beta emptyNode ops tr s' ∧ (∀ x ∈ ops, x.1.unverified) ∧
      ops.map Prod.fst = twoAdmissions forgedAlpha ∧
      ∃ ev ∈ tr, ∃ old new, Replaces ev old new ∧ ¬ Follows forgingPlatform old new := by
  obtain ⟨hops, hrun, _⟩ := playOps_told (fun _ _ => rfl) takeoverRun_eq
  have hswaps : takeoverRun.2.1.any swapsOrg = true := by decide +kernel
  obtain ⟨ev, hev, h⟩ := List.any_eq_true.mp hswaps
  obtain ⟨old, new, hreplaces, horg⟩ := replaces_of_swapsOrg h
  refine ⟨_, _, _, hrun, twoAdmissions_unverified hops, hops, ev, hev, old, new, hreplaces,
    fun hfollows => horg ?_⟩
  exact ((follows_iff_renews (Keyed.key_of_get hreplaces.2.1)).mp hfollows).orgId

def readmitRun : List (LifecycleOp × Except Exc Unit) × Trace × NodeState :=
  playOps movingPlatform beta silentWorld (twoAdmissions bumpedAlpha) emptyNode

theorem readmitRun_eq : playOps movingPlatform beta silentWorld (twoAdmissions bumpedAlpha)
    emptyNode = readmitRun := rfl

/-- What is cached keeps organisation and keys of what it replaces, and does not go back. -/
def renewsInPlace (ev : Event Call Resp NodeState) : Bool :=
  match ev.eff.op with
  | .cachePut manifest => (ev.pre.peerManifests.get manifest.nodeId).all fun old =>
      decide (old.orgId = manifest.orgId) && decide (old.revision ≤ manifest.revision) &&
        sameKeys (keyDict old.publicKeys) (keyDict manifest.publicKeys)
  | .cacheReplace _ => false
  | _ => true

theorem renews_of_renewsInPlace {P : Platform} {ev : Event Call Resp NodeState}
    (h : renewsInPlace ev = true) {old new : Manifest} (hreplaces : Replaces ev old new) :
    Renews P old new := by
  obtain ⟨s, ⟨o, op⟩, r, s'⟩ := ev
  obtain ⟨hcaches, hold, _⟩ := hreplaces
  cases op
  case cachePut manifest =>
    obtain rfl : manifest = new := hcaches
    have hheld : s.peerManifests.get manifest.nodeId = some old := hold
    simp only [renewsInPlace, hheld, Option.all_some, Bool.and_eq_true, decide_eq_true_eq] at h
    exact ⟨h.1.1, h.1.2, .inl h.2⟩
  case cacheReplace => cases h
  all_goals exact hcaches.elim

/-- `alpha` is admitted again, with its revision bumped. -/
theorem readmission_follows : readmitRun.1.map Prod.fst = twoAdmissions bumpedAlpha ∧
    ∀ ev ∈ readmitRun.2.1, ∀ old new, Replaces ev old new → Follows movingPlatform old new := by
  obtain ⟨hops, hrun, _⟩ := playOps_told (fun _ _ => rfl) readmitRun_eq
  have hrenews : readmitRun.2.1.all renewsInPlace = true := by decide +kernel
  refine ⟨hops, (replacements_follow_iff movingPlatform beta hrun
    (twoAdmissions_unverified hops)).mpr ?_⟩
  exact fun ev hev old new hreplaces _ => renews_of_renewsInPlace
    (List.all_eq_true.mp hrenews ev hev) hreplaces

end Federlet
