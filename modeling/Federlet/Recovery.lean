import Federlet.OwnRecord

/-! A peer that could not be reached. A round of `refresh_all` asks for the eligible
peers only, so it leads a peer it has set aside no way back. -/

namespace Federlet

open Coop

/-- The node's record and its cached manifest are as they were. -/
structure SameFor (n : String) (s s' : NodeState) : Prop where
  record : s'.membershipTable.get n = s.membershipTable.get n
  manifest : s'.peerManifests.get n = s.peerManifests.get n

def SparesPeer (n : String) (c : Call) : Prop :=
  match c.op with
  | .tableUpsert rec => rec.nodeId ≠ n
  | .cachePut manifest => manifest.nodeId ≠ n
  | .cachePop k => k ≠ n
  | .cacheReplace _ => False
  | _ => True

/-- A decision that keeps the node keeps it by a manifest of its own. -/
def Brings (nodeId : String) (decision : ManifestRefreshDecision) : Prop :=
  decision.action = .accept ∨ decision.action = .unchanged →
    ∀ manifest, decision.manifest = some manifest → manifest.nodeId = nodeId

theorem FitsNode.brings {P : Platform} {nodeId : String} {decision : ManifestRefreshDecision}
    (h : FitsNode P nodeId decision) : Brings nodeId decision :=
  fun hkeep manifest hm => (h hkeep manifest hm).1

theorem brings_unknownPeer (nodeId : String) : Brings nodeId FederationNode.unknownPeer := by
  intro hkeep
  simp [FederationNode.unknownPeer] at hkeep

section Frame

variable {n : String} {s s' s'' : NodeState}

theorem SameFor.refl : SameFor n s s := ⟨rfl, rfl⟩

theorem SameFor.trans (h : SameFor n s s') (h' : SameFor n s' s'') : SameFor n s s'' :=
  ⟨h'.record.trans h.record, h'.manifest.trans h.manifest⟩

theorem Passes.sameFor (h : Passes s s') : SameFor n s s' := by
  obtain ⟨t, _, rfl⟩ := h
  exact ⟨rfl, rfl⟩

theorem Call.outward.spares {c : Call} (h : c.outward) : SparesPeer n c := by
  obtain ⟨o, op⟩ := c
  cases op <;> first | exact h.elim | trivial

theorem Does.sameFor {c : Call} {r : Resp c} (hc : SparesPeer n c) (h : Does c s r s') :
    SameFor n s s' := by
  obtain ⟨o, op⟩ := c
  by_cases hq : Call.quiet ⟨o, op⟩
  · obtain rfl := h.eq_of_quiet hq
    exact .refl
  cases op
  case tableUpsert rec =>
    rcases h with ⟨e, _, rfl⟩ | ⟨_, rfl⟩
    · exact .refl
    · exact ⟨Keyed.get_upsert_ne _ hc, rfl⟩
  case cachePut manifest =>
    obtain rfl : s' = _ := h
    exact ⟨rfl, Keyed.get_upsert_ne _ hc⟩
  case cachePop k =>
    obtain rfl : s' = _ := h
    exact ⟨rfl, Keyed.get_erase_ne _ hc⟩
  case cacheReplace => exact hc.elim
  case storeUpsert | storeDelete | nonceSet =>
    rcases h with ⟨e, _, rfl⟩ | ⟨_, rfl⟩ <;> exact ⟨rfl, rfl⟩
  all_goals exact absurd trivial hq

end Frame

section Rounds

variable {sem : Sem Call Resp NodeState} {background : NodeState → NodeState → Prop} {P : Platform}
  {node : FederationNode} {n : String} {s : NodeState}

theorem yields_spares (henv : Narrows sem background) {α : Type} {t : Py α} {Q : α → Prop}
    (h : Routine (SparesPeer n) anyCallback (fun _ _ => False) Q t) (s : NodeState) :
    Task.Yields sem background t.run s fun _ r s' => SameFor n s s' ∧ ∀ a, r = .ok a → Q a := by
  have hafter : Task.after sem background (fun _ => True) t.run s
      (fun r s' => (∀ a, r = .ok a → Q a) ∧ SameFor n s s') := by
    refine Task.Composed.after ?_ ?_ (fun _ _ _ hf => hf.elim) h .refl
    · exact fun s₁ s₂ hs hb => hs.trans (henv.passes _ _ hb).sameFor
    · intro c s₁ r s₂ hc hs hsem
      have hdoes := henv.does c s₁ r s₂ hsem
      exact ⟨hdoes.answered (callbackAnswers_any c r), trivial, hs.trans (hdoes.sameFor hc)⟩
  refine Task.Yields.mono (.of_after hafter) ?_
  rintro _ r s' ⟨⟨hq, hs'⟩, _⟩
  exact ⟨hs', hq⟩

theorem yields_outward (henv : Narrows sem background) {α : Type} {t : Py α} {Q : α → Prop}
    (h : Routine Call.outward anyCallback (fun _ _ => False) Q t) (s : NodeState) :
    Task.Yields sem background t.run s fun _ r s' => SameFor n s s' ∧ ∀ a, r = .ok a → Q a :=
  yields_spares henv (Task.Composed.widen (fun _ hc => hc.spares) h) s

theorem rememberManifest_spares {o : Origin} {manifest : Manifest} (hne : manifest.nodeId ≠ n) :
    Routine (SparesPeer n) anyCallback (fun _ _ => False) (fun _ => True)
      (node.rememberManifest o manifest) := by
  have hput : SparesPeer n ⟨o, .cachePut manifest⟩ := hne
  refine (Routine.read (c := ⟨o, .cachePut manifest⟩) hput _).bind fun _ _ => ?_
  split
  · exact Routine.read (c := ⟨o, .storeUpsert manifest⟩) trivial _
  · exact Routine.pure trivial

theorem forgetManifest_spares {o : Origin} {k : String} (hne : k ≠ n) :
    Routine (SparesPeer n) anyCallback (fun _ _ => False) (fun _ => True)
      (node.forgetManifest o k) := by
  have hpop : SparesPeer n ⟨o, .cachePop k⟩ := hne
  refine (Routine.read (c := ⟨o, .cachePop k⟩) hpop _).bind fun _ _ => ?_
  split
  · exact Routine.read (c := ⟨o, .storeDelete k⟩) trivial _
  · exact Routine.pure trivial

theorem applyRefreshDecision_spares (henv : Narrows sem background) {k : String} (hne : k ≠ n)
    {decision : ManifestRefreshDecision} (hbrings : Brings k decision) (s : NodeState) :
    Task.Yields sem background (node.applyRefreshDecision k decision).run s fun _ _ s' =>
      SameFor n s s' := by
  refine Task.Yields.withLock
    (Task.Yields.mono (yields_spares (Q := fun _ => True) henv ?_ s) fun _ _ _ h => h.1)
  refine Routine.bind (Routine.call (c := ⟨.refresh, .tableGet k⟩) trivial _) ?_
  rintro rec? ⟨_, hanswered, rfl⟩
  have hwrite : ∀ rec, rec? = some rec → ∀ f :
      DateTime → MemberRecord, (∀ now, (f now).nodeId = rec.nodeId) →
      Routine (SparesPeer n) anyCallback (fun _ _ => False) (fun _ => True)
        (do let now ← utcNow .refresh; MembershipTable.upsert .refresh (f now)) := by
    intro rec hrec f hf
    refine Routine.bind (Routine.read (c := ⟨.refresh, .utcNow⟩) trivial _) fun now _ => ?_
    have hspares : SparesPeer n ⟨.refresh, .tableUpsert (f now)⟩ := by
      have hnode : rec.nodeId = k := hanswered rec (congrArg Except.ok hrec)
      show (f now).nodeId ≠ n
      rwa [hf now, hnode]
    exact Routine.read (c := ⟨.refresh, .tableUpsert (f now)⟩) hspares _
  cases haction : decision.action
  case accept | unchanged =>
    dsimp only
    split
    · rename_i manifest hm
      have hid : manifest.nodeId = k := hbrings (by simp [haction]) manifest hm
      refine (rememberManifest_spares (hid.trans_ne hne)).bind fun _ _ => ?_
      split
      · exact hwrite _ rfl _ fun _ => rfl
      · exact Routine.pure trivial
    · exact Routine.pure trivial
  case quarantine =>
    dsimp only
    split
    · exact hwrite _ rfl _ fun _ => rfl
    · exact Routine.pure trivial
  case reject =>
    dsimp only
    split
    · rename_i rec
      exact (hwrite rec rfl (fun now => rec.setState .rejected now) fun _ => rfl).bind fun _ _ =>
        forgetManifest_spares hne
    · exact forgetManifest_spares hne

theorem refreshTargets_spares (henv : Narrows sem background) (records : List MemberRecord)
    (hcached : ∀ rec ∈ records, rec.nodeId = n → Cached n s) :
    Task.Yields sem background (node.refreshTargets records).run s fun _ r s' => SameFor n s s' ∧
      ∀ targets unknown, r = .ok (targets, unknown) →
        (∀ t ∈ targets, t.1.nodeId = n → ∃ rec ∈ records, rec.nodeId = n ∧ s.target rec = some t) ∧
        ∀ d ∈ unknown, d.1 ≠ n ∧ d.2 = FederationNode.unknownPeer := by
  induction records generalizing s with
  | nil =>
    refine Task.Yields.done ⟨.refl, ?_⟩
    rintro _ _ ⟨⟩
    simp
  | cons rec records ih =>
    obtain ⟨hhead, hrest⟩ := List.forall_mem_cons.mp hcached
    refine Task.Yields.run_bind
      (Task.Yields.call fun s₁ hb manifest? s₂ hsem => Task.Yields.done ?_)
    have hs₁ := henv.passes _ _ hb
    obtain ⟨rfl, rfl⟩ := henv.does _ _ _ _ hsem
    rw [hs₁.cache]
    have htarget : ∀ s₃, SameFor n s s₃ → ∀ (t : Manifest × String) rec, rec.nodeId = n →
        s₃.target rec = some t →
        s.target rec = some t := by
      intro s₃ hs₃ t rec hnode ht
      rwa [NodeState.target, hnode, hs₃.manifest, ← hnode] at ht
    have hcached₁ : ∀ s₃, SameFor n s s₃ → ∀ rec ∈ records, rec.nodeId = n → Cached n s₃ := by
      intro s₃ hs₃ rec hrec hnode
      rw [Cached, hs₃.manifest]
      exact hrest rec hrec hnode
    cases hmanifest : s.peerManifests.get rec.nodeId with
    | none =>
      have hne : rec.nodeId ≠ n := by
        intro hnode
        obtain ⟨manifest, hm⟩ := hhead hnode
        rw [hnode, hm] at hmanifest
        cases hmanifest
      refine Task.Yields.run_bind (Task.Yields.mono
        (applyRefreshDecision_spares henv hne (brings_unknownPeer rec.nodeId) s₂) ?_)
      rintro _ (e | _) s₃ hs₃
      · exact Task.Yields.done ⟨hs₁.sameFor.trans hs₃, by rintro _ _ ⟨⟩⟩
      have hboth := hs₁.sameFor.trans hs₃
      refine Task.Yields.run_bind (Task.Yields.mono (ih (hcached₁ s₃ hboth)) ?_)
      rintro _ (e | ⟨targets, unknown⟩) s₄ ⟨hs₄, hall⟩
      · exact Task.Yields.done ⟨hboth.trans hs₄, by rintro _ _ ⟨⟩⟩
      obtain ⟨htargets, hunknown⟩ := hall targets unknown rfl
      refine Task.Yields.done ⟨hboth.trans hs₄, ?_⟩
      rintro _ _ ⟨⟩
      refine ⟨fun t ht hn => ?_, List.forall_mem_cons.mpr ⟨⟨hne, rfl⟩, hunknown⟩⟩
      obtain ⟨rec', hrec', hnode, ht'⟩ := htargets t ht hn
      exact ⟨rec', List.mem_cons_of_mem _ hrec', hnode, htarget s₃ hboth t rec' hnode ht'⟩
    | some manifest =>
      refine Task.Yields.run_bind (Task.Yields.mono (ih (hcached₁ s₂ hs₁.sameFor)) ?_)
      rintro _ (e | ⟨targets, unknown⟩) s₄ ⟨hs₄, hall⟩
      · exact Task.Yields.done ⟨hs₁.sameFor.trans hs₄, by rintro _ _ ⟨⟩⟩
      obtain ⟨htargets, hunknown⟩ := hall targets unknown rfl
      refine Task.Yields.done ⟨hs₁.sameFor.trans hs₄, ?_⟩
      rintro _ _ ⟨⟩
      refine ⟨fun t ht hn => ?_, hunknown⟩
      rcases List.mem_cons.mp ht with rfl | hmem
      · have hnode : manifest.nodeId = rec.nodeId := Keyed.key_of_get hmanifest
        exact ⟨rec, List.mem_cons_self, hnode.symm.trans hn, by simp [NodeState.target, hmanifest]⟩
      · obtain ⟨rec', hrec', hnode, ht'⟩ := htargets t hmem hn
        exact ⟨rec', List.mem_cons_of_mem _ hrec', hnode, htarget s₂ hs₁.sameFor t rec' hnode ht'⟩

/-- The same node, organisation and revision, under the same keys. -/
structure Unchanged (old new : Manifest) : Prop where
  node : new.nodeId = old.nodeId
  org : new.orgId = old.orgId
  revision : new.revision = old.revision
  keys : sameKeys (keyDict old.publicKeys) (keyDict new.publicKeys) = true

/-- Fetching the node's manifest URL comes to the unchanged manifest, found valid. -/
def ServesUnchanged (sem : Sem Call Resp NodeState) (background : NodeState → NodeState → Prop)
    (P : Platform) (client : FederationClient) (manifest : Manifest) (url : String)
    (skew : Int) : Prop :=
  ∀ s, Task.Yields sem background (fetchManifest P client (.fetch manifest.nodeId) url skew).run
    s fun _ r _ =>
    ∃ fetched, r = .ok fetched ∧ Unchanged manifest fetched

def KeepsNode (n : String) (decision : ManifestRefreshDecision) : Prop :=
  (decision.action = .accept ∨ decision.action = .unchanged) ∧
    ∃ manifest, decision.manifest = some manifest ∧ manifest.nodeId = n

theorem checkKeyContinuity_unchanged {old new : Manifest} (h : Unchanged old new) (o : Origin)
    (policy : Option KeyContinuityPolicy) :
    (checkKeyContinuity P o old new policy).run = .done (.ok { action := .accept }) := by
  have hkeys : continuityByKeys P old new (policy.getD {}) = .ok (some { action := .accept }) := by
    simp [continuityByKeys, h.node, h.org, h.keys]
  rw [checkKeyContinuity, Task.run_bind, hkeys]
  rfl

theorem refreshPeerManifest_unchanged {client : FederationClient} {manifest : Manifest}
    {url : String} {skew : Int}
    (hserves : ServesUnchanged sem background P client manifest url skew)
    (policy : Option KeyContinuityPolicy) (s : NodeState) :
    Task.Yields sem background (refreshPeerManifest P client manifest url policy skew).run
      s fun _ r _ =>
      ∀ d, r = .ok d → KeepsNode manifest.nodeId d := by
  refine Task.Yields.run_bind (Task.Yields.bind (Task.Yields.mono (hserves s) ?_))
  rintro _ _ s₁ ⟨fetched, rfl, hsame⟩
  refine Task.Yields.done ?_
  have hrevision : ¬ fetched.revision < manifest.revision := by simp [hsame.revision]
  simp only [Task.andThen_ok, if_neg hrevision]
  rw [Task.run_bind, checkKeyContinuity_unchanged hsame]
  refine Task.Yields.done ?_
  rintro _ ⟨⟩
  simp [KeepsNode, continuityDecision, hsame.revision, hsame.node]

theorem gatherRefreshes_yields {good : ManifestRefreshDecision → Prop}
    (client : FederationClient) (policy : Option KeyContinuityPolicy) (skew : Int)
    (targets : List (Manifest × String))
    (hgood : ∀ t ∈ targets, t.1.nodeId = n → ∀ s, Task.Yields sem background
      (refreshPeerManifest P client t.1 t.2 policy skew).run s fun _ r _ => ∀ d, r = .ok d → good d)
    (s : NodeState) :
    Task.Yields sem background (gatherRefreshes P client policy skew targets).run s fun _ r _ =>
      ∀ rs, r = .ok rs → ∀ x ∈ rs, ∀ d, x = .ok d → d.1 = n → good d.2 := by
  induction targets generalizing s with
  | nil =>
    refine Task.Yields.done ?_
    rintro _ ⟨⟩
    simp
  | cons target targets ih =>
    obtain ⟨hhead, hrest⟩ := List.forall_mem_cons.mp hgood
    refine Task.Yields.run_bind (Task.Yields.bind ?_)
    intro tr one s₁ hone
    refine Task.Yields.done (Task.Yields.run_bind (Task.Yields.mono (ih hrest s₁) ?_))
    rintro _ (e | others) s₂ hothers
    · exact Task.Yields.done fun _ he => nomatch he
    refine Task.Yields.done ?_
    rintro _ ⟨⟩ x hx d hd hn
    rcases List.mem_cons.mp hx with rfl | hmem
    · cases one with
      | error e => cases hd
      | ok decision =>
        cases hd
        exact hhead hn s _ _ _ hone decision rfl
    · exact hothers others rfl x hmem d hd hn

theorem refreshAllManifests_yields (henv : Narrows sem background)
    {good : ManifestRefreshDecision → Prop} (client : FederationClient)
    (policy : Option KeyContinuityPolicy) (skew : Int) (targets : List (Manifest × String))
    (hgood : ∀ t ∈ targets, t.1.nodeId = n → ∀ s, Task.Yields sem background
      (refreshPeerManifest P client t.1 t.2 policy skew).run s fun _ r _ => ∀ d, r = .ok d → good d)
    (s : NodeState) :
    Task.Yields sem background (refreshAllManifests P client targets policy skew).run
      s fun _ r s' =>
      SameFor n s s' ∧ ∀ ds, r = .ok ds → ∀ d ∈ ds, Brings d.1 d.2 ∧ (d.1 = n → good d.2) := by
  have hgathered : Task.Yields sem background (refreshAllManifests P client targets policy skew).run
      s fun _ r _ =>
      ∀ ds, r = .ok ds → ∀ d ∈ ds, d.1 = n → good d.2 := by
    refine Task.Yields.run_bind
      (Task.Yields.mono (gatherRefreshes_yields client policy skew targets hgood s) ?_)
    rintro _ (e | rs) s₁ hrs
    · exact Task.Yields.done fun _ he => nomatch he
    · exact Task.Yields.done fun ds hds d hd => hrs rs rfl _ (mem_of_gathered hds d hd) d rfl
  have hframe := yields_outward (n := n) henv
    (refreshAllManifests_routine (P := P) client policy skew targets) s
  intro tr r s' hrun
  obtain ⟨hsame, hkeeps⟩ := hframe tr r s' hrun
  refine ⟨hsame, fun ds hds d hd => ⟨?_, hgathered tr r s' hrun ds hds d hd⟩⟩
  obtain ⟨current, _, hnode, hkeep⟩ := hkeeps ds hds d hd
  rw [hnode]
  exact hkeep.fitsNode.brings

section Decisions

variable {J : NodeState → Prop}

theorem applyRefreshDecisions_yields {good : ManifestRefreshDecision → Prop}
    (henv : Narrows sem background) (hframe : ∀ s s', J s → SameFor n s s' → J s')
    (hown : ∀ d, good d → ∀ s, J s →
      Task.Yields sem background (node.applyRefreshDecision n d).run s fun _ _ s' => J s')
    (decisions : List (String × ManifestRefreshDecision))
    (hall : ∀ d ∈ decisions, Brings d.1 d.2 ∧ (d.1 = n → good d.2)) (hs : J s) :
    Task.Yields sem background (node.applyRefreshDecisions decisions).run s fun _ _ s' => J s' := by
  induction decisions generalizing s with
  | nil => exact Task.Yields.done hs
  | cons d rest ih =>
    obtain ⟨⟨hbrings, hgood⟩, hrest⟩ := List.forall_mem_cons.mp hall
    have hone : Task.Yields sem background (node.applyRefreshDecision d.1 d.2).run s
        fun _ _ s' => J s' := by
      by_cases hn : d.1 = n
      · rw [hn]
        exact hown d.2 (hgood hn) s hs
      · exact Task.Yields.mono (applyRefreshDecision_spares henv hn hbrings s) fun _ _ s' hsame =>
          hframe s s' hs hsame
    refine Task.Yields.run_bind (Task.Yields.mono hone ?_)
    rintro _ (e | _) s₁ hs₁
    · exact Task.Yields.done hs₁
    · exact ih hrest hs₁

/-- A round of `refresh_all`, as it concerns one node: before its own decision
nothing about it changes, and its decision is the one its manifest URL leads to. -/
theorem refreshAll_yields (good : ManifestRefreshDecision → Prop) (henv : Narrows sem background)
    (hframe : ∀ s s', J s → SameFor n s s' → J s')
    (hown : ∀ d, good d → ∀ s, J s →
      Task.Yields sem background (node.applyRefreshDecision n d).run s fun _ _ s' => J s')
    (policy : Option KeyContinuityPolicy) (skew : Int) (hs : J s)
    (hactive : ∀ rec, s.membershipTable.get n = some rec → rec.state = .active → Cached n s ∧
      ∀ t, s.target rec = some t → ∀ s₁, Task.Yields sem background
        (refreshPeerManifest P node.client t.1 t.2 policy skew).run s₁ fun _ r _ =>
          ∀ d, r = .ok d → good d) :
    Task.Yields sem background (node.refreshAll P policy skew).run s fun _ _ s' => J s' := by
  refine Task.Yields.run_bind ?_
  intro tr r s₁ hrun
  have hsame₁ : SameFor n s s₁ := (yields_spares (Q := fun _ => True) henv
    ((eligiblePeers_routine (o := .refresh) trivial trivial).mono fun _ _ => trivial) s
    tr r s₁ hrun).1
  cases r with
  | error e => exact Task.Yields.done (hframe s s₁ hs hsame₁)
  | ok records =>
  obtain ⟨_, now, _, _, rfl⟩ := returns_eligiblePeers henv .refresh s tr _ s₁ hrun records rfl
  have hrecord : ∀ rec ∈ s.membershipTable.entries.filter (fun rec => rec.isEligible now),
      rec.nodeId = n →
      s.membershipTable.get n = some rec ∧ rec.state = .active := by
    rintro rec hrec rfl
    obtain ⟨hmem, heligible⟩ := List.mem_filter.mp hrec
    exact ⟨Keyed.get_of_mem hmem, MemberRecord.isEligible_active heligible⟩
  have hcached : ∀ rec ∈ s.membershipTable.entries.filter (fun rec => rec.isEligible now),
      rec.nodeId = n →
      Cached n s₁ := by
    intro rec hrec hnode
    obtain ⟨hget, hstate⟩ := hrecord rec hrec hnode
    rw [Cached, hsame₁.manifest]
    exact (hactive rec hget hstate).1
  refine Task.Yields.run_bind (Task.Yields.mono (refreshTargets_spares henv _ hcached) ?_)
  rintro _ (e | ⟨targets, unknown⟩) s₂ ⟨hsame₂, hall⟩
  · exact Task.Yields.done (hframe _ _ hs (hsame₁.trans hsame₂))
  obtain ⟨htargets, hunknown⟩ := hall targets unknown rfl
  have hgood : ∀ t ∈ targets, t.1.nodeId = n → ∀ s, Task.Yields sem background
      (refreshPeerManifest P node.client t.1 t.2 policy skew).run s fun _ r _ =>
        ∀ d, r = .ok d → good d := by
    intro t ht hn
    obtain ⟨rec, hrec, hnode, htarget⟩ := htargets t ht hn
    obtain ⟨hget, hstate⟩ := hrecord rec hrec hnode
    rw [NodeState.target, hnode, hsame₁.manifest, ← hnode] at htarget
    exact (hactive rec hget hstate).2 t htarget
  refine Task.Yields.run_bind (Task.Yields.mono
    (refreshAllManifests_yields henv node.client policy skew targets hgood s₂) ?_)
  rintro _ (e | refreshed) s₃ ⟨hsame₃, hrefreshed⟩
  · exact Task.Yields.done (hframe _ _ hs ((hsame₁.trans hsame₂).trans hsame₃))
  have hdecisions :
      ∀ d ∈ (Keyed.ofList (unknown ++ refreshed) : Dict ManifestRefreshDecision).entries,
      Brings d.1 d.2 ∧ (d.1 = n → good d.2) := by
    intro d hd
    rcases List.mem_append.mp (Keyed.mem_of_mem_ofList hd) with hmem | hmem
    · obtain ⟨hne, hd⟩ := hunknown d hmem
      rw [hd]
      exact ⟨brings_unknownPeer _, fun hn => absurd hn hne⟩
    · exact hrefreshed refreshed rfl d hmem
  refine Task.Yields.run_bind
    (Task.Yields.mono (applyRefreshDecisions_yields henv hframe hown _ hdecisions
      (hframe _ _ hs ((hsame₁.trans hsame₂).trans hsame₃))) ?_)
  rintro _ (e | _) s₄ hs₄
  · exact Task.Yields.done hs₄
  · exact Task.Yields.done hs₄

end Decisions

theorem refreshAll_leaves_inactive (henv : Narrows sem background)
    (policy : Option KeyContinuityPolicy) (skew : Int)
    (hinactive : ∀ rec, s.membershipTable.get n = some rec → rec.state ≠ .active) :
    Task.Yields sem background (node.refreshAll P policy skew).run s fun _ _ s' =>
      SameFor n s s' := by
  refine refreshAll_yields (fun _ => False) henv (fun s₁ s₂ h h' => h.trans h')
    (fun d hd => hd.elim) policy skew .refl ?_
  exact fun rec hrec hactive => absurd hactive (hinactive rec hrec)

def Usable (n url : String) (s : NodeState) : Prop :=
  (∃ rec, s.membershipTable.get n = some rec ∧ rec.Fresh ∧ rec.manifestUrl = url) ∧ Cached n s

def KeepsUsable (n url : String) (c : Call) : Prop :=
  match c.op with
  | .tableUpsert rec => rec.nodeId = n ∧ rec.Fresh ∧ rec.manifestUrl = url
  | .cachePut manifest => manifest.nodeId = n
  | .storeUpsert _ | .utcNow => True
  | _ => False

theorem Usable.of_same {url : String} {s s' : NodeState} (h : Usable n url s)
    (hsame : SameFor n s s') : Usable n url s' := by
  rw [Usable, Cached, hsame.record, hsame.manifest]
  exact h

theorem KeepsUsable.usable {url : String} {c : Call} {r : Resp c} {s' : NodeState}
    (hc : KeepsUsable n url c) (h : Does c s r s') (hs : Usable n url s) : Usable n url s' := by
  obtain ⟨o, op⟩ := c
  cases op
  case tableUpsert rec =>
    rcases h with ⟨e, _, rfl⟩ | ⟨_, rfl⟩
    · exact hs
    · obtain ⟨hnode, hfresh⟩ := hc
      exact ⟨⟨rec, by rw [← hnode]; exact Keyed.get_upsert_self _ _, hfresh⟩, hs.2⟩
  case cachePut manifest =>
    obtain rfl : s' = _ := h
    have hnode : manifest.nodeId = n := hc
    exact ⟨hs.1, manifest, by rw [← hnode]; exact Keyed.get_upsert_self _ _⟩
  case storeUpsert manifest =>
    exact hs.of_same (Does.sameFor (c := ⟨o, .storeUpsert manifest⟩) trivial h)
  case utcNow => exact hs.of_same (Does.sameFor (c := ⟨o, .utcNow⟩) trivial h)
  all_goals exact hc.elim

theorem yields_usable (henv : Narrows sem background) {α : Type} {t : Py α} {url : String}
    (h : Makes (KeepsUsable n url) (fun _ _ => False) t) (hs : Usable n url s) :
    Task.Yields sem background t.run s fun _ _ s' => Usable n url s' := by
  have hafter : Task.after sem background (fun _ => True) t.run s
      (fun _ s' => True ∧ Usable n url s') := by
    refine Task.Composed.after ?_ ?_ (fun _ _ _ hf => hf.elim) h hs
    · exact fun s₁ s₂ hs hb => hs.of_same (henv.passes _ _ hb).sameFor
    · exact fun c s₁ r s₂ hc hs hsem => ⟨trivial, trivial, hc.usable (henv.does _ _ _ _ hsem) hs⟩
  exact Task.Yields.mono (.of_after hafter) fun _ _ _ h => h.1.2

theorem applyRefreshDecision_usable (henv : Narrows sem background) {url : String}
    {d : ManifestRefreshDecision} (hkeeps : KeepsNode n d) (hs : Usable n url s) :
    Task.Yields sem background (node.applyRefreshDecision n d).run s fun _ _ s' =>
      Usable n url s' := by
  obtain ⟨haction, manifest, hm, hnode⟩ := hkeeps
  refine Task.Yields.withLock (Task.Yields.run_bind (Task.Yields.call ?_))
  intro s₁ hb r s₂ hsem
  have hs₁ := hs.of_same (henv.passes _ _ hb).sameFor
  refine Task.Yields.done ?_
  rcases henv.does _ _ _ _ hsem with ⟨e, rfl, rfl⟩ | ⟨rfl, rfl⟩
  · exact Task.Yields.done hs₁
  obtain ⟨⟨rec, hrec, _, hurl⟩, _⟩ := id hs₁
  refine yields_usable henv ?_ hs₁
  have hid : rec.nodeId = n := Keyed.key_of_get hrec
  have hremember : Makes (KeepsUsable n url) (fun _ _ => False)
      (node.rememberManifest .refresh manifest) :=
    Makes.rememberManifest hnode trivial
  rw [hrec, hm]
  rcases haction with haction | haction <;> rw [haction]
  all_goals
    refine hremember.bind fun _ => FederationNode.refreshWrite_makes trivial fun now => ?_
    exact ⟨hid, ⟨rfl, rfl, rfl⟩, hurl⟩

theorem refreshAll_keeps_usable (henv : Narrows sem background) {manifest : Manifest}
    {url : String} {skew : Int}
    (hserves : ServesUnchanged sem background P node.client manifest url skew)
    (policy : Option KeyContinuityPolicy) (hs : Usable manifest.nodeId url s)
    (hcached : s.peerManifests.get manifest.nodeId = some manifest) :
    Task.Yields sem background (node.refreshAll P policy skew).run s fun _ _ s' =>
      Usable manifest.nodeId url s' := by
  refine refreshAll_yields (KeepsNode manifest.nodeId) henv (fun s₁ s₂ h h' => h.of_same h')
    (fun d hd s hs => applyRefreshDecision_usable henv hd hs) policy skew hs ?_
  intro rec hrec _
  obtain ⟨⟨rec', hrec', _, hurl⟩, hany⟩ := hs
  obtain rfl : rec = rec' := Option.some.inj (hrec.symm.trans hrec')
  refine ⟨hany, fun t ht s₁ => ?_⟩
  have hnode : rec.nodeId = manifest.nodeId := Keyed.key_of_get hrec
  rw [NodeState.target, hnode, hcached, hurl] at ht
  cases ht
  exact refreshPeerManifest_unchanged hserves policy s₁

end Rounds

/-- No deadline and no cooldown. -/
def Undated (rec : MemberRecord) : Prop := rec.acceptedUntil = none ∧ rec.cooldownUntil = none

theorem undated_refresh (sem : Sem Call Resp NodeState) : RefreshRule sem Undated :=
  ⟨fun _ _ _ h => h, fun _ _ _ _ _ _ _ _ _ => ⟨rfl, rfl⟩⟩

theorem undated_admission (sem : Sem Call Resp NodeState) (node : FederationNode) :
    AdmissionRule sem node Undated :=
  ⟨fun _ _ _ _ _ _ _ _ _ h => ⟨h.open_ended, h.cool⟩, fun _ h _ => ⟨h.open_ended, h.cool⟩⟩

theorem isEligible_iff_active {rec : MemberRecord} (h : Undated rec) (now : DateTime) :
    rec.isEligible now = true ↔ rec.state = .active := by
  obtain ⟨hopen, hcool⟩ := h
  simp [MemberRecord.isEligible, hopen, hcool]

def Eligible (n : String) (s : NodeState) : Prop :=
  ∃ rec, s.membershipTable.get n = some rec ∧ rec.isEligible s.clock = true

def Selects (n : String) (s : NodeState) : Prop :=
  Task.Returns Does Passes selectPeers s fun _ manifests _ => ∃ manifest ∈ manifests,
    manifest.nodeId = n

section Outage

variable {P : Platform} {node : FederationNode} {n url : String} {s s' : NodeState}

theorem Sequence.undated {ops : List (LifecycleOp × Except Exc Unit)} {tr : Trace}
    (h : Sequence P node s ops tr s') (hs : AllRecords Undated s) : AllRecords Undated s' :=
  (h.allRecords (fun _ => True)
    (fun x _ _ hs => x.1.recordsKeep (narrows_only _) (undated_refresh _)
      (undated_admission _ _) hs) hs
    fun _ _ => trivial).1

theorem Empty.undated (h : Empty node s) : AllRecords Undated s := by
  intro n rec hrec
  have hmem := Keyed.mem_of_get hrec
  simp [h.table] at hmem

theorem eligible_iff_fresh (hs : AllRecords Undated s) :
    Eligible n s ↔ ∃ rec, s.membershipTable.get n = some rec ∧ rec.Fresh := by
  constructor
  · rintro ⟨rec, hrec, heligible⟩
    obtain ⟨hopen, hcool⟩ := hs n rec hrec
    exact ⟨rec, hrec, MemberRecord.isEligible_active heligible, hopen, hcool⟩
  · rintro ⟨rec, hrec, hfresh⟩
    exact ⟨rec, hrec, (isEligible_iff_active (hs n rec hrec) _).mpr hfresh.active⟩

theorem Usable.selects (h : Usable n url s) : Selects n s := by
  obtain ⟨⟨rec, hrec, hfresh, _⟩, manifest, hm⟩ := h
  refine Task.Returns.mono (selectPeers_returns s) ?_
  rintro _ manifests _ ⟨_, now, _, _, rfl⟩
  have hnode : rec.nodeId = n := Keyed.key_of_get hrec
  have heligible : rec.isEligible now = true :=
    (isEligible_iff_active ⟨hfresh.open_ended, hfresh.cool⟩ now).mpr hfresh.active
  have hmem : rec ∈ s.membershipTable.entries.filter fun rec => rec.isEligible now :=
    List.mem_filter.mpr ⟨Keyed.mem_of_get hrec, heligible⟩
  exact ⟨manifest, List.mem_filterMap.mpr ⟨rec, hmem, by rw [hnode]; exact hm⟩, Keyed.key_of_get hm⟩

end Outage

/-- A peer was eligible and a round set it aside because its manifest URL could not
be reached. Since then nothing has revoked or rejected it, and the node holds a
manifest of it, to be found under the same URL. -/
structure Outage (P : Platform) (node : FederationNode) (manifest : Manifest) (url : String)
    (s s₁ s₂ : NodeState) :
    Prop where
  reached : ∃ s₀ ops tr, Empty node s₀ ∧ Sequence P node s₀ ops tr s
  eligible : ∃ rec, s.membershipTable.get manifest.nodeId = some rec ∧
    rec.isEligible s.clock = true ∧
    rec.manifestUrl = url
  cached : Cached manifest.nodeId s
  quarantined : ∃ policy skew tr decisions decision exc,
    Task.Runs Does Passes (node.refreshAll P policy skew).run s tr (.ok decisions) s₁ ∧
    decisions.lookup manifest.nodeId = some decision ∧ decision.action = .quarantine ∧
    transportFailureReason exc = some decision.reason
  since : ∃ ops tr, Sequence P node s₁ ops tr s₂ ∧ ∀ ev ∈ tr, Standing manifest.nodeId ev.post
  held : s₂.peerManifests.get manifest.nodeId = some manifest ∧
    ∃ rec, s₂.membershipTable.get manifest.nodeId = some rec ∧ rec.manifestUrl = url

theorem Outage.undated {P : Platform} {node : FederationNode} {manifest : Manifest} {url : String}
    {s s₁ s₂ : NodeState} (h : Outage P node manifest url s s₁ s₂) : AllRecords Undated s₂ := by
  obtain ⟨s₀, ops, tr, hempty, hreached⟩ := h.reached
  obtain ⟨policy, skew, tr₁, _, _, _, hround, _⟩ := h.quarantined
  obtain ⟨ops', tr', hsince, _⟩ := h.since
  have hs := hreached.undated hempty.undated
  have hs₁ :=
    (hround.of_after (refreshAll_recordsKeep narrows_does (undated_refresh _) policy skew hs)).1
  exact hsince.undated hs₁

/-- A later round that finds the URL serving the manifest again leaves the peer
eligible and selected exactly when the peer was eligible as the round began. -/
theorem recovers_iff (P : Platform) (node : FederationNode) {manifest : Manifest} {url : String}
    {s s₁ s₂ s₃ : NodeState} (h : Outage P node manifest url s s₁ s₂)
    {sem : Sem Call Resp NodeState} {background : NodeState → NodeState → Prop}
    (henv : Narrows sem background) {policy : Option KeyContinuityPolicy} {skew : Int}
    (hserves : ServesUnchanged sem background P node.client manifest url skew) {tr : Trace}
    {r : Except Exc (Dict ManifestRefreshDecision)}
    (hround : Task.Runs sem background (node.refreshAll P policy skew).run s₂ tr r s₃) :
    (Eligible manifest.nodeId s₃ ∧ Selects manifest.nodeId s₃) ↔ Eligible manifest.nodeId s₂ := by
  have hs₂ := h.undated
  have hs₃ := (hround.of_after (refreshAll_recordsKeep henv (undated_refresh _) policy skew hs₂)).1
  obtain ⟨hcached, rec, hrec, hurl⟩ := h.held
  by_cases hactive : rec.state = .active
  · have hundated := hs₂ _ rec hrec
    have hlive : Usable manifest.nodeId url s₂ :=
      ⟨⟨rec, hrec, ⟨hactive, hundated.1, hundated.2⟩, hurl⟩, manifest, hcached⟩
    have hafter := refreshAll_keeps_usable henv hserves policy hlive hcached _ _ _ hround
    obtain ⟨⟨rec', hrec', hfresh', _⟩, _⟩ := id hafter
    refine iff_of_true ⟨?_, hafter.selects⟩ ?_
    · exact (eligible_iff_fresh hs₃).mpr ⟨rec', hrec', hfresh'⟩
    · exact (eligible_iff_fresh hs₂).mpr ⟨rec, hrec, hactive, hundated.1, hundated.2⟩
  · have hinactive : ∀ rec', s₂.membershipTable.get manifest.nodeId = some rec' →
        rec'.state ≠ .active := by
      intro rec' hrec'
      rwa [← Option.some.inj (hrec.symm.trans hrec')]
    have hsame := refreshAll_leaves_inactive henv policy skew hinactive _ _ _ hround
    have hnot₂ : ¬ Eligible manifest.nodeId s₂ := by
      rintro ⟨rec', hrec', heligible⟩
      exact hinactive rec' hrec' (MemberRecord.isEligible_active heligible)
    have hnot₃ : ¬ Eligible manifest.nodeId s₃ := by
      rintro ⟨rec', hrec', heligible⟩
      rw [hsame.record] at hrec'
      exact hinactive rec' hrec' (MemberRecord.isEligible_active heligible)
    exact iff_of_false (fun hboth => hnot₃ hboth.1) hnot₂

def alphaUrl : String := "https://alpha.example/manifest"

def alphaAdmitted : List (LifecycleOp × Except Exc Unit) × Trace × NodeState :=
  playOps seedPlatform beta seedWorld [.operation admitAlpha] emptyNode

def refreshRound : Py (Dict ManifestRefreshDecision) := beta.refreshAll seedPlatform none 300

def alphaAway : NodeState := (refreshRound.run.eval silentWorld.handle alphaAdmitted.2.2).2

def asking (ops : List LifecycleOp) : List (LifecycleOp × Except Exc Unit) × Trace × NodeState :=
  playOps seedPlatform beta seedWorld ops alphaAway

def alphaBack (s : NodeState) : NodeState := (refreshRound.run.eval seedWorld.handle s).2

def timesOut (s : NodeState) : Bool :=
  (refreshRound.run.eval silentWorld.handle s).1.toOption.any fun decisions =>
    (decisions.lookup "alpha").any fun d => decide (d.action = .quarantine ∧ d.reason = "timeout")

theorem eq_ok_of_toOption {α : Type} {x : Except Exc α} {a : α} (h : x.toOption = some a) :
    x = .ok a := by
  cases x with
  | error e => cases h
  | ok b => exact congrArg Except.ok (Option.some.inj h)

def eligibleAlpha (s : NodeState) : Bool := (s.membershipTable.get "alpha").any fun rec =>
    rec.isEligible s.clock

def filesAlpha (s : NodeState) : Bool :=
  (s.membershipTable.get "alpha").any fun rec => decide (rec.manifestUrl = alphaUrl)

def sameManifest (old new : Manifest) : Bool :=
  decide (new.nodeId = old.nodeId) && decide (new.orgId = old.orgId) && decide
    (new.revision = old.revision) && sameKeys (keyDict old.publicKeys) (keyDict new.publicKeys)

def servesHeld (env : Env) (s : NodeState) : Bool :=
  (s.peerManifests.get "alpha").any fun held =>
    ((fetchManifest seedPlatform beta.client (.fetch "alpha") alphaUrl 300).run.eval env.handle
      s).1.toOption.any (sameManifest held)

theorem servesUnchanged_of_servesHeld {env : Env} {s : NodeState} {held : Manifest}
    (h : servesHeld env s = true) (hheld : s.peerManifests.get "alpha" = some held) :
    ServesUnchanged (frozen env s.clock) Eq seedPlatform beta.client held alphaUrl 300 := by
  intro s₁ tr r s' hrun
  have hnode : held.nodeId = "alpha" := Keyed.key_of_get hheld
  rw [hnode] at hrun
  have heval := eval_of_frozen_runs (fetchManifest_routine beta.client _ alphaUrl 300) hrun
  rw [servesHeld, hheld, Option.any_some, heval] at h
  cases r with
  | error e => cases h
  | ok fetched =>
    have hsame : sameManifest held fetched = true := h
    simp only [sameManifest, Bool.and_eq_true, decide_eq_true_eq] at hsame
    obtain ⟨⟨⟨hid, horg⟩, hrevision⟩, hkeys⟩ := hsame
    exact ⟨fetched, rfl, hid, horg, hrevision, hkeys⟩

theorem alphaAdmitted_eq :
    playOps seedPlatform beta seedWorld [.operation admitAlpha] emptyNode = alphaAdmitted := rfl

theorem asking_eq (ops : List LifecycleOp) :
    playOps seedPlatform beta seedWorld ops alphaAway = asking ops := rfl

/-- The outage, with the given operations since, is what the runs make of it. -/
def holdsOutage (ops : List LifecycleOp) : Bool :=
  (filesAlpha alphaAdmitted.2.2 && eligibleAlpha alphaAdmitted.2.2) &&
    (alphaAdmitted.2.2.peerManifests.get "alpha").isSome && timesOut alphaAdmitted.2.2 &&
    filesAlpha (asking ops).2.2 && servesHeld seedWorld (asking ops).2.2 &&
    (asking ops).2.1.all fun ev => (ev.post.stateOf "alpha").any fun st =>
      decide (st ≠ .revoked ∧ st ≠ .rejected)

theorem outage_of_verdict {ops : List LifecycleOp} (h : holdsOutage ops = true) :
    ∃ manifest tr r, manifest.nodeId = "alpha" ∧
      Outage seedPlatform beta manifest alphaUrl alphaAdmitted.2.2 alphaAway (asking ops).2.2 ∧
      ServesUnchanged (frozen seedWorld (asking ops).2.2.clock) Eq seedPlatform beta.client manifest
        alphaUrl 300 ∧
      Task.Runs (frozen seedWorld (asking ops).2.2.clock) Eq refreshRound.run (asking ops).2.2 tr r
        (alphaBack (asking ops).2.2) := by
  simp only [holdsOutage, Bool.and_eq_true] at h
  obtain ⟨⟨⟨⟨⟨⟨hfiles, heligible⟩, hcached⟩, htimes⟩, hfiles'⟩, hserves⟩, hstands⟩ := h
  have hheld : ∃ manifest, (asking ops).2.2.peerManifests.get "alpha" = some manifest := by
    cases hget : (asking ops).2.2.peerManifests.get "alpha" with
    | none => simp [servesHeld, hget] at hserves
    | some manifest => exact ⟨manifest, rfl⟩
  obtain ⟨manifest, hmanifest⟩ := hheld
  have hnode : manifest.nodeId = "alpha" := Keyed.key_of_get hmanifest
  refine ⟨manifest, _, _, hnode, ?_, servesUnchanged_of_servesHeld hserves hmanifest,
    frozen_runs _ rfl⟩
  have hadmitted := (playOps_told (fun _ _ => rfl) alphaAdmitted_eq).2.1
  have hsince := (playOps_told (fun _ _ => rfl) (asking_eq ops)).2.1
  have hround : Task.Runs Does Passes refreshRound.run alphaAdmitted.2.2 _ _ alphaAway :=
    Task.runs_trace silentWorld.handle Passes.refl
      (fun c s => (Env.reliable (fun _ _ => rfl) c s).1) _ _
  refine ⟨⟨emptyNode, _, _, emptyNode_empty beta, hadmitted⟩, ?_, ?_, ?_, ⟨_, _, hsince, ?_⟩, ?_⟩
  · rw [hnode]
    obtain ⟨rec, hrec, hurl⟩ := (Option.any_eq_true _ _).mp hfiles
    rw [eligibleAlpha, hrec] at heligible
    exact ⟨rec, hrec, heligible, of_decide_eq_true hurl⟩
  · rw [Cached, hnode]
    exact Option.isSome_iff_exists.mp hcached
  · rw [hnode]
    obtain ⟨decisions, hdecisions, hany⟩ := (Option.any_eq_true _ _).mp htimes
    obtain ⟨d, hd, hverdict⟩ := (Option.any_eq_true _ _).mp hany
    obtain ⟨haction, hreason⟩ := of_decide_eq_true hverdict
    rw [eq_ok_of_toOption hdecisions] at hround
    exact ⟨_, _, _, decisions, d, .timeoutError, hround, hd, haction, by rw [hreason]; rfl⟩
  · intro ev hev
    obtain ⟨st, hst, hstanding⟩ := (Option.any_eq_true _ _).mp (List.all_eq_true.mp hstands ev hev)
    obtain ⟨rec, hrec, rfl⟩ := Option.map_eq_some_iff.mp hst
    have hlive : rec.state ≠ .revoked ∧ rec.state ≠ .rejected := of_decide_eq_true hstanding
    rw [hnode]
    exact ⟨rec, hrec, hlive⟩
  · rw [hnode]
    obtain ⟨rec, hrec, hurl⟩ := (Option.any_eq_true _ _).mp hfiles'
    exact ⟨hmanifest, rec, hrec, of_decide_eq_true hurl⟩

theorem eligibleAlpha_iff {s : NodeState} : eligibleAlpha s = true ↔ Eligible "alpha" s :=
  Option.any_eq_true _ _

/-- A round follows in which `alpha` serves the very manifest held of it. -/
theorem alpha_stays_out :
    ∃ manifest s s₁ s₂ s₃ tr r, Outage seedPlatform beta manifest alphaUrl s s₁ s₂ ∧
      Narrows (frozen seedWorld s₂.clock) Eq ∧
      ServesUnchanged (frozen seedWorld s₂.clock) Eq seedPlatform beta.client manifest
        alphaUrl 300 ∧
      Task.Runs (frozen seedWorld s₂.clock) Eq
        (beta.refreshAll seedPlatform none 300).run s₂ tr r s₃ ∧
      ¬ (Eligible manifest.nodeId s₃ ∧ Selects manifest.nodeId s₃) := by
  have hverdict : holdsOutage [] = true ∧ eligibleAlpha (alphaBack (asking []).2.2) = false :=
    by decide +kernel
  obtain ⟨manifest, tr, r, hnode, houtage, hserves, hround⟩ := outage_of_verdict hverdict.1
  refine ⟨manifest, _, _, _, _, tr, r, houtage, narrows_frozen (fun _ _ => rfl) _,
    hserves, hround, ?_⟩
  rintro ⟨heligible, _⟩
  rw [hnode, ← eligibleAlpha_iff, hverdict.2] at heligible
  cases heligible

/-- Asked for by name in between, `alpha` is back before that round. -/
theorem alpha_recovers :
    ∃ manifest s s₁ s₂ s₃ tr r, Outage seedPlatform beta manifest alphaUrl s s₁ s₂ ∧
      ServesUnchanged (frozen seedWorld s₂.clock) Eq seedPlatform beta.client manifest
        alphaUrl 300 ∧
      Task.Runs (frozen seedWorld s₂.clock) Eq
        (beta.refreshAll seedPlatform none 300).run s₂ tr r s₃ ∧
      Eligible manifest.nodeId s₃ ∧ Selects manifest.nodeId s₃ := by
  have hverdict : holdsOutage [.operation refreshAlpha] = true ∧
      eligibleAlpha (asking [.operation refreshAlpha]).2.2 = true := by decide +kernel
  obtain ⟨manifest, tr, r, hnode, houtage, hserves, hround⟩ := outage_of_verdict hverdict.1
  have hbefore : Eligible manifest.nodeId (asking [.operation refreshAlpha]).2.2 := by
    rw [hnode, ← eligibleAlpha_iff]
    exact hverdict.2
  have hafter := (recovers_iff seedPlatform beta houtage (narrows_frozen (fun _ _ => rfl) _) hserves
    hround).mpr hbefore
  exact ⟨manifest, _, _, _, _, tr, r, houtage, hserves, hround, hafter⟩

end Federlet
