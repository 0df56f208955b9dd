import Federlet.Operations

/-! Revocation under interleaving. Every write of a record is checked against
every point at which a revocation can land: the lock keeps one from landing
between `_record_peer`'s check and its write; nothing keeps it from landing
between a refresh and the decision applied, or before a discovered record. -/

namespace Federlet

open Coop

/-- A revoked record stays revoked, unless the operator deletes it. -/
def Sticky (w : NodePool) (a : Act Call Resp) (w' : NodePool) : Prop :=
  ∀ n, w.shared.revoked n → w'.shared.revoked n ∨
    (a = .background ∧ w'.shared.membershipTable = w.shared.membershipTable.erase n)

/-- Refresh and discovery write no record over a revoked one. -/
def SparesRevoked (w : NodePool) (a : Act Call Resp) : Prop :=
  match a with
  | .call _ ⟨o, .tableUpsert rec⟩ r =>
    o = .refresh ∨ o = .discovery → r = .ok () → ¬ w.shared.revoked rec.nodeId
  | _ => True

instance (s : NodeState) (n : String) :
    Decidable (s.revoked n) := inferInstanceAs (Decidable (_ = _))

instance (w : NodePool) (a : Act Call Resp) : Decidable (SparesRevoked w a) := by
  unfold SparesRevoked
  split <;> infer_instance

theorem revoked_upsert {s : NodeState} {rec : MemberRecord} {n : String} :
    ({ s with membershipTable := s.membershipTable.upsert rec } : NodeState).revoked n ↔
      if rec.nodeId = n then rec.state = .revoked else s.revoked n := by
  simp only [NodeState.revoked, NodeState.stateOf, Keyed.get_upsert]
  split <;> simp

theorem revoked_erase {s : NodeState} {m n : String} :
    ({ s with membershipTable := s.membershipTable.erase m } : NodeState).revoked n ↔ m ≠ n ∧
      s.revoked n := by
  simp only [NodeState.revoked, NodeState.stateOf, Keyed.get_erase]
  split <;> simp_all

theorem revoked_congr {s s' : NodeState} (h : s'.membershipTable = s.membershipTable) (n : String) :
    s'.revoked n ↔ s.revoked n := by
  rw [NodeState.revoked, NodeState.revoked, NodeState.stateOf, NodeState.stateOf, h]

theorem Does.table_cases {c : Call} {s s' : NodeState} {r : Resp c} (h : Does c s r s') :
    s'.membershipTable = s.membershipTable ∨
      ∃ rec, c.op = .tableUpsert rec ∧
      s' = { s with membershipTable := s.membershipTable.upsert rec } := by
  obtain ⟨o, op⟩ := c
  by_cases hq : Call.quiet ⟨o, op⟩
  · exact .inl (by rw [h.eq_of_quiet hq])
  cases op
  case tableUpsert rec =>
    rcases h with ⟨e, _, rfl⟩ | ⟨_, rfl⟩
    · exact .inl rfl
    · exact .inr ⟨rec, rfl, rfl⟩
  case cachePut | cachePop | cacheReplace =>
    cases h
    exact .inl rfl
  case storeUpsert | storeDelete =>
    rcases h with ⟨e, _, rfl⟩ | ⟨_, rfl⟩ <;> exact .inl rfl
  case nonceSet =>
    rcases h with ⟨e, _, rfl⟩ | ⟨_, rfl⟩
    · exact .inl rfl
    · left
      simp only [NodeState.nonceSet]
  all_goals exact absurd trivial hq

theorem Outside.revoked {s s' : NodeState} (h : Outside s s') {n : String} (hn : s'.revoked n) :
    s.revoked n := by
  rcases h with ⟨t, _, rfl⟩ | ⟨m, rfl⟩
  · exact hn
  · exact (revoked_erase.mp hn).2

/-- How a record may be written: not revoked by the two paths that do not look;
else revoked, or over one that is not. -/
def UpsertRule (c : Call) (s : NodeState) : Prop :=
  match c with
  | ⟨o, .tableUpsert rec⟩ =>
    if o = .refresh ∨ o = .discovery then rec.state ≠ .revoked
    else rec.state = .revoked ∨ ¬ s.revoked rec.nodeId
  | _ => True

/-- Outside the lock nothing is revoked. -/
def stickyDiscipline : Discipline Call Resp NodeState where
  sem := Does
  inv _ := True
  rely s s' := ∀ n, s'.revoked n → s.revoked n
  guar c s _ _ := UpsertRule c s
  rely_refl _ _ := id
  rely_trans h h' n hn := h n (h' n hn)

theorem upsertRule_of_quiet {c : Call} (hq : c.quiet) (s : NodeState) : UpsertRule c s := by
  obtain ⟨o, op⟩ := c
  cases op <;> first | exact hq.elim | trivial

/-- The parts of a critical section whose writes follow the rule in every state. -/
def stickyParts : Sections := fun _ t => stickyDiscipline.Within (fun _ => True) (fun _ _ => True) t

theorem stickyParts_of_makes {α : Type} {t : Py α} {sections : Sections}
    (h : Makes (fun c => ∀ s, UpsertRule c s) sections t)
    (hsect : ∀ γ t, sections γ t → stickyParts γ t) :
    stickyParts _ t.run := by
  have hwithin := @Discipline.Within.of_composed _ _ _ _ stickyDiscipline (fun _ => True) _ _ _
    (fun _ _ _ _ => trivial) (fun c s r s' hc _ _ => ⟨trivial, hc s, trivial⟩) hsect _ _ h
  exact hwithin.mono (fun _ => id) (fun _ _ _ => trivial)

theorem stickyParts_rememberManifest {node : FederationNode} (o : Origin) (manifest : Manifest) :
    stickyParts _ (node.rememberManifest o manifest).run :=
  stickyParts_of_makes (Makes.rememberManifest (fun _ => trivial) (fun _ => trivial)) fun _ _ h => h

theorem stickyParts_forgetManifest {node : FederationNode} (o : Origin) (nodeId : String) :
    stickyParts _ (node.forgetManifest o nodeId).run :=
  stickyParts_of_makes (Makes.forgetManifest (fun _ => trivial) (fun _ => trivial)) fun _ _ h => h

theorem safe_of_parts {α : Type} {t : Py α} (h : stickyParts _ t.run) :
    stickyDiscipline.Safe (locked t).run :=
  Discipline.safe_withLock (h.mono (fun _ => id) (fun _ _ => id)) fun _ _ _ _ _ => trivial

section Sections

variable {P : Platform} {node : FederationNode}

theorem applyRefreshDecision_sticky (nodeId : String) (decision : ManifestRefreshDecision) :
    stickyDiscipline.Safe (node.applyRefreshDecision nodeId decision).run := by
  obtain ⟨body, hbody, hmakes⟩ := @FederationNode.applyRefreshDecision_parts node
    (fun c => ∀ s, UpsertRule c s) stickyParts nodeId decision (fun _ => trivial) (fun _ => trivial)
    (fun rec hrec s => hrec) (fun manifest _ _ => stickyParts_rememberManifest _ manifest)
    (stickyParts_forgetManifest _ nodeId)
  rw [hbody]
  exact safe_of_parts (stickyParts_of_makes hmakes fun _ _ h => h)

theorem rememberDiscovered_sticky (manifest : Manifest) :
    stickyDiscipline.Safe (locked (node.rememberManifest .discovery manifest)).run :=
  safe_of_parts (stickyParts_rememberManifest _ manifest)

theorem applyRevocationNotice_sticky (notice : RevocationNotice) (keys : Dict JWK)
    (authorize : RevocationNotice → Bool) :
    stickyDiscipline.Safe (node.applyRevocationNotice P notice keys authorize).run := by
  obtain ⟨body, hbody, hmakes⟩ := @FederationNode.applyRevocationNotice_parts P node
    (fun c => ∀ s, UpsertRule c s) stickyParts notice keys authorize (fun _ => trivial)
    (fun _ => trivial) (fun rec hrec s => .inl hrec) (stickyParts_forgetManifest _ _)
  rw [hbody]
  exact safe_of_parts (stickyParts_of_makes hmakes fun _ _ h => h)

theorem upsertDiscovered_sticky {rec : MemberRecord} (hrec : rec.state = .active) :
    stickyDiscipline.Safe (MembershipTable.upsert .discovery rec).run := by
  have hne : rec.state ≠ .revoked := by simp [hrec]
  intro s r s' hs
  refine ⟨⟨fun n hn => ?_, id⟩, hne, rfl⟩
  rcases hs with ⟨e, rfl, rfl⟩ | ⟨rfl, rfl⟩
  · exact hn
  · rw [revoked_upsert] at hn
    split at hn
    · exact absurd hn hne
    · exact hn

/-- The calls of `_record_peer` once it has found its record not revoked. -/
def RecordsPeer (o : Origin) (nodeId : String) (c : Call) : Prop :=
  c.origin = o ∧
    match c.op with
    | .tableUpsert rec => rec.nodeId = nodeId ∧ rec.state = .active
    | .cachePut manifest => manifest.nodeId = nodeId
    | .storeUpsert manifest => manifest.nodeId = nodeId
    | .utcNow => True
    | _ => False

theorem recordPeer_makes (o : Origin) (manifest : Manifest) (url : String) :
    Makes (RecordsPeer o manifest.nodeId) (fun _ _ => False) (do
      node.rememberManifest o manifest
      let now ← utcNow o
      MembershipTable.upsert o
        (({ nodeId := manifest.nodeId, orgId := some manifest.orgId, manifestUrl := url,
            manifestRevision := manifest.revision } : MemberRecord).admitRecord none now)) := by
  refine (Makes.rememberManifest ⟨rfl, rfl⟩ ⟨rfl, rfl⟩).bind fun _ => ?_
  refine (Makes.call (c := ⟨o, .utcNow⟩) ⟨rfl, trivial⟩ _).bind fun now => ?_
  exact Makes.call (c := ⟨o, .tableUpsert _⟩) ⟨rfl, rfl, rfl⟩ _

theorem RecordsPeer.not_revoked {o : Origin} {nodeId : String} {c : Call}
    {s s' : NodeState} {r : Resp c} (ho : o = .admission ∨ o = .bootstrap)
    (hc : RecordsPeer o nodeId c) (hs : ¬ s.revoked nodeId) (h : Does c s r s') :
    UpsertRule c s ∧ ¬ s'.revoked nodeId := by
  have hrule : ∀ rec, c.op = .tableUpsert rec → UpsertRule c s := by
    intro rec hop
    obtain ⟨o', op⟩ := c
    obtain rfl : op = .tableUpsert rec := hop
    obtain ⟨rfl, hnode, _⟩ := hc
    have hpath : ¬ (o' = .refresh ∨ o' = .discovery) := by
      rcases ho with h | h <;> simp [show o' = _ from h]
    rw [UpsertRule, if_neg hpath, hnode]
    exact .inr hs
  rcases h.table_cases with htable | ⟨rec, hop, rfl⟩
  · refine ⟨?_, mt (revoked_congr htable nodeId).mp hs⟩
    obtain ⟨o', op⟩ := c
    cases op
    case tableUpsert rec => exact hrule rec rfl
    all_goals trivial
  · refine ⟨hrule rec hop, ?_⟩
    obtain ⟨o', op⟩ := c
    obtain rfl : op = .tableUpsert rec := hop
    obtain ⟨_, hnode, hactive⟩ := hc
    rw [revoked_upsert, if_pos hnode, hactive]
    exact PeerState.noConfusion

theorem recordPeer_within {d : Discipline Call Resp NodeState} {I K : NodeState → Prop} {o : Origin}
    {manifest : Manifest} {url : String}
    (hget : ∀ s s₁ r s₂, I s → d.rely s s₁ → d.sem ⟨o, .tableGet manifest.nodeId⟩ s₁ r s₂ →
      d.guar ⟨o, .tableGet manifest.nodeId⟩ s₁ r s₂ ∧ I s₂ ∧
      Does ⟨o, .tableGet manifest.nodeId⟩ s₁ r s₂)
    (hfree : ∀ s, I s → ¬ s.revoked manifest.nodeId → K s)
    (hrely : ∀ s s', K s → d.rely s s' → K s')
    (hcall : ∀ c s r s', RecordsPeer o manifest.nodeId c → K s → d.sem c s r s' →
      d.guar c s r s' ∧ K s') :
    ∃ body, node.recordPeer o manifest url = locked body ∧
      d.Within I (fun _ s => I s ∨ K s) body.run := by
  refine ⟨_, rfl, ?_⟩
  have hlook : d.Within I
      (fun r s => I s ∧ ∀ existing, r = .ok existing →
        existing = s.membershipTable.get manifest.nodeId)
      (MembershipTable.get o manifest.nodeId).run := by
    refine .call (M := fun r s => I s ∧ ∀ existing, r = .ok existing →
      existing = s.membershipTable.get manifest.nodeId) ?_ fun r => .done fun s h => h
    intro s s₁ r s₂ hs hr hsem
    obtain ⟨hg, hi, ⟨e, rfl, rfl⟩ | ⟨rfl, rfl⟩⟩ := hget s s₁ r s₂ hs hr hsem
    · exact ⟨hg, hi, fun _ he => nomatch he⟩
    · exact ⟨hg, hi, fun _ he => (Except.ok.inj he).symm⟩
  refine hlook.run_bind (fun existing => ?_) fun _ _ h => .inl h.1
  dsimp only
  split
  · exact .done fun _ h => .inl h.1
  · rename_i hnot
    have hrest := @Discipline.Within.of_composed _ _ _ _ d K _ _ _ hrely
      (fun c s r s' hc hk hsem => ⟨trivial, hcall c s r s' hc hk hsem⟩) (fun _ _ h => h.elim) _ _
      (@recordPeer_makes node o manifest url)
    refine hrest.mono (fun s hs => hfree s hs.1 fun hrev => ?_) fun _ _ h => .inr h.2
    obtain ⟨rec, hrec, hst⟩ := Option.map_eq_some_iff.mp hrev
    rw [hs.2 existing rfl, hrec] at hnot
    simp [hst] at hnot

theorem recordPeer_sticky {o : Origin} (ho : o = .admission ∨ o = .bootstrap) (manifest : Manifest)
    (url : String) :
    stickyDiscipline.Safe (node.recordPeer o manifest url).run := by
  obtain ⟨body, hbody, hwithin⟩ := @recordPeer_within node stickyDiscipline (fun _ => True)
    (fun s => ¬ s.revoked manifest.nodeId) o manifest url
    (fun s s₁ r s₂ _ _ hdoes => ⟨trivial, trivial, hdoes⟩) (fun s _ h => h)
    (fun s s' hk hr hn => hk (hr _ hn)) (fun c s r s' hc hk hdoes => hc.not_revoked ho hk hdoes)
  rw [hbody]
  exact safe_of_parts (hwithin.mono (fun _ => id) fun _ _ _ => trivial)

theorem stickySections (callbacks : Callbacks) :
    NodeSections P node callbacks (fun _ t => stickyDiscipline.Safe t) where
  record _ manifest url ho _ := recordPeer_sticky ho manifest url
  discovered _ := upsertDiscovered_sticky
  remember manifest _ := rememberDiscovered_sticky manifest
  apply nodeId decision _ := applyRefreshDecision_sticky nodeId decision
  revoke := applyRevocationNotice_sticky

theorem sticky_iff_of_kept {w w' : NodePool} {a : Act Call Resp}
    (hstep : NodeStep Does P node w a w') (hkept : stickyDiscipline.Kept Outside w a w') :
    Sticky w a w' ↔ SparesRevoked w a := by
  cases hstep with
  | spawn | acquire | release => exact iff_of_true (fun n hn => .inl hn) trivial
  | background hb =>
    refine iff_of_true (fun n hn => ?_) trivial
    rcases hb with ⟨t, _, rfl⟩ | ⟨m, rfl⟩
    · exact .inl hn
    · by_cases hm : m = n
      · subst hm
        exact .inr ⟨rfl, rfl⟩
      · exact .inl (revoked_erase.mpr ⟨hm, hn⟩)
  | @call i c k r s' hi hs =>
    obtain ⟨o, op⟩ := c
    by_cases hop : ∃ rec, op = .tableUpsert rec
    · obtain ⟨rec, rfl⟩ := hop
      rcases hs with ⟨e, rfl, rfl⟩ | ⟨rfl, rfl⟩
      · exact iff_of_true (fun n hn => .inl hn) (fun _ hr => nomatch hr)
      have hrule : UpsertRule ⟨o, .tableUpsert rec⟩ w.shared := hkept
      constructor
      · intro hsticky hpath _ hrev
        rw [UpsertRule, if_pos hpath] at hrule
        rcases hsticky rec.nodeId hrev with hstill | ⟨hback, _⟩
        · rw [revoked_upsert, if_pos rfl] at hstill
          exact hrule hstill
        · cases hback
      · intro hspares n hn
        refine .inl (revoked_upsert.mpr ?_)
        by_cases hnode : rec.nodeId = n
        · subst hnode
          rw [if_pos rfl]
          by_cases hpath : o = .refresh ∨ o = .discovery
          · exact absurd hn (hspares hpath rfl)
          · rw [UpsertRule, if_neg hpath] at hrule
            exact hrule.resolve_right (not_not.mpr hn)
        · rw [if_neg hnode]
          exact hn
    · have htable : s'.membershipTable = w.shared.membershipTable := by
        rcases hs.table_cases with htable | ⟨rec, hrec, _⟩
        · exact htable
        · exact absurd ⟨rec, hrec⟩ hop
      refine iff_of_true (fun n hn => .inl ((revoked_congr htable n).mpr hn)) ?_
      cases op
      case tableUpsert rec => exact absurd ⟨rec, rfl⟩ hop
      all_goals trivial

end Sections

/-- In every interleaving, revocation sticks in every step exactly when refresh
and discovery write no record over a revoked one. -/
theorem sticky_iff (P : Platform) (node : FederationNode) {start : NodeState}
    {history : List (Act Call Resp × NodePool)}
    (hrun : Along (NodeStep Does P node) (Pool.start start) history) :
    Along Sticky (Pool.start start) history ↔
      Along (fun w a _ => SparesRevoked w a) (Pool.start start) history := by
  have hsafe : ∀ t, (∃ op : NodeOp, t = (op.run P node).run) → stickyDiscipline.Safe t := by
    rintro _ ⟨op, rfl⟩
    exact op.safe (stickySections anyCallback) fun c s r s' hq hs => ⟨hs, upsertRule_of_quiet hq s⟩
  have hback : ∀ s s', Outside s s' → stickyDiscipline.rely s s' ∧
      (stickyDiscipline.inv s → stickyDiscipline.inv s') :=
    fun s s' hb => ⟨fun n hn => hb.revoked hn, id⟩
  refine Along.iff_of_inv (I := Discipline.Guarded stickyDiscipline) ?_
    (Discipline.Guarded.start trivial) hrun
  intro w a w' hg hs
  obtain ⟨hg', hkept⟩ := hg.step hsafe hback hs
  exact ⟨sticky_iff_of_kept hs hkept, fun _ => hg'⟩

def alphaNotice : RevocationNotice :=
  { federationId := "fed", revokedNodeId := "alpha", reason := "compromised",
    issuedAt := newYear2026
    issuer := "alpha"
    signature := some { keyId := "k1", sig :=
      "XKWKlghaGXFTnqCDIGgIz-wlXEaZ-QLiF_vwvR5uNOT155Wokr1bWZVecaogrs5eSneGFpQYBABIgbXnF-t0Dw" } }

def noticePlatform : Platform :=
  knows
    [(alphaKey,
      "XKWKlghaGXFTnqCDIGgIz-wlXEaZ-QLiF_vwvR5uNOT155Wokr1bWZVecaogrs5eSneGFpQYBABIgbXnF-t0Dw",
    ["\x7b\"federation_id\":\"fed\",\"issued_at\":\"2026-01-01T00:00:00Z\",\"issuer\":\"alpha\",",
      "\"reason\":\"compromised\",\"revoked_node_id\":\"alpha\"\x7d"])]

def beta : FederationNode :=
  { nodeId := "beta", federationId := "fed"
    admissionPolicy := { federationId := "fed", protocolVersions := ["1"] }
    manifestStore := true, allowPrivate := true }

def alphaRecord : MemberRecord :=
  ({ nodeId := "alpha", manifestUrl := "https://alpha.example/manifest" } :
    MemberRecord).admitRecord none newYear2026

def knowingAlpha : NodeState :=
  { emptyNode with
    membershipTable := Keyed.ofList [alphaRecord]
    peerManifests := Keyed.ofList [alphaManifest]
    manifestStore := Keyed.ofList [alphaManifest] }

def refreshAlpha : NodeOp := .refreshPeer "alpha" none 300

def revokeAlpha : NodeOp :=
  .applyRevocationNotice alphaNotice (Keyed.ofList [("k1", alphaKey)]) selfScopedAuthorize

def spawn (i : Nat) (op : NodeOp) : Move Call Resp (Except Exc Unit) :=
  .spawn i (op.run noticePlatform beta).run

/-- The fetch times out, the notice is applied, then the decision is. -/
def lateDecision : List (Move Call Resp (Except Exc Unit)) :=
  spawn 0 refreshAlpha :: List.replicate 3 (.step 0) ++ spawn 1 revokeAlpha :: List.replicate
    7 (.step 1) ++ List.replicate 4 (.step 0)

def earlyNotice : List (Move Call Resp (Except Exc Unit)) :=
  spawn 1 revokeAlpha :: List.replicate 7 (.step 1) ++ spawn 0 refreshAlpha ::
    List.replicate 3 (.step 0)

def historyOf (moves : List (Move Call Resp (Except Exc Unit))) : List (Act Call Resp × NodePool) :=
  (Pool.start knowingAlpha).play silentWorld.handle moves

theorem spawns_ops {P : Platform} {node : FederationNode}
    {moves : List (Move Call Resp (Except Exc Unit))}
    (h : ∀ m ∈ moves, (∃ i op, m = .spawn i (NodeOp.run P node op).run) ∨ ∃ i, m = .step i) :
    ∀ m ∈ moves, ∀ i t, m = .spawn i t → ∃ op : NodeOp, t = (op.run P node).run := by
  rintro m hm i t rfl
  rcases h _ hm with ⟨j, op, he⟩ | ⟨j, he⟩
  · cases he
    exact ⟨op, rfl⟩
  · cases he

theorem historyOf_along {moves : List (Move Call Resp (Except Exc Unit))}
    (h : ∀ m ∈ moves, (∃ i op, m = spawn i op) ∨ ∃ i, m = .step i) :
    Along (NodeStep Does noticePlatform beta) (Pool.start knowingAlpha) (historyOf moves) :=
  Pool.play_along (fun c s => (Env.reliable (fun _ _ => rfl) c s).1) (spawns_ops h)

def Act.isBackground : Act Call Resp → Bool
  | .background => true
  | _ => false

/-- The notice revokes `alpha`; the refresh decision taken before makes the
record merely stale. -/
theorem late_decision_unrevokes :
    Along (NodeStep Does noticePlatform beta) (Pool.start knowingAlpha) (historyOf lateDecision) ∧
      ¬ Along Sticky (Pool.start knowingAlpha) (historyOf lateDecision) := by
  refine ⟨historyOf_along (by simp [lateDecision]), fun hsticky => ?_⟩
  have hkept : Along (fun w a w' => w.shared.revoked "alpha" → w'.shared.revoked "alpha" ∨
      Act.isBackground a = true) (Pool.start knowingAlpha) (historyOf lateDecision) := by
    refine hsticky.mono fun w a w' h hn => (h "alpha" hn).imp_right ?_
    rintro ⟨rfl, _⟩
    rfl
  revert hkept
  decide +kernel

theorem early_notice_sticks : Along Sticky (Pool.start knowingAlpha) (historyOf earlyNotice) := by
  have hrun : Along (NodeStep Does noticePlatform beta) (Pool.start knowingAlpha)
      (historyOf earlyNotice) :=
    historyOf_along (by simp [earlyNotice])
  exact (sticky_iff noticePlatform beta hrun).mpr (by decide +kernel)

end Federlet
