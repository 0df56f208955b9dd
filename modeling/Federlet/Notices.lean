import Federlet.Trust

/-! Revocation notices applied one after another. What a list of them leaves
behind depends on which nodes its valid notices name and on nothing else. -/

namespace Federlet

open Coop

/-- The notice is of the federation, authorized and signed by the trusted key it names. -/
structure Valid (P : Platform) (federationId : String) (keys : Dict JWK)
    (authorize : RevocationNotice → Bool) (notice : RevocationNotice) : Prop where
  federation : notice.federationId = federationId
  authorized : authorize notice = true
  signed : ∃ signature jwk, notice.signature = some signature ∧
    keys.lookup signature.keyId = some jwk ∧
    verifyRevocationNotice P notice jwk = .ok true

def Named (P : Platform) (federationId : String) (keys : Dict JWK)
    (authorize : RevocationNotice → Bool) (notices : List RevocationNotice) (n : String) : Prop :=
  ∃ notice ∈ notices, notice.revokedNodeId = n ∧ Valid P federationId keys authorize notice

section Verdict

variable {P : Platform} {federationId : String} {keys : Dict JWK}
  {authorize : RevocationNotice → Bool} {notice : RevocationNotice}

theorem effective_true_iff : notice.effective P federationId keys authorize = .ok true ↔
    Valid P federationId keys authorize notice := by
  constructor
  · intro h
    cases hs : notice.signature with
    | none => simp [RevocationNotice.effective, hs] at h
    | some signature =>
      simp only [RevocationNotice.effective, hs] at h
      by_cases hfederation : notice.federationId = federationId
      · cases hauthorized : authorize notice with
        | false => simp [hfederation, hauthorized] at h
        | true =>
          cases hkey : keys.lookup signature.keyId with
          | none => simp [hfederation, hauthorized, hkey] at h
          | some jwk =>
            simp only [hfederation, hauthorized, hkey, ne_eq, not_true_eq_false, ↓reduceIte,
              Bool.not_true, Bool.false_eq_true] at h
            exact ⟨hfederation, hauthorized, signature, jwk, hs, hkey, h⟩
      · simp [hfederation] at h
  · rintro ⟨hfederation, hauthorized, signature, jwk, hs, hkey, hverified⟩
    simp [RevocationNotice.effective, hs, hfederation, hauthorized, hkey, hverified]

def RevocationNotice.representable (notice : RevocationNotice) : Prop :=
  notice.issuedAt.utcRepresentable = true ∧ ∀ t, notice.expiresAt = some t →
    t.utcRepresentable = true

theorem verifyRevocationNotice_total
    (hdumps : ∀ j : Json, j.safe = true → ∃ data, P.rfc8785Dumps j = .ok data)
    (htimes : notice.representable) {signature : Signature} (hs : notice.signature = some signature)
    {jwk : JWK} (hkey : lacksX jwk = false) : ∃ b, verifyRevocationNotice P notice jwk = .ok b := by
  obtain ⟨issued, hissued⟩ : ∃ text, serTs notice.issuedAt = .ok (.str text) :=
    ⟨_, serTs_of_representable htimes.1⟩
  obtain ⟨expires, hexpires, hstrings⟩ :
      ∃ fields, optionalTs "expires_at" notice.expiresAt = .ok fields ∧
      ∀ kv ∈ fields, kv.1 = "expires_at" ∧ ∃ text, kv.2 = .str text := by
    cases ht : notice.expiresAt with
    | none => exact ⟨[], rfl, by simp⟩
    | some t =>
      have htext := serTs_of_representable (htimes.2 t ht)
      exact ⟨_, by rw [optionalTs, htext]; rfl, by simp⟩
  have hfields :
      ∀ kv ∈ [("federation_id", Json.str notice.federationId),
        ("revoked_node_id", .str notice.revokedNodeId),
      ("reason", .str notice.reason), ("issued_at", .str issued)] ++ expires ++
    [("issuer", .str notice.issuer)],
      kv.1 ≠ "signature" ∧ ∃ text, kv.2 = .str text := by
    intro kv hkv
    simp only [List.mem_append, List.mem_cons, List.not_mem_nil, or_false] at hkv
    rcases hkv with ((rfl | rfl | rfl | rfl) | hkv) | rfl
    case inl.inr =>
      obtain ⟨hname, htext⟩ := hstrings kv hkv
      exact ⟨by rw [hname]; decide, htext⟩
    all_goals exact ⟨by simp, _, rfl⟩
  generalize hall :
    [("federation_id", Json.str notice.federationId),
      ("revoked_node_id", .str notice.revokedNodeId),
    ("reason", .str notice.reason), ("issued_at", .str issued)] ++ expires ++
    [("issuer", .str notice.issuer)] = fields at hfields
  have hdump : Model.dump notice =
      .ok (fields ++ optional "signature" Signature.toJson (some signature)) := by
    simp only [Model.dump, hissued, hexpires, hs, ← hall]
    rfl
  have hsafe : Json.safe (.obj fields) = true := by
    have hstr : ∀ l : List (String × Json), (∀ kv ∈ l, ∃ text, kv.2 = .str text) →
        Json.safeFields l = true := by
      intro l
      induction l with
      | nil => intro _; rfl
      | cons kv l ih =>
        intro hl
        obtain ⟨⟨text, htext⟩, hrest⟩ := List.forall_mem_cons.mp hl
        obtain ⟨k, v⟩ := kv
        obtain rfl : v = .str text := htext
        simpa [Json.safeFields, Json.safe] using ih hrest
    exact hstr fields fun kv hkv => (hfields kv hkv).2
  obtain ⟨data, hdata⟩ := hdumps _ hsafe
  have hverify : verifyRevocationNotice P notice jwk = verifyBytes P jwk signature.sig data := by
    rw [verifyRevocationNotice, verifyModel, hdump]
    refine (verifyDict_signed fun kv hkv => (hfields kv hkv).1).trans ?_
    rw [canonicalBytes, hdata]
    rfl
  rw [hverify]
  cases hv : verifyBytes P jwk signature.sig data with
  | ok b => exact ⟨b, rfl⟩
  | error e =>
    have hlacks := verifyBytes_error_iff.mp ⟨e, hv⟩
    simp [hkey] at hlacks

theorem effective_total (hdumps : ∀ j : Json, j.safe = true → ∃ data, P.rfc8785Dumps j = .ok data)
    (hkeys : ∀ keyId jwk, keys.lookup keyId = some jwk → lacksX jwk = false)
    (htimes : notice.representable) :
    ∃ verdict, notice.effective P federationId keys authorize = .ok verdict := by
  cases hs : notice.signature with
  | none => exact ⟨false, by simp [RevocationNotice.effective, hs]⟩
  | some signature =>
    simp only [RevocationNotice.effective, hs]
    split_ifs
    · exact ⟨false, rfl⟩
    · exact ⟨false, rfl⟩
    · cases hkey : keys.lookup signature.keyId with
      | none => exact ⟨false, rfl⟩
      | some jwk => exact verifyRevocationNotice_total hdumps htimes hs (hkeys _ _ hkey)

end Verdict

section Apply

variable {P : Platform} {node : FederationNode} {keys : Dict JWK}
  {authorize : RevocationNotice → Bool} {s s₁ s' : NodeState} {n : String}

/-- What the named nodes make of a state: their records are revoked, the manifests
of those not revoked before are gone, and nothing else has changed. -/
structure Revoked (node : FederationNode) (named : String → Prop) (s s' : NodeState) : Prop where
  revokes : ∀ n rec, s.membershipTable.get n = some rec → named n →
    ∃ now, s'.membershipTable.get n = some (rec.setState .revoked now)
  spares : ∀ n, ¬ named n ∨ s.membershipTable.get n = none →
    s'.membershipTable.get n = s.membershipTable.get n
  evicted : ∀ n, s'.revoked n → ¬ s.revoked n → Absent node n s'
  cached : ∀ n, s.revoked n ∨ ¬ s'.revoked n → s'.peerManifests.get n = s.peerManifests.get n
  stored : ∀ n, s.revoked n ∨ ¬ s'.revoked n → s'.manifestStore.get n = s.manifestStore.get n

theorem revoked_of_get {rec : MemberRecord} (h : s.membershipTable.get n = some rec) :
    s.revoked n ↔ rec.state = .revoked := by
  simp [NodeState.revoked, NodeState.stateOf, h]

theorem not_revoked_of_get (h : s.membershipTable.get n = none) : ¬ s.revoked n := by
  simp [NodeState.revoked, NodeState.stateOf, h]

variable {named named₁ named₂ : String → Prop}

theorem Revoked.revoked_iff (h : Revoked node named s s') :
    s'.revoked n ↔ s.revoked n ∨ (Recorded n s ∧ named n) := by
  cases hrec : s.membershipTable.get n with
  | none =>
    have hsame := h.spares n (.inr hrec)
    rw [hrec] at hsame
    have hnot := not_revoked_of_get hrec
    have hnot' := not_revoked_of_get hsame
    simp [hnot, hnot', Recorded, hrec]
  | some rec =>
    by_cases hn : named n
    · obtain ⟨now, hafter⟩ := h.revokes n rec hrec hn
      simp [revoked_of_get hafter, Recorded, hrec, hn]
    · have hsame := h.spares n (.inl hn)
      rw [hrec] at hsame
      simp [revoked_of_get hsame, revoked_of_get hrec, hn]

theorem Revoked.recorded_iff (h : Revoked node named s s') : Recorded n s' ↔ Recorded n s := by
  cases hrec : s.membershipTable.get n with
  | none => rw [Recorded, Recorded, h.spares n (.inr hrec)]
  | some rec =>
    have hbefore : Recorded n s := ⟨rec, hrec⟩
    refine iff_of_true ?_ hbefore
    by_cases hn : named n
    · obtain ⟨now, hafter⟩ := h.revokes n rec hrec hn
      exact ⟨_, hafter⟩
    · exact ⟨rec, (h.spares n (.inl hn)).trans hrec⟩

theorem Revoked.refl (node : FederationNode) (s : NodeState) : Revoked node (fun _ => False) s s :=
  ⟨fun _ _ _ h => h.elim, fun _ _ => rfl, fun _ h hnot => absurd h hnot, fun _ _ =>
    rfl, fun _ _ => rfl⟩

theorem Revoked.trans (h₁ : Revoked node named₁ s s₁) (h₂ : Revoked node named₂ s₁ s') :
    Revoked node (fun n => named₁ n ∨ named₂ n) s s' := by
  have hkept : ∀ n, s.revoked n → s₁.revoked n := fun n hn => h₁.revoked_iff.mpr (.inl hn)
  have hkept' : ∀ n, s₁.revoked n → s'.revoked n := fun n hn => h₂.revoked_iff.mpr (.inl hn)
  have hmiddle : ∀ n, s.revoked n ∨ ¬ s'.revoked n → (s.revoked n ∨ ¬ s₁.revoked n) ∧
      (s₁.revoked n ∨ ¬ s'.revoked n) := by
    intro n hn
    have h₁ := hkept n
    have h₂ := hkept' n
    tauto
  refine ⟨?_, ?_, ?_, ?_, ?_⟩
  · intro n rec hrec hn
    by_cases hfirst : named₁ n
    · obtain ⟨now, hrec₁⟩ := h₁.revokes n rec hrec hfirst
      by_cases hsecond : named₂ n
      · obtain ⟨now', hrec'⟩ := h₂.revokes n _ hrec₁ hsecond
        exact ⟨now', hrec'⟩
      · exact ⟨now, (h₂.spares n (.inl hsecond)).trans hrec₁⟩
    · have hrec₁ := (h₁.spares n (.inl hfirst)).trans hrec
      exact h₂.revokes n rec hrec₁ (hn.resolve_left hfirst)
  · intro n hn
    have hfirst : ¬ named₁ n ∨ s.membershipTable.get n = none := hn.imp_left fun h =>
      fun h' => h (.inl h')
    have hsame := h₁.spares n hfirst
    have hsecond : ¬ named₂ n ∨ s₁.membershipTable.get n = none := by
      rw [hsame]
      exact hn.imp_left fun h => fun h' => h (.inr h')
    exact (h₂.spares n hsecond).trans hsame
  · intro n hn hnot
    by_cases hn₁ : s₁.revoked n
    · have habsent := h₁.evicted n hn₁ hnot
      refine ⟨(h₂.cached n (.inl hn₁)).trans habsent.1, fun hstore => ?_⟩
      exact (h₂.stored n (.inl hn₁)).trans (habsent.2 hstore)
    · exact h₂.evicted n hn hn₁
  · intro n hn
    obtain ⟨hfirst, hsecond⟩ := hmiddle n hn
    exact (h₂.cached n hsecond).trans (h₁.cached n hfirst)
  · intro n hn
    obtain ⟨hfirst, hsecond⟩ := hmiddle n hn
    exact (h₂.stored n hsecond).trans (h₁.stored n hfirst)

theorem Revoked.congr (h : Revoked node named s s₁)
    (htable : s'.membershipTable = s₁.membershipTable)
    (hcache : s'.peerManifests = s₁.peerManifests) (hstore : s'.manifestStore = s₁.manifestStore) :
    Revoked node named s s' := by
  have hrevoked : ∀ n, s'.revoked n ↔ s₁.revoked n := fun n => revoked_congr htable n
  refine ⟨?_, ?_, ?_, ?_, ?_⟩
  · simpa only [htable] using h.revokes
  · simpa only [htable] using h.spares
  · intro n hn hnot
    exact (h.evicted n ((hrevoked n).mp hn) hnot).congr ⟨hcache, hstore⟩
  · simpa only [hcache, hrevoked] using h.cached
  · simpa only [hstore, hrevoked] using h.stored

theorem Passes.store (h : Passes s s') : s'.manifestStore = s.manifestStore := by
  obtain ⟨t, _, rfl⟩ := h
  rfl

theorem Trust.absent (h : Trust node s) (hnot : ¬ Standing n s) : Absent node n s := by
  have hcache : s.peerManifests.get n = none := by
    by_contra hsome
    obtain ⟨manifest, hm⟩ := Option.ne_none_iff_exists'.mp hsome
    exact hnot ((h.cached n).mp ⟨manifest, hm⟩)
  refine ⟨hcache, fun hstore => ?_⟩
  by_contra hsome
  obtain ⟨manifest, hm⟩ := Option.ne_none_iff_exists'.mp hsome
  obtain ⟨manifest', hm'⟩ := h.stored hstore n manifest hm
  rw [hcache] at hm'
  cases hm'

theorem not_standing_of_revoked (h : s.revoked n) : ¬ Standing n s := by
  rintro ⟨rec, hrec, hstands⟩
  exact hstands.1 ((revoked_of_get hrec).mp h)

theorem forget_get (node : FederationNode) (k n : String) (s : NodeState) (hne : k ≠ n) :
    (s.forget node k).peerManifests.get n = s.peerManifests.get n ∧
      (s.forget node k).manifestStore.get n = s.manifestStore.get n := by
  refine ⟨Keyed.get_erase_ne _ hne, ?_⟩
  simp only [NodeState.forget]
  split
  · exact Keyed.get_erase_ne _ hne
  · rfl

theorem forget_absent (node : FederationNode) (n : String) (s : NodeState) :
    Absent node n (s.forget node n) := by
  refine ⟨Keyed.get_erase_self _ n, fun hstore => ?_⟩
  simp [NodeState.forget, hstore, Keyed.get_erase_self]

theorem forget_of_absent (h : Absent node n s) (k : String) :
    (s.forget node n).peerManifests.get k = s.peerManifests.get k ∧
      (s.forget node n).manifestStore.get k = s.manifestStore.get k := by
  by_cases hk : n = k
  · subst hk
    have hafter := forget_absent node n s
    refine ⟨hafter.1.trans h.1.symm, ?_⟩
    cases hstore : node.manifestStore with
    | true => exact (hafter.2 hstore).trans (h.2 hstore).symm
    | false => simp [NodeState.forget, hstore]
  · exact forget_get node n k s hk

theorem Trust.revoked_heed (h : Trust node s) (k : String) (verdict : Bool) (now : DateTime) :
    Revoked node (fun n => n = k ∧ verdict = true) s (s.heed node k verdict now) := by
  have hsame : Revoked node (fun n => n = k ∧ verdict = true) s s ∨
      (Recorded k s ∧ verdict = true) := by
    by_cases hboth : Recorded k s ∧ verdict = true
    · exact .inr hboth
    · refine .inl ⟨?_, fun _ _ => rfl, fun _ hn hnot => absurd hn hnot, fun _ _ =>
        rfl, fun _ _ => rfl⟩
      rintro n rec hrec ⟨rfl, hverdict⟩
      exact absurd ⟨⟨rec, hrec⟩, hverdict⟩ hboth
  cases hrec : s.membershipTable.get k with
  | none =>
    rcases hsame with hsame | ⟨⟨rec, hrec'⟩, _⟩
    · simpa only [NodeState.heed, hrec] using hsame
    · rw [hrec] at hrec'
      cases hrec'
  | some rec =>
    have hnode : rec.nodeId = k := Keyed.key_of_get hrec
    cases hverdict : verdict with
    | false =>
      have hnone := hsame.resolve_right fun hboth => by simp [hverdict] at hboth
      rw [hverdict] at hnone
      by_cases hrevoked : rec.state = .revoked
      · have habsent := h.absent (not_standing_of_revoked ((revoked_of_get hrec).mpr hrevoked))
        have hheed : s.heed node k false now = s.forget node k :=
          by simp [NodeState.heed, hrec, hrevoked]
        have hkept := forget_of_absent habsent
        rw [hheed]
        refine ⟨hnone.revokes, hnone.spares, fun n hn hnot => absurd hn hnot, fun n _ =>
          (hkept n).1, fun n _ => (hkept n).2⟩
      · simpa [NodeState.heed, hrec, hrevoked] using hnone
    | true =>
      have hheed : s.heed node k true now = (s.file (rec.setState .revoked now)).forget node k := by
        simp [NodeState.heed, hrec]
      have htable : ∀ n, (s.heed node k true now).membershipTable.get n =
          if k = n then some (rec.setState .revoked now) else s.membershipTable.get n := by
        intro n
        rw [hheed, ← hnode]
        exact Keyed.get_upsert _ _ _
      have hkept : ∀ n, k ≠ n → (s.heed node k true now).peerManifests.get n =
          s.peerManifests.get n ∧
          (s.heed node k true now).manifestStore.get n = s.manifestStore.get n := by
        intro n hne
        rw [hheed]
        exact forget_get node k n _ hne
      have hbut : ∀ n, k ≠ n → ((s.heed node k true now).revoked n ↔ s.revoked n) := by
        intro n hne
        rw [NodeState.revoked, NodeState.stateOf, htable n, if_neg hne]
        rfl
      have hself : (s.heed node k true now).revoked k :=
        (revoked_of_get ((htable k).trans (if_pos rfl))).mpr rfl
      refine ⟨?_, ?_, ?_, ?_, ?_⟩
      · rintro n rec' hrec' ⟨rfl, _⟩
        rw [hrec] at hrec'
        cases hrec'
        exact ⟨now, (htable n).trans (if_pos rfl)⟩
      · intro n hn
        have hne : k ≠ n := by
          rintro rfl
          simp [hrec] at hn
        rw [htable n, if_neg hne]
      · intro n hn hnot
        by_cases hk : k = n
        · subst hk
          rw [hheed]
          exact forget_absent node k _
        · exact absurd ((hbut n hk).mp hn) hnot
      all_goals
        intro n hn
        by_cases hk : k = n
        · subst hk
          have hbefore : s.revoked k := hn.resolve_right fun hnot => hnot hself
          have habsent := h.absent (not_standing_of_revoked hbefore)
          rw [hheed]
          first
            | exact (forget_of_absent (s := s.file (rec.setState .revoked now)) habsent k).1
            | exact (forget_of_absent (s := s.file (rec.setState .revoked now)) habsent k).2
        · first
            | exact (hkept n hk).1
            | exact (hkept n hk).2

theorem Revoked.of_named_iff (h : Revoked node named s s')
    (hnamed : ∀ n, Recorded n s → (named n ↔ named₁ n)) :
    Revoked node named₁ s s' := by
  refine ⟨?_, ?_, h.evicted, h.cached, h.stored⟩
  · intro n rec hrec hn
    exact h.revokes n rec hrec ((hnamed n ⟨rec, hrec⟩).mpr hn)
  · intro n hn
    cases hrec : s.membershipTable.get n with
    | none => rw [h.spares n (.inr hrec), hrec]
    | some rec =>
      have hnot : ¬ named₁ n := hn.resolve_right (by simp [hrec])
      have hsame := h.spares n (.inl fun hn' => hnot ((hnamed n ⟨rec, hrec⟩).mp hn'))
      rw [hsame, hrec]

def applyNotice (keys : Dict JWK) (authorize : RevocationNotice → Bool)
    (notice : RevocationNotice) : LifecycleOp :=
  .operation (.applyRevocationNotice notice keys authorize)

theorem applyNotice_revoked (h : Trust node s) (notice : RevocationNotice) :
    Task.Returns Does Passes ((applyNotice keys authorize notice).run P node) s fun _ _ s' =>
      Trust node s' ∧
      Revoked node (fun n => notice.revokedNodeId = n ∧
        Valid P node.federationId keys authorize notice) s s' := by
  refine Task.Returns.bind
    (Task.Returns.mono (applyRevocationNotice_returns narrows_does notice keys authorize s) ?_)
  rintro _ _ s₁ ⟨verdict, now, hverdict, hs₁⟩
  have hstep := h.revoked_heed notice.revokedNodeId verdict now
  refine Task.Returns.pure ⟨(h.heed _ verdict now).of_passes hs₁, ?_⟩
  refine (hstep.of_named_iff ?_).congr hs₁.table hs₁.cache hs₁.store
  intro n hn
  constructor
  · rintro ⟨rfl, rfl⟩
    exact ⟨rfl, effective_true_iff.mp (hverdict hn)⟩
  · rintro ⟨rfl, hvalid⟩
    have hboth := (hverdict hn).symm.trans (effective_true_iff.mpr hvalid)
    exact ⟨rfl, Except.ok.inj hboth⟩

theorem Sequence.revoked {ops : List (LifecycleOp × Except Exc Unit)} {tr : Trace}
    {notices : List RevocationNotice} (h : Sequence P node s ops tr s')
    (hops : ops.map Prod.fst = notices.map (applyNotice keys authorize))
    (hcompleted : Completed ops) (hs : Trust node s) :
    Revoked node (Named P node.federationId keys authorize notices) s s' := by
  induction h generalizing notices with
  | nil s =>
    obtain rfl : notices = [] := by simpa using hops.symm
    refine (Revoked.refl node s).of_named_iff fun n _ => ?_
    simp [Named]
  | @cons s s₁ s₂ s' op r tr tr' ops hidle hrun hrest ih =>
    cases notices with
    | nil => simp at hops
    | cons notice notices =>
      obtain ⟨rfl, hothers⟩ := List.cons.inj hops
      obtain ⟨hr, hcompleted⟩ := List.forall_mem_cons.mp hcompleted
      obtain ⟨hs₂, hstep⟩ := applyNotice_revoked (hs.of_passes hidle) notice _ _ _ hrun () hr
      have hidles : Revoked node (fun _ => False) s s₁ :=
        (Revoked.refl node s).congr hidle.table hidle.cache hidle.store
      refine ((hidles.trans hstep).trans (ih hothers hcompleted hs₂)).of_named_iff fun n _ => ?_
      simp [Named]

theorem applyNotice_finishes
    (hdumps : ∀ j : Json, j.safe = true → ∃ data, P.rfc8785Dumps j = .ok data)
    (hkeys : ∀ keyId jwk, keys.lookup keyId = some jwk → lacksX jwk = false)
    {notice : RevocationNotice} (htimes : notice.representable) :
    Task.Finishes Reliable Passes ((applyNotice keys authorize notice).run P node)
      (fun _ => True) := by
  have hstore : ∀ {c : Call} {α : Type} (g : Resp c → Except Exc α),
      (∀ s r s', Reliable c s r s' → ∃ a, g r = .ok a) →
      Task.Finishes Reliable Passes (ExceptT.mk (.call c fun r => .done (g r)))
        (fun _ => True) := by
    intro c α g hg
    refine Task.Finishes.call fun s r s' hsem => ?_
    obtain ⟨a, ha⟩ := hg s r s' hsem
    exact ⟨a, ha, trivial⟩
  have hwrite : ∀ {α : Type} (r : Except Exc α), ¬ (∃ e, r = .error e) → ∃ a, r = .ok a := by
    intro α r hr
    cases r with
    | ok a => exact ⟨a, rfl⟩
    | error e => exact absurd ⟨e, rfl⟩ hr
  have hforget : Task.Finishes Reliable Passes
      (node.forgetManifest .revocation notice.revokedNodeId) (fun _ => True) := by
    refine (hstore (c := ⟨.revocation, .cachePop _⟩) (fun r => .ok r) fun _ r _ _ => ⟨r, rfl⟩).bind
      fun _ _ => ?_
    split
    · exact hstore (c := ⟨.revocation, .storeDelete _⟩) (fun r => r) fun _ r _ h => hwrite r h.2
    · exact Task.Finishes.pure trivial
  have happly : Task.Finishes Reliable Passes
      (applyMembershipRevocationNotice P notice node.federationId keys authorize)
      (fun _ => True) := by
    rw [applyMembershipRevocationNotice_eq]
    refine (hstore (c := ⟨.revocation, .tableGet _⟩) (fun r => r) fun _ r _ h => hwrite r h.2).bind
      fun rec? _ => ?_
    cases rec? with
    | none => exact Task.Finishes.pure trivial
    | some rec =>
      obtain ⟨verdict, hverdict⟩ := @effective_total P node.federationId keys authorize notice
        hdumps hkeys htimes
      refine Task.Finishes.bind (P := fun _ => True)
        (Task.Finishes.lift ⟨verdict, hverdict, trivial⟩) fun _ _ => ?_
      split
      · exact Task.Finishes.pure trivial
      refine (hstore (c := ⟨.revocation, .utcNow⟩) (fun r => .ok r) fun _ r _ _ => ⟨r, rfl⟩).bind
        fun now _ => ?_
      refine (hstore (c := ⟨.revocation, .tableUpsert _⟩) (fun r => r) fun _ r _ h =>
        hwrite r h.2).bind fun _ _ => ?_
      exact Task.Finishes.pure trivial
  refine Task.Finishes.bind (P := fun _ => True)
    (Task.Finishes.locked (happly.bind fun state _ => ?_)) fun _ _ =>
    Task.Finishes.pure trivial
  split
  · exact hforget.bind fun _ _ => Task.Finishes.pure trivial
  · exact Task.Finishes.pure trivial

theorem Sequence.completed {ops : List (LifecycleOp × Except Exc Unit)} {tr : Trace}
    (h : Sequence P node s ops tr s') (hstores : ∀ ev ∈ tr, ¬ storeRaised ev.eff ev.resp)
    (hops : ∀ op ∈ ops.map Prod.fst, Task.Finishes Reliable Passes (op.run P node)
      (fun _ => True)) :
    Completed ops := by
  induction h with
  | nil s => simp [Completed]
  | @cons s s₁ s₂ s' op r tr tr' ops hidle hrun hrest ih =>
    obtain ⟨hhead, htail⟩ := List.forall_mem_append.mp hstores
    obtain ⟨hop, hops⟩ := List.forall_mem_cons.mp hops
    obtain ⟨_, hr, _⟩ := hop s₁ _ _ _ (hrun.restrict hhead)
    exact List.forall_mem_cons.mpr ⟨hr, ih htail hops⟩

/-- The records named by a valid notice are revoked, and only they; the cache and
the store lose the manifests of those not revoked before, and no others. -/
structure RevokesExactly (P : Platform) (node : FederationNode) (keys : Dict JWK)
    (authorize : RevocationNotice → Bool) (notices : List RevocationNotice) (s s' : NodeState) :
    Prop where
  revoked : ∀ n, s'.revoked n ↔ s.revoked n ∨
    (Recorded n s ∧ Named P node.federationId keys authorize notices n)
  recorded : ∀ n, Recorded n s' ↔ Recorded n s
  others : ∀ n, ¬ s'.revoked n ∨ ¬ Named P node.federationId keys authorize notices n →
    s'.membershipTable.get n = s.membershipTable.get n
  lost : ∀ n, s'.revoked n → ¬ s.revoked n → Absent node n s'
  kept : ∀ n, s.revoked n ∨ ¬ s'.revoked n → s'.peerManifests.get n = s.peerManifests.get n ∧
    s'.manifestStore.get n = s.manifestStore.get n

theorem Revoked.exactly {notices : List RevocationNotice}
    (h : Revoked node (Named P node.federationId keys authorize notices) s s') :
    RevokesExactly P node keys authorize notices s s' := by
  refine ⟨fun n => h.revoked_iff, fun n => h.recorded_iff, ?_, h.evicted, fun n hn =>
    ⟨h.cached n hn, h.stored n hn⟩⟩
  intro n hn
  refine h.spares n ?_
  by_cases hnamed : Named P node.federationId keys authorize notices n
  · right
    by_contra hsome
    obtain ⟨rec, hrec⟩ := Option.ne_none_iff_exists'.mp hsome
    exact (hn.resolve_right (not_not.mpr hnamed)) (h.revoked_iff.mpr (.inr ⟨⟨rec, hrec⟩, hnamed⟩))
  · exact .inl hnamed

/-- The same records up to the times they were stamped with, and the same manifests. -/
def SameStates (node : FederationNode) (s s' : NodeState) : Prop :=
  ∀ n, (s.membershipTable.get n).map (fun rec => { rec with lastRefresh := none }) =
      (s'.membershipTable.get n).map (fun rec => { rec with lastRefresh := none }) ∧
    s.peerManifests.get n = s'.peerManifests.get n ∧
    (node.manifestStore = true → s.manifestStore.get n = s'.manifestStore.get n)

theorem Revoked.sameStates {s'' : NodeState} (h : Revoked node named s s')
    (h' : Revoked node named s s'') :
    SameStates node s' s'' := by
  intro n
  refine ⟨?_, ?_⟩
  · cases hrec : s.membershipTable.get n with
    | none => rw [h.spares n (.inr hrec), h'.spares n (.inr hrec)]
    | some rec =>
      by_cases hn : named n
      · obtain ⟨now, hafter⟩ := h.revokes n rec hrec hn
        obtain ⟨now', hafter'⟩ := h'.revokes n rec hrec hn
        simp [hafter, hafter', MemberRecord.setState, MemberRecord.touch]
      · rw [h.spares n (.inl hn), h'.spares n (.inl hn)]
  · have hsame : s'.revoked n ↔ s''.revoked n := h.revoked_iff.trans h'.revoked_iff.symm
    by_cases hkept : s.revoked n ∨ ¬ s'.revoked n
    · have hkept' := hkept
      rw [hsame] at hkept'
      rw [h.cached n hkept, h'.cached n hkept', h.stored n hkept, h'.stored n hkept']
      exact ⟨rfl, fun _ => rfl⟩
    · obtain ⟨hnot, hrevoked⟩ := not_or.mp hkept
      have hlost := h.evicted n (not_not.mp hrevoked) hnot
      have hlost' := h'.evicted n (hsame.mp (not_not.mp hrevoked)) hnot
      exact ⟨hlost.1.trans hlost'.1.symm, fun hstore => (hlost.2 hstore).trans
        (hlost'.2 hstore).symm⟩

end Apply

/-- Applying a list of notices in a reachable state completes, revokes exactly what
its valid notices name, and comes to the same in any order. -/
theorem revocations_exact (P : Platform) (node : FederationNode) (keys : Dict JWK)
    (authorize : RevocationNotice → Bool)
    (hdumps : ∀ j : Json, j.safe = true → ∃ data, P.rfc8785Dumps j = .ok data)
    (hkeys : ∀ keyId jwk, keys.lookup keyId = some jwk → lacksX jwk = false)
    {origin s s' : NodeState} {before ops : List (LifecycleOp × Except Exc Unit)} {tr₀ tr : Trace}
    (hempty : Empty node origin) (hreach : Sequence P node origin before tr₀ s)
    (hcompleted : Completed before) {notices : List RevocationNotice}
    (htimes : ∀ notice ∈ notices, notice.representable)
    (hops : ops.map Prod.fst = notices.map (applyNotice keys authorize))
    (hrun : Sequence P node s ops tr s') (hstores : ∀ ev ∈ tr, ¬ storeRaised ev.eff ev.resp) :
    Completed ops ∧ RevokesExactly P node keys authorize notices s s' ∧
      ∀ reordered : List RevocationNotice, reordered.Perm notices → ∀ ops' tr' s'',
        ops'.map Prod.fst = reordered.map (applyNotice keys authorize) →
          Sequence P node s ops' tr' s'' →
        (∀ ev ∈ tr', ¬ storeRaised ev.eff ev.resp) → SameStates node s' s'' := by
  have hs := hreach.trust hcompleted hempty.trust
  have hcompletes : ∀ {notices : List RevocationNotice} {ops tr s'},
      (∀ notice ∈ notices, notice.representable) →
      ops.map Prod.fst = notices.map (applyNotice keys authorize) → Sequence P node s ops tr s' →
      (∀ ev ∈ tr, ¬ storeRaised ev.eff ev.resp) → Completed ops := by
    intro notices ops tr s' htimes hops hrun hstores
    refine hrun.completed hstores fun op hop => ?_
    rw [hops] at hop
    obtain ⟨notice, hnotice, rfl⟩ := List.mem_map.mp hop
    exact applyNotice_finishes hdumps hkeys (htimes notice hnotice)
  have hall := hcompletes htimes hops hrun hstores
  have hrevoked := hrun.revoked hops hall hs
  refine ⟨hall, hrevoked.exactly, ?_⟩
  intro reordered hperm ops' tr' s'' hops' hrun' hstores'
  have htimes' : ∀ notice ∈ reordered, notice.representable :=
    fun notice h => htimes notice (hperm.subset h)
  have hrevoked' := hrun'.revoked hops' (hcompletes htimes' hops' hrun' hstores') hs
  refine hrevoked.sameStates (hrevoked'.of_named_iff fun n _ => ?_)
  simp only [Named, hperm.mem_iff]

/-- A valid notice leaves no trust exactly when the node has a record, or there
was nothing to forget. -/
theorem notice_ends_trust_iff (P : Platform) (node : FederationNode) (keys : Dict JWK)
    (authorize : RevocationNotice → Bool) {notice : RevocationNotice}
    (hvalid : Valid P node.federationId keys authorize notice) {s s' : NodeState} {tr : Trace}
    {state : Option PeerState}
    (hrun : Task.Runs Does Passes (node.applyRevocationNotice P notice keys authorize).run s tr
      (.ok state) s') :
    (Absent node notice.revokedNodeId s' ∧ Unknown P node notice.revokedNodeId s') ↔
      Recorded notice.revokedNodeId s ∨ Absent node notice.revokedNodeId s := by
  obtain ⟨verdict, now, hverdict, hs'⟩ :=
    applyRevocationNotice_returns narrows_does notice keys authorize s _ _ _ hrun state rfl
  have hsame : Absent node notice.revokedNodeId s' ↔
      Absent node notice.revokedNodeId (s.heed node notice.revokedNodeId verdict now) := by
    rw [Absent, Absent, hs'.cache, hs'.store]
  have hleft : (Absent node notice.revokedNodeId s' ∧ Unknown P node notice.revokedNodeId s') ↔
      Absent node notice.revokedNodeId (s.heed node notice.revokedNodeId verdict now) := by
    constructor
    · exact fun h => hsame.mp h.1
    · intro h
      have habsent := hsame.mpr h
      exact ⟨habsent, unknown_of_absent habsent.1⟩
  rw [hleft]
  cases hrec : s.membershipTable.get notice.revokedNodeId with
  | none => simp [NodeState.heed, hrec, Recorded]
  | some rec =>
    have hrecorded : Recorded notice.revokedNodeId s := ⟨rec, hrec⟩
    have htrue := (hverdict hrecorded).symm.trans (effective_true_iff.mpr hvalid)
    obtain rfl : verdict = true := Except.ok.inj htrue
    have hheed : s.heed node notice.revokedNodeId true now =
        (s.file (rec.setState .revoked now)).forget node notice.revokedNodeId :=
          by simp [NodeState.heed, hrec]
    rw [hheed]
    exact iff_of_true (forget_absent node _ _) (.inl hrecorded)

def learnGamma : List LifecycleOp := [.operation admitAlpha, .operation discoverGamma]

def afterLearning : List (LifecycleOp × Except Exc Unit) × Trace × NodeState :=
  playOps hintPlatform beta hintWorld learnGamma emptyNode

def gammaKeys : Dict JWK := Keyed.ofList [("k1", gammaKey)]

def noticeTwice : List RevocationNotice := [gammaNotice, gammaNotice]

def afterNotices : List (LifecycleOp × Except Exc Unit) × Trace × NodeState :=
  playOps hintPlatform beta hintWorld (noticeTwice.map (applyNotice gammaKeys selfScopedAuthorize))
    afterLearning.2.2

theorem afterLearning_eq :
    playOps hintPlatform beta hintWorld learnGamma emptyNode = afterLearning := by
  rw [afterLearning]

theorem afterNotices_eq :
    playOps hintPlatform beta hintWorld
      (noticeTwice.map (applyNotice gammaKeys selfScopedAuthorize)) afterLearning.2.2 =
      afterNotices := by
  rw [afterNotices]

theorem gamma_notices_exact :
    (afterNotices.2.2.stateOf "gamma" = some .revoked ∧
      afterNotices.2.2.stateOf "alpha" = some .active) ∧
    Completed afterNotices.1 ∧
    RevokesExactly hintPlatform beta gammaKeys selfScopedAuthorize noticeTwice afterLearning.2.2
      afterNotices.2.2 ∧
    ∀ reordered : List RevocationNotice, reordered.Perm noticeTwice → ∀ ops' tr' s'',
      ops'.map Prod.fst = reordered.map (applyNotice gammaKeys selfScopedAuthorize) →
      Sequence hintPlatform beta afterLearning.2.2 ops' tr' s'' →
      (∀ ev ∈ tr', ¬ storeRaised ev.eff ev.resp) →
      SameStates beta afterNotices.2.2 s'' := by
  have hverdict : afterLearning.1.all (fun x => x.2.isOk) = true ∧
      afterNotices.2.2.stateOf "gamma" = some .revoked ∧ afterNotices.2.2.stateOf "alpha" =
        some .active := by
    decide +kernel
  have hlearn := (playOps_told (fun _ _ => rfl) afterLearning_eq).2.1
  obtain ⟨hops, hrun, hstores⟩ := playOps_told (fun _ _ => rfl) afterNotices_eq
  have hcompleted := completed_of_all hverdict.1
  have hkeys : ∀ keyId jwk, gammaKeys.lookup keyId = some jwk → lacksX jwk = false := by
    intro keyId jwk h
    obtain ⟨kv, hkv, rfl⟩ := Option.map_eq_some_iff.mp h
    obtain rfl := List.mem_singleton.mp (Keyed.mem_of_mem_ofList (Keyed.mem_of_get hkv))
    decide
  have htimes : ∀ notice ∈ noticeTwice, notice.representable := by
    intro notice h
    obtain rfl : notice = gammaNotice := by simpa [noticeTwice] using h
    exact ⟨by decide, by simp [gammaNotice]⟩
  have hexact := revocations_exact hintPlatform beta gammaKeys selfScopedAuthorize
    (fun _ h => ⟨_, Canonical.dumps_safe h⟩) hkeys (emptyNode_empty beta) hlearn hcompleted htimes
    hops hrun hstores
  exact ⟨hverdict.2, hexact⟩

def alphaKeys : Dict JWK := Keyed.ofList [("k1", alphaKey)]

theorem alphaNotice_valid :
    Valid noticePlatform beta.federationId alphaKeys selfScopedAuthorize alphaNotice :=
  effective_true_iff.mp (by decide +kernel)

def restarted : NodeState := { emptyNode with manifestStore := Keyed.ofList [alphaManifest] }

def hydrateAndRevoke : List LifecycleOp :=
  [.hydrate, applyNotice alphaKeys selfScopedAuthorize alphaNotice]

theorem unrecorded_alpha_stays_trusted :
    Valid noticePlatform beta.federationId alphaKeys selfScopedAuthorize alphaNotice ∧
    ∃ ops tr s', ops.map Prod.fst = hydrateAndRevoke ∧
      Sequence noticePlatform beta restarted ops tr s' ∧
      Completed ops ∧ ¬ Absent beta alphaNotice.revokedNodeId s' ∧
      ¬ Unknown noticePlatform beta alphaNotice.revokedNodeId s' := by
  have hverdict : (playOps noticePlatform beta silentWorld hydrateAndRevoke restarted).1.all
      (fun x => x.2.isOk) = true ∧
      ((playOps noticePlatform beta silentWorld hydrateAndRevoke restarted).2.2.peerManifests.get
        "alpha").isSome = true ∧
      ((beta.verifyKnownInbound noticePlatform none "alpha" "GET" "/" [] none 300).run.eval
        silentWorld.handle (playOps noticePlatform beta silentWorld hydrateAndRevoke
          restarted).2.2).1 =
          .error (.unauthorizedPeerRequest "missing_signature") := by decide +kernel
  obtain ⟨hcompleted, hcached, hinbound⟩ := hverdict
  obtain ⟨hops, hrun, _⟩ :=
    playOps_told (fun _ _ => rfl)
      (rfl : playOps noticePlatform beta silentWorld hydrateAndRevoke restarted = _)
  refine ⟨alphaNotice_valid, _, _, _, hops, hrun, completed_of_all hcompleted, fun habsent =>
    ?_, fun hunknown => ?_⟩
  · have hnone : Keyed.get _ "alpha" = none := habsent.1
    rw [hnone] at hcached
    cases hcached
  · have hboth := (hunknown silentWorld none "GET" "/" [] none 300).symm.trans hinbound
    simp at hboth

theorem recorded_alpha_forgotten :
    ∃ tr state s', Task.Runs Does Passes
      (beta.applyRevocationNotice noticePlatform alphaNotice alphaKeys selfScopedAuthorize).run
      knowingAlpha tr (.ok state) s' ∧
      ((Absent beta "alpha" s' ∧ Unknown noticePlatform beta "alpha" s') ↔
        Recorded "alpha" knowingAlpha ∨ Absent beta "alpha" knowingAlpha) := by
  have hstate :
      ((beta.applyRevocationNotice noticePlatform alphaNotice alphaKeys
        selfScopedAuthorize).run.eval
      silentWorld.handle knowingAlpha).1 = .ok (some .revoked) := by decide +kernel
  have hrun := Task.runs_trace silentWorld.handle Passes.refl
    (fun c s => (Env.reliable (fun _ _ => rfl) c s).1)
    (beta.applyRevocationNotice noticePlatform alphaNotice alphaKeys selfScopedAuthorize).run
    knowingAlpha
  rw [hstate] at hrun
  exact ⟨_, _, _, hrun, notice_ends_trust_iff noticePlatform beta alphaKeys selfScopedAuthorize
    alphaNotice_valid hrun⟩

end Federlet
