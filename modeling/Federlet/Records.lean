import Federlet.Trust

/-! A property of single records, kept for a whole table. What the operations file
is a freshly admitted record, a looked up record in another state, or one a
refresh keeps; the property only has to hold of these. -/

namespace Federlet

open Coop

def AllRecords (G : MemberRecord → Prop) (s : NodeState) :
    Prop := ∀ n rec, s.membershipTable.get n = some rec → G rec

/-- The call files no record without the property. -/
def Files (G : MemberRecord → Prop) (c : Call) : Prop :=
  match c.op with
  | .tableUpsert rec => G rec
  | _ => True

/-- Along every run of the task each record has the property. -/
abbrev RecordsKeep {α : Type} (sem : Sem Call Resp NodeState)
    (background : NodeState → NodeState → Prop) (G : MemberRecord → Prop)
    (t : Coop.Task Call Resp α) (s : NodeState) : Prop :=
  Task.after sem background (fun ev => AllRecords G ev.post) t s fun _ s' => AllRecords G s'

/-- The property survives a change of state, and a refresh that keeps the peer. -/
structure RefreshRule (sem : Sem Call Resp NodeState) (G : MemberRecord → Prop) : Prop where
  set : ∀ rec state now, G rec → G (rec.setState state now)
  keep : ∀ manifest s r s', sem ⟨.refresh, .cachePut manifest⟩ s r s' → ∀ rec : MemberRecord,
    rec.nodeId = manifest.nodeId → G rec →
    ∀ now, G ({ rec with manifestRevision := manifest.revision }.admitRecord none now)

/-- The property holds of the records admissions make. -/
structure AdmissionRule (sem : Sem Call Resp NodeState) (node : FederationNode)
    (G : MemberRecord → Prop) : Prop where
  record : ∀ o nodeId s rec? s', o = .admission ∨ o = .bootstrap →
    sem ⟨o, .tableGet nodeId⟩ s (.ok rec?) s' →
    ∀ rec : MemberRecord, rec.nodeId = nodeId → rec.Fresh → G rec
  discover : ∀ rec : MemberRecord, rec.Fresh → rec.nodeId ≠ node.nodeId → G rec

def LifecycleOp.refreshes : LifecycleOp → Prop
  | .operation (.refreshPeer _ _ _) => True
  | .operation (.refreshAll _ _) => True
  | _ => False

section Calls

variable {G : MemberRecord → Prop} {s s' : NodeState}

theorem AllRecords.of_passes (h : AllRecords G s) (hs : Passes s s') : AllRecords G s' := by
  intro n rec hrec
  rw [hs.table] at hrec
  exact h n rec hrec

theorem Files.allRecords {c : Call} {r : Resp c} (hc : Files G c) (h : Does c s r s')
    (hs : AllRecords G s) :
    AllRecords G s' := by
  intro n rec hrec
  rcases h.table_cases with htable | ⟨filed, hop, rfl⟩
  · rw [htable] at hrec
    exact hs n rec hrec
  · have hfiled : G filed := by simpa [Files, hop] using hc
    rw [Keyed.get_upsert] at hrec
    split at hrec
    · cases hrec
      exact hfiled
    · exact hs n rec hrec

end Calls

section Operations

variable {sem : Sem Call Resp NodeState} {background : NodeState → NodeState → Prop} {P : Platform}
  {node : FederationNode} {G : MemberRecord → Prop} {s : NodeState}

theorem recordsKeep_of_makes (henv : Narrows sem background) {α : Type} {t : Py α}
    (h : Makes (Files G) (fun _ _ => False) t) (hs : AllRecords G s) :
    RecordsKeep sem background G t.run s := by
  refine Task.after_mono (fun _ _ h => h.2) (Task.Composed.after (I := AllRecords G) ?_ ?_ ?_ h hs)
  · exact fun s s' hs hb => hs.of_passes (henv.passes _ _ hb)
  · intro c s r s' hc hs hdoes
    have hafter := hc.allRecords (henv.does _ _ _ _ hdoes) hs
    exact ⟨trivial, hafter, hafter⟩
  · exact fun _ _ _ h => h.elim

theorem recordsKeep_of_lookup (henv : Narrows sem background) {α : Type} {o : Origin} {k : String}
    {f : Option MemberRecord → Py α} (hs : AllRecords G s)
    (hf : ∀ s₁ s₂ rec?, sem ⟨o, .tableGet k⟩ s₁ (.ok rec?) s₂ →
      (∀ rec, rec? = some rec → rec.nodeId = k ∧ G rec) →
      AllRecords G s₂ → RecordsKeep sem background G (f rec?).run s₂) :
    RecordsKeep sem background G (MembershipTable.get o k >>= f).run s := by
  refine Task.after_run_bind.mpr ?_
  intro s₁ hb r s₂ hsem
  have hs₁ := hs.of_passes (henv.passes _ _ hb)
  have hdoes := henv.does _ _ _ _ hsem
  rcases hdoes with ⟨e, rfl, rfl⟩ | ⟨rfl, rfl⟩
  · exact ⟨hs₁, hs₁⟩
  · exact ⟨hs₁, hf _ _ _ hsem (fun rec hrec => ⟨Keyed.key_of_get hrec, hs₁ k rec hrec⟩) hs₁⟩

theorem recordPeer_recordsKeep (henv : Narrows sem background)
    (hrule : AdmissionRule sem node G) {o : Origin} (ho : o = .admission ∨ o = .bootstrap)
    (manifest : Manifest) (url : String) (hs : AllRecords G s) :
    RecordsKeep sem background G (node.recordPeer o manifest url).run s := by
  refine Task.after_withLock.mpr (recordsKeep_of_lookup henv hs fun s₁ s₂ existing hsem _ hs₂ => ?_)
  have hfresh : ∀ rec : MemberRecord, rec.nodeId = manifest.nodeId → rec.Fresh → G rec :=
    hrule.record o manifest.nodeId s₁ existing s₂ ho hsem
  refine recordsKeep_of_makes henv ?_ hs₂
  split
  · exact Makes.pure ()
  · have hremember : Makes (Files G) (fun _ _ => False) (node.rememberManifest o manifest) :=
      Makes.rememberManifest trivial trivial
    refine hremember.bind fun _ => ?_
    refine (Makes.call (c := ⟨o, .utcNow⟩) trivial _).bind fun now => ?_
    exact Makes.call (c := ⟨o, .tableUpsert _⟩)
      (hfresh _ rfl (MemberRecord.admitRecord_fresh _ now)) _

theorem refreshFiles_makes {f : DateTime → MemberRecord} (hf : ∀ now, G (f now)) :
    Makes (Files G) (fun _ _ => False)
      (do let now ← utcNow .refresh; MembershipTable.upsert .refresh (f now)) :=
  FederationNode.refreshWrite_makes trivial hf

theorem applyRefreshDecision_recordsKeep (henv : Narrows sem background)
    (hrule : RefreshRule sem G) {n : String} {decision : ManifestRefreshDecision}
    (hfits : FitsNode P n decision) (hs : AllRecords G s) :
    RecordsKeep sem background G (node.applyRefreshDecision n decision).run s := by
  refine Task.after_withLock.mpr (recordsKeep_of_lookup henv hs fun s₁ s₂ rec? hget hrec? hs₂ => ?_)
  have hset : ∀ rec, rec? = some rec → ∀ state now, G (rec.setState state now) :=
    fun rec hrec state now => hrule.set rec state now (hrec? rec hrec).2
  have hforget : Makes (Files G) (fun _ _ => False) (node.forgetManifest .refresh n) :=
    Makes.forgetManifest trivial trivial
  cases haction : decision.action
  case accept | unchanged =>
    dsimp only
    split
    · rename_i manifest hm
      obtain ⟨hid, _⟩ := hfits (by simp [haction]) manifest hm
      rw [FederationNode.rememberManifest, bind_assoc]
      refine Task.after_run_bind.mpr ?_
      intro s₃ hb r s₄ hsem
      have hs₃ : AllRecords G s₃ := hs₂.of_passes (henv.passes _ _ hb)
      have hs₄ : AllRecords G s₄ := by
        obtain rfl : s₄ = _ := henv.does _ _ _ _ hsem
        exact hs₃
      refine ⟨hs₄, recordsKeep_of_makes henv (Makes.bind ?_ fun _ => ?_) hs₄⟩
      · split
        · exact Makes.call (c := ⟨.refresh, .storeUpsert manifest⟩) trivial _
        · exact Makes.pure ()
      · split
        · rename_i rec
          obtain ⟨hnode, hrec⟩ := hrec? rec rfl
          exact refreshFiles_makes fun now => hrule.keep manifest s₃ r s₄ hsem rec
            (hnode.trans hid.symm) hrec now
        · exact Makes.pure ()
    · exact recordsKeep_of_makes henv (Makes.pure ()) hs₂
  case quarantine =>
    refine recordsKeep_of_makes henv ?_ hs₂
    dsimp only
    split
    · exact refreshFiles_makes (hset _ rfl _)
    · exact Makes.pure ()
  case reject =>
    refine recordsKeep_of_makes henv ?_ hs₂
    dsimp only
    split
    · rename_i rec
      exact (refreshFiles_makes (f := fun now => rec.setState .rejected now) (hset rec rfl _)).bind
        fun _ => hforget
    · exact hforget

theorem applyRevocationNotice_recordsKeep (henv : Narrows sem background)
    (hrule : RefreshRule sem G) (notice : RevocationNotice) (keys : Dict JWK)
    (authorize : RevocationNotice → Bool) (hs : AllRecords G s) :
    RecordsKeep sem background G (node.applyRevocationNotice P notice keys authorize).run s := by
  rw [FederationNode.applyRevocationNotice, applyMembershipRevocationNotice_eq, Task.run_locked]
  refine Task.after_withLock.mpr ?_
  rw [bind_assoc]
  refine recordsKeep_of_lookup henv hs fun s₁ s₂ rec? _ hrec? hs₂ =>
    recordsKeep_of_makes henv ?_ hs₂
  have hforget : Makes (Files G) (fun _ _ => False)
      (node.forgetManifest .revocation notice.revokedNodeId) :=
    Makes.forgetManifest trivial trivial
  refine Makes.bind ?_ fun state => ?_
  · cases rec? with
    | none => exact Makes.pure _
    | some rec =>
      refine (Makes.raising _).bind fun verdict => ?_
      split
      · exact Makes.pure _
      refine (Makes.call (c := ⟨.revocation, .utcNow⟩) trivial _).bind fun now => ?_
      have hfiles : Files G ⟨.revocation, .tableUpsert (rec.setState .revoked now)⟩ :=
        hrule.set rec _ now (hrec? rec rfl).2
      exact (Makes.call (c := ⟨.revocation, .tableUpsert _⟩) hfiles _).bind fun _ => Makes.pure _
  · split
    · exact hforget.bind fun _ => Makes.pure _
    · exact Makes.pure _

def RecordSections (sem : Sem Call Resp NodeState) (background : NodeState → NodeState → Prop)
    (G : MemberRecord → Prop) : Sections :=
  fun _ t => ∀ s, AllRecords G s → RecordsKeep sem background G t s

theorem recordsKeep_of_routine (henv : Narrows sem background) {α : Type} {t : Py α} {Q : α → Prop}
    (ht : Routine Call.quiet anyCallback (RecordSections sem background G) Q t)
    (hs : AllRecords G s) :
    RecordsKeep sem background G t.run s := by
  refine Task.after_mono (fun _ _ h => h.2) (Task.Composed.after (I := AllRecords G) ?_ ?_ ?_ ht hs)
  · exact fun s s' hs hb => hs.of_passes (henv.passes _ _ hb)
  · intro c s r s' hc hs hsem
    have hdoes := henv.does _ _ _ _ hsem
    obtain rfl := hdoes.eq_of_quiet hc
    exact ⟨hdoes.answered (callbackAnswers_any c r), hs, hs⟩
  · exact fun _ _ s h hs => h s hs

theorem refreshSections (henv : Narrows sem background) (hrule : RefreshRule sem G) (n : String)
    (decision : ManifestRefreshDecision) (hfits : FitsNode P n decision) :
    RecordSections sem background G _ (node.applyRefreshDecision n decision).run :=
  fun _ hs => applyRefreshDecision_recordsKeep henv hrule hfits hs

theorem refreshAll_recordsKeep (henv : Narrows sem background) (hrule : RefreshRule sem G)
    (policy : Option KeyContinuityPolicy) (skew : Int) (hs : AllRecords G s) :
    RecordsKeep sem background G (node.refreshAll P policy skew).run s :=
  recordsKeep_of_routine henv
    (FederationNode.refreshAll_routine policy skew (refreshSections henv hrule)) hs

theorem LifecycleOp.recordsKeep_of_refreshes (henv : Narrows sem background)
    (hrule : RefreshRule sem G) {op : LifecycleOp} (hop : op.refreshes) (hs : AllRecords G s) :
    RecordsKeep sem background G (op.run P node).run s := by
  have hsections : ∀ {t : Py Unit}, Routine Call.quiet anyCallback (RecordSections sem background G)
      (fun _ => True) t →
      RecordsKeep sem background G t.run s := fun ht => recordsKeep_of_routine henv ht hs
  have happly : ∀ n decision, FitsNode P n decision →
      RecordSections sem background G _ (node.applyRefreshDecision n decision).run :=
        refreshSections henv hrule
  cases op with
  | hydrate => exact hop.elim
  | operation op =>
    cases op with
    | refreshPeer nodeId policy skew =>
      exact hsections ((FederationNode.refreshPeer_routine nodeId policy skew happly).bind
        fun _ _ => Routine.pure trivial)
    | refreshAll policy skew =>
      exact hsections ((FederationNode.refreshAll_routine policy skew happly).bind fun _ _ =>
        Routine.pure trivial)
    | admitPeer | bootstrapFromSeeds | discover | applyRevocationNotice => exact hop.elim

theorem hydrate_recordsKeep (henv : Narrows sem background) (hs : AllRecords G s) :
    RecordsKeep sem background G node.hydrate.run s := by
  refine Task.after_withLock.mpr (recordsKeep_of_makes henv ?_ hs)
  split
  · refine (Makes.call (c := ⟨.hydrate, .cacheIsEmpty⟩) trivial _).bind fun empty => ?_
    split
    · refine (Makes.call (c := ⟨.hydrate, .storeValues⟩) trivial _).bind fun manifests => ?_
      exact Makes.call (c := ⟨.hydrate, .cacheReplace manifests⟩) trivial _
    · exact Makes.pure ()
  · exact Makes.pure ()

theorem LifecycleOp.recordsKeep (henv : Narrows sem background) (hrefresh : RefreshRule sem G)
    (hmade : AdmissionRule sem node G) (op : LifecycleOp) (hs : AllRecords G s) :
    RecordsKeep sem background G (op.run P node).run s := by
  have hsections : ∀ {t : Py Unit}, Routine Call.quiet anyCallback (RecordSections sem background G)
      (fun _ => True) t →
      RecordsKeep sem background G t.run s := fun ht => recordsKeep_of_routine henv ht hs
  have hrecord : ∀ o manifest url, o = .admission ∨ o = .bootstrap →
      RecordSections sem background G _ (node.recordPeer o manifest url).run :=
    fun o manifest url ho s hs => recordPeer_recordsKeep henv hmade ho manifest url hs
  have happly : ∀ k decision, FitsNode P k decision →
      RecordSections sem background G _ (node.applyRefreshDecision k decision).run :=
        refreshSections henv hrefresh
  cases op with
  | hydrate => exact hydrate_recordsKeep henv hs
  | operation op =>
    cases op with
    | admitPeer manifest url skew =>
      refine hsections ((FederationNode.admitPeer_routine manifest url skew fun url _ => ?_).bind
        fun _ _ => Routine.pure trivial)
      exact hrecord _ manifest url (.inl rfl)
    | bootstrapFromSeeds urls skew =>
      refine hsections
        ((FederationNode.bootstrapFromSeeds_routine urls skew fun manifest url _ => ?_).bind
          fun _ _ => Routine.pure trivial)
      exact hrecord _ manifest url (.inr rfl)
    | discover skew cap since =>
      refine hsections ((FederationNode.discover_routine skew cap since ?_ ?_).bind fun _ _ =>
        Routine.pure trivial)
      · intro rec hfresh hne s hs
        have hfiles : Files G ⟨.discovery, .tableUpsert rec⟩ := hmade.discover rec hfresh hne
        exact recordsKeep_of_makes henv
          (Makes.call (c := ⟨.discovery, .tableUpsert rec⟩) hfiles _) hs
      · intro manifest _ s hs
        exact Task.after_withLock.mpr
          (recordsKeep_of_makes henv (Makes.rememberManifest trivial trivial) hs)
    | refreshPeer nodeId policy skew =>
      exact hsections ((FederationNode.refreshPeer_routine nodeId policy skew happly).bind
        fun _ _ => Routine.pure trivial)
    | refreshAll policy skew =>
      exact hsections ((FederationNode.refreshAll_routine policy skew happly).bind fun _ _ =>
        Routine.pure trivial)
    | applyRevocationNotice notice keys authorize =>
      refine hsections ((Routine.of_section ?_).bind fun _ _ => Routine.pure trivial)
      exact fun s hs => applyRevocationNotice_recordsKeep henv hrefresh notice keys authorize hs

end Operations

section Runs

variable {P : Platform} {node : FederationNode} {G : MemberRecord → Prop} {s s' : NodeState}

def Only (ok : Event Call Resp NodeState → Prop) : Sem Call Resp NodeState :=
  fun c s r s' => Does c s r s' ∧ ok ⟨s, c, r, s'⟩

theorem narrows_only (ok : Event Call Resp NodeState → Prop) : Narrows (Only ok) Passes :=
  ⟨fun _ _ _ _ h => h.1, fun _ _ h => h⟩

theorem Sequence.allRecords (ok : Event Call Resp NodeState → Prop)
    {ops : List (LifecycleOp × Except Exc Unit)} {tr : Trace} (h : Sequence P node s ops tr s')
    (hkeeps : ∀ x ∈ ops, ∀ s, AllRecords G s →
      RecordsKeep (Only ok) Passes G (x.1.run P node).run s)
    (hs : AllRecords G s) (hok : ∀ ev ∈ tr, ok ev) :
    AllRecords G s' ∧ ∀ ev ∈ tr, AllRecords G ev.post := by
  induction h with
  | nil s => exact ⟨hs, by simp⟩
  | @cons s s₁ s₂ s' op r tr tr' ops hidle hrun hrest ih =>
    obtain ⟨hhead, htail⟩ := List.forall_mem_append.mp hok
    obtain ⟨hone, hothers⟩ := List.forall_mem_cons.mp hkeeps
    obtain ⟨hs₂, hevents⟩ := (hrun.restrict hhead).of_after (hone s₁ (hs.of_passes hidle))
    obtain ⟨hend, hlater⟩ := ih hothers hs₂ htail
    exact ⟨hend, List.forall_mem_append.mpr ⟨hevents, hlater⟩⟩

end Runs

end Federlet
