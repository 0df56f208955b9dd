import Federlet.Records

/-! A node among its peers. Discovery passes over the node's own name; the two
operations that record a peer they were handed or found at a seed do not look. -/

namespace Federlet

open Coop

/-- The node a call of `_record_peer` is about, at its first step. -/
def recording (ev : Event Call Resp NodeState) : Option String :=
  match ev.eff with
  | ⟨.admission, .tableGet k⟩ | ⟨.bootstrap, .tableGet k⟩ => some k
  | _ => none

section Operations

variable {P : Platform} {node : FederationNode} {n : String} {s s' : NodeState}

theorem allRecords_others : AllRecords (fun rec => rec.nodeId ≠ n) s ↔ ¬ Recorded n s := by
  constructor
  · rintro hall ⟨rec, hrec⟩
    exact hall n rec hrec (Keyed.key_of_get hrec)
  · rintro hnone k rec hrec rfl
    have hnode : rec.nodeId = k := Keyed.key_of_get hrec
    exact hnone ⟨rec, by rw [hnode]; exact hrec⟩

theorem Sequence.keepsOut {ops : List (LifecycleOp × Except Exc Unit)} {tr : Trace}
    (h : Sequence P node s ops tr s') (hs : ¬ Recorded node.nodeId s)
    (hothers : ∀ ev ∈ tr, recording ev ≠ some node.nodeId) :
    ¬ Recorded node.nodeId s' ∧ ∀ ev ∈ tr, ¬ Recorded node.nodeId ev.post := by
  have hrefresh : RefreshRule (Only fun ev => recording ev ≠ some node.nodeId)
      (fun rec => rec.nodeId ≠ node.nodeId) :=
    ⟨fun _ _ _ h => h, fun _ _ _ _ _ _ _ h _ => h⟩
  have hmade : AdmissionRule (Only fun ev => recording ev ≠ some node.nodeId) node
      (fun rec => rec.nodeId ≠ node.nodeId) := by
    refine ⟨?_, fun rec _ hne => hne⟩
    rintro o k s rec? s' (rfl | rfl) ⟨_, hother⟩ rec hnode _ hown <;>
      exact hother (congrArg some (hnode.symm.trans hown))
  obtain ⟨hend, hevents⟩ := h.allRecords (fun ev => recording ev ≠ some node.nodeId)
    (fun x _ s hs => x.1.recordsKeep (narrows_only _) hrefresh hmade hs)
    (allRecords_others.mpr hs) hothers
  exact ⟨allRecords_others.mp hend, fun ev hev => allRecords_others.mp (hevents ev hev)⟩

theorem selectFrom_returns (records : List MemberRecord) (s : NodeState) :
    Task.Returns Does Passes (selectFrom records) s fun _ manifests s' =>
      Passes s s' ∧ manifests = records.filterMap fun rec => s.peerManifests.get rec.nodeId := by
  induction records generalizing s with
  | nil => exact Task.Returns.pure ⟨Passes.refl s, rfl⟩
  | cons rec records ih =>
    refine Task.Returns.bind
      (Task.Returns.mono (returns_cacheGet narrows_does .inbound rec.nodeId s) ?_)
    rintro _ manifest? s₁ ⟨hs₁, hmanifest⟩
    refine Task.Returns.bind (Task.Returns.mono (ih s₁) ?_)
    rintro _ rest s₂ ⟨hs₂, rfl⟩
    refine Task.Returns.pure ⟨hs₁.trans hs₂, ?_⟩
    rw [hs₁.cache, hmanifest]
    cases hget : s.peerManifests.get rec.nodeId <;> simp [hget]

theorem selectPeers_returns (s : NodeState) :
    Task.Returns Does Passes selectPeers s fun _ manifests s' => Passes s s' ∧
      ∃ now : DateTime, s.clock.instant ≤ now.instant ∧ now.instant ≤ s'.clock.instant ∧
        manifests = (s.membershipTable.entries.filter fun rec => rec.isEligible now).filterMap
          fun rec => s.peerManifests.get rec.nodeId := by
  refine Task.Returns.bind (Task.Returns.mono (returns_eligiblePeers narrows_does .inbound s) ?_)
  rintro _ records s₁ ⟨hs₁, now, hfrom, hto, rfl⟩
  refine Task.Returns.mono (selectFrom_returns _ s₁) ?_
  rintro _ manifests s' ⟨hs', rfl⟩
  have hlater : now.instant ≤ s'.clock.instant := by
    obtain ⟨t, ht, rfl⟩ := hs'
    exact Int.le_trans hto ht
  exact ⟨hs₁.trans hs', now, hfrom, hlater, by rw [hs₁.cache]⟩

end Operations

/-- A node without a record of its own is not among the peers it selects. -/
def NotOwnPeer (node : FederationNode) (s : NodeState) : Prop :=
  ¬ Recorded node.nodeId s ∧ Task.Returns Does Passes selectPeers s fun _ manifests _ =>
    ∀ manifest ∈ manifests, manifest.nodeId ≠ node.nodeId

theorem notOwnPeer_of_not_recorded {node : FederationNode} {s : NodeState}
    (h : ¬ Recorded node.nodeId s) :
    NotOwnPeer node s := by
  refine ⟨h, Task.Returns.mono (selectPeers_returns s) ?_⟩
  rintro _ manifests _ ⟨_, now, _, _, rfl⟩ manifest hm
  obtain ⟨rec, hrec, hget⟩ := List.mem_filterMap.mp hm
  have hmem := (List.mem_filter.mp hrec).1
  have hnode : manifest.nodeId = rec.nodeId := Keyed.key_of_get hget
  rintro he
  exact h ⟨rec, by rw [← he, hnode]; exact Keyed.get_of_mem hmem⟩

/-- As long as neither `admit_peer` nor `bootstrap_from_seeds` records a manifest
that names the node itself, there is at no point a record of the node's own. -/
theorem own_record_stays_out (P : Platform) (node : FederationNode) {s s' : NodeState}
    {ops : List (LifecycleOp × Except Exc Unit)} {tr : Trace} (hempty : Empty node s)
    (hrun : Sequence P node s ops tr s') (hothers : ∀ ev ∈ tr, recording ev ≠ some node.nodeId) :
    NotOwnPeer node s' ∧ ∀ ev ∈ tr, NotOwnPeer node ev.post := by
  have hnone : ¬ Recorded node.nodeId s := by
    rintro ⟨rec, hrec⟩
    have hmem := Keyed.mem_of_get hrec
    simp [hempty.table] at hmem
  obtain ⟨hend, hevents⟩ := hrun.keepsOut hnone hothers
  exact ⟨notOwnPeer_of_not_recorded hend, fun ev hev => notOwnPeer_of_not_recorded (hevents ev hev)⟩

def welcome : IntroduceResponse :=
  { accepted := true
    signature := some { keyId := "k1", sig :=
      "5LiB8RkJfdcTX1U5a_QnigKCDHfiO9On7AAP-1q_o-6P537vn9_nFGHxYGL0co0UyQYyumXBQRFMgESJw70ICA" } }

def seedPlatform : Platform :=
  { knowsDocuments [alphaText,
      (alphaKey,
        "5LiB8RkJfdcTX1U5a_QnigKCDHfiO9On7AAP-1q_o-6P537vn9_nFGHxYGL0co0UyQYyumXBQRFMgESJw70ICA",
          ["\x7b\"accepted\":true\x7d"])] [alphaManifest] [] with
    validateIntroduce := fun _ => .ok welcome }

def seedWorld : Env :=
  { serves [("https://alpha.example/manifest", alphaManifest)] [] with
    httpRequest := fun _ _ _ _ _ => .ok ⟨.ok (), .ok (documentOf welcome)⟩ }

def alpha : FederationNode := { beta with nodeId := "alpha" }

def selectedBy (env : Env) (s : NodeState) : List String :=
  ((selectPeers.run.eval env.handle s).1.toOption.getD []).map Manifest.nodeId

def seedAlpha : List LifecycleOp :=
  [.operation (.bootstrapFromSeeds ["https://alpha.example/manifest"] 300)]

/-- It records itself and selects itself as a peer. -/
theorem alpha_records_itself :
    ∃ ops tr s', Sequence seedPlatform alpha emptyNode ops tr s' ∧ Empty alpha emptyNode ∧
      Completed ops ∧
      ¬ NotOwnPeer alpha s' ∧
      selectedBy seedWorld s' = ["alpha"] := by
  have hrun := @playOps_sequence seedPlatform alpha seedWorld (fun _ _ => rfl) seedAlpha emptyNode
  have hverdict : (playOps seedPlatform alpha seedWorld seedAlpha emptyNode).1.all
      (fun x => x.2.isOk) = true ∧
      ((playOps seedPlatform alpha seedWorld seedAlpha emptyNode).2.2.membershipTable.get
        "alpha").isSome = true ∧
      selectedBy seedWorld (playOps seedPlatform alpha seedWorld seedAlpha emptyNode).2.2 =
        ["alpha"] := by
    decide +kernel
  obtain ⟨hcompleted, hrecorded, hselected⟩ := hverdict
  refine ⟨_, _, _, hrun, emptyNode_empty _, completed_of_all hcompleted, fun hnot => ?_, hselected⟩
  exact hnot.1 (Option.isSome_iff_exists.mp hrecorded)

/-- `beta`, given the same seeds, has no such record. -/
theorem beta_records_alpha :
    NotOwnPeer beta (playOps seedPlatform beta seedWorld seedAlpha emptyNode).2.2 ∧
      ∀ ev ∈ (playOps seedPlatform beta seedWorld seedAlpha emptyNode).2.1,
        NotOwnPeer beta ev.post := by
  have hrun := @playOps_sequence seedPlatform beta seedWorld (fun _ _ => rfl) seedAlpha emptyNode
  have hothers : (playOps seedPlatform beta seedWorld seedAlpha emptyNode).2.1.all
      (fun ev => decide (recording ev ≠ some "beta")) = true := by decide +kernel
  refine own_record_stays_out seedPlatform beta (emptyNode_empty beta) hrun fun ev hev => ?_
  exact of_decide_eq_true (List.all_eq_true.mp hothers ev hev)

end Federlet
