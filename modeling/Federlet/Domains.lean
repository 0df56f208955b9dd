import Federlet.Library.Pieces
import Federlet.Continuity

/-! The domain check as a suffix of label lists, and what the endpoint allow-list
and the built-in domain evidence draw from it. -/

namespace Federlet

/-- The dot-separated labels of a name, lower-cased and without trailing dots. -/
def labels (P : Platform) (name : String) :
    List (List Char) := (rstripDots (P.lower name)).toList.splitOn '.'

def domainEvidenceVerifier (P : Platform) (manifest : Manifest) : Except Exc (Bool × String) :=
  match manifest.admissionEvidence with
  | some (.domainProof domain _) =>
    if domain = "" then .ok (false, "bad_domain_evidence")
    else do
      let parsed ← urlsplit P manifest.endpoint
      return if hostInDomain P (parsed.hostname P) domain then (true, "ok")
        else (false, "domain_mismatch")
  | _ => .ok (false, "unsupported_evidence")

theorem hostInDomain_iff_suffix {P : Platform} {host domain : String} :
    hostInDomain P host domain = true ↔ labels P domain <:+ labels P host := by
  rw [labels, labels, Pieces.splitOn_suffix_iff]
  simp [hostInDomain]

theorem allowed_of_checkEndpoint {P : Platform} {endpoint : String} {policy : AdmissionPolicy}
    (hallow : policy.allowedEndpointDomains ≠ []) (h : checkEndpoint P endpoint policy = .ok none) :
    ∃ parsed, urlsplit P endpoint = .ok parsed ∧ ∃ d ∈ policy.allowedEndpointDomains,
      hostInDomain P (rstripDots (P.lower (parsed.hostname P))) d = true := by
  cases hp : urlsplit P endpoint with
  | error e => simp [checkEndpoint, hp, bind, Except.bind] at h
  | ok parsed =>
    refine ⟨parsed, rfl, ?_⟩
    by_contra hnone
    have hany : policy.allowedEndpointDomains.any
        (fun d => hostInDomain P (rstripDots (P.lower (parsed.hostname P))) d) = false := by
      simpa using hnone
    simp only [checkEndpoint, hp, bind, Except.bind, pure, Except.pure, hany] at h
    split_ifs at h <;> simp_all

theorem evidence_of_domainEvidenceVerifier {P : Platform} {manifest : Manifest} {reason : String}
    (h : domainEvidenceVerifier P manifest = .ok (true, reason)) :
    ∃ domain extra parsed, manifest.admissionEvidence = some (.domainProof domain extra) ∧
      urlsplit P manifest.endpoint = .ok parsed ∧
      hostInDomain P (parsed.hostname P) domain = true := by
  simp only [domainEvidenceVerifier] at h
  split at h
  · rename_i domain extra hev
    by_cases hd : domain = ""
    · simp [hd] at h
    · cases hp : urlsplit P manifest.endpoint with
      | error e => simp [hd, hp, bind, Except.bind] at h
      | ok parsed =>
        refine ⟨domain, extra, parsed, hev, rfl, ?_⟩
        by_contra hout
        simp [hd, hp, hout, bind, Except.bind, pure, Except.pure] at h
  · simp at h

/-- The domain check compares labels, so that what rests on it stays inside the
domain, and it is transitive. -/
theorem domain_check_by_labels (P : Platform) :
    (∀ host domain, hostInDomain P host domain = true ↔ labels P domain <:+ labels P host) ∧
      (∀ endpoint policy, policy.allowedEndpointDomains ≠ [] →
        checkEndpoint P endpoint policy = .ok none →
        ∃ parsed, urlsplit P endpoint = .ok parsed ∧ ∃ d ∈ policy.allowedEndpointDomains,
          labels P d <:+ labels P (rstripDots (P.lower (parsed.hostname P)))) ∧
      (∀ manifest reason, domainEvidenceVerifier P manifest = .ok (true, reason) →
        ∃ domain extra parsed, manifest.admissionEvidence = some (.domainProof domain extra) ∧
          urlsplit P manifest.endpoint = .ok parsed ∧
          labels P domain <:+ labels P (parsed.hostname P)) ∧
      ∀ a b c, hostInDomain P a b = true → hostInDomain P b c = true →
      hostInDomain P a c = true := by
  refine ⟨fun _ _ => hostInDomain_iff_suffix, ?_, ?_, ?_⟩
  · intro endpoint policy hallow h
    obtain ⟨parsed, hp, d, hd, hin⟩ := allowed_of_checkEndpoint hallow h
    exact ⟨parsed, hp, d, hd, hostInDomain_iff_suffix.mp hin⟩
  · intro manifest reason h
    obtain ⟨domain, extra, parsed, hev, hp, hin⟩ := evidence_of_domainEvidenceVerifier h
    exact ⟨domain, extra, parsed, hev, hp, hostInDomain_iff_suffix.mp hin⟩
  · intro a b c hab hbc
    rw [hostInDomain_iff_suffix] at hab hbc ⊢
    exact hbc.trans hab

/-- A host that merely ends in the same characters is outside. -/
theorem apex_only : hostInDomain (exchange getMembersRequest) "API.Alpha.Example."
    "alpha.example" = true ∧
    hostInDomain (exchange getMembersRequest) "notalpha.example" "alpha.example" = false := by
  have hcheck := domain_check_by_labels (exchange getMembersRequest)
  refine ⟨(hcheck.1 _ _).mpr (by decide), ?_⟩
  rw [← Bool.not_eq_true, hcheck.1]
  decide

end Federlet
