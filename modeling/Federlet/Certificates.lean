import Mathlib.Data.List.Basic

/-! Matching a presented certificate identity against the one a host expects. -/

namespace Federlet

inductive CertExc where
  | typeError
  | unauthorizedCertificateIdentity (reason : String)
  deriving DecidableEq

structure CertificateIdentity where
  subjectDn : Option String := none
  sans : List String := []
  spkiSha256 : Option String := none
  deriving DecidableEq

def isAscii (s : String) : Bool := s.toList.all fun c => c.toNat < 128

def compareDigest (a b : String) : Except CertExc Bool :=
  if isAscii a && isAscii b then .ok (a == b) else .error .typeError

namespace CertificateIdentity

/-- The part of `matches` that looks at the SPKI hash. -/
def matchesSpki (presented expected : Option String) : Except CertExc Bool :=
  match expected, presented with
  | none, _ => .ok true
  | some _, none => .ok false
  | some expectedSpki, some spki => compareDigest spki expectedSpki

def matchesExpected (presented expected : CertificateIdentity) : Except CertExc Bool := do
  if expected.spkiSha256.isNone && expected.subjectDn.isNone && expected.sans.isEmpty
    then return false
  if !(← matchesSpki presented.spkiSha256 expected.spkiSha256) then return false
  if expected.subjectDn.isSome && presented.subjectDn != expected.subjectDn then return false
  if !expected.sans.isEmpty && !expected.sans.all (· ∈ presented.sans) then return false
  return true

end CertificateIdentity

structure CertVerifiedPeer where
  nodeId : String
  identity : CertificateIdentity
  deriving DecidableEq

def verifyCertificateIdentity (presented : CertificateIdentity) (nodeId : String)
    (expected : CertificateIdentity) :
    Except CertExc CertVerifiedPeer := do
  if !(← presented.matchesExpected expected) then
    throw (.unauthorizedCertificateIdentity "cert_identity_mismatch")
  return { nodeId, identity := presented }

namespace CertificateIdentity

variable {presented expected : CertificateIdentity}

theorem matchesSpki_iff {p e : Option String} :
    matchesSpki p e = .ok true ↔ ∀ s, e = some s → p = some s ∧ isAscii s = true := by
  cases e with
  | none => simp [matchesSpki]
  | some e =>
    cases p with
    | none => simp [matchesSpki]
    | some p =>
      by_cases hp : p = e
      · subst hp
        simp [matchesSpki, compareDigest]
      · by_cases ha : isAscii p = true ∧ isAscii e = true
        · simp [matchesSpki, compareDigest, ha, hp]
        · simp [matchesSpki, compareDigest, ha, hp]

/-- What the code asks of a match. -/
structure Matched (presented expected : CertificateIdentity) : Prop where
  given : expected ≠ {}
  spki : ∀ s, expected.spkiSha256 = some s → presented.spkiSha256 = some s ∧ isAscii s = true
  subject : ∀ s, expected.subjectDn = some s → presented.subjectDn = some s
  sans : ∀ n ∈ expected.sans, n ∈ presented.sans

theorem matchesExpected_iff : presented.matchesExpected expected = .ok true ↔
    presented.Matched expected := by
  have hspki := @matchesSpki_iff presented.spkiSha256 expected.spkiSha256
  by_cases hempty : expected = {}
  · have hrefused : presented.matchesExpected expected = .ok false := by
      rw [hempty]
      rfl
    simp only [hrefused, Except.ok.injEq, Bool.false_eq_true, false_iff]
    exact fun h => h.given hempty
  · have hgiven :
        (expected.spkiSha256.isNone && expected.subjectDn.isNone && expected.sans.isEmpty) =
          false := by
      rw [← Bool.not_eq_true]
      intro h
      apply hempty
      simp only [Bool.and_eq_true, Option.isNone_iff_eq_none, List.isEmpty_iff] at h
      cases expected
      simp_all
    by_cases hs : matchesSpki presented.spkiSha256 expected.spkiSha256 = .ok true
    · have hsubject : (expected.subjectDn.isSome && presented.subjectDn != expected.subjectDn) =
          false ↔
          ∀ s, expected.subjectDn = some s → presented.subjectDn = some s := by
        cases expected.subjectDn <;> simp
      have hsans : (!expected.sans.isEmpty && !expected.sans.all (· ∈ presented.sans)) = false ↔
          ∀ n ∈ expected.sans, n ∈ presented.sans := by
        cases expected.sans <;> simp
      have hrun : presented.matchesExpected expected = .ok true ↔
          (expected.subjectDn.isSome && presented.subjectDn != expected.subjectDn) = false ∧
            (!expected.sans.isEmpty && !expected.sans.all (· ∈ presented.sans)) = false := by
        simp only [matchesExpected, hgiven, hs, bind, Except.bind, pure, Except.pure]
        cases (expected.subjectDn.isSome && presented.subjectDn != expected.subjectDn) <;>
          cases (!expected.sans.isEmpty && !expected.sans.all (· ∈ presented.sans)) <;> simp
      rw [hrun, hsubject, hsans]
      exact ⟨fun h => ⟨hempty, hspki.mp hs, h.1, h.2⟩, fun h => ⟨h.subject, h.sans⟩⟩
    · have hrun : presented.matchesExpected expected ≠ .ok true := by
        intro h
        simp only [matchesExpected, hgiven, bind, Except.bind, pure, Except.pure] at h
        cases hm : matchesSpki presented.spkiSha256 expected.spkiSha256 with
        | error e => simp [hm] at h
        | ok b =>
          cases b with
          | false => simp [hm] at h
          | true => exact hs hm
      exact iff_of_false hrun fun h => hs (hspki.mpr h.spki)

/-- Some field of the identity is not empty. -/
def Constrained (expected : CertificateIdentity) : Prop :=
  (∃ s, expected.spkiSha256 = some s ∧ s ≠ "") ∨ (∃ s, expected.subjectDn = some s ∧ s ≠ "") ∨
    expected.sans ≠ []

/-- The presented identity meets every non-empty field of the expected one. -/
structure Meets (presented expected : CertificateIdentity) : Prop where
  spki : ∀ s, expected.spkiSha256 = some s → s ≠ "" → presented.spkiSha256 = some s
  subject : ∀ s, expected.subjectDn = some s → s ≠ "" → presented.subjectDn = some s
  sans : ∀ n ∈ expected.sans, n ∈ presented.sans

/-- Where the expected identity has an empty string, so has the presented one. -/
structure SharesBlanks (presented expected : CertificateIdentity) : Prop where
  spki : expected.spkiSha256 = some "" → presented.spkiSha256 = some ""
  subject : expected.subjectDn = some "" → presented.subjectDn = some ""

def AsciiSpki (expected : CertificateIdentity) : Prop := ∀ s, expected.spkiSha256 = some s →
    isAscii s = true

/-- Exactly where a match of this pair means what it should: among identities that
meet the non-empty fields, and among those that have none. -/
structure Settled (presented expected : CertificateIdentity) : Prop where
  constrained : expected.Constrained → presented.Meets expected → presented.SharesBlanks expected ∧
    expected.AsciiSpki
  unconstrained : ¬ expected.Constrained → expected ≠ {} → ¬ presented.SharesBlanks expected

/-- No empty string stands for an absent field, and the SPKI hash is ASCII. -/
structure WellPut (expected : CertificateIdentity) : Prop where
  spki : expected.spkiSha256 ≠ some ""
  subject : expected.subjectDn ≠ some ""
  ascii : expected.AsciiSpki

theorem matched_iff : presented.Matched expected ↔
    expected ≠ {} ∧ presented.Meets expected ∧ presented.SharesBlanks expected ∧
    expected.AsciiSpki := by
  constructor
  · intro h
    refine ⟨h.given, ⟨fun s hs _ => (h.spki s hs).1, fun s hs _ => h.subject s hs, h.sans⟩, ?_,
      fun s hs => (h.spki s hs).2⟩
    exact ⟨fun hs => (h.spki _ hs).1, h.subject _⟩
  · rintro ⟨hgiven, hmeets, hblanks, hascii⟩
    refine ⟨hgiven, ?_, ?_, hmeets.sans⟩
    · intro s hs
      refine ⟨?_, hascii s hs⟩
      by_cases hempty : s = ""
      · subst hempty
        exact hblanks.spki hs
      · exact hmeets.spki s hs hempty
    · intro s hs
      by_cases hempty : s = ""
      · subst hempty
        exact hblanks.subject hs
      · exact hmeets.subject s hs hempty

theorem Constrained.ne_empty (h : expected.Constrained) : expected ≠ {} := by
  rintro rfl
  simp [Constrained] at h

theorem meets_of_not_constrained (h : ¬ expected.Constrained) :
    presented.Meets expected ∧ expected.AsciiSpki := by
  simp only [Constrained, not_or, not_exists, not_and, not_not] at h
  obtain ⟨hspki, hsubject, hsans⟩ := h
  refine ⟨⟨fun s hs hne => absurd (hspki s hs) hne, fun s hs hne => absurd (hsubject s hs) hne,
    by simp [hsans]⟩, ?_⟩
  intro s hs
  rw [hspki s hs]
  decide

theorem matched_fits_iff :
    (presented.Matched expected ↔ expected.Constrained ∧ presented.Meets expected) ↔
    presented.Settled expected := by
  rw [matched_iff]
  by_cases hc : expected.Constrained
  · have hgiven := hc.ne_empty
    constructor
    · intro h
      exact ⟨fun _ hm => (h.mpr ⟨hc, hm⟩).2.2, fun hn => absurd hc hn⟩
    · intro h
      exact ⟨fun hm => ⟨hc, hm.2.1⟩, fun hm => ⟨hgiven, hm.2, h.constrained hc hm.2⟩⟩
  · obtain ⟨hmeets, hascii⟩ := @meets_of_not_constrained presented expected hc
    constructor
    · intro h
      exact ⟨fun hn => absurd hn hc, fun _ hgiven hblanks =>
        hc (h.mp ⟨hgiven, hmeets, hblanks, hascii⟩).1⟩
    · intro h
      exact ⟨fun hm => absurd hm.2.2.1 (h.unconstrained hc hm.1), fun hm => absurd hm.1 hc⟩

theorem WellPut.settled (h : expected.WellPut) (presented : CertificateIdentity) :
    presented.Settled expected := by
  refine ⟨fun _ _ => ⟨⟨fun hs => absurd hs h.spki, fun hs => absurd hs h.subject⟩, h.ascii⟩, ?_⟩
  intro hc hgiven
  exfalso
  simp only [Constrained, not_or, not_exists, not_and, not_not] at hc
  obtain ⟨hspki, hsubject, hsans⟩ := hc
  apply hgiven
  cases hs : expected.spkiSha256 with
  | some s => exact absurd (hspki s hs ▸ hs) h.spki
  | none =>
    cases hd : expected.subjectDn with
    | some d => exact absurd (hsubject d hd ▸ hd) h.subject
    | none =>
      cases expected
      simp_all

theorem wellPut_of_settled (h : ∀ presented : CertificateIdentity, presented.Settled expected) :
    expected.WellPut := by
  -- the identity itself shares every blank; one that lacks a field shares none there
  have hself : expected.SharesBlanks expected := ⟨id, id⟩
  by_cases hc : expected.Constrained
  · have hmeets : expected.Meets expected := ⟨fun _ hs _ => hs, fun _ hs _ => hs, fun _ hn => hn⟩
    refine ⟨?_, ?_, ((h expected).constrained hc hmeets).2⟩
    · intro hs
      have hlacks : ({ expected with spkiSha256 := none } : CertificateIdentity).Meets
        expected := by
        refine ⟨?_, fun _ hs _ => hs, fun _ hn => hn⟩
        intro s hs' hne
        exact absurd (Option.some.inj (hs.symm.trans hs')).symm hne
      have hblank := ((h _).constrained hc hlacks).1.spki hs
      cases hblank
    · intro hd
      have hlacks : ({ expected with subjectDn := none } : CertificateIdentity).Meets expected := by
        refine ⟨fun _ hs _ => hs, ?_, fun _ hn => hn⟩
        intro s hs' hne
        exact absurd (Option.some.inj (hd.symm.trans hs')).symm hne
      have hblank := ((h _).constrained hc hlacks).1.subject hd
      cases hblank
  · have hempty : expected = {} := by
      by_contra hgiven
      exact (h expected).unconstrained hc hgiven hself
    subst hempty
    exact ⟨by simp, by simp, by simp [AsciiSpki]⟩

/-- Every constraint of one expected identity is one of the other. -/
structure Extends (expected' expected : CertificateIdentity) : Prop where
  spki : ∀ s, expected.spkiSha256 = some s → s ≠ "" → expected'.spkiSha256 = some s
  subject : ∀ s, expected.subjectDn = some s → s ≠ "" → expected'.subjectDn = some s
  sans : ∀ n ∈ expected.sans, n ∈ expected'.sans

theorem Meets.of_extends {expected' : CertificateIdentity} (h : presented.Meets expected')
    (hext : expected'.Extends expected) : presented.Meets expected :=
  ⟨fun s hs hne => h.spki s (hext.spki s hs hne) hne, fun s hs hne =>
    h.subject s (hext.subject s hs hne) hne,
    fun n hn => h.sans n (hext.sans n hn)⟩

end CertificateIdentity

open CertificateIdentity

/-- A pair matches as it should exactly if it is settled, an expected identity
matches as it should whatever is presented exactly if it is well put, and then more
constraints admit no more and no constraint admits nothing. -/
theorem certificate_match_iff (expected : CertificateIdentity) :
    (∀ presented : CertificateIdentity,
      (presented.matchesExpected expected = .ok true ↔ expected.Constrained ∧
        presented.Meets expected) ↔
        presented.Settled expected) ∧
      ((∀ presented : CertificateIdentity,
        presented.matchesExpected expected = .ok true ↔ expected.Constrained ∧
          presented.Meets expected) ↔
          expected.WellPut) ∧
      (∀ presented expected' : CertificateIdentity, expected.WellPut → expected'.WellPut →
        expected.Constrained → expected'.Extends expected →
          presented.matchesExpected expected' = .ok true →
          presented.matchesExpected expected = .ok true) ∧
      ∀ presented : CertificateIdentity, expected.WellPut → ¬ expected.Constrained →
        presented.matchesExpected expected ≠ .ok true := by
  have hpair : ∀ presented expected : CertificateIdentity,
      (presented.matchesExpected expected = .ok true ↔ expected.Constrained ∧
        presented.Meets expected) ↔
        presented.Settled expected := by
    intro presented expected
    rw [matchesExpected_iff]
    exact matched_fits_iff
  have hput : ∀ {expected : CertificateIdentity}, expected.WellPut → ∀ presented :
      CertificateIdentity,
      presented.matchesExpected expected = .ok true ↔ expected.Constrained ∧
        presented.Meets expected :=
    fun h presented => (hpair presented _).mpr (h.settled presented)
  refine ⟨fun presented => hpair presented expected, ⟨?_, hput⟩, ?_, ?_⟩
  · intro h
    exact wellPut_of_settled fun presented => (hpair presented expected).mp (h presented)
  · intro presented expected' h h' hc hext hm
    exact (hput h presented).mpr ⟨hc, (((hput h' presented).mp hm).2).of_extends hext⟩
  · intro presented h hc hm
    exact hc ((hput h presented).mp hm).1

theorem thumbprint_settled :
    ({ spkiSha256 := some "sha256:00" } : CertificateIdentity).matchesExpected
    { spkiSha256 := some "sha256:00" } = .ok true := by
  have hput : ({ spkiSha256 := some "sha256:00" } : CertificateIdentity).WellPut :=
    ⟨by simp, by simp, by rintro s ⟨⟩; decide⟩
  refine ((certificate_match_iff _).2.1.mpr hput _).mpr ⟨.inl ⟨_, rfl, by simp⟩, ?_⟩
  exact ⟨fun _ hs _ => hs, fun _ hs _ => hs, fun _ hn => hn⟩

/-- An expected identity whose fields are all empty admits every certificate without
a subject. -/
theorem blank_admitted :
    ¬ ({ subjectDn := some "" } : CertificateIdentity).Constrained ∧
      verifyCertificateIdentity { subjectDn := some "", spkiSha256 := some "sha256:00" } "alpha"
        { subjectDn := some "" } =
        .ok ⟨"alpha", { subjectDn := some "", spkiSha256 := some "sha256:00" }⟩ := by
  refine ⟨?_, rfl⟩
  rintro (⟨s, hs, hne⟩ | ⟨s, hs, hne⟩ | hsans)
  · cases hs
  · cases hs
    exact hne rfl
  · exact hsans rfl

end Federlet
