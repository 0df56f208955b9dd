import Federlet.Models

/-! What the code takes from outside the repository, and the JWK, base64url and
detached-signature helpers built on it. Nothing is assumed of a `Platform`: a
result that rests on an ideal scheme, on the documented behaviour of RFC 8785 or
on collision freedom says so in its hypotheses. -/

namespace Federlet

abbrev Bytes := List UInt8

structure IpAddress where
  isPrivate : Bool
  isLoopback : Bool
  isLinkLocal : Bool
  isReserved : Bool
  deriving DecidableEq

structure Platform where
  upper : String → String
  lower : String → String
  sha256Hexdigest : Bytes → String
  ed25519Verify : Bytes → Bytes → Bytes → Bool
  rfc8785Dumps : Json → Except Exc Bytes
  /-- `ipaddress.ip_address`, `none` for its `ValueError`. -/
  ipAddress : String → Option IpAddress
  /-- Whether `urlsplit` finds no fault in a bracketed host or, under NFKC, in a netloc. -/
  netlocAccepted : String → Bool
  /-- `SignedRequest.model_validate_json`, `none` for its `ValidationError`. -/
  parseSignedRequest : String → Option SignedRequest
  validateManifest : Json → Except Exc Manifest
  validateMembers : Json → Except Exc MembersResponse
  validateIntroduce : Json → Except Exc IntroduceResponse

def b64Value (c : Char) : Option Nat :=
  if 'A' ≤ c ∧ c ≤ 'Z' then some (c.toNat - 65)
  else if 'a' ≤ c ∧ c ≤ 'z' then some (c.toNat - 71)
  else if '0' ≤ c ∧ c ≤ '9' then some (c.toNat + 4)
  else if c = '-' ∨ c = '+' then some 62
  else if c = '_' ∨ c = '/' then some 63
  else none

/-- `binascii.a2b_base64` outside strict mode: characters off the alphabet are
skipped and a completed padding ends the input. -/
def a2bBase64 : List Char → (quad left pads : Nat) → List UInt8 → Except Exc Bytes
  | [], quad, _, _, out => if quad = 0 then .ok out.reverse else .error .valueError
  | c :: cs, quad, left, pads, out =>
    if c = '=' then
      if quad < 2 then a2bBase64 cs quad left pads out
      else if 4 ≤ quad + (pads + 1) then .ok out.reverse
      else a2bBase64 cs quad left (pads + 1) out
    else
      match b64Value c with
      | none => a2bBase64 cs quad left pads out
      | some v =>
        match quad with
        | 0 => a2bBase64 cs 1 v 0 out
        | 1 => a2bBase64 cs 2 (v % 16) 0 (UInt8.ofNat (left * 4 + v / 16) :: out)
        | 2 => a2bBase64 cs 3 (v % 4) 0 (UInt8.ofNat (left * 16 + v / 4) :: out)
        | _ => a2bBase64 cs 0 0 0 (UInt8.ofNat (left * 64 + v) :: out)

def b64uDecode (s : String) : Except Exc Bytes :=
  let padded := s.toList ++ List.replicate ((4 - s.length % 4) % 4) '='
  if padded.all (fun c => c.toNat < 128) then a2bBase64 padded 0 0 0 [] else .error .valueError

theorem a2bBase64_error {cs : List Char} {quad left pads : Nat} {out : List UInt8} {e : Exc}
    (h : a2bBase64 cs quad left pads out = .error e) : e = .valueError := by
  fun_induction a2bBase64 cs quad left pads out <;> simp_all

theorem b64uDecode_error {s : String} {e : Exc} (h : b64uDecode s = .error e) :
    e = .valueError := by
  simp only [b64uDecode] at h
  split at h
  · exact a2bBase64_error h
  · simpa using h.symm

def publicKeyFromJwk (jwk : JWK) : Except Exc Bytes :=
  if jwk.lookup "kty" ≠ some "OKP" ∨ jwk.lookup "crv" ≠ some "Ed25519" then .error .valueError
  else
    match jwk.lookup "x" with
    | none => .error .keyError
    | some x =>
      match b64uDecode x with
      | .error e => .error e
      | .ok raw => if raw.length = 32 then .ok raw else .error .valueError

/-- The one malformed JWK `verify_bytes` does not absorb: an Ed25519 key without
its `x` member. -/
def lacksX (jwk : JWK) : Bool :=
  jwk.lookup "kty" = some "OKP" ∧ jwk.lookup "crv" = some "Ed25519" ∧ jwk.lookup "x" = none

theorem publicKeyFromJwk_error_iff {jwk : JWK} :
    (∃ e, publicKeyFromJwk jwk = .error e ∧ e.isValueError = false) ↔ lacksX jwk = true := by
  simp only [publicKeyFromJwk, lacksX, decide_eq_true_eq]
  by_cases hk : jwk.lookup "kty" ≠ some "OKP" ∨ jwk.lookup "crv" ≠ some "Ed25519"
  · have hk' : ¬ (jwk.lookup "kty" = some "OKP" ∧ jwk.lookup "crv" = some "Ed25519" ∧
        jwk.lookup "x" = none) := by tauto
    rw [if_pos hk, iff_false_right hk']
    rintro ⟨e, he, hv⟩
    cases he
    cases hv
  · rw [if_neg hk]
    have hk' : jwk.lookup "kty" = some "OKP" ∧ jwk.lookup "crv" = some "Ed25519" := by tauto
    cases hx : jwk.lookup "x" with
    | none => exact ⟨fun _ => ⟨hk'.1, hk'.2, rfl⟩, fun _ => ⟨.keyError, rfl, rfl⟩⟩
    | some x =>
      simp only [reduceCtorEq, and_false, iff_false]
      rintro ⟨e, he, hv⟩
      cases hb : b64uDecode x with
      | error e' =>
        obtain rfl := b64uDecode_error hb
        simp only [hb, Except.error.injEq] at he
        simp [← he, Exc.isValueError] at hv
      | ok raw =>
        simp only [hb] at he
        split_ifs at he
        simp only [Except.error.injEq] at he
        simp [← he, Exc.isValueError] at hv

def canonicalBytes (P : Platform) (obj : Json) : Except Exc Bytes := P.rfc8785Dumps obj

/-- The body of `verify_bytes` inside its `try`. -/
def verifySignature (P : Platform) (jwk : JWK) (sig : String) (data : Bytes) : Except Exc Bool := do
  let key ← publicKeyFromJwk jwk
  let raw ← b64uDecode sig
  return P.ed25519Verify key raw data

def verifyBytes (P : Platform) (jwk : JWK) (sig : String) (data : Bytes) : Except Exc Bool :=
  match verifySignature P jwk sig data with
  | .ok b => .ok b
  | .error e => if e.isValueError then .ok false else .error e

def sha256Hex (P : Platform) (data : Bytes) : String := "sha256:" ++ P.sha256Hexdigest data

theorem verifyBytes_error_iff {P : Platform} {jwk : JWK} {sig : String} {data : Bytes} :
    (∃ e, verifyBytes P jwk sig data = .error e) ↔ lacksX jwk = true := by
  rw [← publicKeyFromJwk_error_iff]
  simp only [verifyBytes, verifySignature]
  cases hk : publicKeyFromJwk jwk with
  | error e =>
    cases hv : e.isValueError <;> simp [hv, bind, Except.bind]
  | ok key =>
    cases hb : b64uDecode sig with
    | error e =>
      obtain rfl := b64uDecode_error hb
      simp [bind, Except.bind, Exc.isValueError]
    | ok raw => simp [bind, Except.bind, pure, Except.pure]

theorem verifyBytes_error {P : Platform} {jwk : JWK} {sig : String} {data : Bytes} {e : Exc}
    (h : verifyBytes P jwk sig data = .error e) : e.isValueError = false := by
  simp only [verifyBytes] at h
  split at h
  · cases h
  · split_ifs at h with hv
    cases h
    exact Bool.eq_false_iff.mpr hv

theorem verifyBytes_true {P : Platform} {jwk : JWK} {sig : String} {data : Bytes}
    (h : verifyBytes P jwk sig data = .ok true) :
    ∃ key raw, publicKeyFromJwk jwk = .ok key ∧ b64uDecode sig = .ok raw ∧
      P.ed25519Verify key raw data = true := by
  simp only [verifyBytes, verifySignature] at h
  cases hk : publicKeyFromJwk jwk with
  | error e =>
    rw [hk] at h
    cases hv : e.isValueError <;> simp [hv, bind, Except.bind] at h
  | ok key =>
    cases hb : b64uDecode sig with
    | error e =>
      obtain rfl := b64uDecode_error hb
      simp [hk, hb, bind, Except.bind, Exc.isValueError] at h
    | ok raw =>
      refine ⟨key, raw, rfl, rfl, ?_⟩
      simpa [hk, hb, bind, Except.bind, pure, Except.pure] using h

end Federlet
