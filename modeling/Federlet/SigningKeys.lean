import Federlet.Signing

/-! Signing with a private key: the base64url text of a signature, the key's public
JWK and the signed copy of a payload. -/

namespace Federlet

def b64Char (n : Nat) : Char :=
  "ABCDEFGHIJKLMNOPQRSTUVWXYZabcdefghijklmnopqrstuvwxyz0123456789-_".toList.getD n 'A'

def b64Chars : Bytes → List Char
  | a :: b :: c :: rest =>
    b64Char (a.toNat / 4) :: b64Char (a.toNat % 4 * 16 + b.toNat / 16) ::
      b64Char (b.toNat % 16 * 4 + c.toNat / 64) :: b64Char (c.toNat % 64) :: b64Chars rest
  | [a, b] =>
    [b64Char (a.toNat / 4), b64Char (a.toNat % 4 * 16 + b.toNat / 16), b64Char (b.toNat % 16 * 4)]
  | [a] => [b64Char (a.toNat / 4), b64Char (a.toNat % 4 * 16)]
  | [] => []

def b64uEncode (raw : Bytes) : String := String.ofList (b64Chars raw)

structure Ed25519PrivateKey where
  publicBytes : Bytes
  length_eq : publicBytes.length = 32
  sign : Bytes → Bytes

/-- A signature of the key verifies for the bytes it was made for and no others. -/
def Ed25519PrivateKey.Ideal (P : Platform) (key : Ed25519PrivateKey) : Prop :=
  ∀ data data', P.ed25519Verify key.publicBytes (key.sign data) data' = true ↔ data = data'

def publicJwk (key : Ed25519PrivateKey) : JWK :=
  Keyed.ofList [("kty", "OKP"), ("crv", "Ed25519"), ("alg", "EdDSA"),
    ("x", b64uEncode key.publicBytes)]

def signBytes (key : Ed25519PrivateKey) (data : Bytes) : String := b64uEncode (key.sign data)

def setMember (k : String) (v : Json) : List (String × Json) → List (String × Json)
  | [] => [(k, v)]
  | kv :: kvs => if kv.1 = k then (k, v) :: kvs else kv :: setMember k v kvs

def signDict (P : Platform) (payload : List (String × Json)) (key : Ed25519PrivateKey)
    (keyId : String) :
    Except Exc (List (String × Json)) := do
  let data ← canonicalBytes P (.obj (payload.filter (fun kv => kv.1 ≠ "signature")))
  let signature : Signature := { keyId, sig := signBytes key data }
  return setMember "signature" signature.toJson payload

theorem b64Value_b64Char {n : Nat} (h : n < 64) : b64Value (b64Char n) = some n ∧ b64Char n ≠ '=' ∧
    (b64Char n).toNat < 128 := by
  revert n
  decide +kernel

section Quad

variable {n : Nat} (h : n < 64) (cs : List Char) (left pads : Nat) (out : List UInt8)
include h

theorem a2bBase64_first : a2bBase64 (b64Char n :: cs) 0 left pads out = a2bBase64 cs 1 n 0 out := by
  obtain ⟨hvalue, hne, _⟩ := b64Value_b64Char h
  simp only [a2bBase64, hne, ↓reduceIte, hvalue]

theorem a2bBase64_second : a2bBase64 (b64Char n :: cs) 1 left pads out =
    a2bBase64 cs 2 (n % 16) 0 (UInt8.ofNat (left * 4 + n / 16) :: out) := by
  obtain ⟨hvalue, hne, _⟩ := b64Value_b64Char h
  simp only [a2bBase64, hne, ↓reduceIte, hvalue]

theorem a2bBase64_third : a2bBase64 (b64Char n :: cs) 2 left pads out =
    a2bBase64 cs 3 (n % 4) 0 (UInt8.ofNat (left * 16 + n / 4) :: out) := by
  obtain ⟨hvalue, hne, _⟩ := b64Value_b64Char h
  simp only [a2bBase64, hne, ↓reduceIte, hvalue]

theorem a2bBase64_fourth : a2bBase64 (b64Char n :: cs) 3 left pads out =
    a2bBase64 cs 0 0 0 (UInt8.ofNat (left * 64 + n) :: out) := by
  obtain ⟨hvalue, hne, _⟩ := b64Value_b64Char h
  simp only [a2bBase64, hne, ↓reduceIte, hvalue]

end Quad

theorem quad_first (a : UInt8) {m : Nat} (h : m < 16) :
    UInt8.ofNat (a.toNat / 4 * 4 + (a.toNat % 4 * 16 + m) / 16) = a := by
  have heq : a.toNat / 4 * 4 + (a.toNat % 4 * 16 + m) / 16 = a.toNat := by omega
  rw [heq, UInt8.ofNat_toNat]

theorem quad_second (a b : UInt8) {m : Nat} (h : m < 4) :
    UInt8.ofNat ((a.toNat % 4 * 16 + b.toNat / 16) % 16 * 16 + (b.toNat % 16 * 4 + m) / 4) = b := by
  have hb := b.toNat_lt
  have heq : (a.toNat % 4 * 16 + b.toNat / 16) % 16 * 16 + (b.toNat % 16 * 4 + m) / 4 = b.toNat :=
    by omega
  rw [heq, UInt8.ofNat_toNat]

theorem quad_third (b c : UInt8) :
    UInt8.ofNat ((b.toNat % 16 * 4 + c.toNat / 64) % 4 * 64 + c.toNat % 64) = c := by
  have hc := c.toNat_lt
  have heq : (b.toNat % 16 * 4 + c.toNat / 64) % 4 * 64 + c.toNat % 64 = c.toNat := by omega
  rw [heq, UInt8.ofNat_toNat]

def padding (length : Nat) : List Char := List.replicate ((4 - length % 4) % 4) '='

theorem padding_add_four (length : Nat) : padding (length + 4) = padding length := by
  simp only [padding, Nat.add_mod_right]

theorem a2bBase64_b64Chars (raw : Bytes) (left pads : Nat) (out : List UInt8) :
    a2bBase64 (b64Chars raw ++ padding (b64Chars raw).length) 0 left pads out =
      .ok (out.reverse ++ raw) := by
  induction raw using b64Chars.induct generalizing left pads out with
  | case1 a b c rest ih =>
    have ha := a.toNat_lt
    have hb := b.toNat_lt
    have hc := c.toNat_lt
    simp only [b64Chars, List.cons_append, List.length_cons, padding_add_four]
    rw [a2bBase64_first (by omega), a2bBase64_second (by omega), a2bBase64_third (by omega),
      a2bBase64_fourth (by omega), ih, quad_first a (by omega), quad_second a b
        (by omega), quad_third]
    simp
  | case2 a b =>
    have ha := a.toNat_lt
    have hb := b.toNat_lt
    simp only [b64Chars, List.cons_append, List.nil_append]
    have hsecond := @quad_second a b 0 (by omega)
    rw [Nat.add_zero] at hsecond
    rw [a2bBase64_first (by omega), a2bBase64_second (by omega), a2bBase64_third (by omega),
      quad_first a (by omega), hsecond]
    simp [padding, a2bBase64]
  | case3 a =>
    have ha := a.toNat_lt
    simp only [b64Chars, List.cons_append, List.nil_append]
    have hfirst := @quad_first a 0 (by omega)
    rw [Nat.add_zero] at hfirst
    rw [a2bBase64_first (by omega), a2bBase64_second (by omega), hfirst]
    simp [padding, a2bBase64]
  | case4 => simp [b64Chars, padding, a2bBase64]

theorem b64Chars_ascii (raw : Bytes) : ∀ c ∈ b64Chars raw, c.toNat < 128 := by
  have hchar : ∀ {n}, n < 64 → (b64Char n).toNat < 128 := fun h => (b64Value_b64Char h).2.2
  induction raw using b64Chars.induct with
  | case1 a b c rest ih =>
    have ha := a.toNat_lt
    have hb := b.toNat_lt
    have hc := c.toNat_lt
    simp only [b64Chars, List.forall_mem_cons]
    exact ⟨hchar (by omega), hchar (by omega), hchar (by omega), hchar (by omega), ih⟩
  | case2 a b =>
    have ha := a.toNat_lt
    have hb := b.toNat_lt
    simp only [b64Chars, List.forall_mem_cons]
    exact ⟨hchar (by omega), hchar (by omega), hchar (by omega), by simp⟩
  | case3 a =>
    have ha := a.toNat_lt
    simp only [b64Chars, List.forall_mem_cons]
    exact ⟨hchar (by omega), hchar (by omega), by simp⟩
  | case4 => simp [b64Chars]

theorem b64uDecode_b64uEncode (raw : Bytes) : b64uDecode (b64uEncode raw) = .ok raw := by
  have hascii : (b64Chars raw ++ padding (b64Chars raw).length).all
      (fun c => c.toNat < 128) = true := by
    rw [List.all_append, Bool.and_eq_true]
    refine ⟨by simpa using b64Chars_ascii raw, ?_⟩
    simp [padding]
  have hdecode := a2bBase64_b64Chars raw 0 0 []
  simp only [padding] at hascii hdecode
  simp only [b64uDecode, b64uEncode, String.toList_ofList, String.length_ofList, hascii,
    ↓reduceIte, hdecode]
  rfl

theorem publicKeyFromJwk_publicJwk (key : Ed25519PrivateKey) :
    publicKeyFromJwk (publicJwk key) = .ok key.publicBytes := by
  have hkty : (publicJwk key).lookup "kty" = some "OKP" := by
    simp [publicJwk, Dict.lookup, Keyed.get_ofList]
  have hcrv : (publicJwk key).lookup "crv" = some "Ed25519" := by
    simp [publicJwk, Dict.lookup, Keyed.get_ofList]
  have hx : (publicJwk key).lookup "x" = some (b64uEncode key.publicBytes) := by
    simp [publicJwk, Dict.lookup, Keyed.get_ofList]
  simp only [publicKeyFromJwk, hkty, hcrv, hx, ne_eq, not_true_eq_false, or_self, ↓reduceIte,
    b64uDecode_b64uEncode, key.length_eq]

theorem verifyBytes_signBytes {P : Platform} {key : Ed25519PrivateKey} (hkey : key.Ideal P)
    (data data' : Bytes) :
    ∃ b, verifyBytes P (publicJwk key) (signBytes key data) data' = .ok b ∧
      (b = true ↔ data = data') := by
  refine ⟨P.ed25519Verify key.publicBytes (key.sign data) data', ?_, hkey data data'⟩
  simp only [verifyBytes, verifySignature, publicKeyFromJwk_publicJwk, signBytes,
    b64uDecode_b64uEncode, bind, Except.bind, pure, Except.pure]

theorem setMember_signature {fields : List (String × Json)}
    {signature : Option Signature} {v : Json} (h : ∀ kv ∈ fields, kv.1 ≠ "signature") :
    setMember "signature" v (fields ++ optional "signature" Signature.toJson signature) =
      fields ++ [("signature", v)] := by
  induction fields with
  | nil => cases signature <;> simp [setMember, optional]
  | cons kv fields ih =>
    obtain ⟨hne, hrest⟩ := List.forall_mem_cons.mp h
    simp only [List.cons_append, setMember, hne, ↓reduceIte, ih hrest]

end Federlet
