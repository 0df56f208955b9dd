import Mathlib.Data.List.Basic

/-! The exceptions that can cross a federlet call, by class, and the shared
vocabulary of transport reasons. Classes the code never tells apart are one
constructor; `other` is any class it does not name (`socket.gaierror`,
`UnicodeError`, `RecursionError`, a host's own). -/

namespace Federlet

inductive Exc where
  | valueError
  | keyError
  | typeError
  | overflowError
  | validationError
  | serializationError
  | canonicalizationError
  | jsonDecodeError
  | ssrfError
  | timeoutError
  | httpStatusError
  | transportError
  | httpError
  | manifestVerificationError (reason : String)
  | responseSignatureError (reason : String)
  | missingRevocationsEndpointError
  | unauthorizedPeerRequest (reason : String)
  | other (className : String)
  deriving DecidableEq, Repr

namespace Exc

/-- `except ValueError` catches the class and its subclasses. -/
def isValueError : Exc → Bool
  | .valueError | .validationError | .serializationError | .canonicalizationError
  | .jsonDecodeError | .ssrfError | .manifestVerificationError _ | .responseSignatureError _
  | .missingRevocationsEndpointError | .unauthorizedPeerRequest _ => true
  | .keyError | .typeError | .overflowError | .timeoutError | .httpStatusError | .transportError
  | .httpError | .other _ => false

def className : Exc → String
  | .valueError => "ValueError"
  | .keyError => "KeyError"
  | .typeError => "TypeError"
  | .overflowError => "OverflowError"
  | .validationError => "ValidationError"
  | .serializationError => "PydanticSerializationError"
  | .canonicalizationError => "CanonicalizationError"
  | .jsonDecodeError => "JSONDecodeError"
  | .ssrfError => "SSRFError"
  | .timeoutError => "TimeoutException"
  | .httpStatusError => "HTTPStatusError"
  | .transportError => "TransportError"
  | .httpError => "HTTPError"
  | .manifestVerificationError _ => "ManifestVerificationError"
  | .responseSignatureError _ => "ResponseSignatureError"
  | .missingRevocationsEndpointError => "MissingRevocationsEndpointError"
  | .unauthorizedPeerRequest _ => "UnauthorizedPeerRequest"
  | .other name => name

end Exc

def transportFailureReason : Exc → Option String
  | .ssrfError => some "ssrf_rejected"
  | .timeoutError => some "timeout"
  | .httpStatusError => some "http_error"
  | .transportError => some "transport_error"
  | .httpError => some "http_error"
  | _ => none

end Federlet
