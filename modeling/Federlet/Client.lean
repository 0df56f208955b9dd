import Federlet.Signing
import Federlet.Net

/-! The calls a node makes to its peers. Signing a request's headers is part of
the HTTP call: what it may raise is among the call's answers. -/

namespace Federlet

structure FederationClient where
  nodeId : String
  federationId : String
  allowPrivate : Bool := false

def fetchManifest (P : Platform) (client : FederationClient) (o : Origin) (manifestUrl : String)
    (maxSkewSeconds : Int) : Py Manifest := do
  assertPublicHost P o manifestUrl client.allowPrivate
  let r ← httpGet o manifestUrl
  raising r.raiseForStatus
  let body ← raising r.json
  let manifest ← raising (P.validateManifest body)
  let (ok, reason) ← checkManifest P o manifest maxSkewSeconds
  if !ok then throw (.manifestVerificationError reason)
  return manifest

/-- `_send`, with `params` as it arises: an empty `since` sends none. -/
def send (o : Origin) (targetNodeId method url : String) (since : Option String) : Py Response := do
  let r ← httpRequest o targetNodeId method url (since.filter (· ≠ ""))
  raising r.raiseForStatus
  return r

def introduce (P : Platform) (o : Origin) (peer : Manifest) : Py IntroduceResponse := do
  let r ← send o peer.nodeId "POST" peer.membership.introduceUrl none
  let body ← raising r.json
  let resp ← raising (P.validateIntroduce body)
  if !(← raising (verifyResponseSignature P peer resp.signature resp)) then
    throw (.responseSignatureError "bad_signature")
  return resp

def getMembers (P : Platform) (o : Origin) (peer : Manifest) (since : Option String) :
    Py MembersResponse := do
  let r ← send o peer.nodeId "GET" peer.membership.membersUrl since
  let body ← raising r.json
  let resp ← raising (P.validateMembers body)
  if !(← raising (verifyResponseSignature P peer resp.signature resp)) then
    throw (.responseSignatureError "bad_signature")
  return resp

end Federlet
