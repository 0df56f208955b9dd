import Federlet.Models

/-! Operation envelopes: opaque payloads with optional provenance and signature. -/

namespace Federlet

structure PayloadProvenance where
  nodeId : String
  contentHash : Option String := none
  extra : Extra ["node_id", "content_hash"] := default

structure OperationItem where
  payload : Dict Json := Keyed.empty
  provenance : Option PayloadProvenance := none
  signature : Option Signature := none

structure OperationResponse where
  operationId : String
  sourceNodeId : String
  payload : Dict Json := Keyed.empty
  items : List OperationItem := []
  metadata : Dict Json := Keyed.empty
  signature : Option Signature := none

def PayloadProvenance.toJson (p : PayloadProvenance) : Json :=
  .obj ([("node_id", .str p.nodeId)] ++ optional "content_hash" .str p.contentHash ++ p.extra.dump)

def OperationItem.fields (i : OperationItem) : List (String × Json) :=
  [("payload", .obj i.payload.entries)] ++ optional "provenance"
    PayloadProvenance.toJson i.provenance

instance : Model OperationItem where
  dump i := .ok (i.fields ++ optional "signature" Signature.toJson i.signature)

def OperationItem.toJson (i : OperationItem) : Json :=
  .obj (i.fields ++ optional "signature" Signature.toJson i.signature)

instance : Model OperationResponse where
  dump r := .ok ([("operation_id", .str r.operationId), ("source_node_id", .str r.sourceNodeId),
    ("payload", .obj r.payload.entries), ("items", .arr (r.items.map OperationItem.toJson)),
    ("metadata", .obj r.metadata.entries)] ++ optional "signature" Signature.toJson r.signature)

end Federlet
