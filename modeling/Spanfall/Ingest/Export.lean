/-
`Export.lean` -- `src/ingest/http.rs`, `src/ingest/grpc.rs` and the `decode` of
`src/ingest/convert.rs`: the two ways a request comes in.

What stands in front of the handlers is not all in the source. Over HTTP the
extractor `Bytes` reads the body first, and axum lets it take two mebibytes where a
router sets no limit; then the handler decodes by the content type. Over gRPC tonic
reads the message, four mebibytes of it where a server sets no limit, and decodes it
before the handler runs. What is too long, or does not decode, is answered at once,
without a call of `accept`. The two decoders are arguments; of them only the result
is used.
-/
import Spanfall.Ingest.Accept

set_option autoImplicit false

namespace Spanfall

/-- `ContentType`. -/
inductive ContentType where
  | protobuf
  | json
  deriving DecidableEq

/-- The decoders of `prost` and `serde_json`: a request, or the error's text. -/
structure Decoders where
  protobuf : List UInt8 → Except String ExportTraceServiceRequest
  json : List UInt8 → Except String ExportTraceServiceRequest

/-- `decode`. -/
def decode (decoders : Decoders) (bytes : List UInt8) (content_type : ContentType) :
    Except RejectReason ExportTraceServiceRequest :=
  match content_type with
  | .protobuf => (decoders.protobuf bytes).mapError .decode_error
  | .json => (decoders.json bytes).mapError .decode_error

/-- The `match` on the content type. `none` is a header that is missing or not
visible ASCII; everything that does not begin like JSON is taken for protobuf. -/
def content_type_of (header : Option String) : ContentType × Transport :=
  match header with
  | some ct =>
    if "application/json".toList <+: ct.toList then (.json, .http_json_v4318)
    else (.protobuf, .http_protobuf_v4318)
  | none => (.protobuf, .http_protobuf_v4318)

/-! ## The answers -/

/-- An answer over HTTP: the status, the `Retry-After` header and the body. -/
structure HttpResponse where
  status : ℕ
  retry_after : Option String
  body : String
  deriving DecidableEq

/-- The `400` of `export`. -/
def http_bad_request (printable : Char → Bool) (reason : RejectReason) : HttpResponse :=
  { status := 400, retry_after := none, body := reason.debug printable }

/-- The `match` of the HTTP `export` on the result of `accept`. -/
def http_response (printable : Char → Bool) : Except IngestError Unit → HttpResponse
  | .ok () => { status := 200, retry_after := none, body := "" }
  | .error (.reject .empty_payload) => { status := 200, retry_after := none, body := "" }
  | .error (.reject reason) => http_bad_request printable reason
  | .error .conversion_panicked => { status := 500, retry_after := none, body := "" }
  | .error .backpressure => { status := 429, retry_after := some "1", body := "" }
  | .error .writer_gone => { status := 500, retry_after := none, body := "" }

/-- The codes of `tonic::Status` that are answered with. -/
inductive GrpcCode where
  | invalid_argument
  | internal
  | resource_exhausted
  | out_of_range
  deriving DecidableEq

/-- The `match` of the gRPC `export`: the response carries nothing. -/
def grpc_response (printable : Char → Bool) :
    Except IngestError Unit → Except (GrpcCode × String) Unit
  | .ok () => .ok ()
  | .error (.reject .empty_payload) => .ok ()
  | .error (.reject reason) => .error (.invalid_argument, reason.debug printable)
  | .error .conversion_panicked => .error (.internal, "conversion panicked")
  | .error .backpressure =>
    .error (.resource_exhausted, "store write backlog exceeded --ingest-timeout, retry")
  | .error .writer_gone => .error (.internal, "writer task not running")

/-! ## In front of `accept` -/

/-- The bytes that axum lets the extractor `Bytes` take. `router` sets no limit of its
own. -/
def HTTP_BODY_LIMIT : ℕ := 2 * 1024 * 1024

/-- The bytes of a message that tonic decodes. The server sets no limit of its own. -/
def GRPC_MESSAGE_LIMIT : ℕ := 4 * 1024 * 1024

/-- The `413` of the extractor. -/
def http_payload_too_large : HttpResponse where
  status := 413
  retry_after := none
  body := "Failed to buffer the request body: length limit exceeded"

/-- The HTTP `export` up to its call of `accept`, the extractor included. -/
def http_request (decoders : Decoders) (printable : Char → Bool) (header : Option String)
    (body : List UInt8) : Except HttpResponse (ExportTraceServiceRequest × Transport) :=
  if HTTP_BODY_LIMIT < body.length then .error http_payload_too_large
  else
    let (content_type, transport) := content_type_of header
    match decode decoders body content_type with
    | .ok request => .ok (request, transport)
    | .error reason => .error (http_bad_request printable reason)

/-- A gRPC message in front of tonic: the length that comes with it, and what `prost`
makes of its bytes. -/
structure GrpcMessage where
  length : ℕ
  decoded : Except String ExportTraceServiceRequest

/-- What tonic does before the gRPC `export` runs. -/
def grpc_request (message : GrpcMessage) : Except (GrpcCode × String) ExportTraceServiceRequest :=
  if GRPC_MESSAGE_LIMIT < message.length then
    .error (.out_of_range, "Error, decoded message length too large: found "
      ++ toString message.length ++ " bytes, the limit is: " ++ toString GRPC_MESSAGE_LIMIT
      ++ " bytes")
  else message.decoded.mapError fun text => (.internal, text)

/-- A request as it reaches one of the ports. -/
inductive ExportRequest where
  | http (header : Option String) (body : List UInt8)
  | grpc (message : GrpcMessage)

/-- An answer that is given without a call of `accept`. -/
inductive Refusal where
  | http (response : HttpResponse)
  | grpc (code : GrpcCode) (message : String)
  deriving DecidableEq

/-- What a request comes to `accept` with, if it does. -/
def ExportRequest.receive (decoders : Decoders) (printable : Char → Bool) :
    ExportRequest → Except Refusal (ExportTraceServiceRequest × Transport)
  | http header body => (http_request decoders printable header body).mapError .http
  | grpc message =>
    match grpc_request message with
    | .ok request => .ok (request, .grpc_v4317)
    | .error (code, text) => .error (.grpc code text)

/-! ## The system behind the ports -/

/-- What reaches the process, and what its parties do with it. -/
inductive ExportAction where
  | request (request : ExportRequest)
  | proceed (action : IngestAction)

/-- The system behind both ports, and the answers given without a call. -/
structure Exports where
  ingest : Ingest
  refused : List Refusal

namespace Exports

def start (store : Store) : Exports := { ingest := Ingest.start store, refused := [] }

/-- One action. A call of `accept` is only made by a request. -/
def step (decoders : Decoders) (cfg : IngestConfig) (self : Exports) :
    ExportAction → Option Exports
  | .request request =>
    match request.receive decoders cfg.printable with
    | .ok (request, transport) =>
      (self.ingest.step cfg (.accept request transport)).map fun ingest => { self with ingest }
    | .error refusal => some { self with refused := self.refused ++ [refusal] }
  | .proceed (.accept _ _) => none
  | .proceed action => (self.ingest.step cfg action).map fun ingest => { self with ingest }

variable {decoders : Decoders} {cfg : IngestConfig} {s s' : Exports}

/-- A request makes a call of `accept`, or it is refused. -/
theorem request_step {request : ExportRequest}
    (hs : s.step decoders cfg (.request request) = some s') :
    (∃ decoded transport, request.receive decoders cfg.printable = .ok (decoded, transport)
        ∧ s.ingest.step cfg (.accept decoded transport) = some s'.ingest
        ∧ s'.refused = s.refused)
      ∨ ∃ refusal, request.receive decoders cfg.printable = .error refusal
        ∧ s' = { s with refused := s.refused ++ [refusal] } := by
  rw [step] at hs
  cases hreceive : request.receive decoders cfg.printable with
  | ok received =>
    rw [hreceive] at hs
    obtain ⟨ingest, hingest, rfl⟩ := Option.map_eq_some_iff.mp hs
    exact Or.inl ⟨received.1, received.2, rfl, hingest, rfl⟩
  | error refusal =>
    rw [hreceive] at hs
    exact Or.inr ⟨refusal, rfl, (Option.some.inj hs).symm⟩

/-- What the parties do between two requests is no call of `accept`. -/
theorem proceed_step {action : IngestAction}
    (hs : s.step decoders cfg (.proceed action) = some s') :
    s.ingest.step cfg action = some s'.ingest
      ∧ (∀ request transport, action ≠ .accept request transport) ∧ s'.refused = s.refused := by
  cases action with
  | accept request transport => cases hs
  | _ =>
    obtain ⟨ingest, hingest, rfl⟩ := Option.map_eq_some_iff.mp hs
    refine ⟨hingest, ?_, rfl⟩
    intro _ _ h
    cases h

end Exports

end Spanfall
