import RePlace.Http.Response

/-!
# Requests

A request as the parser callbacks and the router fill it in. The document held
by a request is a `Json` value, `null` until a body has been parsed; how a text
is parsed is a parameter of `Request.finish`.
-/

namespace RePlace.Http

open Bytes (lit)

/-- A JSON document. -/
inductive Json
  | null
  | bool (b : Bool)
  | number (digits : Bytes)
  | string (text : Bytes)
  | array (items : List Json)
  | object (members : List (Bytes × Json))

/-- A path parameter: the name in the route and the text in the request. -/
structure Path where
  key : Bytes
  value : Bytes
deriving DecidableEq

structure Request where
  uri : Bytes := []
  body : Bytes := []
  headers : List Header := []
  bodyParams : Json := .null
  pathParams : List Path := []
  method : UInt8 := 0

/-- `request::finish`: the first JSON content type makes the body the document of
the request. -/
def Request.finish (parse : CString → Json) (req : Request) : Request :=
  let isJson := fun h : Header =>
    h.name = lit "content-type" ∧ h.value = lit "application/json" ∧ req.body ≠ []
  if req.headers.any (isJson ·) then
    { req with bodyParams := parse (CString.ofBytes req.body) }
  else req

/-- Only the document of a request changes when it is finished. -/
theorem Request.finish_eq (parse : CString → Json) (req : Request) :
    ∃ doc, req.finish parse = { req with bodyParams := doc } := by
  unfold Request.finish
  dsimp only
  split
  · exact ⟨_, rfl⟩
  · exact ⟨req.bodyParams, rfl⟩

/-- The text of the member of a document: `operator[]`, then `GetString`. `none` is
an assertion of the JSON library that fails. -/
def Json.getString (doc : Json) (name : CString) : Option CString :=
  match doc with
  | .object members =>
      match members.find? fun m => m.1 = name.bytes with
      | some (_, .string text) => some (.ofBytes text)
      | _ => none
  | _ => none

/-- `request::get_body_parameter`. -/
def Request.getBodyParameter (req : Request) (param : CString) : Option CString :=
  req.bodyParams.getString param

/-- `request::get_path_parameter`. -/
def Request.getPathParameter (req : Request) (param : CString) : Option Bytes :=
  (req.pathParams.find? fun p => p.key = param.bytes).map Path.value

end RePlace.Http
