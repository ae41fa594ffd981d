import RePlace.Api.Auth

/-!
# The parameters of a body

When the endpoints that read body parameters get through. The service is ready for
a parameter that is missing, but reading one that is not there is an assertion of
the JSON library: a request gets through exactly when its body is a JSON object
with both parameters as strings and is announced as JSON.
-/

namespace RePlace.Api.Auth

open Bytes (lit)
open Http (Header Json Request Response)

/-- Whatever the service answers, no assertion fails and the endpoint ends with a
response. -/
def Endpoint.Responds : Endpoint → Prop
  | .abort => False
  | .respond _ => True
  | .call _ next => ∀ result, (next result).Responds

/-- A request as it stands before it is finished: no document has been parsed. -/
def FreshRequest (req : Request) : Prop := req.bodyParams = .null

/-- Neither endpoint aborts after the request has been finished. -/
def NeverAborts (parse : CString → Json) (req : Request) : Prop :=
  ∀ res, (postLogin (req.finish parse) res).Responds ∧
    (postRegister (req.finish parse) res).Responds

/-- The request announces a JSON body and has one. -/
def AnnouncesJson (req : Request) : Prop :=
  req.body ≠ [] ∧
    { name := lit "content-type", value := lit "application/json" } ∈ req.headers

/-- The document is an object whose first member of the name is a string. -/
def HasString (doc : Json) (name : CString) : Prop :=
  ∃ members text, doc = .object members ∧
    (members.find? fun m => m.1 = name.bytes) = some (name.bytes, .string text)

/-- A parameter is read exactly where it is a string. -/
theorem getString_isSome_iff (doc : Json) (name : CString) :
    (∃ text, doc.getString name = some text) ↔ HasString doc name := by
  constructor
  · rintro ⟨text, h⟩
    unfold Json.getString at h
    split at h
    · rename_i members
      split at h
      · rename_i key found hfind
        have hkey : key = name.bytes := by simpa using List.find?_some hfind
        exact ⟨members, found, rfl, by rw [hfind, hkey]⟩
      · cases h
    · cases h
  · rintro ⟨members, text, rfl, hfind⟩
    exact ⟨.ofBytes text, by simp only [Json.getString, hfind]⟩

/-- The search of `finish` over the headers. -/
theorem any_announces_iff (req : Request) : (req.headers.any fun h =>
    h.name = lit "content-type" ∧ h.value = lit "application/json" ∧ req.body ≠ []) = true ↔
    AnnouncesJson req := by
  simp only [List.any_eq_true, decide_eq_true_eq, AnnouncesJson]
  constructor
  · rintro ⟨⟨name, value⟩, hmem, hname, hvalue, hbody⟩
    exact ⟨hbody, hname ▸ hvalue ▸ hmem⟩
  · rintro ⟨hbody, hmem⟩
    exact ⟨_, hmem, rfl, rfl, hbody⟩

theorem finish_of_announcesJson (parse : CString → Json) {req : Request}
    (h : AnnouncesJson req) : (req.finish parse).bodyParams = parse (CString.ofBytes req.body) := by
  unfold Request.finish
  dsimp only
  rw [if_pos ((any_announces_iff req).mpr h)]

/-- A document is parsed exactly for a request that announces JSON and has a body. -/
theorem finish_bodyParams (parse : CString → Json) {req : Request} (hfresh : FreshRequest req)
    [Decidable (AnnouncesJson req)] :
    (req.finish parse).bodyParams =
      if AnnouncesJson req then parse (CString.ofBytes req.body) else .null := by
  by_cases h : AnnouncesJson req
  · rw [if_pos h, finish_of_announcesJson parse h]
  · unfold Request.finish
    dsimp only
    rw [if_neg (mt (any_announces_iff req).mp h), if_neg h]
    exact hfresh

/-- An endpoint that goes on when both parameters have been read. -/
def withBoth (next : CString → CString → Endpoint) (username password : Option CString) :
    Endpoint :=
  match username, password with
  | some username, some password => next username password
  | _, _ => .abort

/-- An endpoint that reads both parameters responds exactly when they are there. -/
theorem withBoth_responds_iff {next : CString → CString → Endpoint}
    (hnext : ∀ username password, (next username password).Responds) (req : Request) :
    (withBoth next (req.getBodyParameter (.lit "username"))
        (req.getBodyParameter (.lit "password"))).Responds ↔
      HasString req.bodyParams (.lit "username") ∧ HasString req.bodyParams (.lit "password") := by
  rw [← getString_isSome_iff, ← getString_isSome_iff]
  unfold Request.getBodyParameter
  cases req.bodyParams.getString (.lit "username") with
  | none => simp [withBoth, Endpoint.Responds]
  | some username =>
      cases req.bodyParams.getString (.lit "password") with
      | none => simp [withBoth, Endpoint.Responds]
      | some password => exact iff_of_true (hnext username password) ⟨⟨_, rfl⟩, _, rfl⟩

theorem postLogin_responds_iff (req : Request) (res : Response) :
    (postLogin req res).Responds ↔
      HasString req.bodyParams (.lit "username") ∧ HasString req.bodyParams (.lit "password") := by
  refine withBoth_responds_iff ?_ req
  intro username password result
  cases result with
  | error code => trivial
  | ok s => trivial

theorem postRegister_responds_iff (req : Request) (res : Response) :
    (postRegister req res).Responds ↔
      HasString req.bodyParams (.lit "username") ∧ HasString req.bodyParams (.lit "password") := by
  refine withBoth_responds_iff ?_ req
  intro username password result
  cases result with
  | error code => trivial
  | ok u => trivial

/-- No endpoint aborts exactly when the request announces JSON and its body is an
object in which the first member of either name is a string. -/
theorem body_parameters_iff (parse : CString → Json) {req : Request} (hfresh : FreshRequest req) :
    NeverAborts parse req ↔
      AnnouncesJson req ∧ HasString (parse (CString.ofBytes req.body)) (.lit "username") ∧
        HasString (parse (CString.ofBytes req.body)) (.lit "password") := by
  classical
  have hnull : ∀ name, ¬ HasString .null name := by
    rintro name ⟨members, text, h, -⟩
    cases h
  have hboth : NeverAborts parse req ↔
      HasString (req.finish parse).bodyParams (.lit "username") ∧
        HasString (req.finish parse).bodyParams (.lit "password") := by
    simp only [NeverAborts, postLogin_responds_iff, postRegister_responds_iff, and_self]
    exact ⟨fun h => h {}, fun h _ => h⟩
  rw [hboth, finish_bodyParams parse hfresh]
  by_cases h : AnnouncesJson req
  · rw [if_pos h]
    exact (and_iff_right h).symm
  · rw [if_neg h]
    exact iff_of_false (fun hs => hnull _ hs.1) fun hs => h hs.1

/-- A body with a username and a password. -/
def sampleJson : Json :=
  .object [(lit "username", .string (lit "alice")), (lit "password", .string (lit "password"))]

/-- A login whose body is announced as JSON. -/
def sampleJsonRequest : Request where
  body := lit "\x7b\"username\":\"alice\",\"password\":\"password\"\x7d"
  headers := [{ name := lit "content-type", value := lit "application/json" }]

theorem body_parameters_sample : NeverAborts (fun _ => sampleJson) sampleJsonRequest :=
  (@body_parameters_iff (fun _ => sampleJson) sampleJsonRequest rfl).mpr
    ⟨⟨by decide, by decide⟩, ⟨_, _, rfl, rfl⟩, ⟨_, _, rfl, rfl⟩⟩

/-- The same body without a content type. -/
def sampleUnannounced : Request := { sampleJsonRequest with headers := [] }

theorem body_parameters_fails :
    FreshRequest sampleUnannounced ∧
      ¬ (postLogin (sampleUnannounced.finish fun _ => sampleJson) {}).Responds ∧
      ¬ (postRegister (sampleUnannounced.finish fun _ => sampleJson) {}).Responds :=
  ⟨rfl, fun h => h, fun h => h⟩

end RePlace.Api.Auth
