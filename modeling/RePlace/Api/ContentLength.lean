import RePlace.Api.Auth
import RePlace.Http.Connection
import RePlace.Http.Framing

/-!
# The length field on the wire

Every response is written with the length of its content in front of the empty line.
The stock responses already have a header with that length, so they are written with
two length fields; the endpoints never add one.
-/

namespace RePlace.Api.Auth

open Bytes (lit)
open Http (Header Request Response readHead written ofDecimal lengthHeader)

/-- Whether a call can return so: the id of a new session is written by
`uuid_unparse_lower`. -/
def Call.CanReturn : (c : Call) → c.Result → Prop
  | .login _ _, result => ∀ s, result = Except.ok s → s.Textual
  | .registerUser _ _, _ => True
  | .logout _, _ => True
  | .getUser _, _ => True

/-- An endpoint fills in the response, with some answer of the service. -/
inductive Endpoint.Gives : Endpoint → Response → Prop
  | respond (res : Response) : Gives (.respond res) res
  | call {c : Call} {next : c.Result → Endpoint} {result : c.Result} {res : Response}
      (hresult : c.CanReturn result) (hnext : Gives (next result) res) : Gives (.call c next) res

/-- What fills in the response of a connection: `stock_response`, or an endpoint with
the response the connection has started with. -/
inductive Producer
  | stock (status : Http.StatusType)
  | postLogin (req : Request)
  | postRegister (req : Request)
  | postLogout (req : Request)
  | getUser (req : Request)

def Producer.endpoint : Producer → Endpoint
  | .stock status => .respond (Http.stockResponse status)
  | .postLogin req => Auth.postLogin req {}
  | .postRegister req => Auth.postRegister req {}
  | .postLogout req => Auth.postLogout req {}
  | .getUser req => Auth.getUser req {}

def Producer.isStock : Producer → Bool
  | .stock _ => true
  | _ => false

/-- Field names are compared without case. -/
def isContentLength (h : Header) : Bool := h.name.map Http.toLower = lit "content-length"

/-- The head that is written has one length field, with the length of the body behind
it. -/
def OneLength (res : Response) : Prop :=
  ∃ status fields body value, readHead (written res) = some (status, fields, body) ∧
    (fields.filter isContentLength).map Header.value = [value] ∧
    ofDecimal value = some body.length

/-- A response with clean headers has one length field exactly when none of its headers
is one. -/
theorem oneLength_iff {res : Response} (hres : ∀ h ∈ res.headers, h.Clean) :
    OneLength res ↔ res.headers.filter isContentLength = [] := by
  have hread := Http.readHead_written hres []
  rw [List.append_nil, List.append_nil] at hread
  have hlength :
      [lengthHeader res.content].filter isContentLength = [lengthHeader res.content] := rfl
  constructor
  · rintro ⟨status, fields, body, value, hhead, hvalue, -⟩
    rw [hread, Option.some.injEq, Prod.mk.injEq, Prod.mk.injEq] at hhead
    obtain ⟨-, rfl, -⟩ := hhead
    have hlen := congrArg List.length hvalue
    rw [List.filter_append, hlength] at hlen
    simpa using hlen
  · intro hnone
    refine ⟨_, _, _, _, hread, ?_, Http.ofDecimal_toDecimal _⟩
    rw [List.filter_append, hlength, hnone]
    rfl

/-! ## The producers -/

/-- Clean headers, none of them a length. -/
def NoLength (res : Response) : Prop := ∀ h ∈ res.headers, h.Clean ∧ isContentLength h = false

theorem noLength_of_nil {res : Response} (h : res.headers = []) : NoLength res := by
  intro header hmem
  rw [h] at hmem
  cases hmem

theorem Endpoint.Gives.reply {res res' : Response} {status : Http.StatusType} {content : String}
    (h : (reply res status content).Gives res') : res'.headers = res.headers := by
  cases h
  rfl

/-- The cookie of a new session ends neither its name nor the line. -/
theorem clean_sessionCookie {s : Uuid} (hs : s.Textual) :
    Header.Clean { name := lit "Set-Cookie",
                   value := sessionCookieName ++ s.text.bytes ++ lit ";" } where
  name := by
    show Http.colon ∉ lit "Set-Cookie" ∧ Http.cr ∉ lit "Set-Cookie" ∧ Http.lf ∉ lit "Set-Cookie"
    decide
  value := by
    have hchar : ∀ b, b = Http.cr ∨ b = Http.lf → b ∉ s.text.bytes := by
      rintro b hb hmem
      have := List.all_eq_true.mp hs.chars b hmem
      rcases hb with rfl | rfl <;> simp [Uuid.isUuidChar, Http.cr, Http.lf] at this
    have hpart : ∀ b, b = Http.cr ∨ b = Http.lf →
        b ∉ sessionCookieName ++ s.text.bytes ++ lit ";" := by
      rintro b hb hmem
      rcases List.mem_append.mp hmem with hmem | hmem
      · rcases List.mem_append.mp hmem with hmem | hmem
        · revert hmem
          rcases hb with rfl | rfl <;> decide
        · exact hchar b hb hmem
      · revert hmem
        rcases hb with rfl | rfl <;> decide
    exact ⟨hpart _ (.inl rfl), hpart _ (.inr rfl)⟩

theorem noLength_postLogin {req : Request} {res : Response}
    (h : (Auth.postLogin req {}).Gives res) : NoLength res := by
  unfold Auth.postLogin at h
  split at h
  · cases h with
    | @call _ _ result _ hresult hnext =>
        cases result with
        | error code => exact noLength_of_nil hnext.reply
        | ok s =>
            intro header hmem
            rw [hnext.reply, List.nil_append, List.mem_singleton] at hmem
            rw [hmem]
            exact ⟨clean_sessionCookie (hresult s rfl), rfl⟩
  · cases h

theorem noLength_postRegister {req : Request} {res : Response}
    (h : (Auth.postRegister req {}).Gives res) : NoLength res := by
  unfold Auth.postRegister at h
  split at h
  · cases h with
    | @call _ _ result _ _ hnext =>
        cases result with
        | error code => exact noLength_of_nil hnext.reply
        | ok u => exact noLength_of_nil hnext.reply
  · cases h

theorem noLength_postLogout {req : Request} {res : Response}
    (h : (Auth.postLogout req {}).Gives res) : NoLength res := by
  unfold Auth.postLogout at h
  dsimp only at h
  split at h
  · exact noLength_of_nil h.reply
  · cases h with
    | @call _ _ result _ _ hnext =>
        cases result with
        | error code => exact noLength_of_nil hnext.reply
        | ok u => exact noLength_of_nil hnext.reply

theorem noLength_getUser {req : Request} {res : Response}
    (h : (Auth.getUser req {}).Gives res) : NoLength res := by
  unfold Auth.getUser at h
  dsimp only at h
  split at h
  · exact noLength_of_nil h.reply
  · cases h with
    | @call _ _ result _ _ hnext =>
        cases result with
        | error code => exact noLength_of_nil hnext.reply
        | ok user =>
            cases hnext
            exact noLength_of_nil rfl

/-- A stock response has a header with its length. -/
theorem stockResponse_length (status : Http.StatusType) :
    (∀ h ∈ (Http.stockResponse status).headers, h.Clean) ∧
      (Http.stockResponse status).headers.filter isContentLength ≠ [] := by
  refine ⟨fun h hh => ?_, by simp [Http.stockResponse, isContentLength]; decide⟩
  rcases List.mem_cons.mp hh with rfl | hh
  · exact Http.lengthHeader_clean _
  · rw [List.mem_singleton.mp hh]
    exact ⟨by decide, by decide⟩

/-- A response is written with one length field exactly when an endpoint has filled it
in. -/
theorem content_length_iff {p : Producer} {res : Response} (h : p.endpoint.Gives res) :
    OneLength res ↔ p.isStock = false := by
  have hgood : NoLength res → OneLength res := fun hno =>
    (oneLength_iff fun header hh => (hno header hh).1).mpr
      (List.filter_eq_nil_iff.mpr fun header hh => by simp [(hno header hh).2])
  cases p with
  | stock status =>
      cases h
      obtain ⟨hclean, hlength⟩ := stockResponse_length status
      refine iff_of_false (fun hone => hlength ((oneLength_iff hclean).mp hone)) ?_
      simp [Producer.isStock]
  | postLogin req => exact iff_of_true (hgood (noLength_postLogin h)) rfl
  | postRegister req => exact iff_of_true (hgood (noLength_postRegister h)) rfl
  | postLogout req => exact iff_of_true (hgood (noLength_postLogout h)) rfl
  | getUser req => exact iff_of_true (hgood (noLength_getUser h)) rfl

/-- The response to a logout without a session. -/
def sampleUnauthorized : Response := { status := .unauthorized, content := lit "Unauthorized" }

theorem content_length_sample : OneLength sampleUnauthorized := by
  have hgives : (Producer.postLogout {}).endpoint.Gives sampleUnauthorized := .respond _
  exact (content_length_iff hgives).mpr rfl

/-- The stock 404 is written with two length fields. -/
theorem content_length_fails :
    (Producer.stock .notFound).endpoint.Gives (Http.stockResponse .notFound) ∧
      (∃ status fields body,
        readHead (written (Http.stockResponse .notFound)) = some (status, fields, body) ∧
        fields.map Header.name =
          [lit "Content-Length", lit "Content-Type", lit "Content-Length"]) ∧
      ¬ OneLength (Http.stockResponse .notFound) := by
  obtain ⟨hclean, hlength⟩ := stockResponse_length .notFound
  have hread := Http.readHead_written hclean []
  rw [List.append_nil, List.append_nil] at hread
  exact ⟨.respond _, ⟨_, _, _, hread, rfl⟩,
    fun hone => hlength ((oneLength_iff hclean).mp hone)⟩

end RePlace.Api.Auth
