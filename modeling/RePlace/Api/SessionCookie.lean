import RePlace.Api.Auth
import RePlace.Service.Accounts

/-!
# The session cookie

What the endpoints read from a cookie header that holds a session cookie. The
cookie is always found, but its value is read from a fixed place: behind as many
bytes of the header as the name has, wherever the cookie stands.
-/

namespace RePlace.Api.Auth

open Bytes (lit)
open Http (Header Request Response)
open RePlace.Auth (sampleSession)

/-- A pair of a cookie header. -/
structure Cookie where
  name : Bytes
  value : Bytes
deriving DecidableEq

/-- `name=value`. -/
def Cookie.text (c : Cookie) : Bytes := c.name ++ lit "=" ++ c.value

/-- The cookie that a login sets. -/
def sessionCookie (s : Uuid) : Cookie where
  name := lit "rp-session"
  value := s.text.bytes

/-- The value of a cookie header: the pairs in their order. -/
def cookieHeader (cookies : List Cookie) : Bytes := (lit "; ").intercalate (cookies.map Cookie.text)

theorem sessionCookie_text (s : Uuid) :
    (sessionCookie s).text = sessionCookieName ++ s.text.bytes := rfl

/-- A pair is at the start of the header or behind a space. -/
theorem cookieHeader_split (pre post : List Cookie) (c : Cookie) :
    ∃ before after, cookieHeader (pre ++ c :: post) = before ++ (c.text ++ after) ∧
      (before = [] ∨ ∃ b, before = b ++ lit " ") := by
  induction pre with
  | nil =>
      cases post with
      | nil => exact ⟨[], [], by simp [cookieHeader], .inl rfl⟩
      | cons d post => exact ⟨[], _, by simp [cookieHeader]; rfl, .inl rfl⟩
  | cons d pre ih =>
      obtain ⟨before, after, heq, hbefore⟩ := ih
      refine ⟨d.text ++ lit "; " ++ before, after, ?_, .inr ?_⟩
      · have hne : (pre ++ c :: post).map Cookie.text ≠ [] := by simp
        rw [cookieHeader, List.cons_append, List.map_cons, List.intercalate_cons_of_ne_nil hne]
        rw [cookieHeader] at heq
        rw [heq]
        simp only [List.append_assoc]
      · rcases hbefore with rfl | ⟨b, rfl⟩
        · exact ⟨d.text ++ lit ";", by simp; rfl⟩
        · exact ⟨d.text ++ lit "; " ++ b, by simp⟩

/-- The search finds the session cookie wherever it stands. -/
theorem restart_cookieHeader (pre post : List Cookie) (s : Uuid) :
    Restart.restart sessionCookieName (cookieHeader (pre ++ sessionCookie s :: post)) 0 =
      some sessionCookieName.length := by
  have hname : sessionCookieName ≠ [] := by decide
  obtain ⟨before, after, heq, hbefore⟩ := cookieHeader_split pre post (sessionCookie s)
  rw [heq, sessionCookie_text, List.append_assoc]
  rcases hbefore with rfl | ⟨b, rfl⟩
  · exact Restart.restart_append_self hname _
  · have hspace : (0x20 : UInt8) ∉ sessionCookieName := by decide
    have := Restart.restart_of_reset hname hspace b (s.text.bytes ++ after)
    rwa [List.append_assoc b]

/-- The id is read from the first `cookie` header. -/
theorem sessionId_eq {headers : List Header} {header : Header}
    (h : headers.find? (fun h => h.name = lit "cookie") = some header) {k : ℕ}
    (hk : Restart.restart sessionCookieName header.value 0 = some k) :
    sessionId headers = .ofCString (.ofBytes (header.value.drop k)) := by
  induction headers with
  | nil => simp at h
  | cons first rest ih =>
      by_cases hname : first.name = lit "cookie"
      · obtain rfl : first = header := by simpa [List.find?_cons, hname] using h
        simp only [sessionId, hname, ne_eq, not_true_eq_false, if_false, hk]
      · simp only [sessionId, hname, ne_eq, not_false_eq_true, if_true]
        exact ih (by simpa [List.find?_cons, hname] using h)

/-- A login that succeeds sets the session cookie. -/
theorem postLogin_setsCookie {req : Request} {username password : CString}
    (husername : req.getBodyParameter (.lit "username") = some username)
    (hpassword : req.getBodyParameter (.lit "password") = some password) (res : Response) :
    ∃ next, postLogin req res = .call (.login username password) next ∧
      ∀ s, ∃ res', next (.ok s) = .respond res' ∧
        ⟨lit "Set-Cookie", (sessionCookie s).text ++ lit ";"⟩ ∈ res'.headers := by
  rw [postLogin, husername, hpassword]
  exact ⟨_, rfl, fun s => ⟨_, rfl, List.mem_append_right _ (List.mem_singleton.mpr rfl)⟩⟩

/-- Both endpoints call the service with the id they have read. -/
theorem firstCall_iff {s : Uuid} (hs : s.isEmpty = false) (req : Request) (res : Response) :
    (postLogout req res).firstCall = some (.logout s) ∧
      (getUser req res).firstCall = some (.getUser s) ↔ sessionId req.headers = s := by
  by_cases hempty : (sessionId req.headers).isEmpty = true
  · have hne : sessionId req.headers ≠ s := by
      rintro rfl
      simp [hempty] at hs
    simp [postLogout, getUser, hempty, hne, reply, Endpoint.firstCall]
  · simp [postLogout, getUser, hempty, Endpoint.firstCall]

/-- The endpoints read the id of the session cookie exactly when it stands in the
header behind as many bytes as the name has. -/
theorem session_cookie_iff {req : Request} (res : Response) {header : Header}
    {pre post : List Cookie} {s : Uuid} (hs : s.Full)
    (hfirst : req.headers.find? (fun h => h.name = lit "cookie") = some header)
    (hvalue : header.value = cookieHeader (pre ++ sessionCookie s :: post)) :
    ((postLogout req res).firstCall = some (.logout s) ∧
        (getUser req res).firstCall = some (.getUser s)) ↔
      s.text.bytes <+: header.value.drop sessionCookieName.length := by
  have hfound := restart_cookieHeader pre post s
  rw [← hvalue] at hfound
  rw [firstCall_iff hs.not_isEmpty, sessionId_eq hfirst hfound, hs.ofCString_ofBytes_iff]

/-- A request with one cookie header. -/
def requestWith (cookies : List Cookie) : Request where
  headers := [{ name := lit "cookie", value := cookieHeader cookies }]

/-- The session cookie is the first of two. -/
theorem session_cookie_sample :
    (postLogout (requestWith [sessionCookie sampleSession, ⟨lit "a", lit "b"⟩]) {}).firstCall =
        some (.logout sampleSession) ∧
      (getUser (requestWith [sessionCookie sampleSession, ⟨lit "a", lit "b"⟩]) {}).firstCall =
        some (.getUser sampleSession) :=
  (@session_cookie_iff _ {} _ [] [⟨lit "a", lit "b"⟩] sampleSession (by decide) rfl rfl).mpr
    (by decide)

/-- The session cookie is the second of two. -/
theorem session_cookie_fails :
    sampleSession.Full ∧
      (postLogout (requestWith [⟨lit "a", lit "b"⟩, sessionCookie sampleSession]) {}).firstCall ≠
        some (.logout sampleSession) ∧
      (getUser (requestWith [⟨lit "a", lit "b"⟩, sessionCookie sampleSession]) {}).firstCall ≠
        some (.getUser sampleSession) := by
  decide

end RePlace.Api.Auth
