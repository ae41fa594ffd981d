import RePlace.Api.BodyParameters
import RePlace.Http.JsonText
import RePlace.Service.Admission

/-!
# What the service works with

A login and a registration read the username and the password off a JSON text. The
decoded strings can hold any character, but they are passed on as C strings: the
service gets the part before the first NUL. A registration hashes the password that
it gets, a login verifies at most 60 characters of it. So the account that a request is
accepted as can be another one than that of the decoded strings.
-/

namespace RePlace.Api.Auth

open Bytes (lit)
open Http (Header Json Request Response)
open JsonString (Literal Spelling Spells ofAscii utf8 utf8_ofAscii literal_ofAscii)
open RePlace.Auth (Acceptable LogsIn Reached Registers Run accounts_of_run logsIn_iff reached_init
  registers_iff sampleId)

/-- A request whose body is announced as JSON and is the text of an object with
distinct names, in which both parameters are strings. The JSON library reads the
object off its text. -/
structure CredentialRequest (parse : CString → Json) where
  req : Request
  members : List (Bytes × Json)
  username : Bytes
  password : Bytes
  announced : { name := lit "content-type", value := lit "application/json" } ∈ req.headers
  text : (Json.object members).Text req.body
  parsed : ∀ s : CString, s.bytes = req.body → parse s = .object members
  distinct : (members.map Prod.fst).Nodup
  hasUsername : (lit "username", .string username) ∈ members
  hasPassword : (lit "password", .string password) ∈ members

/-- The endpoints that read credentials. -/
inductive CredentialEndpoint
  | postLogin
  | postRegister

def CredentialEndpoint.handler : CredentialEndpoint → Request → Response → Endpoint
  | postLogin => Auth.postLogin
  | postRegister => Auth.postRegister

/-- The service accepts the credentials of a call as those of the account. -/
def Call.AcceptedAs (argon2 : Argon2) (w : World) (row : UserRow) : Call → Prop
  | .login username password => LogsIn argon2 w username password row
  | .registerUser username password => Registers argon2 w username password row
  | .logout _ => False
  | .getUser _ => False

/-- The lengths of a username and of a password that are accepted. -/
structure Fits (username password : Bytes) : Prop where
  nonempty : username ≠ []
  username_le : username.length ≤ 60
  le_password : 8 ≤ password.length
  password_le : password.length ≤ 60

variable {parse : CString → Json}

namespace CredentialRequest

/-- The request is accepted as the account. -/
def AcceptedAs (r : CredentialRequest parse) (e : CredentialEndpoint) (argon2 : Argon2) (w : World)
    (row : UserRow) : Prop :=
  ∃ c, (e.handler (r.req.finish parse) {}).firstCall = some c ∧ c.AcceptedAs argon2 w row

/-- What is due for the decoded strings: a registration is accepted when their lengths are
and the username is new, a login when there is an account of theirs. -/
def Due (r : CredentialRequest parse) (argon2 : Argon2) (w : World) : CredentialEndpoint → Prop
  | .postLogin => ∃ row ∈ w.users, row.username.bytes = r.username ∧
      argon2.hashEncoded r.password = .ok row.password
  | .postRegister => Fits r.username r.password ∧
      (∃ hash, argon2.hashEncoded r.password = .ok hash) ∧
      ∀ row ∈ w.users, row.username.bytes ≠ r.username

/-- In every state the service acts on the whole decoded strings: the request is accepted
when it is due for them, and as an account with this username and this password. -/
structure ActsOnWhole (r : CredentialRequest parse) (e : CredentialEndpoint) : Prop where
  accepted : ∀ {argon2 : Argon2} {w}, argon2.Lawful → Reached argon2 w →
    ((∃ row, r.AcceptedAs e argon2 w row) ↔ r.Due argon2 w e)
  account : ∀ {argon2 : Argon2} {w row}, argon2.Lawful → Reached argon2 w →
    r.AcceptedAs e argon2 w row →
      row.username.bytes = r.username ∧ argon2.hashEncoded r.password = .ok row.password

end CredentialRequest

/-- The service acts on the whole strings of both requests, and it never takes them for
requests with the same username, or the same password, where these are different. -/
structure Unchanged (e₁ e₂ : CredentialEndpoint) (r₁ r₂ : CredentialRequest parse) : Prop where
  whole₁ : r₁.ActsOnWhole e₁
  whole₂ : r₂.ActsOnWhole e₂
  username : ∀ {argon2 : Argon2} {w₁ w₂ row₁ row₂}, argon2.Lawful → Reached argon2 w₁ →
    Reached argon2 w₂ → r₁.AcceptedAs e₁ argon2 w₁ row₁ → r₂.AcceptedAs e₂ argon2 w₂ row₂ →
    r₁.username ≠ r₂.username → row₁.username ≠ row₂.username
  password : ∀ {argon2 : Argon2} {w₁ w₂ row₁ row₂}, argon2.Lawful → Reached argon2 w₁ →
    Reached argon2 w₂ → r₁.AcceptedAs e₁ argon2 w₁ row₁ → r₂.AcceptedAs e₂ argon2 w₂ row₂ →
    r₁.password ≠ r₂.password → row₁.password ≠ row₂.password

/-- Neither string holds a NUL, and the password of a login has at most 60 characters. -/
structure CredentialRequest.Plain (e : CredentialEndpoint) (r : CredentialRequest parse) :
    Prop where
  username : (0 : UInt8) ∉ r.username
  password : (0 : UInt8) ∉ r.password
  short : e = .postLogin → r.password.length ≤ 60

/-- What is left of the password: the part before the first NUL, and of that of a login the
first 60 characters. -/
def CredentialRequest.passwordPart (r : CredentialRequest parse) : CredentialEndpoint → Bytes
  | .postLogin => (Bytes.beforeNul r.password).take 60
  | .postRegister => Bytes.beforeNul r.password

/-- The request is refused in every state for the lengths of what is left of its strings,
and a registration as it should be for the lengths of the whole strings. -/
structure CredentialRequest.Refused (e : CredentialEndpoint) (r : CredentialRequest parse) :
    Prop where
  part : ¬ Fits (Bytes.beforeNul r.username) (r.passwordPart e)
  whole : e = .postRegister → ¬ Fits r.username r.password

/-- In an object with distinct names a member is found by its name. -/
theorem find?_of_nodup {α β : Type} [DecidableEq α] {members : List (α × β)}
    (hnd : (members.map Prod.fst).Nodup) {name : α} {value : β} (hmem : (name, value) ∈ members) :
    (members.find? fun m => m.1 = name) = some (name, value) := by
  induction members with
  | nil => cases hmem
  | cons m members ih =>
      rw [List.map_cons, List.nodup_cons] at hnd
      rcases List.mem_cons.mp hmem with rfl | hmem
      · simp
      · have hne : m.1 ≠ name := by
          rintro rfl
          exact hnd.1 (List.mem_map.mpr ⟨_, hmem, rfl⟩)
        rw [List.find?_cons_of_neg (by simpa using hne)]
        exact ih hnd.2 hmem

/-- A parameter is the part of its string before the first NUL. -/
theorem CredentialRequest.getBodyParameter (r : CredentialRequest parse) {name : CString}
    {value : Bytes} (hmem : (name.bytes, .string value) ∈ r.members) :
    (r.req.finish parse).getBodyParameter name = some (.ofBytes value) := by
  have hdoc := finish_of_announcesJson parse ⟨r.text.ne_nil, r.announced⟩
  rw [r.parsed _ (CString.ofBytes_bytes_of_nulFree r.text.nulFree)] at hdoc
  rw [Request.getBodyParameter, hdoc, Json.getString, find?_of_nodup r.distinct hmem]

theorem beforeNul_eq_iff (s : Bytes) : Bytes.beforeNul s = s ↔ (0 : UInt8) ∉ s :=
  ⟨fun h => h ▸ Bytes.beforeNul_nulFree s, Bytes.beforeNul_of_nulFree⟩

theorem take_beforeNul_eq_iff (s : Bytes) :
    (Bytes.beforeNul s).take 60 = s ↔ (0 : UInt8) ∉ s ∧ s.length ≤ 60 := by
  constructor
  · intro h
    refine ⟨fun hmem => ?_, ?_⟩
    · rw [← h] at hmem
      exact Bytes.beforeNul_nulFree s (List.mem_of_mem_take hmem)
    · rw [← h]
      exact List.length_take_le _ _
  · rintro ⟨hnul, hlen⟩
    rw [Bytes.beforeNul_of_nulFree hnul, List.take_of_length_le hlen]

/-! ## The account of a request -/

section Accounts

variable {argon2 : Argon2} {w : World} {row : UserRow}

/-- Two passwords with one encoding are the same. -/
theorem hashEncoded_inj (hlaw : argon2.Lawful) {x y : Bytes} {hash : CString}
    (hx : argon2.hashEncoded x = .ok hash) (hy : argon2.hashEncoded y = .ok hash) : x = y := by
  have hverify := (hlaw x hash hx x x.length).mpr (List.take_length ..)
  rw [hlaw y hash hy, List.take_length] at hverify
  exact hverify

namespace CredentialRequest

variable (r : CredentialRequest parse)

theorem firstCall_postLogin :
    (CredentialEndpoint.postLogin.handler (r.req.finish parse) {}).firstCall =
      some (.login (.ofBytes r.username) (.ofBytes r.password)) := by
  have husername := @CredentialRequest.getBodyParameter parse r (.lit "username") _ r.hasUsername
  have hpassword := @CredentialRequest.getBodyParameter parse r (.lit "password") _ r.hasPassword
  rw [CredentialEndpoint.handler, postLogin, husername, hpassword]
  rfl

theorem firstCall_postRegister :
    (CredentialEndpoint.postRegister.handler (r.req.finish parse) {}).firstCall =
      some (.registerUser (.ofBytes r.username) (.ofBytes r.password)) := by
  have husername := @CredentialRequest.getBodyParameter parse r (.lit "username") _ r.hasUsername
  have hpassword := @CredentialRequest.getBodyParameter parse r (.lit "password") _ r.hasPassword
  rw [CredentialEndpoint.handler, postRegister, husername, hpassword]
  rfl

variable {r}

/-- A registration is accepted as an account of what is left of its strings. -/
theorem acceptedAs_postRegister_iff : r.AcceptedAs .postRegister argon2 w row ↔
    Fits (Bytes.beforeNul r.username) (Bytes.beforeNul r.password) ∧
      (∀ row' ∈ w.users, row'.username.bytes ≠ Bytes.beforeNul r.username) ∧
      row.username.bytes = Bytes.beforeNul r.username ∧
      argon2.hashEncoded (Bytes.beforeNul r.password) = .ok row.password := by
  have hname : ∀ row' : UserRow, row'.username = .ofBytes r.username ↔
      row'.username.bytes = Bytes.beforeNul r.username := by
    intro row'
    rw [CString.ext_iff, CString.bytes_ofBytes]
  rw [AcceptedAs, firstCall_postRegister]
  simp only [Option.some.injEq, exists_eq_left', Call.AcceptedAs, registers_iff, ne_eq, hname,
    CString.bytes_ofBytes]
  constructor
  · rintro ⟨hacceptable, hnew, hsame, hhash⟩
    obtain ⟨hne, hlen, hmin, hmax, -⟩ := hacceptable
    simp only [CString.bytes_ofBytes] at hne hlen hmin hmax
    exact ⟨⟨hne, hlen, hmin, hmax⟩, hnew, hsame, hhash⟩
  · rintro ⟨⟨hne, hlen, hmin, hmax⟩, hnew, hsame, hhash⟩
    refine ⟨⟨?_, ?_, ?_, ?_, row.password, ?_⟩, hnew, hsame, hhash⟩ <;>
      rwa [CString.bytes_ofBytes]

/-- A login is accepted as the account of what is left of its strings. -/
theorem acceptedAs_postLogin_iff (hlaw : argon2.Lawful) (h : Reached argon2 w) :
    r.AcceptedAs .postLogin argon2 w row ↔ row ∈ w.users ∧
      row.username.bytes = Bytes.beforeNul r.username ∧
      argon2.hashEncoded ((Bytes.beforeNul r.password).take 60) = .ok row.password := by
  rw [AcceptedAs, firstCall_postLogin]
  simp only [Option.some.injEq, exists_eq_left', Call.AcceptedAs, logsIn_iff hlaw h,
    CString.ext_iff, CString.bytes_ofBytes]

end CredentialRequest

/-- What is hashed in a row has an accepted length, and its username has. -/
theorem fits_of_mem (hlaw : argon2.Lawful) (h : Reached argon2 w) (hrow : row ∈ w.users)
    {password : Bytes} (hhash : argon2.hashEncoded password = .ok row.password) :
    Fits row.username.bytes password ∧ (0 : UInt8) ∉ password := by
  obtain ⟨hist, hrun⟩ := h.run
  have hacc := accounts_of_run hrun
  obtain ⟨text, -, hmin, hmax, htext⟩ := hacc.sound row hrow
  obtain ⟨hne, hlen⟩ := hacc.valid row hrow
  obtain rfl := hashEncoded_inj hlaw htext hhash
  exact ⟨⟨hne, hlen, hmin, hmax⟩, text.nulFree⟩

end Accounts

/-! ## Registrations -/

variable {r : CredentialRequest parse}

theorem plain_postRegister_iff : r.Plain .postRegister ↔
    Bytes.beforeNul r.username = r.username ∧ Bytes.beforeNul r.password = r.password := by
  rw [beforeNul_eq_iff, beforeNul_eq_iff]
  constructor
  · exact fun h => ⟨h.username, h.password⟩
  · rintro ⟨husername, hpassword⟩
    exact ⟨husername, hpassword, fun h => by cases h⟩

/-- A library that can hash one password. -/
def onlyArgon2 (password : Bytes) : Argon2 where
  hashEncoded x := if x = password then .ok (.lit "hash") else .error (-1)
  verify _ y n := y.take n = password

theorem onlyArgon2_lawful (password : Bytes) : (onlyArgon2 password).Lawful := by
  intro x e hok y n
  simp only [onlyArgon2] at hok ⊢
  split at hok
  · rename_i heq
    rw [heq, decide_eq_true_iff]
  · cases hok

theorem sampleArgon2_hashEncoded {x : Bytes} {hash : CString}
    (h : sampleArgon2.hashEncoded x = .ok hash) : x = hash.bytes := by
  simp only [sampleArgon2] at h
  split at h
  · rw [← Except.ok.inj h]
  · cases h

theorem sampleArgon2_ok (text : CString) : sampleArgon2.hashEncoded text.bytes = .ok text :=
  dif_pos text.nulFree

theorem actsOnWhole_postRegister_iff :
    r.ActsOnWhole .postRegister ↔ r.Plain .postRegister ∨ r.Refused .postRegister := by
  constructor
  · intro hwhole
    by_cases hpart : Fits (Bytes.beforeNul r.username) (Bytes.beforeNul r.password)
    · -- what is left of the strings is registered in an empty table
      let row : UserRow := ⟨sampleId, .ofBytes r.username, .ofBytes r.password⟩
      have haccepted : r.AcceptedAs .postRegister sampleArgon2 {} row := by
        refine CredentialRequest.acceptedAs_postRegister_iff.mpr ⟨hpart, by simp, rfl, ?_⟩
        exact sampleArgon2_ok (.ofBytes r.password)
      obtain ⟨hname, hhash⟩ := hwhole.account sampleArgon2_lawful reached_init haccepted
      exact .inl (plain_postRegister_iff.mpr ⟨hname, (sampleArgon2_hashEncoded hhash).symm⟩)
    · refine .inr ⟨hpart, fun _ hfits => hpart ?_⟩
      have hdue : r.Due (onlyArgon2 r.password) {} .postRegister :=
        ⟨hfits, ⟨.lit "hash", if_pos rfl⟩, by simp⟩
      obtain ⟨row, haccepted⟩ :=
        (hwhole.accepted (onlyArgon2_lawful _) reached_init).mpr hdue
      exact (CredentialRequest.acceptedAs_postRegister_iff.mp haccepted).1
  · rintro (hplain | hrefused)
    · obtain ⟨hname, htext⟩ := plain_postRegister_iff.mp hplain
      refine ⟨fun _ _ => ?_, fun _ _ haccepted => ?_⟩
      · simp only [CredentialRequest.acceptedAs_postRegister_iff, hname, htext,
          CredentialRequest.Due]
        constructor
        · rintro ⟨row, hfits, hnew, -, hhash⟩
          exact ⟨hfits, ⟨_, hhash⟩, hnew⟩
        · rintro ⟨hfits, ⟨hash, hhash⟩, hnew⟩
          exact ⟨⟨.empty, ⟨r.username, hplain.username⟩, hash⟩, hfits, hnew, rfl, hhash⟩
      · have haccount := CredentialRequest.acceptedAs_postRegister_iff.mp haccepted
        rw [hname, htext] at haccount
        exact ⟨haccount.2.2.1, haccount.2.2.2⟩
    · refine ⟨fun _ _ => iff_of_false ?_ fun hdue => hrefused.whole rfl hdue.1,
        fun _ _ haccepted => ?_⟩
      · rintro ⟨row, haccepted⟩
        exact hrefused.part (CredentialRequest.acceptedAs_postRegister_iff.mp haccepted).1
      · exact absurd (CredentialRequest.acceptedAs_postRegister_iff.mp haccepted).1 hrefused.part

/-! ## Logins -/

theorem plain_postLogin_iff : r.Plain .postLogin ↔
    Bytes.beforeNul r.username = r.username ∧
      (Bytes.beforeNul r.password).take 60 = r.password := by
  rw [beforeNul_eq_iff, take_beforeNul_eq_iff]
  constructor
  · exact fun h => ⟨h.username, h.password, h.short rfl⟩
  · rintro ⟨husername, hpassword, hlen⟩
    exact ⟨husername, hpassword, fun _ => hlen⟩

/-- The state with one account. -/
theorem reached_of_fits {name text : CString} (hfits : Fits name.bytes text.bytes) :
    Reached sampleArgon2 ⟨[⟨sampleId, name, text⟩], fun _ => none⟩ := by
  have hacceptable : Acceptable sampleArgon2 name text :=
    ⟨hfits.nonempty, hfits.username_le, hfits.le_password, hfits.password_le, text,
      sampleArgon2_ok text⟩
  have hregisters : Registers sampleArgon2 {} name text ⟨sampleId, name, text⟩ :=
    registers_iff.mpr ⟨hacceptable, by simp, rfl, sampleArgon2_ok text⟩
  have hrun : Run sampleArgon2 _ _ :=
    .next .start (.registerUser (some name) (some text) sampleId true)
  rw [RePlace.Auth.step, hregisters] at hrun
  refine ⟨⟨_, hrun⟩, fun row hrow => ?_⟩
  obtain rfl := List.mem_singleton.mp hrow
  show sampleId.Full
  decide

theorem actsOnWhole_postLogin_iff :
    r.ActsOnWhole .postLogin ↔ r.Plain .postLogin ∨ r.Refused .postLogin := by
  constructor
  · intro hwhole
    by_cases hpart : Fits (Bytes.beforeNul r.username) ((Bytes.beforeNul r.password).take 60)
    · -- what is left of the strings logs in where it has been registered
      let text : CString := (CString.ofBytes r.password).take 60
      have hreached := @reached_of_fits (.ofBytes r.username) text hpart
      have haccepted : r.AcceptedAs .postLogin sampleArgon2
          ⟨[⟨sampleId, .ofBytes r.username, text⟩], fun _ => none⟩
          ⟨sampleId, .ofBytes r.username, text⟩ :=
        (CredentialRequest.acceptedAs_postLogin_iff sampleArgon2_lawful hreached).mpr
          ⟨List.mem_singleton_self _, rfl, sampleArgon2_ok text⟩
      obtain ⟨hname, hhash⟩ := hwhole.account sampleArgon2_lawful hreached haccepted
      exact .inl (plain_postLogin_iff.mpr ⟨hname, (sampleArgon2_hashEncoded hhash).symm⟩)
    · exact .inr ⟨hpart, fun h => by cases h⟩
  · rintro (hplain | hrefused)
    · obtain ⟨hname, htext⟩ := plain_postLogin_iff.mp hplain
      refine ⟨fun hlaw hreached => ?_, fun hlaw hreached haccepted => ?_⟩
      · simp only [CredentialRequest.acceptedAs_postLogin_iff hlaw hreached, hname, htext]
        rfl
      · have haccount := (CredentialRequest.acceptedAs_postLogin_iff hlaw hreached).mp haccepted
        rw [hname, htext] at haccount
        exact haccount.2
    · have hnone : ∀ {argon2 : Argon2} {w row}, argon2.Lawful → Reached argon2 w →
          ¬ r.AcceptedAs .postLogin argon2 w row := by
        intro argon2 w row hlaw hreached haccepted
        obtain ⟨hrow, hname, hhash⟩ :=
          (CredentialRequest.acceptedAs_postLogin_iff hlaw hreached).mp haccepted
        exact hrefused.part (hname ▸ (fits_of_mem hlaw hreached hrow hhash).1)
      refine ⟨fun hlaw hreached => iff_of_false ?_ ?_, fun hlaw hreached haccepted =>
        absurd haccepted (hnone hlaw hreached)⟩
      · rintro ⟨row, haccepted⟩
        exact hnone hlaw hreached haccepted
      · rintro ⟨row, hrow, hname, hhash⟩
        obtain ⟨hfits, hnul⟩ := fits_of_mem hlaw hreached hrow hhash
        rw [hname] at hfits
        have hnul' : (0 : UInt8) ∉ r.username := hname ▸ row.username.nulFree
        refine hrefused.part ?_
        rw [CredentialRequest.passwordPart, Bytes.beforeNul_of_nulFree hnul',
          Bytes.beforeNul_of_nulFree hnul, List.take_of_length_le hfits.password_le]
        exact hfits

/-! ## Two requests -/

theorem actsOnWhole_iff (e : CredentialEndpoint) :
    r.ActsOnWhole e ↔ r.Plain e ∨ r.Refused e := by
  cases e with
  | postLogin => exact actsOnWhole_postLogin_iff
  | postRegister => exact actsOnWhole_postRegister_iff

/-- The text of a login with a literal for the username. -/
def credentialBody (literal : Bytes) : Bytes :=
  lit "\x7b" ++ (lit "\"username\"" ++ lit ":" ++ literal ++ lit "," ++
    (lit "\"password\"" ++ lit ":" ++ lit "\"password\"")) ++ lit "\x7d"

def credentialMembers (username : Bytes) : List (Bytes × Json) :=
  [(lit "username", .string username), (lit "password", .string (lit "password"))]

/-- A request with such a text. -/
def CredentialRequest.sample (parse : CString → Json) {text : List Char} {literal : Bytes}
    (hl : Literal text literal)
    (hparse : ∀ s : CString, s.bytes = credentialBody literal →
      parse s = .object (credentialMembers (utf8 text))) : CredentialRequest parse where
  req :=
    { body := credentialBody literal
      headers := [{ name := lit "content-type", value := lit "application/json" }] }
  members := credentialMembers (utf8 text)
  username := utf8 text
  password := lit "password"
  announced := List.mem_singleton_self _
  text := by
    have hname : (lit "username").all JsonString.isPlain = true := by decide
    have hpassword : (lit "password").all JsonString.isPlain = true := by decide
    have htext := Json.text_pair (literal_ofAscii hname) hl (literal_ofAscii hpassword)
      (literal_ofAscii hpassword)
    rw [JsonString.utf8_ofAscii_of_plain hname, JsonString.utf8_ofAscii_of_plain hpassword] at htext
    exact htext
  parsed := hparse
  distinct := by
    show [lit "username", lit "password"].Nodup
    decide
  hasUsername := List.mem_cons_self ..
  hasPassword := List.mem_cons_of_mem _ (List.mem_singleton_self _)

/-- A parser that knows two texts. -/
def twoTexts (literal : Bytes) (username username' : Bytes) (s : CString) : Json :=
  if s.bytes = credentialBody literal then .object (credentialMembers username)
  else .object (credentialMembers username')

/-- The username `alice`, a NUL, `x`, and its literal. -/
def nulText : List Char := ofAscii (lit "alice") ++ Char.ofNat 0 :: ofAscii (lit "x")

def nulLiteral : Bytes :=
  [0x22] ++ (lit "alice" ++ ([0x5C, 0x75] ++ lit "0000" ++ lit "x")) ++ [0x22]

theorem literal_nul : Literal nulText nulLiteral := by
  have hzero : Spelling (Char.ofNat 0) ([0x5C, 0x75] ++ lit "0000") :=
    @Spelling.unicode _ (lit "0000") rfl
  exact ⟨_, (JsonString.spells_ofAscii (by decide)).append
    (.cons hzero (JsonString.spells_ofAscii (by decide))), rfl⟩

theorem literal_alice : Literal (ofAscii (lit "alice")) (lit "\"alice\"") :=
  literal_ofAscii (s := lit "alice") (by decide)

theorem literal_bob : Literal (ofAscii (lit "bob")) (lit "\"bob\"") :=
  literal_ofAscii (s := lit "bob") (by decide)

end RePlace.Api.Auth
