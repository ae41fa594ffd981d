import RePlace.Api.Sessions
import RePlace.Service.Credentials
import RePlace.Service.Registration

/-!
# Accounts over HTTP

What clients can do about accounts. A registration is answered `Registered` when its
credentials are acceptable and its username is new, and a login with the session cookie
when the first 60 characters of its password have been registered for its username
(`credential_replies`). So the session behind the page of an account has been opened with
the password of the account (`page_owner`).
-/

namespace RePlace

namespace App

open Api.Auth
open Auth (Acceptable Account Accounts Distinct RegisteredAs accounts_of_run login_ok_iff
  registerUser_ok_iff sampleId sampleSession)
open Bytes (lit)
open Http (Request Response RequestHandler)

variable {argon2 : Argon2} {h : RequestHandler Unit Handler} {hist : List (Input × Output)}
  {w : World} {req : Request} {hne : req.uri ≠ []} {ch : Chance} {e : Input × Output}
  {username password : CString}

/-! ## Replies -/

/-- A registration of the history, in the terms of the service. -/
theorem registeredAs_iff (hready : Ready h ()) (hrun : Run argon2 h hist w) {acc : Account}
    {password : CString} :
    RegisteredAs (calls hist) (some acc.username) (some password) acc.id ↔
      ∃ e ∈ hist, RegisteredWith acc password e := by
  constructor
  · rintro ⟨accepted, hmem⟩
    obtain ⟨e, he, hmem⟩ := List.mem_flatMap.mp hmem
    obtain ⟨p, hp, hreg⟩ :=
      (registeredWith_iff hready (stepped_of_run hrun he)).mpr ⟨accepted, hmem⟩
    obtain rfl := Option.some.inj hp
    exact ⟨e, he, hreg⟩
  · rintro ⟨e, he, hreg⟩
    obtain ⟨accepted, hmem⟩ :=
      (registeredWith_iff hready (stepped_of_run hrun he)).mp ⟨password, rfl, hreg⟩
    exact ⟨accepted, List.mem_flatMap.mpr ⟨e, he, hmem⟩⟩

/-- A login is answered with the cookie of the generated session, or with an error. -/
theorem login_reaction (hready : Ready h ()) (hasks : Asks req (loginRoute ()))
    (hcred : Credentials req username password) (w : World) :
    (step argon2 h w (.request req hne ch)).2.reaction =
        some (.responded (loginResponse (.ok ch.sessionId))) ∨
      ∃ code, (step argon2 h w (.request req hne ch)).2.reaction =
        some (.responded (loginResponse (.error code))) := by
  rw [step_login hready hasks hcred]
  rcases @Auth.login_cases argon2 w (some username) (some password) ch.sessionId with
    ⟨_, _, _, -, -, -, -, -, hok⟩ | ⟨code, herr⟩
  · rw [hok]
    exact .inl rfl
  · rw [herr]
    exact .inr ⟨code, rfl⟩

/-- A login is answered with the session cookie when the first 60 characters of its
password have been registered for its username. -/
theorem login_replies (hlaw : argon2.Lawful) (hready : Ready h ()) (hrun : Run argon2 h hist w)
    (hasks : Asks req (loginRoute ())) (hcred : Credentials req username password) :
    (step argon2 h w (.request req hne ch)).2.reaction =
        some (.responded (loginResponse (.ok ch.sessionId))) ↔
      ∃ id, ∃ e ∈ hist, RegisteredWith ⟨id, username⟩ (password.take 60) e := by
  have hok := @login_ok_iff argon2 _ w (some username) (some password) hlaw (calls_run hrun)
    ch.sessionId
  simp only [Option.some.injEq, exists_eq_left'] at hok
  simp only [step_login hready hasks hcred, Option.some.injEq, Reaction.responded.injEq,
    ← registeredAs_iff hready hrun, ← hok]
  constructor
  · exact fun heq => ⟨_, loginResponse_ok_injective heq⟩
  · rintro ⟨s, hs⟩
    have hreaction := @login_reaction argon2 h req hne ch _ _ hready hasks hcred w
    simp only [step_login hready hasks hcred, Option.some.injEq, Reaction.responded.injEq,
      hs] at hreaction ⊢
    refine hreaction.resolve_right ?_
    rintro ⟨code, hcode⟩
    cases hcode

/-- The usernames of the table are those of the members. -/
theorem new_iff (hready : Ready h ()) (hrun : Run argon2 h hist w) :
    (∀ row ∈ w.users, row.username ≠ username) ↔ ∀ id, ¬ Member hist ⟨id, username⟩ := by
  have hacc := accounts_of_run (calls_run hrun)
  simp only [member_iff_registered hready fun e he => stepped_of_run hrun he,
    hacc.registered_iff]
  constructor
  · rintro hnew id ⟨row, hrow, heq⟩
    exact hnew row hrow (Account.mk.inj heq).2.symm
  · intro hnone row hrow hname
    exact hnone row.id ⟨row, hrow, by rw [hname]⟩

/-- A registration is answered `Registered` when its credentials are acceptable, its
username is new, and the database takes it. -/
theorem register_replies (hready : Ready h ()) (hrun : Run argon2 h hist w)
    (hasks : Asks req (registerRoute ())) (hcred : Credentials req username password) :
    (step argon2 h w (.request req hne ch)).2.reaction =
        some (.responded (registerResponse (.ok ()))) ↔
      Acceptable argon2 username password ∧ (∀ id, ¬ Member hist ⟨id, username⟩) ∧
        ch.accepted = true := by
  simp only [step_register hready hasks hcred, Option.some.injEq, Reaction.responded.injEq,
    ← new_iff hready hrun, ← registerUser_ok_iff (w := w) ch.id ch.accepted]
  exact ⟨registerResponse_ok, fun hok => by rw [hok]⟩

/-- In every run a login is answered with the session cookie or `Auth Failed`, and a
registration `Registered` or `Bad Request`, and which of them is decided by what has
been registered. -/
theorem credential_replies (hlaw : argon2.Lawful) (hready : Ready h ())
    (hrun : Run argon2 h hist w) (hne : req.uri ≠ []) (ch : Chance)
    (hcred : Credentials req username password) :
    (Asks req (loginRoute ()) →
      ((step argon2 h w (.request req hne ch)).2.reaction =
          some (.responded (loginResponse (.ok ch.sessionId))) ↔
        ∃ id, ∃ e ∈ hist, RegisteredWith ⟨id, username⟩ (password.take 60) e) ∧
      ((∃ code, (step argon2 h w (.request req hne ch)).2.reaction =
          some (.responded (loginResponse (.error code)))) ↔
        ∀ id, ∀ e ∈ hist, ¬ RegisteredWith ⟨id, username⟩ (password.take 60) e)) ∧
    (Asks req (registerRoute ()) →
      ((step argon2 h w (.request req hne ch)).2.reaction =
          some (.responded (registerResponse (.ok ()))) ↔
        Acceptable argon2 username password ∧ (∀ id, ¬ Member hist ⟨id, username⟩) ∧
          ch.accepted = true) ∧
      ((∃ code, (step argon2 h w (.request req hne ch)).2.reaction =
          some (.responded (registerResponse (.error code)))) ↔
        ¬ (Acceptable argon2 username password ∧ (∀ id, ¬ Member hist ⟨id, username⟩) ∧
          ch.accepted = true))) := by
  refine ⟨fun hasks => ?_, fun hasks => ?_⟩
  · have hlogin := @login_replies argon2 h hist w req hne ch _ _ hlaw hready hrun hasks hcred
    refine ⟨hlogin, ?_⟩
    have hnot : (∀ id, ∀ e ∈ hist, ¬ RegisteredWith ⟨id, username⟩ (password.take 60) e) ↔
        ¬ ∃ id, ∃ e ∈ hist, RegisteredWith ⟨id, username⟩ (password.take 60) e := by
      simp only [not_exists, not_and]
    rw [hnot, ← hlogin]
    rcases @login_reaction argon2 h req hne ch _ _ hready hasks hcred w with
      heq | ⟨code, herr⟩
    · rw [heq]
      exact iff_of_false (fun ⟨code, hcode⟩ => by cases hcode) fun hno => hno rfl
    · rw [herr]
      exact iff_of_true ⟨code, rfl⟩ fun hyes => by cases hyes
  · have hregister := @register_replies argon2 h hist w req hne ch _ _ hready hrun hasks hcred
    refine ⟨hregister, ?_⟩
    rw [← hregister, step_register hready hasks hcred]
    cases hr : (Auth.registerUser argon2 w (some username) (some password) ch.id ch.accepted).2 with
    | error code =>
        simp only [hr]
        exact iff_of_true ⟨code, rfl⟩ fun hyes => by cases hyes
    | ok _ =>
        simp only [hr, not_true_eq_false, iff_false]
        rintro ⟨code, hcode⟩
        cases hcode

/-- `alice` logs in with the password that she has registered. -/
theorem credential_replies_sample :
    ∃ w, Run sampleArgon2 sampleApp sampleHist w ∧
      ∃ id, ∃ e ∈ sampleHist, RegisteredWith ⟨id, .lit "alice"⟩ (CString.lit "password") e := by
  have hrun : Run sampleArgon2 sampleApp sampleHist _ := .next (.next .start _) _
  have hall := @credential_replies _ _ _ _ (sampleRequest "/api/auth/login") (.lit "alice")
    (.lit "password") sampleArgon2_lawful ready_sampleApp hrun (by decide)
    ⟨.empty, true, sampleSession⟩ ⟨rfl, rfl⟩
  exact ⟨_, hrun, (hall.1 ⟨rfl, .inl rfl⟩).1.mp rfl⟩

/-! ## Who sees a page -/

/-- An account is registered once: with one id and one password. -/
theorem RegisteredWith.unique (hready : Ready h ()) (hrun : Run argon2 h hist w)
    {acc acc' : Account} {p p' : CString} {e e' : Input × Output} (he : e ∈ hist) (he' : e' ∈ hist)
    (hreg : RegisteredWith acc p e) (hreg' : RegisteredWith acc' p' e')
    (hname : acc.username = acc'.username) : acc = acc' := by
  have hacc := accounts_of_run (calls_run hrun)
  have hrow := fun (acc : Account) p e (he : e ∈ hist) (hreg : RegisteredWith acc p e) =>
    hacc.complete _ _ _ ((registeredAs_iff hready hrun).mpr ⟨e, he, hreg⟩)
  obtain ⟨row, hmem, -, hsome, -, hid, -⟩ := hrow acc p e he hreg
  obtain ⟨row', hmem', -, hsome', -, hid', -⟩ := hrow acc' p' e' he' hreg'
  obtain rfl := hacc.unique row hmem row' hmem' (by
    rw [← Option.some.inj hsome, ← Option.some.inj hsome', hname])
  obtain ⟨id, username⟩ := acc
  obtain ⟨id', username'⟩ := acc'
  obtain rfl : username = username' := hname
  obtain rfl : id = id' := hid.trans hid'.symm
  rfl

/-- An open session comes from a login for its account with the password that the
account had been registered with. -/
theorem owner_of_open (hlaw : argon2.Lawful) (hready : Ready h ()) (hrun : Run argon2 h hist w)
    {s : Uuid} {acc : Account} (hopen : Open hist s acc) :
    ∃ before login after req hne ch password, hist = before ++ login :: after ∧
      login.1 = .request req hne ch ∧ Asks req (loginRoute ()) ∧
      Credentials req acc.username password ∧
      login.2.reaction = some (.responded (loginResponse (.ok s))) ∧
      (∃ registration ∈ before, RegisteredWith acc (password.take 60) registration) ∧
      ∀ e' ∈ after, ¬ Ended s e' := by
  obtain ⟨before, login, after, rfl, ⟨⟨req, hne, ch, password, hlogin, hasks, hcred, hreply⟩,
    p, first, hfirst, hreg⟩, hafter⟩ := hopen
  obtain ⟨w₁, hrun₁, hlogin₁⟩ := hrun.of_append
  rw [hlogin] at hlogin₁
  refine ⟨before, login, after, req, hne, ch, password, rfl, hlogin, hasks, hcred, hreply,
    ?_, hafter⟩
  -- the login has been answered with its cookie, so its password is a registered one
  have hcookie : (step argon2 h w₁ (.request req hne ch)).2.reaction =
      some (.responded (loginResponse (.ok ch.sessionId))) := by
    refine (login_reaction hready hasks hcred w₁).resolve_right ?_
    rintro ⟨code, hcode⟩
    rw [hlogin₁, hcode] at hreply
    cases hreply
  obtain ⟨id, registration, hmem, hreg'⟩ :=
    (login_replies hlaw hready hrun₁ hasks hcred).mp hcookie
  have hsame : acc = ⟨id, acc.username⟩ := hreg.unique hready hrun₁ hfirst hmem hreg' rfl
  rw [← hsame] at hreg'
  exact ⟨registration, hmem, hreg'⟩

/-- Whoever is shown the page of an account has sent a cookie header off which `get_user`
reads the session id that an earlier login was answered with: a login for the username of
the account with the password that the account had been registered with, up to its 60
characters. Since then the session has not ended. -/
theorem page_owner (hlaw : argon2.Lawful) (hready : Ready h ()) (hrun : Run argon2 h hist w)
    (hdist : Distinct (calls hist)) {pre post : List (Input × Output)} {acc : Account}
    (hhist : hist = pre ++ e :: post) (hreq : e.1 = .request req hne ch)
    (hasks : Asks req (userRoute ()))
    (hpage : e.2.reaction = some (.responded (userResponse (.ok acc.user)))) :
    ∃ before login after req' hne' ch' password, pre = before ++ login :: after ∧
      login.1 = .request req' hne' ch' ∧ Asks req' (loginRoute ()) ∧
      Credentials req' acc.username password ∧
      login.2.reaction = some (.responded (loginResponse (.ok (sessionId req.headers)))) ∧
      (∃ registration ∈ before, RegisteredWith acc (password.take 60) registration) ∧
      ∀ e' ∈ after, ¬ Ended (sessionId req.headers) e' := by
  subst hhist
  obtain ⟨w₁, hrun₁, he⟩ := hrun.of_append
  rw [hreq] at he
  rw [he] at hpage
  exact owner_of_open hlaw hready hrun₁
    ((finds_open hready hrun₁ (distinct_of_append hdist)).of_page hready hasks hpage)

/-- `alice` is shown her page. -/
theorem page_owner_sample :
    ∃ before login after req' hne' ch' password, sampleHist = before ++ login :: after ∧
      login.1 = .request req' hne' ch' ∧ Asks req' (loginRoute ()) ∧
      Credentials req' (.lit "alice") password ∧
      login.2.reaction = some (.responded (loginResponse (.ok sampleSession))) ∧
      (∃ registration ∈ before,
        RegisteredWith ⟨sampleId, .lit "alice"⟩ (password.take 60) registration) ∧
      ∀ e' ∈ after, ¬ Ended sampleSession e' := by
  have hrun : Run sampleArgon2 sampleApp (sampleHist ++
      [(.request (pageRequest sampleSession) (by decide) ⟨.empty, true, .empty⟩, _)]) _ :=
    .next (.next (.next .start _) _) _
  exact @page_owner _ _ _ _ (pageRequest sampleSession) (by decide) _ _ sampleArgon2_lawful
    ready_sampleApp hrun ⟨by decide, by decide⟩ _ [] ⟨sampleId, .lit "alice"⟩ rfl rfl
    ⟨rfl, .inl rfl⟩ rfl

end App

end RePlace
