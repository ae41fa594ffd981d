import RePlace.Service.Registration

/-!
# Accounts that credentials stand for

A registration makes an account, and a login opens sessions of one. Which account it is
shows which username and which password the service has worked with: a registration makes
an account of its own credentials (`registers_iff`), a login finds one of its username that
has the first 60 characters of its password (`logsIn_iff`).
-/

namespace RePlace.Auth

variable {argon2 : Argon2} {w : World} {name text : CString} {row : UserRow}

/-- A state that the service gets into, with the whole ids that the database generates. -/
structure Reached (argon2 : Argon2) (w : World) : Prop where
  run : ∃ hist, Run argon2 hist w
  full : ∀ row ∈ w.users, row.id.Full

theorem reached_init : Reached argon2 {} where
  run := ⟨[], .start⟩
  full := by simp

/-- The registration makes the account, when the database takes the row. -/
def Registers (argon2 : Argon2) (w : World) (name text : CString) (row : UserRow) : Prop :=
  registerUser argon2 w (some name) (some text) row.id true =
    (⟨w.users ++ [row], w.sessions⟩, .ok ())

/-- The login opens sessions of the account. -/
def LogsIn (argon2 : Argon2) (w : World) (name text : CString) (row : UserRow) : Prop :=
  row ∈ w.users ∧ ∀ newId, login argon2 w (some name) (some text) newId =
    (⟨w.users, (SessionValkey.setSession w.sessions row.user newId).1⟩, .ok newId)

/-- A registration makes an account of its own username and password. -/
theorem registers_iff : Registers argon2 w name text row ↔
    Acceptable argon2 name text ∧ (∀ row' ∈ w.users, row'.username ≠ name) ∧
      row.username = name ∧ argon2.hashEncoded text.bytes = .ok row.password := by
  constructor
  · intro hreg
    rcases @registerUser_cases argon2 w (some name) (some text) row.id true with
      ⟨name', text', hash, hsome, hsome', hne, hlen, hmin, hmax, hhash, hnew, hok⟩ | ⟨code, herr⟩
    · obtain rfl := Option.some.inj hsome
      obtain rfl := Option.some.inj hsome'
      have husers := congrArg (fun r => r.1.users) (hreg.symm.trans hok)
      have hrow : row = ⟨row.id, name, hash⟩ :=
        List.singleton_inj.mp (List.append_cancel_left husers)
      have hpassword : row.password = hash := congrArg UserRow.password hrow
      exact ⟨⟨hne, hlen, hmin, hmax, hash, hhash⟩, hnew, congrArg UserRow.username hrow,
        hpassword ▸ hhash⟩
    · cases (congrArg Prod.snd hreg).symm.trans (congrArg Prod.snd herr)
  · rintro ⟨hacceptable, hnew, hname, hhash⟩
    have hok := (@registerUser_ok_iff argon2 w name text row.id true).mpr
      ⟨hacceptable, hnew, rfl⟩
    rcases @registerUser_cases argon2 w (some name) (some text) row.id true with
      ⟨name', text', hash, hsome, hsome', -, -, -, -, hhash', -, hreg⟩ | ⟨code, herr⟩
    · obtain rfl := Option.some.inj hsome
      obtain rfl := Option.some.inj hsome'
      obtain rfl : row.password = hash := Except.ok.inj (hhash.symm.trans hhash')
      obtain rfl := hname
      exact hreg
    · rw [herr] at hok
      cases hok

/-- A login opens sessions of the account that has its username and the first 60
characters of its password. -/
theorem logsIn_iff (hlaw : argon2.Lawful) (h : Reached argon2 w) :
    LogsIn argon2 w name text row ↔ row ∈ w.users ∧ row.username = name ∧
      argon2.hashEncoded (text.bytes.take 60) = .ok row.password := by
  obtain ⟨hist, hrun⟩ := h.run
  have hacc := accounts_of_run hrun
  refine and_congr_right fun hrow => ?_
  obtain ⟨text', -, hmin, hmax, hhash⟩ := hacc.sound row hrow
  constructor
  · intro hlogin
    rcases @login_cases argon2 w (some name) (some text) .empty with
      ⟨name', text'', user, hsome, hsome', -, huser, hverify, hok⟩ | ⟨code, herr⟩
    · obtain rfl := Option.some.inj hsome
      obtain rfl := Option.some.inj hsome'
      obtain ⟨row', hrow', rfl, rfl⟩ := hacc.getUserByUsername_iff.mp huser
      have hrecord : SessionValkey.record row'.user = SessionValkey.record row.user := by
        have hstore := congrArg (fun r => r.1.sessions (SessionValkey.key .empty))
          (hok.symm.trans (hlogin .empty))
        rw [SessionValkey.setSession_eq] at hstore
        simpa using hstore
      have hname := (SessionValkey.record_inj (h.full row' hrow') (h.full row hrow) rfl rfl
        hrecord).2
      obtain rfl := hacc.unique row' hrow' row hrow hname
      refine ⟨rfl, ?_⟩
      rw [(Crypto.verifyPassword_iff hlaw hhash text).mp hverify]
      exact hhash
    · cases (congrArg Prod.snd (hlogin .empty)).symm.trans (congrArg Prod.snd herr)
  · rintro ⟨rfl, htake⟩ newId
    have hsame : text.bytes.take 60 = text'.bytes := by
      have hself : ∀ x, argon2.verify row.password x x.length = true ↔ x = text'.bytes := by
        intro x
        rw [hlaw _ _ hhash, List.take_length]
      exact (hself _).mp ((hlaw _ _ htake _ _).mpr (List.take_length ..))
    have hne : text.bytes ≠ [] := by
      intro hnil
      rw [hnil] at hsame
      simp [← hsame] at hmin
    have huser := hacc.getUserByUsername_iff.mpr ⟨row, hrow, rfl, rfl⟩
    have hverify : Crypto.verifyPassword argon2 row.user.password text = true :=
      (Crypto.verifyPassword_iff hlaw hhash text).mpr hsame
    rw [login_eq (hacc.valid row hrow).1 hne huser hverify, SessionValkey.setSession_eq]

end RePlace.Auth
