import RePlace.Service.Accounts

/-!
# Checking credentials

When a login succeeds. The service registers a password of at most 60 characters
and verifies the first 60 characters of what it is given, so a login succeeds
with every text that starts with a registered password of 60 characters.
-/

namespace RePlace

namespace Auth

open Bytes (lit)

variable {argon2 : Argon2} {hist : List (Action × Answer)} {w : World}
  {username password : Option CString}

/-- A login succeeds when the first 60 characters of the password have been
registered for the username. -/
theorem login_ok_iff (hlaw : argon2.Lawful) (hrun : Run argon2 hist w) (newId : Uuid) :
    (∃ s, (login argon2 w username password newId).2 = .ok s) ↔
      ∃ p, password = some p ∧ ∃ id, RegisteredAs hist username (some (p.take 60)) id := by
  have hacc := accounts_of_run hrun
  constructor
  · rintro ⟨s, hs⟩
    rcases @login_cases argon2 w username password newId with
      ⟨name, text, user, rfl, rfl, -, huser, hverify, -⟩ | ⟨code, herr⟩
    · obtain ⟨row, hrow, rfl, rfl⟩ := hacc.getUserByUsername_iff.mp huser
      obtain ⟨text', hreg, -, -, hhash⟩ := hacc.sound row hrow
      have htake : text.take 60 = text' :=
        CString.ext ((Crypto.verifyPassword_iff hlaw hhash text).mp hverify)
      exact ⟨text, rfl, row.id, htake ▸ hreg⟩
    · rw [herr] at hs
      cases hs
  · rintro ⟨p, rfl, id, hreg⟩
    obtain ⟨row, hrow, text, rfl, htext, -, hmin, -, hhash⟩ := hacc.complete _ _ _ hreg
    obtain rfl : p.take 60 = text := Option.some.inj htext
    have hne : p.bytes ≠ [] := by
      intro hnil
      simp [hnil] at hmin
    have huser := hacc.getUserByUsername_iff.mpr ⟨row, hrow, rfl, rfl⟩
    have hverify : Crypto.verifyPassword argon2 row.user.password p = true :=
      (Crypto.verifyPassword_iff hlaw hhash p).mpr rfl
    rw [login_eq (hacc.valid row hrow).1 hne huser hverify]
    exact ⟨newId, rfl⟩

/-- A login is answered by the whole password exactly when the password is not
longer than a registered one of 60 characters that it starts with. -/
theorem credential_check_iff (hlaw : argon2.Lawful) (hrun : Run argon2 hist w) (newId : Uuid) :
    ((∃ s, (login argon2 w username password newId).2 = .ok s) ↔
        ∃ id, RegisteredAs hist username password id) ↔
      ∀ p, password = some p → 60 < p.strlen →
        ∀ id, ¬ RegisteredAs hist username (some (p.take 60)) id := by
  have hacc := accounts_of_run hrun
  rw [login_ok_iff hlaw hrun]
  cases password with
  | none =>
      have hnone : ∀ id, ¬ RegisteredAs hist username none id := by
        intro id hreg
        obtain ⟨row, -, text, -, htext, -⟩ := hacc.complete _ _ _ hreg
        cases htext
      simp [hnone]
  | some p =>
      by_cases hlen : 60 < p.strlen
      · have hnone : ∀ id, ¬ RegisteredAs hist username (some p) id := by
          intro id hreg
          obtain ⟨row, -, text, -, htext, -, -, hmax, -⟩ := hacc.complete _ _ _ hreg
          obtain rfl := Option.some.inj htext
          exact absurd hmax (by simpa [CString.strlen] using hlen)
        simp [hnone, hlen]
      · have htake : p.take 60 = p :=
          CString.ext (List.take_of_length_le (by simpa [CString.strlen] using hlen))
        simp [htake, hlen]

theorem credential_check_sample :
    (∃ s, (login sampleArgon2 (step sampleArgon2 {} (sampleRegister (.lit "password"))).1
        (some (.lit "alice")) (some (.lit "password")) sampleSession).2 = .ok s) ↔
      ∃ id, RegisteredAs
        ([] ++ [(sampleRegister (.lit "password"),
          (step sampleArgon2 {} (sampleRegister (.lit "password"))).2)])
        (some (.lit "alice")) (some (.lit "password")) id :=
  (credential_check_iff sampleArgon2_lawful (.next .start _) sampleSession).mpr
    fun p hp hlen => absurd (Option.some.inj hp ▸ hlen) (by decide)

/-- 60 times the letter `a`. -/
def samplePassword : CString := ⟨List.replicate 60 0x61, by decide⟩

/-- After the registration of a password of 60 characters a login with one more
character succeeds. -/
theorem credential_check_fails :
    sampleArgon2.Lawful ∧ ∃ hist w, Run sampleArgon2 hist w ∧
      ¬ ((∃ s, (login sampleArgon2 w (some (.lit "alice"))
            (some ⟨samplePassword.bytes ++ [0x62], by decide⟩) sampleSession).2 = .ok s) ↔
          ∃ id, RegisteredAs hist (some (.lit "alice"))
            (some ⟨samplePassword.bytes ++ [0x62], by decide⟩) id) := by
  refine ⟨sampleArgon2_lawful, _, _, .next .start (sampleRegister samplePassword), fun hiff => ?_⟩
  obtain ⟨id, accepted, hmem⟩ := hiff.mp ⟨sampleSession, rfl⟩
  rw [List.nil_append, List.mem_singleton, Prod.mk.injEq, sampleRegister,
    Action.registerUser.injEq] at hmem
  have hlen := congrArg (fun p : Option CString => p.map CString.strlen) hmem.1.2.1
  revert hlen
  decide

end Auth

end RePlace
