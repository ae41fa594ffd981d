import RePlace.Service.Accounts

/-!
# Registrations and the columns of the table

What `register_user` does over the table `users` as its schema declares it. The
entity accepts usernames of up to 60 characters; the column of the username holds
50, that of the password 100.
-/

namespace Bytes

/-- The number of characters of a UTF-8 text: of its bytes that do not continue a
character. -/
def characters (s : Bytes) : ℕ := s.countP fun b => b &&& 0xC0 ≠ 0x80

/-- Every character is a single byte. -/
def Ascii (s : Bytes) : Prop := ∀ b ∈ s, b < 0x80

theorem ascii_of_all {s : Bytes} (h : (s.all fun b => decide (b < 0x80)) = true) : Ascii s :=
  fun b hb => of_decide_eq_true (List.all_eq_true.mp h b hb)

theorem characters_of_ascii {s : Bytes} (h : Ascii s) : characters s = s.length := by
  rw [characters, List.countP_eq_length]
  intro b hb
  have hlt : b < 0x80 := h b hb
  rw [decide_eq_true_iff]
  intro heq
  have hmask : b &&& 0xC0 ≤ b := by
    rw [UInt8.le_iff_toNat_le, UInt8.toNat_and]
    exact Nat.and_le_left
  rw [heq] at hmask
  exact absurd hlt (UInt8.not_lt.mpr hmask)

end Bytes

namespace RePlace

/-! ## The columns -/

namespace UserPg

/-- `username VARCHAR(50)`. -/
def usernameWidth : ℕ := 50

/-- `password VARCHAR(100)`. -/
def passwordWidth : ℕ := 100

/-- The database rejects a value that is wider than its column. -/
def accepts (user : User) : Bool :=
  Bytes.characters user.username ≤ usernameWidth ∧ Bytes.characters user.password ≤ passwordWidth

/-- A row whose username is new and that fits is added. -/
theorem addUser_of_new {rows : List UserRow} {user : User} (id : Uuid)
    (hnew : ∀ row ∈ rows, row.username ≠ CString.ofBytes user.username) :
    addUser rows user id true =
      (rows ++ [⟨id, CString.ofBytes user.username, CString.ofBytes user.password⟩], .ok id) := by
  have hnone : (rows.any fun row => row.username = CString.ofBytes user.username) = false := by
    simpa [List.any_eq_false] using hnew
  simp [addUser, hnone]

theorem addUser_of_rejected (rows : List UserRow) (user : User) (id : Uuid) :
    addUser rows user id false = (rows, .error .dbExecutionError) := by
  simp [addUser]

end UserPg

/-! ## Registrations -/

namespace Auth

variable (argon2 : Argon2)

/-- The user that `register_user` builds with its two setters. -/
def builtUser (username password : Option CString) : User :=
  ((({} : User).setUsername username).1.setPassword argon2 password).1

/-- `Auth::register_user` over the table with its column types. -/
def registerUserTyped (w : World) (username password : Option CString) (id : Uuid) :
    World × Except ErrorCode Unit :=
  registerUser argon2 w username password id (UserPg.accepts (builtUser argon2 username password))

variable {argon2}

/-- When a registration succeeds. -/
theorem registerUser_ok_iff {w : World} {name text : CString} (id : Uuid) (accepted : Bool) :
    (registerUser argon2 w (some name) (some text) id accepted).2 = .ok () ↔
      Acceptable argon2 name text ∧ (∀ row ∈ w.users, row.username ≠ name) ∧ accepted = true := by
  constructor
  · intro hok
    cases accepted with
    | false =>
        rcases @registerUser_cases argon2 w (some name) (some text) id false with
          ⟨name', text', hash, hsome, hsome', hne, hlen, hmin, hmax, hhash, -, -⟩ | ⟨code, herr⟩
        · obtain rfl := Option.some.inj hsome
          obtain rfl := Option.some.inj hsome'
          simp [registerUser, User.setUsername_of_le _ hne hlen,
            User.setPassword_of_le _ hmin hmax hhash, UserPg.addUser_of_rejected] at hok
        · rw [herr] at hok
          cases hok
    | true =>
        rcases @registerUser_cases argon2 w (some name) (some text) id true with
          ⟨name', text', hash, hsome, hsome', hne, hlen, hmin, hmax, hhash, hnew, -⟩ | ⟨code, herr⟩
        · obtain rfl := Option.some.inj hsome
          obtain rfl := Option.some.inj hsome'
          exact ⟨⟨hne, hlen, hmin, hmax, hash, hhash⟩, hnew, rfl⟩
        · rw [herr] at hok
          cases hok
  · rintro ⟨⟨hne, hlen, hmin, hmax, hash, hhash⟩, hnew, rfl⟩
    have hadd := @UserPg.addUser_of_new w.users { username := name.bytes, password := hash.bytes }
      id (by simpa using hnew)
    simp only [registerUser, User.setUsername_of_le _ hne hlen,
      User.setPassword_of_le _ hmin hmax hhash, hadd]

/-- The setters of the user accept the username and the password. -/
def Validates (argon2 : Argon2) (name text : CString) : Prop :=
  (({} : User).setUsername (some name)).2 = .ok () ∧
    ((({} : User).setUsername (some name)).1.setPassword argon2 (some text)).2 = .ok ()

/-- What has been validated, and the user that is built of it. -/
theorem Validates.exists_hash {name text : CString} (h : Validates argon2 name text) :
    ∃ hash, argon2.hashEncoded text.bytes = .ok hash ∧
      ({} : User).setUsername (some name) = ({ username := name.bytes }, .ok ()) ∧
      ({ username := name.bytes } : User).setPassword argon2 (some text) =
        ({ username := name.bytes, password := hash.bytes }, .ok ()) := by
  obtain ⟨hname, htext⟩ := h
  obtain ⟨name', hsome, -, -, huser⟩ := User.setUsername_ok (Prod.ext rfl hname)
  obtain rfl := Option.some.inj hsome
  have huser : (({} : User).setUsername (some name)).1 = { username := name.bytes } := huser
  rw [huser] at htext
  obtain ⟨text', hash, hsome, -, -, hhash, huser'⟩ := User.setPassword_ok (Prod.ext rfl htext)
  obtain rfl := Option.some.inj hsome
  exact ⟨hash, hhash, Prod.ext huser hname, Prod.ext huser' htext⟩

/-- A validated registration of a new username adds its row if the columns hold it,
and fails otherwise. -/
theorem registerUserTyped_eq {w : World} {name text : CString} (h : Validates argon2 name text)
    (hnew : ∀ row ∈ w.users, row.username ≠ name) {hash : CString}
    (hhash : argon2.hashEncoded text.bytes = .ok hash) (id : Uuid) :
    registerUserTyped argon2 w (some name) (some text) id =
      if UserPg.accepts { username := name.bytes, password := hash.bytes } then
        (⟨w.users ++ [⟨id, name, hash⟩], w.sessions⟩, .ok ())
      else (w, .error .dbExecutionError) := by
  obtain ⟨hash', hhash', hname, htext⟩ := h.exists_hash
  obtain rfl : hash = hash' := Except.ok.inj (hhash.symm.trans hhash')
  have hbuilt : builtUser argon2 (some name) (some text) =
      { username := name.bytes, password := hash.bytes } := by
    rw [builtUser, hname, htext]
  rw [registerUserTyped, hbuilt]
  cases haccepts : UserPg.accepts { username := name.bytes, password := hash.bytes } with
  | true =>
      have hadd := @UserPg.addUser_of_new w.users
        { username := name.bytes, password := hash.bytes } id (by simpa using hnew)
      simp only [registerUser, hname, htext, hadd, if_true, CString.ofBytes_bytes]
  | false =>
      simp only [registerUser, hname, htext, UserPg.addUser_of_rejected, Bool.false_eq_true,
        if_false]

/-- A validated ASCII registration of a new username is answered `OK` with its row
exactly when the username has at most 50 characters. -/
theorem storable_account_iff
    (hwidth : ∀ x e, argon2.hashEncoded x = .ok e → Bytes.characters e.bytes = 97)
    {w : World} {name text : CString} (hascii : Bytes.Ascii name.bytes)
    (h : Validates argon2 name text) (hnew : ∀ row ∈ w.users, row.username ≠ name) (id : Uuid) :
    (∃ hash, argon2.hashEncoded text.bytes = .ok hash ∧
        registerUserTyped argon2 w (some name) (some text) id =
          (⟨w.users ++ [⟨id, name, hash⟩], w.sessions⟩, .ok ())) ↔
      name.bytes.length ≤ 50 := by
  obtain ⟨hash, hhash, -, -⟩ := h.exists_hash
  have haccepts : UserPg.accepts { username := name.bytes, password := hash.bytes } = true ↔
      name.bytes.length ≤ 50 := by
    simp only [UserPg.accepts, UserPg.usernameWidth, UserPg.passwordWidth, hwidth _ _ hhash,
      Bytes.characters_of_ascii hascii, decide_eq_true_eq]
    omega
  have heq := registerUserTyped_eq h hnew hhash id
  constructor
  · rintro ⟨hash', -, hok⟩
    by_contra hlong
    rw [heq, if_neg (mt haccepts.mp hlong)] at hok
    cases congrArg Prod.snd hok
  · intro hlen
    exact ⟨hash, hhash, by rw [heq, if_pos (haccepts.mpr hlen)]⟩

/-! ### A sample -/

/-- Encodings of 97 characters. -/
def paddedArgon2 : Argon2 where
  hashEncoded x :=
    if h : (0 : UInt8) ∉ x ∧ Bytes.characters x ≤ 97 then
      .ok ⟨x ++ List.replicate (97 - Bytes.characters x) 0x3D, by simp [h.1]⟩
    else .error (-1)
  verify e y n := e.bytes = y.take n ++ List.replicate (97 - Bytes.characters (y.take n)) 0x3D

theorem paddedArgon2_width (x : Bytes) (e : CString) (h : paddedArgon2.hashEncoded x = .ok e) :
    Bytes.characters e.bytes = 97 := by
  simp only [paddedArgon2] at h
  split at h
  · rename_i hx
    rw [← Except.ok.inj h]
    have hpad : (List.replicate (97 - Bytes.characters x) (0x3D : UInt8)).countP
        (fun b => b &&& 0xC0 ≠ 0x80) = 97 - Bytes.characters x := by
      rw [List.countP_replicate, if_pos (by decide)]
    have hsum : Bytes.characters x + (97 - Bytes.characters x) = 97 := Nat.add_sub_cancel' hx.2
    rw [Bytes.characters, List.countP_append, hpad]
    exact hsum
  · cases h

/-- A username of five characters. -/
theorem storable_account_sample :
    ∃ hash, paddedArgon2.hashEncoded (CString.lit "password").bytes = .ok hash ∧
      registerUserTyped paddedArgon2 {} (some (.lit "alice")) (some (.lit "password")) sampleId =
        (⟨[⟨sampleId, .lit "alice", hash⟩], fun _ => none⟩, .ok ()) :=
  (@storable_account_iff _ paddedArgon2_width {} (.lit "alice") (.lit "password")
    (Bytes.ascii_of_all rfl) ⟨rfl, rfl⟩ (by simp) sampleId).mpr (by decide)

/-- A username of 51 characters. -/
def longName : CString := ⟨List.replicate 51 0x61, by decide⟩

/-- The long name passes both setters and is rejected by the table. -/
theorem storable_account_fails :
    (∀ x e, paddedArgon2.hashEncoded x = .ok e → Bytes.characters e.bytes = 97) ∧
      Bytes.Ascii longName.bytes ∧ Validates paddedArgon2 longName (.lit "password") ∧
      (registerUserTyped paddedArgon2 {} (some longName) (some (.lit "password")) sampleId).2 =
        .error .dbExecutionError ∧
      (registerUserTyped paddedArgon2 {} (some longName) (some (.lit "password"))
        sampleId).1.users = [] := by
  refine ⟨paddedArgon2_width, Bytes.ascii_of_all ?_, ⟨rfl, rfl⟩, rfl, rfl⟩
  decide

end Auth

end RePlace
