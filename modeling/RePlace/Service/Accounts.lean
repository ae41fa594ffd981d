import RePlace.Service.Auth

/-!
# Registered accounts

The rows of the table are the registrations of the history (`accounts_of_run`):
each row comes from a registration that was answered `OK`, and each such
registration has its row. Usernames are unique.
-/

namespace RePlace

/-- The user that a row stands for. -/
def UserRow.user (row : UserRow) : User :=
  { id := row.id, username := row.username.bytes, password := row.password.bytes }

/-- In a table of valid usernames the first row of a username is read as it is. -/
theorem UserPg.getUserByUsername_iff_find {rows : List UserRow}
    (hvalid : ∀ row ∈ rows, row.username.bytes ≠ [] ∧ row.username.bytes.length ≤ 60)
    {name : CString} {user : User} : UserPg.getUserByUsername rows name = .ok user ↔
      ∃ row, rows.find? (fun row => row.username = name) = some row ∧ user = row.user := by
  cases hfind : rows.find? (fun row => row.username = name) with
  | none => simp [UserPg.getUserByUsername, hfind]
  | some row =>
      obtain ⟨hne, hlen⟩ := hvalid row (List.mem_of_find?_eq_some hfind)
      obtain rfl : row.username = name := by simpa using List.find?_some hfind
      have hread : UserPg.getUserByUsername rows row.username = .ok row.user := by
        simp [UserPg.getUserByUsername, hfind, User.setUsername_of_le _ hne hlen, User.setId,
          User.setHashedPassword, UserRow.user]
      rw [hread, Except.ok.injEq]
      constructor
      · rintro rfl
        exact ⟨row, rfl, rfl⟩
      · rintro ⟨row', hrow', rfl⟩
        rw [Option.some.inj hrow']

namespace Auth

variable {argon2 : Argon2}

/-- Some registration of these arguments was answered `OK`, and its row got the
id. -/
def RegisteredAs (hist : List (Action × Answer)) (username password : Option CString)
    (id : Uuid) : Prop :=
  ∃ accepted, (Action.registerUser username password id accepted, Answer.registered (.ok ())) ∈ hist

/-- The text has been accepted as a password and hashed to this. -/
def Hashed (argon2 : Argon2) (text hash : CString) : Prop :=
  8 ≤ text.bytes.length ∧ text.bytes.length ≤ 60 ∧ argon2.hashEncoded text.bytes = .ok hash

/-- The credentials of a registration are acceptable. -/
structure Acceptable (argon2 : Argon2) (name text : CString) : Prop where
  nonempty : name.bytes ≠ []
  name_le : name.bytes.length ≤ 60
  le_text : 8 ≤ text.bytes.length
  text_le : text.bytes.length ≤ 60
  hashed : ∃ hash, argon2.hashEncoded text.bytes = .ok hash

/-- The rows are the registrations of the history. -/
structure Accounts (argon2 : Argon2) (hist : List (Action × Answer)) (rows : List UserRow) :
    Prop where
  sound : ∀ row ∈ rows, ∃ text, RegisteredAs hist (some row.username) (some text) row.id ∧
    Hashed argon2 text row.password
  complete : ∀ username password id, RegisteredAs hist username password id →
    ∃ row ∈ rows, ∃ text, username = some row.username ∧ password = some text ∧ id = row.id ∧
      Hashed argon2 text row.password
  valid : ∀ row ∈ rows, row.username.bytes ≠ [] ∧ row.username.bytes.length ≤ 60
  unique : ∀ row ∈ rows, ∀ row' ∈ rows, row.username = row'.username → row = row'

variable {hist : List (Action × Answer)} {rows : List UserRow}

theorem accounts_nil : Accounts argon2 [] [] where
  sound := by simp
  complete := fun _ _ _ ⟨_, h⟩ => by simp at h
  valid := by simp
  unique := by simp

theorem RegisteredAs.append {username password : Option CString} {id : Uuid}
    (h : RegisteredAs hist username password id) (e : Action × Answer) :
    RegisteredAs (hist ++ [e]) username password id := by
  obtain ⟨accepted, h⟩ := h
  exact ⟨accepted, List.mem_append_left _ h⟩

/-- Whatever is not a registration answered `OK` changes no account. -/
theorem Accounts.append (h : Accounts argon2 hist rows) {e : Action × Answer}
    (he : ∀ username password id accepted,
      e ≠ (.registerUser username password id accepted, .registered (.ok ()))) :
    Accounts argon2 (hist ++ [e]) rows where
  sound row hrow := by
    obtain ⟨text, hreg, hhash⟩ := h.sound row hrow
    exact ⟨text, hreg.append e, hhash⟩
  complete username password id := by
    rintro ⟨accepted, hmem⟩
    rcases List.mem_append.mp hmem with hmem | hmem
    · exact h.complete username password id ⟨accepted, hmem⟩
    · exact absurd (List.mem_singleton.mp hmem).symm (he username password id accepted)
  valid := h.valid
  unique := h.unique

/-- A registration answered `OK` adds its account. -/
theorem Accounts.register (h : Accounts argon2 hist rows) {name text hash : CString} {id : Uuid}
    {accepted : Bool} (hne : name.bytes ≠ []) (hlen : name.bytes.length ≤ 60)
    (hhash : Hashed argon2 text hash) (hnew : ∀ row ∈ rows, row.username ≠ name) :
    Accounts argon2
      (hist ++ [(.registerUser (some name) (some text) id accepted, .registered (.ok ()))])
      (rows ++ [⟨id, name, hash⟩]) where
  sound row hrow := by
    rcases List.mem_append.mp hrow with hrow | hrow
    · obtain ⟨text', hreg, hhash'⟩ := h.sound row hrow
      exact ⟨text', hreg.append _, hhash'⟩
    · obtain rfl := List.mem_singleton.mp hrow
      exact ⟨text, ⟨accepted, by simp⟩, hhash⟩
  complete username password id' := by
    rintro ⟨accepted', hmem⟩
    rcases List.mem_append.mp hmem with hmem | hmem
    · obtain ⟨row, hrow, hacc⟩ := h.complete username password id' ⟨accepted', hmem⟩
      exact ⟨row, List.mem_append_left _ hrow, hacc⟩
    · simp only [List.mem_singleton, Prod.mk.injEq, Action.registerUser.injEq] at hmem
      obtain ⟨⟨rfl, rfl, rfl, -⟩, -⟩ := hmem
      exact ⟨⟨id', name, hash⟩, by simp, text, rfl, rfl, rfl, hhash⟩
  valid row hrow := by
    rcases List.mem_append.mp hrow with hrow | hrow
    · exact h.valid row hrow
    · obtain rfl := List.mem_singleton.mp hrow
      exact ⟨hne, hlen⟩
  unique row hrow row' hrow' hsame := by
    rcases List.mem_append.mp hrow with hrow | hrow <;>
      rcases List.mem_append.mp hrow' with hrow' | hrow'
    · exact h.unique row hrow row' hrow' hsame
    · obtain rfl := List.mem_singleton.mp hrow'
      exact absurd hsame (hnew row hrow)
    · obtain rfl := List.mem_singleton.mp hrow
      exact absurd hsame.symm (hnew row' hrow')
    · rw [List.mem_singleton.mp hrow, List.mem_singleton.mp hrow']

theorem accounts_step {w : World} (h : Accounts argon2 hist w.users) (a : Action) :
    Accounts argon2 (hist ++ [(a, (step argon2 w a).2)]) (step argon2 w a).1.users := by
  cases a with
  | registerUser username password id accepted =>
      rcases @registerUser_cases argon2 w username password id accepted with
        ⟨name, text, hash, rfl, rfl, hne, hlen, hmin, hmax, hhash, hnew, hok⟩ | ⟨code, herr⟩
      · simp only [step, hok]
        exact h.register hne hlen ⟨hmin, hmax, hhash⟩ hnew
      · simp only [step, herr]
        exact h.append (by simp)
  | login username password newId =>
      rcases @login_cases argon2 w username password newId with
        ⟨name, text, user, -, -, -, -, -, hok⟩ | ⟨code, herr⟩
      · simp only [step, hok]
        exact h.append (by simp)
      · simp only [step, herr]
        exact h.append (by simp)
  | logout s => exact h.append (by simp [step])
  | getUser s => exact h.append (by simp)
  | expire s => exact h.append (by simp)

theorem accounts_of_run {w : World} (hrun : Run argon2 hist w) :
    Accounts argon2 hist w.users :=
  hrun.induction (K := fun hist w => Accounts argon2 hist w.users) accounts_nil
    fun _ _ a ih => accounts_step ih a

/-- The user of a username is that of its row. -/
theorem Accounts.getUserByUsername_iff (h : Accounts argon2 hist rows) {name : CString}
    {user : User} : UserPg.getUserByUsername rows name = .ok user ↔
      ∃ row ∈ rows, row.username = name ∧ user = row.user := by
  rw [UserPg.getUserByUsername_iff_find h.valid]
  constructor
  · rintro ⟨row, hfind, rfl⟩
    exact ⟨row, List.mem_of_find?_eq_some hfind, by simpa using List.find?_some hfind, rfl⟩
  · rintro ⟨row, hrow, hname, rfl⟩
    obtain ⟨row', hfind⟩ : ∃ row', rows.find? (fun row => row.username = name) = some row' := by
      rw [← Option.isSome_iff_exists, List.find?_isSome]
      exact ⟨row, hrow, by simpa using hname⟩
    have hname' : row'.username = name := by simpa using List.find?_some hfind
    have hsame := h.unique row' (List.mem_of_find?_eq_some hfind) row hrow (by rw [hname, hname'])
    exact ⟨row', hfind, by rw [hsame]⟩

/-! ## A sample -/

def sampleId : Uuid := .ofCString (.lit "4a2c1f52-9f7e-4d0b-8c3b-6f1f0a9d7e11")

def sampleSession : Uuid := .ofCString (.lit "0f8fad5b-d9cb-469f-a165-70867728950e")

/-- The registration of `alice` with a password. -/
def sampleRegister (password : CString) : Action :=
  .registerUser (some (.lit "alice")) (some password) sampleId true

end Auth

end RePlace
