import RePlace.Service.Accounts

/-!
# The life of a session

A session is live when some login has returned it and since then no logout of it
has been answered `OK` and it has not expired. The store holds exactly the
records of the live sessions (`stored_of_run`), so what `get_user` and `logout`
answer is decided by the history (`session_life_cycle`). The uuids that are
generated have 36 characters and are distinct.
-/

namespace RePlace

namespace Auth

open History (Since since_concat not_since_nil)

/-- The id and the username of an account. -/
structure Account where
  id : Uuid
  username : CString
deriving DecidableEq

/-- The user that `get_user` returns for an account. -/
def Account.user (acc : Account) : User := { id := acc.id, username := acc.username.bytes }

/-- The account has been registered. -/
def Registered (hist : List (Action × Answer)) (acc : Account) : Prop :=
  ∃ password, RegisteredAs hist (some acc.username) password acc.id

/-- The entry is a login for the account that returned the session. -/
def Opens (s : Uuid) (acc : Account) (hist : List (Action × Answer)) (e : Action × Answer) : Prop :=
  (∃ password newId, e = (.login (some acc.username) password newId, .loggedIn (.ok s))) ∧
    Registered hist acc

/-- The entry is a logout of the session answered `OK`, or its expiry. -/
def Closes (s : Uuid) (e : Action × Answer) : Prop :=
  e = (.logout s, .loggedOut (.ok ())) ∨ e = (.expire s, .expired)

/-- Some login has returned the session for the account, and since then it has
been neither logged out nor has it expired. -/
def Live (hist : List (Action × Answer)) (s : Uuid) (acc : Account) : Prop :=
  Since (Opens s acc) (Closes s) hist

/-- The uuids generated for an entry. -/
def generatedBy : Action × Answer → List Uuid
  | (.registerUser _ _ id _, .registered (.ok ())) => [id]
  | (.login _ _ _, .loggedIn (.ok s)) => [s]
  | _ => []

/-- The uuids generated in a history. -/
def generated (hist : List (Action × Answer)) : List Uuid := hist.flatMap generatedBy

/-- The uuids of a history have 36 characters and are distinct. -/
structure Distinct (hist : List (Action × Answer)) : Prop where
  full : ∀ u ∈ generated hist, u.Full
  nodup : (generated hist).Nodup

variable {argon2 : Argon2} {hist : List (Action × Answer)} {w : World}

theorem generated_concat (hist : List (Action × Answer)) (e : Action × Answer) :
    generated (hist ++ [e]) = generated hist ++ generatedBy e := by
  simp [generated]

theorem Distinct.of_concat {e : Action × Answer} (h : Distinct (hist ++ [e])) : Distinct hist where
  full u hu := h.full u (by rw [generated_concat]; exact List.mem_append_left _ hu)
  nodup := by
    have := h.nodup
    rw [generated_concat] at this
    exact this.of_append_left

theorem mem_generated_of_live {s : Uuid} {acc : Account} (h : Live hist s acc) :
    s ∈ generated hist := by
  obtain ⟨pre, e, he, ⟨⟨password, newId, rfl⟩, -⟩, -⟩ := h.exists_mem
  exact List.mem_flatMap.mpr ⟨_, he, by simp [generatedBy]⟩

theorem Registered.of_isPrefix {pre : List (Action × Answer)} {acc : Account}
    (h : Registered pre acc) (hpre : pre <+: hist) : Registered hist acc := by
  obtain ⟨password, accepted, hmem⟩ := h
  exact ⟨password, accepted, hpre.subset hmem⟩

theorem registered_of_live {s : Uuid} {acc : Account} (h : Live hist s acc) :
    Registered hist acc := by
  obtain ⟨pre, e, -, ⟨-, hreg⟩, hpre⟩ := h.exists_mem
  exact hreg.of_isPrefix hpre

/-- The id of a registered account was generated. -/
theorem mem_generated_of_registered {acc : Account} (h : Registered hist acc) :
    acc.id ∈ generated hist := by
  obtain ⟨password, accepted, hmem⟩ := h
  exact List.mem_flatMap.mpr ⟨_, hmem, by simp [generatedBy]⟩

/-! ## The accounts and the rows -/

/-- An account is registered when it has a row. -/
theorem Accounts.registered_iff {rows : List UserRow} (h : Accounts argon2 hist rows)
    {acc : Account} : Registered hist acc ↔
      ∃ row ∈ rows, acc = ⟨row.id, row.username⟩ := by
  constructor
  · rintro ⟨password, hreg⟩
    obtain ⟨row, hrow, text, hname, -, hid, -⟩ := h.complete _ _ _ hreg
    obtain ⟨id, username⟩ := acc
    obtain rfl : username = row.username := Option.some.inj hname
    obtain rfl : id = row.id := hid
    exact ⟨row, hrow, rfl⟩
  · rintro ⟨row, hrow, rfl⟩
    obtain ⟨text, hreg, -⟩ := h.sound row hrow
    exact ⟨some text, hreg⟩

/-- The record of an account that is registered is decoded to it. -/
theorem Accounts.decode_record {rows : List UserRow} (h : Accounts argon2 hist rows)
    (hdist : Distinct hist) {acc : Account} (hreg : Registered hist acc) :
    SessionValkey.decode (SessionValkey.record acc.user) = some (.ok acc.user) := by
  have hfull := hdist.full _ (mem_generated_of_registered hreg)
  obtain ⟨row, hrow, rfl⟩ := h.registered_iff.mp hreg
  obtain ⟨hne, hlen⟩ := h.valid row hrow
  exact SessionValkey.decode_record hfull rfl hne hlen

/-! ## The store -/

/-- The store holds the records of the live sessions under their keys, and nothing
else. -/
def Stored (hist : List (Action × Answer)) (store : Store) : Prop :=
  ∀ key json, store key = some json ↔
    ∃ s acc, Live hist s acc ∧ key = SessionValkey.key s ∧ json = SessionValkey.record acc.user

theorem Stored.at_key {store : Store} (h : Stored hist store) (s : Uuid) (json : Bytes) :
    store (SessionValkey.key s) = some json ↔
      ∃ acc, Live hist s acc ∧ json = SessionValkey.record acc.user := by
  rw [h]
  constructor
  · rintro ⟨s', acc, hlive, hkey, hjson⟩
    obtain rfl := SessionValkey.key_injective hkey
    exact ⟨acc, hlive, hjson⟩
  · rintro ⟨acc, hlive, hjson⟩
    exact ⟨s, acc, hlive, rfl, hjson⟩

/-- An entry that neither opens nor closes a session. -/
theorem Stored.append {store : Store} (h : Stored hist store) {e : Action × Answer}
    (hopens : ∀ s acc, ¬ Opens s acc hist e) (hcloses : ∀ s, ¬ Closes s e) :
    Stored (hist ++ [e]) store := by
  intro key json
  have hlive : ∀ s acc, Live (hist ++ [e]) s acc ↔ Live hist s acc := by
    intro s acc
    rw [Live, since_concat]
    simp [hopens s acc, hcloses s, Live]
  simp only [hlive]
  exact h key json

/-- An entry that changes what the store holds for one session only. -/
theorem Stored.update {store : Store} (h : Stored hist store) {e : Action × Answer} {s : Uuid}
    {value : Option Bytes}
    (hself : ∀ json, value = some json ↔
      ∃ acc, Live (hist ++ [e]) s acc ∧ json = SessionValkey.record acc.user)
    (hother : ∀ s' acc, s' ≠ s → (Live (hist ++ [e]) s' acc ↔ Live hist s' acc)) :
    Stored (hist ++ [e]) (Function.update store (SessionValkey.key s) value) := by
  intro key json
  by_cases hkey : key = SessionValkey.key s
  · subst hkey
    rw [Function.update_self, hself]
    constructor
    · rintro ⟨acc, hlive, hjson⟩
      exact ⟨s, acc, hlive, rfl, hjson⟩
    · rintro ⟨s', acc, hlive, hsame, hjson⟩
      obtain rfl := SessionValkey.key_injective hsame
      exact ⟨acc, hlive, hjson⟩
  · have hne : ∀ s', key = SessionValkey.key s' → s' ≠ s := fun s' hs' hsame =>
      hkey (hsame ▸ hs')
    rw [Function.update_of_ne hkey, h key json]
    constructor
    · rintro ⟨s', acc, hlive, hs', hjson⟩
      exact ⟨s', acc, (hother s' acc (hne s' hs')).mpr hlive, hs', hjson⟩
    · rintro ⟨s', acc, hlive, hs', hjson⟩
      exact ⟨s', acc, (hother s' acc (hne s' hs')).mp hlive, hs', hjson⟩

/-- A login that returns a new session. -/
theorem Stored.open {store : Store} (h : Stored hist store) {acc : Account}
    (hreg : Registered hist acc) (hone : ∀ acc', Registered hist acc' →
      acc'.username = acc.username → acc' = acc)
    {s : Uuid} (hnew : s ∉ generated hist) {username password : Option CString}
    (hname : username = some acc.username) (newId : Uuid) :
    Stored (hist ++ [(.login username password newId, .loggedIn (.ok s))])
      (Function.update store (SessionValkey.key s) (some (SessionValkey.record acc.user))) := by
  subst hname
  have hlive : ∀ s' acc', Live (hist ++ [(.login (some acc.username) password newId,
      .loggedIn (.ok s))]) s' acc' ↔ (s' = s ∧ acc' = acc) ∨ Live hist s' acc' := by
    intro s' acc'
    rw [Live, since_concat]
    refine or_congr ?_ ?_
    · constructor
      · rintro ⟨⟨password', newId', he⟩, hreg'⟩
        simp only [Prod.mk.injEq, Action.login.injEq, Option.some.injEq, Answer.loggedIn.injEq,
          Except.ok.injEq] at he
        exact ⟨he.2.symm, hone acc' hreg' he.1.1.symm⟩
      · rintro ⟨rfl, rfl⟩
        exact ⟨⟨password, newId, rfl⟩, hreg⟩
    · simp [Closes, Live]
  refine h.update (fun json => ?_) fun s' acc' hne => by simp [hlive, hne]
  simp only [hlive, true_and]
  constructor
  · intro hjson
    exact ⟨acc, .inl rfl, (Option.some.inj hjson).symm⟩
  · rintro ⟨acc', rfl | hs, rfl⟩
    · rfl
    · exact absurd (mem_generated_of_live hs) hnew

/-- A session is dropped from the store: it was closed, or it was not there. -/
theorem Stored.drop {store : Store} (h : Stored hist store) {e : Action × Answer} {s : Uuid}
    (hopens : ∀ s' acc, ¬ Opens s' acc hist e) (hcloses : ∀ s', Closes s' e → s' = s)
    (hgone : ¬ Closes s e → store (SessionValkey.key s) = none) :
    Stored (hist ++ [e]) (Function.update store (SessionValkey.key s) none) := by
  have hlive : ∀ s' acc, Live (hist ++ [e]) s' acc ↔ Live hist s' acc ∧ ¬ Closes s' e := by
    intro s' acc
    rw [Live, since_concat]
    simp only [hopens s' acc, false_or]
    rfl
  refine h.update (fun json => ?_) fun s' acc hne => ?_
  · simp only [hlive, reduceCtorEq, false_iff, not_exists, not_and]
    rintro acc ⟨hs, hopen⟩
    have := (h.at_key s _).mpr ⟨acc, hs, rfl⟩
    rw [hgone hopen] at this
    cases this
  · rw [hlive, and_iff_left fun hclose => hne (hcloses s' hclose)]

theorem stored_step (hacc : Accounts argon2 hist w.users) (h : Stored hist w.sessions)
    (a : Action) (hdist : Distinct (hist ++ [(a, (step argon2 w a).2)])) :
    Stored (hist ++ [(a, (step argon2 w a).2)]) (step argon2 w a).1.sessions := by
  cases a with
  | registerUser username password id accepted =>
      rcases @registerUser_cases argon2 w username password id accepted with
        ⟨name, text, hash, rfl, rfl, -, -, -, -, -, -, hok⟩ | ⟨code, herr⟩
      · simp only [step, hok]
        exact h.append (by simp [Opens]) (by simp [Closes])
      · simp only [step, herr]
        exact h.append (by simp [Opens]) (by simp [Closes])
  | login username password newId =>
      rcases @login_cases argon2 w username password newId with
        ⟨name, text, user, rfl, rfl, -, huser, -, hok⟩ | ⟨code, herr⟩
      · simp only [step, hok] at hdist ⊢
        obtain ⟨row, hrow, rfl, rfl⟩ := hacc.getUserByUsername_iff.mp huser
        have hreg : Registered hist ⟨row.id, row.username⟩ :=
          hacc.registered_iff.mpr ⟨row, hrow, rfl⟩
        refine h.open hreg (fun acc' hreg' hname => ?_) ?_ rfl newId
        · obtain ⟨row', hrow', rfl⟩ := hacc.registered_iff.mp hreg'
          rw [hacc.unique row' hrow' row hrow hname]
        · have hnodup := hdist.nodup
          rw [generated_concat] at hnodup
          intro hmem
          exact (List.nodup_append.mp hnodup).2.2 newId hmem newId (by simp [generatedBy]) rfl
      · simp only [step, herr]
        exact h.append (by simp [Opens]) (by simp [Closes])
  | logout s =>
      refine h.drop (by simp [Opens, step]) (fun s' hclose => ?_) fun hopen => ?_
      · rcases hclose with he | he
        · exact (by simpa [step] using congrArg Prod.fst he : s = s').symm
        · simp [step] at he
      · rw [Option.eq_none_iff_forall_ne_some]
        intro json hjson
        have hok := (logout_ok_iff w s).mpr ⟨json, hjson⟩
        exact hopen (.inl (by simp [step, hok]))
  | getUser s => exact h.append (by simp [Opens, step]) (by simp [Closes, step])
  | expire s =>
      refine h.drop (by simp [Opens, step]) (fun s' hclose => ?_) fun hopen => ?_
      · rcases hclose with he | he
        · simp [step] at he
        · exact (by simpa [step] using he : s = s').symm
      · exact absurd (.inr rfl) hopen

theorem stored_of_run (hrun : Run argon2 hist w) (hdist : Distinct hist) :
    Stored hist w.sessions := by
  have main := hrun.induction
    (K := fun hist w => Accounts argon2 hist w.users ∧ (Distinct hist → Stored hist w.sessions))
    ⟨accounts_nil, fun _ key json => ?_⟩
    fun hist w a ih => ⟨accounts_step ih.1 a, fun hd => stored_step ih.1 (ih.2 hd.of_concat) a hd⟩
  · exact main.2 hdist
  · simp only [reduceCtorEq, false_iff, not_exists, not_and]
    exact fun s acc hlive => absurd hlive not_since_nil

/-! ## The life cycle -/

/-- Every user that is returned is that of the account whose session is live. -/
theorem live_of_getUser (hrun : Run argon2 hist w) (hdist : Distinct hist) {s : Uuid}
    {user : User} (hget : getUser w s = some (.ok user)) :
    ∃ acc, Live hist s acc ∧ user = acc.user := by
  cases hs : w.sessions (SessionValkey.key s) with
  | none =>
      rw [getUser, SessionValkey.getUser_of_none hs] at hget
      simp at hget
  | some json =>
      obtain ⟨acc, hlive, rfl⟩ := ((stored_of_run hrun hdist).at_key s json).mp hs
      rw [getUser, SessionValkey.getUser_of_record hs,
        (accounts_of_run hrun).decode_record hdist (registered_of_live hlive)] at hget
      exact ⟨acc, hlive, by simpa using hget.symm⟩

theorem getUser_of_live (hrun : Run argon2 hist w) (hdist : Distinct hist) {s : Uuid}
    {acc : Account} (hlive : Live hist s acc) : getUser w s = some (.ok acc.user) := by
  have hs := ((stored_of_run hrun hdist).at_key s _).mpr ⟨acc, hlive, rfl⟩
  rw [getUser, SessionValkey.getUser_of_record hs,
    (accounts_of_run hrun).decode_record hdist (registered_of_live hlive)]

theorem logout_ok_iff_live (hrun : Run argon2 hist w) (hdist : Distinct hist) (s : Uuid) :
    (logout w s).2 = .ok () ↔ ∃ acc, Live hist s acc := by
  rw [logout_ok_iff]
  simp only [(stored_of_run hrun hdist).at_key s]
  exact ⟨fun ⟨_, acc, hlive, _⟩ => ⟨acc, hlive⟩, fun ⟨acc, hlive⟩ => ⟨_, acc, hlive, rfl⟩⟩

/-- The action is about the session: a login that generates it, a logout of it or
its expiry. -/
def Concerns (a : Action) (s : Uuid) : Prop :=
  (∃ username password, a = .login username password s) ∨ a = .logout s ∨ a = .expire s

/-- What is done about one session changes no other. -/
theorem getUser_step_of_ne (w : World) {a : Action} {s s' : Uuid} (ha : Concerns a s)
    (hne : s' ≠ s) : getUser (step argon2 w a).1 s' = getUser w s' := by
  have hkey : SessionValkey.key s' ≠ SessionValkey.key s := fun h =>
    hne (SessionValkey.key_injective h)
  rcases ha with ⟨username, password, rfl⟩ | rfl | rfl
  · rcases @login_cases argon2 w username password s with
      ⟨name, text, user, -, -, -, -, -, hok⟩ | ⟨code, herr⟩
    · refine SessionValkey.getUser_congr ?_
      simp only [step, hok, Function.update_of_ne hkey]
    · simp only [step, herr]
  · refine SessionValkey.getUser_congr ?_
    simp only [step, logout_fst, Function.update_of_ne hkey]
  · refine SessionValkey.getUser_congr ?_
    simp only [step, Store.expire, Function.update_of_ne hkey]

/-- In every run `get_user` finds exactly the live sessions, with their accounts,
`logout` succeeds for exactly these, and what is done about one session changes
no other. -/
theorem session_life_cycle (hrun : Run argon2 hist w) (hdist : Distinct hist) :
    (∀ s id username, (∃ user, getUser w s = some (.ok user) ∧ user.id = id ∧
        user.username = username.bytes) ↔ Live hist s ⟨id, username⟩) ∧
      (∀ s, (logout w s).2 = .ok () ↔ ∃ acc, Live hist s acc) ∧
      ∀ a s s', Concerns a s → s' ≠ s → getUser (step argon2 w a).1 s' = getUser w s' := by
  refine ⟨fun s id username => ?_, logout_ok_iff_live hrun hdist,
    fun a s s' ha hne => getUser_step_of_ne w ha hne⟩
  constructor
  · rintro ⟨user, hget, rfl, hname⟩
    obtain ⟨acc, hlive, rfl⟩ := live_of_getUser hrun hdist hget
    obtain rfl : acc.username = username := CString.ext hname
    exact hlive
  · exact fun hlive => ⟨_, getUser_of_live hrun hdist hlive, rfl, rfl⟩

/-- `alice` has been registered and has logged in. -/
def sampleHist : List (Action × Answer) :=
  [(sampleRegister (.lit "password"), .registered (.ok ())),
    (.login (some (.lit "alice")) (some (.lit "password")) sampleSession,
      .loggedIn (.ok sampleSession))]

def sampleClosed : Uuid := .ofCString (.lit "1b4e28ba-2fa1-4d0b-88d2-b9b1f1a7e3c4")

def sampleExpired : Uuid := .ofCString (.lit "6fa459ea-ee8a-4ca4-894e-db77e160355e")

/-- `alice` has logged in three times. She has logged out of the first session, the second
has expired, and the third has been read. -/
def sampleLife : List (Action × Answer) :=
  [(sampleRegister (.lit "password"), .registered (.ok ())),
    (.login (some (.lit "alice")) (some (.lit "password")) sampleClosed,
      .loggedIn (.ok sampleClosed)),
    (.login (some (.lit "alice")) (some (.lit "password")) sampleExpired,
      .loggedIn (.ok sampleExpired)),
    (.logout sampleClosed, .loggedOut (.ok ())),
    (.login (some (.lit "alice")) (some (.lit "password")) sampleSession,
      .loggedIn (.ok sampleSession)),
    (.expire sampleExpired, .expired),
    (.getUser sampleSession, .gotUser (some (.ok (Account.user ⟨sampleId, .lit "alice"⟩))))]

theorem session_life_cycle_sample :
    ∃ w, Run sampleArgon2 sampleLife w ∧
      Live sampleLife sampleSession ⟨sampleId, .lit "alice"⟩ ∧
      (∀ acc, ¬ Live sampleLife sampleClosed acc) ∧
      (∀ acc, ¬ Live sampleLife sampleExpired acc) ∧
      ∀ a s s', Concerns a s → s' ≠ s → getUser (step sampleArgon2 w a).1 s' = getUser w s' := by
  have hrun : Run sampleArgon2 sampleLife _ :=
    .next (.next (.next (.next (.next (.next (.next .start _) _) _) _) _) _) _
  obtain ⟨hget, hlogout, hother⟩ := session_life_cycle hrun ⟨by decide, by decide⟩
  refine ⟨_, hrun, (hget ..).mp ⟨_, rfl, rfl, rfl⟩, fun acc hlive => ?_, fun acc hlive => ?_,
    hother⟩
  · cases (hlogout sampleClosed).mpr ⟨acc, hlive⟩
  · cases (hlogout sampleExpired).mpr ⟨acc, hlive⟩

end Auth

end RePlace
