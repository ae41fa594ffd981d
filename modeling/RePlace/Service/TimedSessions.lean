import RePlace.Repo.TimedStore
import RePlace.Service.SessionLife
import RePlace.Service.Template

/-!
# How long a session lasts

The service over a store with a clock. A session that has been opened is found for an hour,
unless it is logged out or the store drops it (`timed_sessions`): neither `get_user` nor
another login makes it last longer.
-/

namespace RePlace

/-- `SessionValkey` over a store with a clock. -/
def sessionValkeyAt (now : ℕ) : SessionRepo TimedStore where
  setSession := SessionValkey.setSessionAt now
  getUser := SessionValkey.getUserAt now
  removeSession := SessionValkey.removeSessionAt now

namespace Auth.Timed

open History (Since since_concat since_flatMap since_congr since_singleton not_since_nil)

/-- The table of users, the session store, and the second of the last call. -/
structure World where
  users : List UserRow := []
  sessions : TimedStore := fun _ => none
  now : ℕ := 0

variable (argon2 : Argon2)

/-- A call some seconds after the one before it, or a session that the store drops. It is
answered in its second. -/
def step (w : World) (a : ℕ × Action) : World × (ℕ × Answer) :=
  let now := w.now + a.1
  match a.2 with
  | .registerUser username password id accepted =>
      let (users, result) :=
        Template.registerUser userPg argon2 w.users username password id accepted
      (⟨users, w.sessions, now⟩, (now, .registered result))
  | .login username password newId =>
      let (sessions, result) :=
        Template.login userPg (sessionValkeyAt now) argon2 w.users w.sessions username password
          newId
      (⟨w.users, sessions, now⟩, (now, .loggedIn result))
  | .logout s =>
      let (sessions, result) := Template.logout (sessionValkeyAt now) w.sessions s
      (⟨w.users, sessions, now⟩, (now, .loggedOut result))
  | .getUser s =>
      (⟨w.users, w.sessions, now⟩,
        (now, .gotUser (Template.getUser (sessionValkeyAt now) w.sessions s)))
  | .expire s =>
      (⟨w.users, w.sessions.evict (SessionValkey.key s), now⟩, (now, .expired))

/-- An entry of a history: a call with the seconds since the last one, and its answer with
the second. -/
abbrev Entry := (ℕ × Action) × (ℕ × Answer)

/-- The runs of the service, from an empty table and an empty store. -/
abbrev Run : List Entry → World → Prop := History.Run (step argon2) {}

variable {argon2}

/-! ## What is left of a history -/

/-- The call and its answer. -/
def untimed (e : Entry) : Action × Answer := (e.1.2, e.2.2)

/-- The entry is a login whose session, if it opened one, is over in the second. -/
def overdue (t : ℕ) (e : Entry) : Bool :=
  match e.1.2 with
  | .login _ _ _ => e.2.1 + SessionValkey.expiry ≤ t
  | _ => false

/-- The calls and answers, without the logins whose sessions are over in the second. -/
def due (t : ℕ) (hist : List Entry) : List (Action × Answer) :=
  hist.flatMap fun e => if overdue t e then [] else [untimed e]

variable {hist : List Entry} {t : ℕ}

theorem due_concat (t : ℕ) (hist : List Entry) (e : Entry) :
    due t (hist ++ [e]) = due t hist ++ if overdue t e then [] else [untimed e] := by
  rw [due, List.flatMap_append, List.flatMap_singleton, due]

theorem due_concat_of_not {e : Entry} (h : overdue t e = false) :
    due t (hist ++ [e]) = due t hist ++ [untimed e] := by
  rw [due_concat, h]
  rfl

theorem due_concat_of_overdue {e : Entry} (h : overdue t e = true) :
    due t (hist ++ [e]) = due t hist := by
  rw [due_concat, h, if_pos rfl, List.append_nil]

theorem due_sublist (t : ℕ) (hist : List Entry) : (due t hist).Sublist (hist.map untimed) := by
  rw [due, ← List.flatMap_singleton' (hist.map untimed), List.flatMap_map]
  refine List.Sublist.flatMap_right hist fun e _ => ?_
  split
  · exact List.nil_sublist _
  · exact .refl _

theorem generated_due_sublist (t : ℕ) (hist : List Entry) :
    (generated (due t hist)).Sublist (generated (hist.map untimed)) :=
  (due_sublist t hist).flatMap generatedBy

theorem distinct_due (h : Distinct (hist.map untimed)) (t : ℕ) : Distinct (due t hist) where
  full u hu := h.full u ((generated_due_sublist t hist).subset hu)
  nodup := h.nodup.sublist (generated_due_sublist t hist)

/-- No registration is left out. -/
theorem registeredAs_due {username password : Option CString} {id : Uuid} :
    RegisteredAs (due t hist) username password id ↔
      RegisteredAs (hist.map untimed) username password id := by
  refine exists_congr fun accepted => ⟨fun h => (due_sublist t hist).subset h, fun h => ?_⟩
  obtain ⟨e, he, heq⟩ := List.mem_map.mp h
  refine List.mem_flatMap.mpr ⟨e, he, ?_⟩
  have hnot : overdue t e = false := by
    rw [overdue, (Prod.mk.inj heq).1]
  rw [hnot, heq]
  exact List.mem_singleton_self _

theorem registered_due {acc : Account} :
    Registered (due t hist) acc ↔ Registered (hist.map untimed) acc :=
  exists_congr fun _ => registeredAs_due

/-! ## The invariant -/

/-- At every later second the rows are the registrations, and the store shows the records of
the sessions that are not over. -/
structure Invariant (argon2 : Argon2) (hist : List Entry) (w : World) : Prop where
  accounts : ∀ t, Accounts argon2 (due t hist) w.users
  stored : Distinct (hist.map untimed) → ∀ t, w.now ≤ t →
    Stored (due t hist) (w.sessions.view t)

variable {w : World}

theorem invariant_init : Invariant argon2 [] {} where
  accounts _ := accounts_nil
  stored _ t _ key json := by
    simp only [TimedStore.view, reduceCtorEq, false_iff, not_exists, not_and]
    exact fun s acc hlive => absurd hlive not_since_nil

theorem distinct_of_concat {e : Entry} (h : Distinct ((hist ++ [e]).map untimed)) :
    Distinct (hist.map untimed) := by
  rw [List.map_append] at h
  exact h.of_concat

/-- A session that is generated is a new one. -/
theorem not_mem_generated {e : Entry} {s : Uuid} (h : Distinct ((hist ++ [e]).map untimed))
    (hs : s ∈ generatedBy (untimed e)) (t : ℕ) : s ∉ generated (due t hist) := by
  intro hmem
  have hnodup := h.nodup
  rw [List.map_append, List.map_singleton, generated_concat] at hnodup
  exact (List.nodup_append.mp hnodup).2.2 s ((generated_due_sublist t hist).subset hmem) s hs rfl

/-- Time passes. -/
theorem Invariant.later (h : Invariant argon2 hist w) {now : ℕ} (hnow : w.now ≤ now) :
    Invariant argon2 hist ⟨w.users, w.sessions, now⟩ where
  accounts := h.accounts
  stored hdist t ht := h.stored hdist t (hnow.trans ht)

/-- An entry that neither registers nor opens nor closes anything. -/
theorem Invariant.idle (h : Invariant argon2 hist w) {e : Entry} {now : ℕ} (hnow : w.now ≤ now)
    (hreg : ∀ username password id accepted, untimed e ≠
      (.registerUser username password id accepted, .registered (.ok ())))
    (hopens : ∀ s acc pre, ¬ Opens s acc pre (untimed e)) (hcloses : ∀ s, ¬ Closes s (untimed e)) :
    Invariant argon2 (hist ++ [e]) ⟨w.users, w.sessions, now⟩ where
  accounts t := by
    cases hover : overdue t e with
    | true =>
        rw [due_concat_of_overdue hover]
        exact h.accounts t
    | false =>
        rw [due_concat_of_not hover]
        exact (h.accounts t).append hreg
  stored hdist t ht := by
    have hstored := h.stored (distinct_of_concat hdist) t (hnow.trans ht)
    cases hover : overdue t e with
    | true =>
        rw [due_concat_of_overdue hover]
        exact hstored
    | false =>
        rw [due_concat_of_not hover]
        exact hstored.append (fun s acc => hopens s acc _) hcloses

/-- A session is dropped from the store: it is closed, or it was not there. -/
theorem Invariant.drop (h : Invariant argon2 hist w) {e : Entry} {s : Uuid} {now : ℕ}
    (hnow : w.now ≤ now) (hover : ∀ t, overdue t e = false)
    (hreg : ∀ username password id accepted, untimed e ≠
      (.registerUser username password id accepted, .registered (.ok ())))
    (hopens : ∀ s acc pre, ¬ Opens s acc pre (untimed e))
    (hcloses : ∀ s', Closes s' (untimed e) → s' = s)
    (hgone : ¬ Closes s (untimed e) → w.sessions.view now (SessionValkey.key s) = none) :
    Invariant argon2 (hist ++ [e])
      ⟨w.users, Function.update w.sessions (SessionValkey.key s) none, now⟩ where
  accounts t := by
    rw [due_concat_of_not (hover t)]
    exact (h.accounts t).append hreg
  stored hdist t ht := by
    rw [due_concat_of_not (hover t), TimedStore.view_update_none]
    exact (h.stored (distinct_of_concat hdist) t (hnow.trans ht)).drop
      (fun s acc => hopens s acc _) hcloses
      fun hopen => TimedStore.view_eq_none_of_le ht (hgone hopen)

theorem Invariant.register (h : Invariant argon2 hist w) {now elapsed : ℕ} (hnow : w.now ≤ now)
    {name text hash : CString} {id : Uuid} {accepted : Bool} (hne : name.bytes ≠ [])
    (hlen : name.bytes.length ≤ 60) (hhash : Hashed argon2 text hash)
    (hnew : ∀ row ∈ w.users, row.username ≠ name) :
    Invariant argon2
      (hist ++ [((elapsed, .registerUser (some name) (some text) id accepted),
        (now, .registered (.ok ())))])
      ⟨w.users ++ [⟨id, name, hash⟩], w.sessions, now⟩ where
  accounts t := by
    rw [due_concat_of_not rfl]
    exact (h.accounts t).register hne hlen hhash hnew
  stored hdist t ht := by
    rw [due_concat_of_not rfl]
    exact (h.stored (distinct_of_concat hdist) t (hnow.trans ht)).append
      (by simp [Opens, untimed]) (by simp [Closes, untimed])

theorem overdue_login {elapsed now : ℕ} {username password : Option CString} {newId : Uuid}
    {answer : Answer} (h : now + SessionValkey.expiry ≤ t) :
    overdue t ((elapsed, .login username password newId), (now, answer)) = true :=
  decide_eq_true h

theorem not_overdue_login {elapsed now : ℕ} {username password : Option CString} {newId : Uuid}
    {answer : Answer} (h : ¬ now + SessionValkey.expiry ≤ t) :
    overdue t ((elapsed, .login username password newId), (now, answer)) = false :=
  decide_eq_false h

/-- A login that opens a session, which is over an hour later. -/
theorem Invariant.open (h : Invariant argon2 hist w) {now elapsed : ℕ} (hnow : w.now ≤ now)
    {row : UserRow} (hrow : row ∈ w.users) {password : Option CString} {newId : Uuid} :
    Invariant argon2
      (hist ++ [((elapsed, .login (some row.username) password newId),
        (now, .loggedIn (.ok newId)))])
      ⟨w.users, Function.update w.sessions (SessionValkey.key newId)
        (some (SessionValkey.record row.user, now + SessionValkey.expiry)), now⟩ where
  accounts t := by
    by_cases hover : now + SessionValkey.expiry ≤ t
    · rw [due_concat_of_overdue (overdue_login hover)]
      exact h.accounts t
    · rw [due_concat_of_not (not_overdue_login hover)]
      exact (h.accounts t).append (by simp [untimed])
  stored hdist t ht := by
    have hstored := h.stored (distinct_of_concat hdist) t (hnow.trans ht)
    have hnew : newId ∉ generated (due t hist) :=
      not_mem_generated hdist (by simp [generatedBy, untimed]) t
    rw [TimedStore.view_update_some]
    by_cases hover : now + SessionValkey.expiry ≤ t
    · rw [due_concat_of_overdue (overdue_login hover), if_neg (Nat.not_lt.mpr hover)]
      have hnone : w.sessions.view t (SessionValkey.key newId) = none := by
        rw [Option.eq_none_iff_forall_ne_some]
        intro json hjson
        obtain ⟨acc, hlive, -⟩ := (hstored.at_key newId json).mp hjson
        exact hnew (mem_generated_of_live hlive)
      rwa [← hnone, Function.update_eq_self]
    · rw [due_concat_of_not (not_overdue_login hover), if_pos (Nat.not_le.mp hover)]
      have hacc := h.accounts t
      refine hstored.open (hacc.registered_iff.mpr ⟨row, hrow, rfl⟩) (fun acc' hreg' hname => ?_)
        hnew rfl newId
      obtain ⟨row', hrow', rfl⟩ := hacc.registered_iff.mp hreg'
      rw [hacc.unique row' hrow' row hrow hname]

theorem invariant_step (h : Invariant argon2 hist w) (a : ℕ × Action) :
    Invariant argon2 (hist ++ [(a, (step argon2 w a).2)]) (step argon2 w a).1 := by
  obtain ⟨elapsed, a⟩ := a
  have hnow : w.now ≤ w.now + elapsed := Nat.le_add_right _ _
  cases a with
  | registerUser username password id accepted =>
      rcases @Template.registerUser_cases argon2 w.users username password id accepted with
        ⟨name, text, hash, rfl, rfl, hne, hlen, hmin, hmax, hhash, hnew, hok⟩ | ⟨code, herr⟩
      · simp only [step, hok]
        exact h.register hnow hne hlen ⟨hmin, hmax, hhash⟩ hnew
      · simp only [step, herr]
        exact h.idle hnow (by simp [untimed]) (by simp [Opens, untimed]) (by simp [Closes, untimed])
  | login username password newId =>
      rcases @Template.login_cases _ _ userPg (sessionValkeyAt (w.now + elapsed)) argon2 w.users
          w.sessions username password newId with
        ⟨name, text, user, rfl, rfl, huser, -, hok⟩ | ⟨code, herr⟩
      · obtain ⟨row, hrow, rfl, rfl⟩ := (h.accounts 0).getUserByUsername_iff.mp huser
        rw [show (sessionValkeyAt (w.now + elapsed)).setSession w.sessions row.user newId = _ from
          SessionValkey.setSessionAt_eq _ _ _ _] at hok
        simp only [step, hok]
        exact h.open hnow hrow
      · simp only [step, herr]
        exact h.idle hnow (by simp [untimed]) (by simp [Opens, untimed]) (by simp [Closes, untimed])
  | logout s =>
      have hremove := SessionValkey.removeSessionAt_eq (w.now + elapsed) w.sessions s
      simp only [step, Template.logout, sessionValkeyAt, hremove]
      refine h.drop hnow (fun _ => rfl) (by simp [untimed]) (by simp [Opens, untimed])
        (fun s' hclose => ?_) fun hopen => ?_
      · rcases hclose with he | he
        · exact (by simpa [untimed] using congrArg Prod.fst he : s = s').symm
        · simp [untimed] at he
      · rw [Option.eq_none_iff_forall_ne_some]
        intro json hjson
        have hok := (SessionValkey.removeSession_ok_iff _ s).mpr ⟨json, hjson⟩
        exact hopen (.inl (by simp [untimed, hok]))
  | getUser s =>
      exact h.idle hnow (by simp [untimed]) (by simp [Opens, untimed]) (by simp [Closes, untimed])
  | expire s =>
      refine h.drop hnow (fun _ => rfl) (by simp [untimed]) (by simp [Opens, untimed, step])
        (fun s' hclose => ?_) fun hopen => ?_
      · rcases hclose with he | he
        · simp [untimed, step] at he
        · exact (by simpa [untimed] using congrArg Prod.fst he : s = s').symm
      · exact absurd (.inr rfl) hopen

theorem invariant_run (hrun : Run argon2 hist w) : Invariant argon2 hist w :=
  hrun.induction (K := Invariant argon2) invariant_init fun _ _ a ih => invariant_step ih a

/-! ## Open sessions -/

/-- Some login has opened the session for the account less than an hour before the second,
and since then it has neither been logged out nor dropped. -/
def Open (t : ℕ) (hist : List Entry) (s : Uuid) (acc : Account) : Prop :=
  ∃ pre e post, hist = pre ++ e :: post ∧ Opens s acc (pre.map untimed) (untimed e) ∧
    t < e.2.1 + SessionValkey.expiry ∧ ∀ e' ∈ post, ¬ Closes s (untimed e')

theorem overdue_iff_of_opens {pre : List (Action × Answer)} {e : Entry} {s : Uuid} {acc : Account}
    (h : Opens s acc pre (untimed e)) :
    overdue t e = false ↔ t < e.2.1 + SessionValkey.expiry := by
  obtain ⟨⟨password, newId, heq⟩, -⟩ := h
  rw [overdue, (Prod.mk.inj heq).1]
  simp only [decide_eq_false_iff_not, Nat.not_le]

theorem open_iff_since {s : Uuid} {acc : Account} : Open t hist s acc ↔
    Since (fun pre e => Opens s acc (pre.map untimed) (untimed e) ∧
      t < e.2.1 + SessionValkey.expiry) (fun e => Closes s (untimed e)) hist := by
  simp only [Open, Since, and_assoc]

/-- What is live in the rest of a history is open. -/
theorem live_due_iff {s : Uuid} {acc : Account} : Live (due t hist) s acc ↔ Open t hist s acc := by
  rw [Live, due, since_flatMap, open_iff_since]
  refine since_congr (fun pre e _ _ => ?_) fun e _ => ?_
  · have hreg : Opens s acc (due t pre) (untimed e) ↔ Opens s acc (pre.map untimed) (untimed e) :=
      and_congr_right fun _ => registered_due
    cases hover : overdue t e with
    | true =>
        refine iff_of_false not_since_nil fun h => ?_
        rw [(overdue_iff_of_opens h.1).mpr h.2] at hover
        cases hover
    | false =>
        refine since_singleton.trans ?_
        rw [List.append_nil]
        exact hreg.trans ⟨fun h => ⟨h, (overdue_iff_of_opens h).mp hover⟩, And.left⟩
  · cases hover : overdue t e with
    | true =>
        refine iff_of_false (by simp) fun h => ?_
        rcases h with heq | heq <;> rw [overdue, (Prod.mk.inj heq).1] at hover <;> cases hover
    | false => simp

theorem Invariant.getUser_of_open (h : Invariant argon2 hist w)
    (hdist : Distinct (hist.map untimed)) (ht : w.now ≤ t) {s : Uuid} {acc : Account}
    (hopen : Open t hist s acc) : SessionValkey.getUserAt t w.sessions s = some (.ok acc.user) := by
  have hlive := live_due_iff.mpr hopen
  have hrecord := ((h.stored hdist t ht).at_key s _).mpr ⟨acc, hlive, rfl⟩
  rw [SessionValkey.getUserAt_eq, SessionValkey.getUser_of_record hrecord]
  exact (h.accounts t).decode_record (distinct_due hdist t) (registered_of_live hlive)

theorem Invariant.logout_ok_iff (h : Invariant argon2 hist w) (hdist : Distinct (hist.map untimed))
    (ht : w.now ≤ t) (s : Uuid) :
    (SessionValkey.removeSessionAt t w.sessions s).2 = .ok () ↔ ∃ acc, Open t hist s acc := by
  rw [SessionValkey.removeSessionAt_eq]
  refine (SessionValkey.removeSession_ok_iff _ s).trans ?_
  simp only [(h.stored hdist t ht).at_key s, live_due_iff]
  exact ⟨fun ⟨_, acc, hopen, _⟩ => ⟨acc, hopen⟩, fun ⟨acc, hopen⟩ => ⟨_, acc, hopen, rfl⟩⟩

theorem Invariant.getUser_of_not_open (h : Invariant argon2 hist w)
    (hdist : Distinct (hist.map untimed)) (ht : w.now ≤ t) {s : Uuid}
    (hnone : ∀ acc, ¬ Open t hist s acc) :
    SessionValkey.getUserAt t w.sessions s = some (.error .valkeyTypeError) := by
  rw [SessionValkey.getUserAt_eq]
  refine SessionValkey.getUser_of_none (Option.eq_none_iff_forall_ne_some.mpr fun json hjson => ?_)
  obtain ⟨acc, hlive, -⟩ := ((h.stored hdist t ht).at_key s json).mp hjson
  exact hnone acc (live_due_iff.mp hlive)

/-- In every run, at every later second: `get_user` finds the session of an account exactly
when a login has returned it for the account less than an hour ago, and since then no logout
of it has been answered `OK` and the store has not dropped it; a logout succeeds for exactly
these sessions. Nothing else makes a session last shorter or longer. -/
theorem timed_sessions (hrun : Run argon2 hist w) (hdist : Distinct (hist.map untimed))
    (elapsed : ℕ) (s : Uuid) :
    (∀ acc : Account, Template.getUser (sessionValkeyAt (w.now + elapsed)) w.sessions s =
        some (.ok acc.user) ↔ Open (w.now + elapsed) hist s acc) ∧
      ((Template.logout (sessionValkeyAt (w.now + elapsed)) w.sessions s).2 = .ok () ↔
        ∃ acc, Open (w.now + elapsed) hist s acc) := by
  have hinv := invariant_run hrun
  have ht : w.now ≤ w.now + elapsed := Nat.le_add_right _ _
  refine ⟨fun acc => ⟨fun hget => ?_, hinv.getUser_of_open hdist ht⟩,
    hinv.logout_ok_iff hdist ht s⟩
  by_cases hnone : ∀ acc', ¬ Open (w.now + elapsed) hist s acc'
  · have herr := hinv.getUser_of_not_open hdist ht hnone
    cases herr.symm.trans hget
  · obtain ⟨acc', hopen⟩ := not_forall_not.mp hnone
    have heq : some (Except.ok acc'.user) = some (.ok acc.user) :=
      (hinv.getUser_of_open hdist ht hopen).symm.trans hget
    obtain ⟨id, username⟩ := acc
    obtain ⟨id', username'⟩ := acc'
    simp only [Account.user, Option.some.injEq, Except.ok.injEq, User.mk.injEq, and_true] at heq
    obtain ⟨rfl, hname⟩ := heq
    rwa [← CString.ext hname]

/-- `alice` has been registered, and half an hour later she has logged in. -/
def sampleHist : List Entry :=
  [((0, sampleRegister (.lit "password")), (0, .registered (.ok ()))),
    ((1800, .login (some (.lit "alice")) (some (.lit "password")) sampleSession),
      (1800, .loggedIn (.ok sampleSession)))]

theorem timed_sessions_sample :
    ∃ w, Run sampleArgon2 sampleHist w ∧
      (∀ acc : Account, Template.getUser (sessionValkeyAt (w.now + 3600)) w.sessions
          sampleSession = some (.ok acc.user) ↔
            Open (w.now + 3600) sampleHist sampleSession acc) ∧
        ((Template.logout (sessionValkeyAt (w.now + 3600)) w.sessions sampleSession).2 =
          .ok () ↔ ∃ acc, Open (w.now + 3600) sampleHist sampleSession acc) := by
  have hrun : Run sampleArgon2 sampleHist _ := .next (.next .start _) _
  exact ⟨_, hrun, timed_sessions hrun ⟨by decide, by decide⟩ 3600 sampleSession⟩

end Auth.Timed

end RePlace
