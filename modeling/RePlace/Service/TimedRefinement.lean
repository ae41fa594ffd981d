import RePlace.Service.TimedSessions

/-!
# Runs with a clock are runs with expiries

The service over a store with a clock does what the service does over a store in which
sessions expire now and then: the calls and their answers are the same, the sessions expire
between them (`timed_refines`).
-/

namespace RePlace.Auth.Timed

open History (Run.next)

variable {argon2 : Argon2} {hist : List Entry} {w : World}

/-! ## One call -/

/-- A login over the store with a clock is one over what is seen of it. -/
theorem login_view (users : List UserRow) (store : TimedStore) (now : ℕ)
    (username password : Option CString) (newId : Uuid) :
    Template.login userPg sessionValkey argon2 users (store.view now) username password newId =
      ((Template.login userPg (sessionValkeyAt now) argon2 users store username password
          newId).1.view now,
        (Template.login userPg (sessionValkeyAt now) argon2 users store username password
          newId).2) := by
  unfold Template.login
  cases username.filter (·.bytes ≠ []) with
  | none => rfl
  | some name =>
  cases password.filter (·.bytes ≠ []) with
  | none => rfl
  | some text =>
  dsimp only
  cases userPg.getUserByUsername users name with
  | error code => rfl
  | ok user =>
  dsimp only
  split
  · dsimp only [sessionValkey, sessionValkeyAt]
    rw [SessionValkey.setSession_eq, SessionValkey.setSessionAt_eq]
    dsimp only
    rw [TimedStore.view_update_some, if_pos (Nat.lt_add_of_pos_right (by decide))]
  · rfl

/-- A call over the store with a clock is one over what is seen of it. -/
theorem step_view (w : World) (elapsed : ℕ) (a : Action) :
    Auth.step argon2 ⟨w.users, w.sessions.view (w.now + elapsed)⟩ a =
      (⟨(step argon2 w (elapsed, a)).1.users,
          (step argon2 w (elapsed, a)).1.sessions.view (w.now + elapsed)⟩,
        (step argon2 w (elapsed, a)).2.2) := by
  cases a with
  | registerUser username password id accepted =>
      rw [Auth.step, Template.registerUser_userPg]
      rfl
  | login username password newId =>
      rw [Auth.step, Template.login_sessionValkey, login_view]
      rfl
  | logout s =>
      simp only [Auth.step, step, logout, Template.logout, sessionValkeyAt,
        SessionValkey.removeSessionAt_eq, TimedStore.view_update_none]
      rfl
  | getUser s =>
      simp only [Auth.step, step, Auth.getUser, Template.getUser, sessionValkeyAt,
        SessionValkey.getUserAt_eq]
  | expire s =>
      simp only [Auth.step, step, TimedStore.evict, TimedStore.view_update_none]
      rfl

/-! ## Expiries between the calls -/

/-- A session expires. -/
def expire (v : RePlace.World) (s : Uuid) : RePlace.World :=
  { v with sessions := v.sessions.expire (SessionValkey.key s) }

/-- The entries of some expiries. -/
def expiries (ss : List Uuid) : List (Action × Answer) :=
  ss.map fun s => (.expire s, .expired)

theorem run_expiries {hist : List (Action × Answer)} {v : RePlace.World}
    (hrun : Auth.Run argon2 hist v) (ss : List Uuid) :
    Auth.Run argon2 (hist ++ expiries ss) (ss.foldl expire v) := by
  induction ss generalizing hist v with
  | nil => simpa [expiries] using hrun
  | cons s ss ih =>
      have hnext : Auth.Run argon2 (hist ++ [(.expire s, .expired)]) (expire v s) :=
        hrun.next (.expire s)
      have := ih hnext
      rwa [List.append_assoc, List.singleton_append] at this

theorem foldl_expire_users (ss : List Uuid) (v : RePlace.World) :
    (ss.foldl expire v).users = v.users := by
  induction ss generalizing v with
  | nil => rfl
  | cons s ss ih => exact ih (expire v s)

/-- After some expiries the store holds nothing for their sessions, and the same as before
under all other keys. -/
theorem foldl_expire_sessions (ss : List Uuid) (v : RePlace.World) (key : Bytes) :
    ((∃ s ∈ ss, key = SessionValkey.key s) → (ss.foldl expire v).sessions key = none) ∧
      ((∀ s ∈ ss, key ≠ SessionValkey.key s) →
        (ss.foldl expire v).sessions key = v.sessions key) := by
  induction ss generalizing v with
  | nil => simp
  | cons s ss ih =>
      obtain ⟨hgone, hkept⟩ := ih (expire v s)
      rw [List.foldl_cons]
      constructor
      · rintro ⟨s', hs', rfl⟩
        by_cases hmem : ∃ s'' ∈ ss, SessionValkey.key s' = SessionValkey.key s''
        · exact hgone hmem
        · obtain rfl : s' = s := by
            rcases List.mem_cons.mp hs' with h | h
            · exact h
            · exact absurd ⟨s', h, rfl⟩ hmem
          rw [hkept fun s'' hs'' heq => hmem ⟨s'', hs'', heq⟩]
          exact Function.update_self _ _ _
      · intro hother
        rw [hkept fun s' hs' => hother s' (List.mem_cons_of_mem _ hs')]
        exact Function.update_of_ne (hother s (List.mem_cons_self ..)) _ _

/-! ## Runs -/

/-- The sessions that logins have come with. -/
def opened (hist : List Entry) : List Uuid :=
  hist.filterMap fun e => match e.1.2 with
    | .login _ _ newId => some newId
    | _ => none

/-- The entry is not an expiry. -/
def isCall (e : Action × Answer) : Bool :=
  match e.1 with
  | .expire _ => false
  | _ => true

/-- The store holds texts under the keys of the sessions that have been opened only. -/
def Supported (hist : List Entry) (store : TimedStore) : Prop :=
  ∀ key, store key ≠ none → ∃ s ∈ opened hist, key = SessionValkey.key s

theorem supported_init : Supported [] fun _ => none := fun _ hne => absurd rfl hne

theorem opened_concat (hist : List Entry) (e : Entry) :
    opened (hist ++ [e]) = opened hist ++ opened [e] := List.filterMap_append

theorem Supported.of_subset {store store' : TimedStore} (h : Supported hist store) {e : Entry}
    (hsub : ∀ key, store' key ≠ none → store key ≠ none ∨
      ∃ s ∈ opened [e], key = SessionValkey.key s) : Supported (hist ++ [e]) store' := by
  intro key hne
  rw [opened_concat]
  rcases hsub key hne with hold | ⟨s, hs, hkey⟩
  · obtain ⟨s, hs, hkey⟩ := h key hold
    exact ⟨s, List.mem_append_left _ hs, hkey⟩
  · exact ⟨s, List.mem_append_right _ hs, hkey⟩

theorem ne_none_of_update_none {store : TimedStore} {key key' : Bytes}
    (h : Function.update store key none key' ≠ none) : store key' ≠ none := by
  by_cases hkey : key' = key
  · subst hkey
    exact absurd (Function.update_self _ _ _) h
  · rwa [Function.update_of_ne hkey] at h

theorem supported_step (h : Supported hist w.sessions) (i : ℕ × Action) :
    Supported (hist ++ [(i, (step argon2 w i).2)]) (step argon2 w i).1.sessions := by
  obtain ⟨elapsed, a⟩ := i
  cases a with
  | registerUser username password id accepted => exact h.of_subset fun _ hne => .inl hne
  | login username password newId =>
      rcases @Template.login_cases _ _ userPg (sessionValkeyAt (w.now + elapsed)) argon2 w.users
          w.sessions username password newId with
        ⟨_, _, user, -, -, -, -, hok⟩ | ⟨code, herr⟩
      · rw [show (sessionValkeyAt (w.now + elapsed)).setSession w.sessions user newId = _ from
          SessionValkey.setSessionAt_eq _ _ _ _] at hok
        simp only [step, hok]
        refine h.of_subset fun key hne => ?_
        by_cases hkey : key = SessionValkey.key newId
        · exact .inr ⟨newId, by simp [opened], hkey⟩
        · exact .inl (by rwa [Function.update_of_ne hkey] at hne)
      · simp only [step, herr]
        exact h.of_subset fun _ hne => .inl hne
  | logout s => exact h.of_subset fun _ hne => .inl (ne_none_of_update_none hne)
  | getUser s => exact h.of_subset fun _ hne => .inl hne
  | expire s => exact h.of_subset fun _ hne => .inl (ne_none_of_update_none hne)

/-- The sessions that are over in a second have expired by then. -/
theorem foldl_expire_view (h : Supported hist w.sessions) {t : ℕ} (ht : w.now ≤ t) :
    ((opened hist).filter fun s => (w.sessions.view t (SessionValkey.key s)).isNone).foldl expire
        ⟨w.users, w.sessions.view w.now⟩ = ⟨w.users, w.sessions.view t⟩ := by
  refine (RePlace.World.mk.injEq ..).mpr ⟨foldl_expire_users _ _, funext fun key => ?_⟩
  obtain ⟨hgone, hkept⟩ := foldl_expire_sessions
    ((opened hist).filter fun s => (w.sessions.view t (SessionValkey.key s)).isNone)
    ⟨w.users, w.sessions.view w.now⟩ key
  by_cases hnone : w.sessions.view t key = none
  · rw [hnone]
    by_cases hmem : ∃ s ∈ opened hist, key = SessionValkey.key s
    · obtain ⟨s, hs, rfl⟩ := hmem
      exact hgone ⟨s, List.mem_filter.mpr ⟨hs, by rw [hnone]; rfl⟩, rfl⟩
    · rw [hkept fun s hs heq => hmem ⟨s, (List.mem_filter.mp hs).1, heq⟩]
      by_contra hne
      have hentry : w.sessions key ≠ none := fun hempty => hne (by
        simp only [TimedStore.view, hempty])
      exact hmem (h key hentry)
  · rw [← TimedStore.view_of_ne_none ht hnone]
    refine hkept ?_
    rintro s hs rfl
    exact hnone (Option.isNone_iff_eq_none.mp (List.mem_filter.mp hs).2)

/-- Every run over a store with a clock is a run of the service with the same calls and the
same answers, in which sessions expire between them: the tables agree, and the store of the
run holds what is seen of the store with the clock. -/
theorem timed_refines (hrun : Run argon2 hist w) :
    ∃ hist' v, Auth.Run argon2 hist' v ∧
      hist'.filter isCall = (hist.map untimed).filter isCall ∧
      v = ⟨w.users, w.sessions.view w.now⟩ := by
  have main := hrun.induction (K := fun hist w => Supported hist w.sessions ∧
    ∃ hist' v, Auth.Run argon2 hist' v ∧
      hist'.filter isCall = (hist.map untimed).filter isCall ∧
      v = ⟨w.users, w.sessions.view w.now⟩)
    ⟨supported_init, [], {}, .start, rfl, rfl⟩ fun hist w i ih => ?_
  · exact main.2
  · obtain ⟨hsupported, hist', v, hrun', hcalls, rfl⟩ := ih
    refine ⟨supported_step hsupported i, ?_⟩
    obtain ⟨elapsed, a⟩ := i
    have hexpired := run_expiries hrun' ((opened hist).filter fun s =>
      (w.sessions.view (w.now + elapsed) (SessionValkey.key s)).isNone)
    rw [foldl_expire_view hsupported (Nat.le_add_right _ _)] at hexpired
    have hnext := hexpired.next a
    rw [step_view] at hnext
    refine ⟨_, _, hnext, ?_, ?_⟩
    · have hnone : ∀ ss : List Uuid, (expiries ss).filter isCall = [] := by
        intro ss
        refine List.filter_eq_nil_iff.mpr fun e he => ?_
        obtain ⟨s, -, rfl⟩ := List.mem_map.mp he
        exact Bool.false_ne_true
      rw [List.filter_append, List.filter_append, hnone, List.append_nil, List.map_append,
        List.filter_append, hcalls]
      rfl
    · cases a <;> rfl

theorem timed_refines_sample :
    ∃ w, Run sampleArgon2 sampleHist w ∧ ∃ hist' v, Auth.Run sampleArgon2 hist' v ∧
      hist'.filter isCall = (sampleHist.map untimed).filter isCall ∧
      v = ⟨w.users, w.sessions.view w.now⟩ := by
  have hrun : Run sampleArgon2 sampleHist _ := .next (.next .start _) _
  exact ⟨_, hrun, timed_refines hrun⟩

end RePlace.Auth.Timed
