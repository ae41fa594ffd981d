import RePlace.Service.FaultyRuns

/-!
# Records when calls fail

Whatever fails in the calls of a run, the store holds records of users with whole ids only
(`recorded_run`), so `get_user` never reads outside of one.
-/

namespace RePlace.Auth.Faulty

variable {argon2 : Argon2} {hist : List (Call × Answer)} {w : World}

/-- The ids of the rows are whole ones, and what is stored are records with such ids. -/
structure Recorded (w : World) : Prop where
  rows : ∀ row ∈ w.users, row.id.Full
  records : ∀ key json, w.sessions key = some json →
    ∃ user : User, user.id.Full ∧ json = SessionValkey.record user

theorem recorded_init : Recorded {} where
  rows := by simp
  records _ _ h := by cases h

/-- A key is set to a record, or it is dropped. -/
theorem Recorded.update (h : Recorded w) (key : Bytes) {value : Option Bytes}
    (hvalue : ∀ json, value = some json →
      ∃ user : User, user.id.Full ∧ json = SessionValkey.record user) :
    Recorded { w with sessions := Function.update w.sessions key value } where
  rows := h.rows
  records key' json hjson := by
    dsimp only at hjson
    by_cases hkey : key' = key
    · subst hkey
      exact hvalue json (by rwa [Function.update_self] at hjson)
    · exact h.records key' json (by rwa [Function.update_of_ne hkey] at hjson)

theorem Recorded.registerUser (h : Recorded w) (username password : Option CString) {id : Uuid}
    (hid : id.Full) (accepted : Bool) :
    Recorded (Auth.registerUser argon2 w username password id accepted).1 := by
  rcases @registerUser_cases argon2 w username password id accepted with
    ⟨name, text, hash, -, -, -, -, -, -, -, -, hok⟩ | ⟨code, herr⟩
  · rw [hok]
    refine ⟨fun row hrow => ?_, h.records⟩
    rcases List.mem_append.mp hrow with hrow | hrow
    · exact h.rows row hrow
    · rw [List.mem_singleton.mp hrow]
      exact hid
  · rw [herr]
    exact h

theorem Recorded.setSession (h : Recorded w) (store : StoreFaults) {user : User}
    (hid : user.id.Full) (newId : Uuid) :
    Recorded { w with
      sessions := (SessionValkey.setSessionFaulty store w.sessions user newId).1 } := by
  cases hwritten : store.written with
  | true =>
      rw [(SessionValkey.setSessionFaulty_written hwritten w.sessions user newId).1]
      exact h.update _ fun json hjson => ⟨user, hid, (Option.some.inj hjson).symm⟩
  | false =>
      rw [(SessionValkey.setSessionFaulty_missed hwritten w.sessions user newId).1]
      exact h

theorem Recorded.login (h : Recorded w) (username password : Option CString) (newId : Uuid)
    (user : UserFaults) (db : DbFaults) (store : StoreFaults) :
    Recorded (login argon2 w username password newId user db store).1 := by
  unfold Faulty.login
  cases username.filter (·.bytes ≠ []) with
  | none => exact h
  | some name =>
  cases password.filter (·.bytes ≠ []) with
  | none => exact h
  | some text =>
  dsimp only
  cases hfound : UserPg.getUserByUsernameFaulty db user.username user.password w.users name with
  | error code => exact h
  | ok found =>
  dsimp only
  split
  · refine h.setSession store ?_ newId
    cases hdb : db.answered with
    | false =>
        obtain ⟨code, herr⟩ :=
          UserPg.getUserByUsernameFaulty_error hdb user.username user.password w.users name
        cases hfound.symm.trans herr
    | true =>
        rcases UserPg.getUserByUsernameFaulty_answered hdb user.username user.password w.users
            name with ⟨code, -, herr⟩ | ⟨row, hrow, found', _, -, hok, hid, hread⟩
        · cases hfound.symm.trans herr
        · obtain rfl := Except.ok.inj (hfound.symm.trans hok)
          rw [hread.id, hid]
          exact h.rows row hrow
  · exact h

theorem recorded_step (h : Recorded w) {c : Call} (hvalid : c.Valid) :
    Recorded (step argon2 w c).1 := by
  cases c with
  | registerUser username password id accepted user db =>
      have hattempt := @registerUser_attempt argon2 w username password id accepted user db
      rw [step, hattempt.state_eq]
      split
      · exact h.registerUser username password hvalid accepted
      · exact h
  | login username password newId user db store =>
      exact h.login username password newId user db store
  | logout s store =>
      rw [step, (logout_attempt w s store).state_eq]
      split
      · exact h.update _ fun json hjson => by cases hjson
      · exact h
  | getUser s store => exact h
  | expire s => exact h.update _ fun json hjson => by cases hjson

/-- Whatever fails in a run, only records of whole ids are stored. -/
theorem recorded_run (hrun : Run argon2 hist w) (hvalid : ∀ e ∈ hist, e.1.Valid) :
    Recorded w := by
  refine hrun.induction (K := fun hist w => (∀ e ∈ hist, e.1.Valid) → Recorded w)
    (fun _ => recorded_init) (fun hist w c ih hall => ?_) hvalid
  exact recorded_step (ih fun e he => hall e (List.mem_append_left _ he))
    (hall (c, _) (List.mem_append_right _ (List.mem_singleton_self _)))

/-- Nothing is read outside a record. -/
theorem Recorded.getUser_ne_none (h : Recorded w) (s : Uuid) (store : StoreFaults) :
    getUser w s store ≠ none :=
  SessionValkey.getUserFaulty_ne_none store (h.records (SessionValkey.key s))

end RePlace.Auth.Faulty
