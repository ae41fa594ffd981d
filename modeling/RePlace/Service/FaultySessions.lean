import RePlace.Service.Credentials
import RePlace.Service.FaultyRuns
import RePlace.Service.SessionLife

/-!
# Sessions when calls fail

Whatever fails in the calls of a run, a user that is returned for a session is the one
whose password the login of this session came with, and no logout of it has been answered
`OK` since (`user_behind_login`).
-/

namespace RePlace.Auth.Faulty

open History (exists_split exists_entry sublist_flatMap)
open List (Forall₂)

variable {argon2 : Argon2} {hist : List (Call × Answer)} {w : World}

/-- The uuid that comes with an action. -/
def uuids : Action → List Uuid
  | .registerUser _ _ id _ => [id]
  | .login _ _ newId => [newId]
  | _ => []

/-- The uuids that come with the calls have 36 characters and are distinct. -/
structure Fresh (hist : List (Call × Answer)) : Prop where
  full : ∀ u ∈ hist.flatMap fun e => uuids e.1.action, u.Full
  nodup : (hist.flatMap fun e => uuids e.1.action).Nodup

theorem Fresh.valid (h : Fresh hist) : ∀ e ∈ hist, e.1.Valid := by
  rintro ⟨c, a⟩ he
  cases c with
  | registerUser username password id accepted user db =>
      exact h.full id (List.mem_flatMap.mpr ⟨_, he, by simp [Call.action, uuids]⟩)
  | login => trivial
  | logout => trivial
  | getUser => trivial
  | expire => trivial

theorem generatedBy_sublist (w : World) (a : Action) :
    (generatedBy (a, (Auth.step argon2 w a).2)).Sublist (uuids a) := by
  cases a with
  | registerUser username password id accepted =>
      rcases @registerUser_cases argon2 w username password id accepted with
        ⟨_, _, _, -, -, -, -, -, -, -, -, hok⟩ | ⟨code, herr⟩
      · rw [Auth.step, hok]
        exact .refl _
      · rw [Auth.step, herr]
        exact List.nil_sublist _
  | login username password newId =>
      rcases @login_cases argon2 w username password newId with
        ⟨_, _, _, -, -, -, -, -, hok⟩ | ⟨code, herr⟩
      · rw [Auth.step, hok]
        exact .refl _
      · rw [Auth.step, herr]
        exact List.nil_sublist _
  | logout s => exact List.nil_sublist _
  | getUser s => exact List.nil_sublist _
  | expire s => exact List.nil_sublist _

/-- The uuids that are generated come with the actions. -/
theorem generated_sublist {hist : List (Action × Answer)} (hrun : Auth.Run argon2 hist w) :
    (generated hist).Sublist (hist.flatMap fun e => uuids e.1) := by
  refine hrun.induction (K := fun hist _ =>
    (generated hist).Sublist (hist.flatMap fun e => uuids e.1)) (.refl _) fun hist w a ih => ?_
  rw [generated_concat, List.flatMap_append, List.flatMap_singleton]
  exact ih.append (generatedBy_sublist w a)

theorem Fresh.distinct (h : Fresh hist) {es : List (Option (Action × Answer))}
    (hes : Forall₂ Explains hist es) (hrun : Auth.Run argon2 es.reduceOption w) :
    Distinct es.reduceOption := by
  have hsub : (generated es.reduceOption).Sublist (hist.flatMap fun e => uuids e.1.action) := by
    refine (generated_sublist hrun).trans (sublist_flatMap hes fun e e' hexp => ?_)
    rw [hexp.2.1]
  exact ⟨fun u hu => h.full u (hsub.subset hu), h.nodup.sublist hsub⟩

/-- An entry stands for an entry of the other run, or for none. -/
theorem exists_explained {es : List (Option (Action × Answer))} (h : Forall₂ Explains hist es)
    {e : Call × Answer} (he : e ∈ hist) : ∃ o ∈ es, Explains e o := by
  induction h with
  | nil => cases he
  | cons hexp _ ih =>
      rcases List.mem_cons.mp he with rfl | he
      · exact ⟨_, List.mem_cons_self .., hexp⟩
      · obtain ⟨o, ho, hexp'⟩ := ih he
        exact ⟨o, List.mem_cons_of_mem _ ho, hexp'⟩

/-- A logout that has been answered `OK`, or an expiry, is one of the other run too. -/
theorem mem_of_closes {es : List (Option (Action × Answer))} (h : Forall₂ Explains hist es)
    {e : Call × Answer} (he : e ∈ hist) {s : Uuid} (hcloses : Closes s (e.1.action, e.2)) :
    ∃ e' ∈ es.reduceOption, Closes s e' := by
  obtain ⟨o, ho, hexp⟩ := exists_explained h he
  obtain ⟨c, a⟩ := e
  cases o with
  | none =>
      obtain ⟨hmissed, hrefused⟩ := hexp
      rcases hcloses with heq | heq
      · obtain ⟨haction, rfl⟩ := Prod.mk.inj heq
        cases c with
        | logout s' store => exact absurd (hrefused rfl) id
        | _ => cases haction
      · obtain ⟨haction, rfl⟩ := Prod.mk.inj heq
        cases c with
        | expire s' => cases hmissed
        | _ => cases haction
  | some e' =>
      obtain ⟨-, haction, hanswer⟩ := hexp
      obtain ⟨a', b'⟩ := e'
      obtain rfl : a' = c.action := haction
      have hsuccess : Success a := by
        rcases hcloses with heq | heq
        · obtain rfl : a = .loggedOut (.ok ()) := (Prod.mk.inj heq).2
          rfl
        · obtain rfl : a = .expired := (Prod.mk.inj heq).2
          trivial
      obtain rfl : a = b' := hanswer.resolve_right fun hno => hno.1 hsuccess
      exact ⟨_, List.reduceOption_mem_iff.mpr ho, hcloses⟩

/-- A session for which a user is returned is live in a run of the executed calls. -/
theorem live_of_getUser (hempty : argon2.RefusesEmpty) (hrun : Run argon2 hist w)
    (hfresh : Fresh hist) {s : Uuid} {store : StoreFaults} {user : User}
    (hget : getUser w s store = some (.ok user)) :
    ∃ es v acc, Forall₂ Explains hist es ∧ Auth.Run argon2 es.reduceOption v ∧
      Live es.reduceOption s acc ∧ user = acc.user := by
  obtain ⟨es, v, hes, hrun', hmirrors⟩ : ∃ es v, Forall₂ Explains hist es ∧
      Auth.Run argon2 es.reduceOption v ∧ Mirrors w v :=
    hrun.simulate mirrors_init (fun _ _ _ hc h => mirrors_step hempty h hc) hfresh.valid
  obtain ⟨acc, hlive, huser⟩ :=
    Auth.live_of_getUser hrun' (hfresh.distinct hes hrun') (hmirrors.getUser_ok hget)
  exact ⟨es, v, acc, hes, hrun', hlive, huser⟩

/-- The login behind a session that is live in a run of the executed calls. -/
theorem login_of_live (hlaw : argon2.Lawful) {es : List (Option (Action × Answer))}
    (hes : Forall₂ Explains hist es) {v : World} (hrun : Auth.Run argon2 es.reduceOption v)
    {s : Uuid} {acc : Account} (hlive : Live es.reduceOption s acc) :
    ∃ pre e post password, hist = pre ++ e :: post ∧
      e.1.action = .login (some acc.username) (some password) s ∧ e.1.executed = true ∧
      (∃ e' ∈ pre, ∃ accepted, e'.1.action =
        .registerUser (some acc.username) (some (password.take 60)) acc.id accepted) ∧
      ∀ e' ∈ post, ¬ Closes s (e'.1.action, e'.2) := by
  obtain ⟨pre, k, post, hsplit, ⟨⟨password, newId, rfl⟩, hreg⟩, hopen⟩ := hlive
  obtain ⟨pre', e, post', es', es'', rfl, hexp, hpre, rfl, hpost, rfl⟩ := exists_split hes hsplit
  obtain ⟨hdone, haction, -⟩ := hexp
  rw [hsplit] at hrun
  obtain ⟨v', hrunPre, hlogin⟩ := hrun.of_append
  have hok : (Auth.login argon2 v' (some acc.username) password newId).2 = .ok s :=
    (Answer.loggedIn.inj hlogin).symm
  obtain rfl : newId = s := by
    rcases @login_cases argon2 v' (some acc.username) password newId with
      ⟨_, _, _, -, -, -, -, -, hcase⟩ | ⟨code, herr⟩
    · rw [hcase] at hok
      exact Except.ok.inj hok
    · rw [herr] at hok
      cases hok
  obtain ⟨text, rfl, id, hregistered⟩ := (login_ok_iff hlaw hrunPre newId).mp ⟨newId, hok⟩
  have haccounts := accounts_of_run hrunPre
  obtain rfl : id = acc.id := by
    have hreg' : Registered es'.reduceOption ⟨id, acc.username⟩ := ⟨_, hregistered⟩
    obtain ⟨row, hrow, hacc⟩ := haccounts.registered_iff.mp hreg
    obtain ⟨row', hrow', hacc'⟩ := haccounts.registered_iff.mp hreg'
    have hsame := haccounts.unique row hrow row' hrow' (by
      rw [← (Account.mk.inj hacc').2, hacc])
    rw [(Account.mk.inj hacc').1, hacc, hsame]
  obtain ⟨accepted, hmem⟩ := hregistered
  obtain ⟨e', he', -, haction', -⟩ := exists_entry hpre hmem
  refine ⟨pre', e, post', text, rfl, haction.symm, hdone,
    ⟨e', he', accepted, haction'.symm⟩, fun e'' he'' hcloses => ?_⟩
  obtain ⟨k, hk, hclosed⟩ := mem_of_closes hpost he'' hcloses
  exact hopen k hk hclosed

/-- Whatever fails in the calls of a run: when a user is returned for a session, the session
came with some login for the username of this user, whose password starts with the one of
an earlier registration of the user, and since this login no logout of the session has been
answered `OK`, and it has not expired. -/
theorem user_behind_login (hlaw : argon2.Lawful) (hempty : argon2.RefusesEmpty)
    (hrun : Run argon2 hist w) (hfresh : Fresh hist) {s : Uuid} {store : StoreFaults}
    {user : User} (hget : getUser w s store = some (.ok user)) :
    ∃ pre e post username password id, hist = pre ++ e :: post ∧
      user = { id, username := CString.bytes username } ∧
      e.1.action = .login (some username) (some password) s ∧ e.1.executed = true ∧
      (∃ e' ∈ pre, ∃ accepted, e'.1.action =
        .registerUser (some username) (some (password.take 60)) id accepted) ∧
      ∀ e' ∈ post, ¬ Closes s (e'.1.action, e'.2) := by
  obtain ⟨es, v, acc, hes, hrun', hlive, rfl⟩ := live_of_getUser hempty hrun hfresh hget
  obtain ⟨pre, e, post, password, hsplit, hlogin⟩ := login_of_live hlaw hes hrun' hlive
  exact ⟨pre, e, post, acc.username, password, acc.id, hsplit, rfl, hlogin⟩

theorem user_behind_login_sample :
    ∃ pre e post username password id, sampleFaulty = pre ++ e :: post ∧
      Account.user ⟨sampleId, .lit "alice"⟩ = { id, username := CString.bytes username } ∧
      e.1.action = .login (some username) (some password) sampleSession ∧
      e.1.executed = true ∧
      (∃ e' ∈ pre, ∃ accepted, e'.1.action =
        .registerUser (some username) (some (password.take 60)) id accepted) ∧
      ∀ e' ∈ post, ¬ Closes sampleSession (e'.1.action, e'.2) := by
  have hrun : Run sampleArgon2 sampleFaulty _ := .next (.next .start _) _
  exact @user_behind_login _ _ _ sampleArgon2_lawful sampleArgon2_refusesEmpty hrun
    ⟨by decide, by decide⟩ sampleSession {} _ rfl

end RePlace.Auth.Faulty
