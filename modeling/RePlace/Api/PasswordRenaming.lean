import RePlace.Api.OneCall
import RePlace.Api.Sessions
import RePlace.Data.Simulation
import RePlace.Service.PasswordRenaming

/-!
# What responses tell about passwords

When the passwords in the requests of a run are renamed, every response stays the same
(`renamed_replies`). So the responses tell nothing about a password but whether it is
accepted, and whether it is the one that has been registered.
-/

namespace RePlace.App

open Api.Auth
open Auth (Action Renaming Renamed renamed_init step_rename)
open Bytes (lit)
open Http (Request RequestHandler)
open List (Forall₂)

variable {argon2 : Argon2} {h : RequestHandler Unit Handler} {hist : List (Input × Output)}
  {w : World} {σ : CString → CString}

/-- The same request with the other password. -/
inductive Renames (σ : CString → CString) : Input → Input → Prop
  | request {req req' hne hne' ch} (huri : req'.uri = req.uri) (hmethod : req'.method = req.method)
      (hheaders : req'.headers = req.headers)
      (husername : req'.getBodyParameter (.lit "username") =
        req.getBodyParameter (.lit "username"))
      (hpassword : req'.getBodyParameter (.lit "password") =
        (req.getBodyParameter (.lit "password")).map σ) :
      Renames σ (.request req hne ch) (.request req' hne' ch)
  | expire (s : Uuid) : Renames σ (.expire s) (.expire s)

section Requests

variable {req req' : Request} {hne : req.uri ≠ []} {hne' : req'.uri ≠ []} {ch : Chance}

theorem asks_congr (huri : req'.uri = req.uri) (hmethod : req'.method = req.method)
    (r : Http.Router Unit Handler) : Asks req' r ↔ Asks req r := by
  rw [Asks, Asks, huri, hmethod]

/-- The request with the other password makes the call with the other password. -/
theorem makes_rename {a a' : Input} (ha : Renames σ a a') {x : Action} (hx : Makes a x) :
    Makes a' (x.rename σ) := by
  cases ha with
  | expire s =>
      cases hx
      exact .expire s
  | request huri hmethod hheaders husername hpassword =>
      have hasks := asks_congr huri hmethod
      have hcreds : ∀ {username password : CString}, Credentials _ username password →
          Credentials _ username (σ password) := fun hcred =>
        ⟨husername.trans hcred.1, by rw [hpassword, hcred.2, Option.map_some]⟩
      cases hx with
      | login hroute hcred => exact .login ((hasks _).mpr hroute) (hcreds hcred)
      | register hroute hcred => exact .register ((hasks _).mpr hroute) (hcreds hcred)
      | logout hroute hs =>
          rw [← hheaders] at hs
          rw [Action.rename, ← hheaders]
          exact .logout ((hasks _).mpr hroute) hs
      | user hroute hs =>
          rw [← hheaders] at hs
          rw [Action.rename, ← hheaders]
          exact .user ((hasks _).mpr hroute) hs

/-- A request that makes no call makes none with the other password. -/
theorem exists_makes {a a' : Input} (ha : Renames σ a a') {x' : Action} (hx : Makes a' x') :
    ∃ x, Makes a x := by
  cases ha with
  | expire s => exact ⟨_, .expire s⟩
  | request huri hmethod hheaders husername hpassword =>
      have hasks := asks_congr huri hmethod
      have hcreds : ∀ {username password' : CString}, Credentials _ username password' →
          ∃ password, Credentials _ username password := fun hcred => by
        obtain ⟨password, hsome, -⟩ := Option.map_eq_some_iff.mp (hpassword.symm.trans hcred.2)
        exact ⟨password, husername.symm.trans hcred.1, hsome⟩
      cases hx with
      | login hroute hcred =>
          obtain ⟨password, hcred'⟩ := hcreds hcred
          exact ⟨_, .login ((hasks _).mp hroute) hcred'⟩
      | register hroute hcred =>
          obtain ⟨password, hcred'⟩ := hcreds hcred
          exact ⟨_, .register ((hasks _).mp hroute) hcred'⟩
      | logout hroute hs => exact ⟨_, .logout ((hasks _).mp hroute) (hheaders ▸ hs)⟩
      | user hroute hs => exact ⟨_, .user ((hasks _).mp hroute) (hheaders ▸ hs)⟩

end Requests

/-- A request with the other password has the same response. -/
theorem step_renames (hlaw : argon2.Lawful) (hσ : Renaming argon2 σ) (hready : Ready h ())
    {v : World} (hrenamed : Renamed argon2 σ w v) {a a' : Input} (ha : Renames σ a a') :
    (step argon2 h v a').2.reaction = (step argon2 h w a).2.reaction ∧
      Renamed argon2 σ (step argon2 h w a).1 (step argon2 h v a').1 := by
  rcases makes_cases a with ⟨x, hx⟩ | ⟨req, hne, ch, rfl, hnone⟩
  · obtain ⟨hanswer, hnext⟩ := step_rename hlaw hσ hrenamed x
    rw [step_of_makes hready hx, step_of_makes hready (makes_rename ha hx), hanswer]
    exact ⟨rfl, hnext⟩
  · have hnone' : ∀ x, ¬ Makes a' x := fun x hx =>
      (exists_makes ha hx).elim hnone
    cases ha with
    | @request _ req' _ hne' _ huri hmethod hheaders husername hpassword =>
        have hplain : plainReaction req' = plainReaction req := by
          simp only [plainReaction, asks_congr huri hmethod]
        rw [step_of_not_makes hready hnone, step_of_not_makes hready hnone', hplain]
        exact ⟨rfl, hrenamed⟩

/-- A run with other passwords has the same responses, one by one, and leaves the same
session store behind, and the same accounts but for the hashes of their passwords. -/
theorem renamed_replies (hlaw : argon2.Lawful) (hσ : Renaming argon2 σ) (hready : Ready h ())
    (hrun : Run argon2 h hist w) {inputs : List Input}
    (hinputs : Forall₂ (fun e a' => Renames σ e.1 a') hist inputs) :
    ∃ hist' v, Run argon2 h hist' v ∧ hist'.map Prod.fst = inputs ∧
      Forall₂ (fun e e' => e'.2.reaction = e.2.reaction) hist hist' ∧
      Renamed argon2 σ w v := by
  have hstep : ∀ w v a a', Renamed argon2 σ w v → Renames σ a a' →
      (step argon2 h v a').2.reaction = (step argon2 h w a).2.reaction ∧
        Renamed argon2 σ (step argon2 h w a).1 (step argon2 h v a').1 :=
    fun _ _ _ _ hrenamed ha => step_renames hlaw hσ hready hrenamed ha
  exact hrun.lockstep (O := fun out out' : Output => out'.reaction = out.reaction) renamed_init
    hstep hinputs

/-! ## A sample -/

/-- `p` and `q` change places. -/
def swapByte (b : UInt8) : UInt8 := if b = 112 then 113 else if b = 113 then 112 else b

theorem swapByte_swapByte (b : UInt8) : swapByte (swapByte b) = b := by
  unfold swapByte
  grind

/-- A text with `p` and `q` in each other's place. -/
def swapped (s : CString) : CString where
  bytes := s.bytes.map swapByte
  nulFree h := by
    obtain ⟨b, hb, hzero⟩ := List.mem_map.mp h
    have hb0 : b = 0 := by rw [← swapByte_swapByte b, hzero]; rfl
    exact s.nulFree (hb0 ▸ hb)

theorem renaming_swapped : Renaming sampleArgon2 swapped where
  empty p := List.map_eq_nil_iff
  short p := by simp [swapped]
  long p := by simp [swapped]
  failed p code := by
    have hok : ∀ q : CString, ∃ hash, Crypto.hashPassword sampleArgon2 q = .ok hash := by
      intro q
      refine ⟨q, ?_⟩
      simp [Crypto.hashPassword, Crypto.hashPasswordSized, CString.strlen, sampleArgon2, q.nulFree]
    obtain ⟨hash, hhash⟩ := hok p
    obtain ⟨hash', hhash'⟩ := hok (swapped p)
    rw [hhash, hhash']
    exact iff_of_false (fun herr => by cases herr) (fun herr => by cases herr)
  same p q _ _ := by
    have hinj : Function.Injective (List.map swapByte) :=
      List.map_injective_iff.mpr (Function.LeftInverse.injective swapByte_swapByte)
    change (List.map swapByte q.bytes).take 60 = List.map swapByte p.bytes ↔ _
    rw [← List.map_take, hinj.eq_iff]

/-- A request of `alice` with the password `qassword`. -/
def swappedRequest (path : String) : Request :=
  { sampleRequest path with
    bodyParams := .object [(lit "username", .string (lit "alice")),
      (lit "password", .string (lit "qassword"))] }

theorem sampleRequest_credentials (path : String) :
    Credentials (sampleRequest path) (.lit "alice") (.lit "password") := ⟨rfl, rfl⟩

theorem swappedRequest_credentials (path : String) :
    Credentials (swappedRequest path) (.lit "alice") (.lit "qassword") := ⟨rfl, rfl⟩

theorem renames_sampleRequest (path : String) (hne : (sampleRequest path).uri ≠ [])
    (hne' : (swappedRequest path).uri ≠ []) (ch : Chance) :
    Renames swapped (.request (sampleRequest path) hne ch)
      (.request (swappedRequest path) hne' ch) := by
  obtain ⟨husername, hpassword⟩ := sampleRequest_credentials path
  obtain ⟨husername', hpassword'⟩ := swappedRequest_credentials path
  refine .request rfl rfl rfl (husername'.trans husername.symm) ?_
  rw [hpassword, hpassword']
  rfl

/-- The requests of `alice` with it. -/
def swappedInputs : List Input :=
  [.request (swappedRequest "/api/auth/register") registerRequest_uri
      ⟨Auth.sampleId, true, .empty⟩,
    .request (swappedRequest "/api/auth/login") loginRequest_uri
      ⟨.empty, true, Auth.sampleSession⟩]

theorem renamed_replies_sample :
    ∃ w, Run sampleArgon2 sampleApp sampleHist w ∧ ∃ hist' v,
      Run sampleArgon2 sampleApp hist' v ∧ hist'.map Prod.fst = swappedInputs ∧
      Forall₂ (fun e e' => e'.2.reaction = e.2.reaction) sampleHist hist' ∧
      Renamed sampleArgon2 swapped w v := by
  have hrun : Run sampleArgon2 sampleApp sampleHist _ := .next (.next .start _) _
  have hinputs : Forall₂ (fun e a' => Renames swapped e.1 a') sampleHist swappedInputs :=
    .cons (renames_sampleRequest _ _ _ _) (.cons (renames_sampleRequest _ _ _ _) .nil)
  exact ⟨_, hrun,
    renamed_replies sampleArgon2_lawful renaming_swapped ready_sampleApp hrun hinputs⟩

end RePlace.App
