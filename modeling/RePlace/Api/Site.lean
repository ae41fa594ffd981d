import RePlace.Api.Application
import RePlace.Http.ReadSplitting
import RePlace.Http.Reads

/-!
# The site

The server with its connections, their parsers, and the application behind them. Reads
of different connections come in any order; the read that completes a request handles
it at once, and the response is written. `linearized` says that the world is that of the
application on the handled requests in the order of these reads, and that the request
of a connection is made of its own reads alone.
-/

namespace RePlace

open App (Chance Input Output)
open Http (Json LLHttp Request Response RequestHandler Server doRead onEvent stockResponse)
open Bytes (lit)
open Http.Server (Completion Received)

namespace Site

/-- A connection with its parser, and the response once it is written. -/
structure Client (σ : Type) where
  conn : Http.Connection σ
  res : Option Response := none

end Site

/-- The server, its connections by their numbers, and the world of the application. -/
structure Site (σ : Type) where
  server : Server := {}
  clients : List (Site.Client σ) := []
  world : World := {}

namespace Site

/-- What the handler of a read makes of its bytes. -/
inductive Taken (σ : Type)
  /-- The parser rejects them. -/
  | rejected
  /-- The request is complete. -/
  | request (req : Request)
  /-- Another read is needed. -/
  | more (conn : Http.Connection σ)

/-- The completion of an outstanding operation, or the expiry of a session. -/
inductive Event
  | accept (ok : Bool)
  | read (i : ℕ) (bytes : Bytes) (ch : Chance)
  | readError (i : ℕ)
  | readAborted (i : ℕ)
  | write (i : ℕ) (completion : Completion Unit)
  | stop
  | expire (s : Uuid)

/-- What has been done to the world, and for which connection. -/
abbrev Entry : Type := Option ℕ × Input × Output

section Step

variable {σ : Type} (L : LLHttp σ) (parse : CString → Json) (argon2 : Argon2)
  (h : RequestHandler Unit Api.Auth.Handler)

/-- The body of the handler of `connection::do_read` up to the request. -/
def take (conn : Http.Connection σ) (bytes : Bytes) : Option (Taken σ) := do
  let e := L.execute conn.parser bytes
  let data ← e.events.foldlM onEvent conn.data
  if e.errno ≠ 0 then some .rejected
  else if L.finish e.parser = 0 then
    some (.request (Http.Connection.request L parse ⟨e.parser, data⟩))
  else some (.more ⟨e.parser, data⟩)

/-- Only the server takes notice. -/
def serverOnly (s : Site σ) (e : Server.Event) : Option (Site σ × List Entry) := do
  let server ← s.server.step e
  some ({ s with server }, [])

/-- A connection begins to write a response. -/
def respond (s : Site σ) (i : ℕ) (client : Client σ) (res : Response) : Site σ :=
  { s with clients := s.clients.set i { client with res := some res } }

/-- One completion with its handler, and what it has done to the world. There is no
next state when the operation is not outstanding, and when the process ends: an
assertion fails, or a container is accessed outside. -/
def step (s : Site σ) : Event → Option (Site σ × List Entry)
  | .accept ok => do
      let server ← s.server.step (.accept ok)
      if s.server.acceptorOpen = true ∧ ok = true then
        some ({ s with server, clients := s.clients ++ [{ conn := .new L }] }, [])
      else some ({ s with server }, [])
  | .read i bytes ch => do
      let client ← s.clients[i]?
      match ← take L parse client.conn bytes with
      | .rejected =>
          let server ← s.server.step (.read i (.done .parseError))
          some (respond { s with server } i client (stockResponse .badRequest), [])
      | .request req =>
          let server ← s.server.step (.read i (.done .complete))
          -- without a URI `handle_request` reads in front of it
          if hne : req.uri ≠ [] then
            let (world, out) := App.step argon2 h s.world (.request req hne ch)
            match out.reaction with
            | some (.responded res) =>
                some (respond { s with server, world } i client res,
                  [(some i, .request req hne ch, out)])
            | _ => none
          else none
      | .more conn =>
          let server ← s.server.step (.read i (.done .incomplete))
          some ({ s with server, clients := s.clients.set i { client with conn } }, [])
  | .readError i => serverOnly s (.read i .error)
  | .readAborted i => serverOnly s (.read i .aborted)
  | .write i completion => serverOnly s (.write i completion)
  | .stop => serverOnly s .stop
  | .expire session =>
      let (world, out) := App.step argon2 h s.world (.expire session)
      some ({ s with world }, [(none, .expire session, out)])

/-- The runs of the site, with what they have done to the world. -/
inductive Run : List Event → List Entry → Site σ → Prop
  | start : Run [] [] {}
  | next {events log s s' entries} (hrun : Run events log s) (e : Event)
      (hstep : step L parse argon2 h s e = some (s', entries)) :
      Run (events ++ [e]) (log ++ entries) s'

end Step

/-- The bytes that a connection has read. -/
def readsOf (i : ℕ) (events : List Event) : List Bytes :=
  events.filterMap fun
    | .read j bytes _ => if j = i then some bytes else none
    | _ => none

@[simp] theorem readsOf_nil (i : ℕ) : readsOf i [] = [] := rfl

@[simp] theorem readsOf_concat_read (i : ℕ) (events : List Event) (j : ℕ) (bytes : Bytes)
    (ch : Chance) : readsOf i (events ++ [.read j bytes ch]) =
      readsOf i events ++ if j = i then [bytes] else [] := by
  by_cases hij : j = i <;> simp [readsOf, hij]

theorem readsOf_concat_other (i : ℕ) (events : List Event) {e : Event}
    (he : ∀ j bytes ch, e ≠ .read j bytes ch) : readsOf i (events ++ [e]) = readsOf i events := by
  cases e with
  | read j bytes ch => exact absurd rfl (he j bytes ch)
  | _ => simp [readsOf]

variable {σ : Type} {L : LLHttp σ} {parse : CString → Json} {argon2 : Argon2}
  {h : RequestHandler Unit Api.Auth.Handler} {events : List Event} {log : List Entry} {s : Site σ}

/-! ## Reads -/

/-- `do_read` goes on as its first read is taken. -/
theorem doRead_cons (conn : Http.Connection σ) (bytes : Bytes) (reads : List Bytes) :
    doRead L parse h conn (bytes :: reads) = (take L parse conn bytes).bind fun
      | .rejected => some (.badRequest (stockResponse .badRequest) reads)
      | .request req => some (.handled req (h.handleRequest req) reads)
      | .more conn => doRead L parse h conn reads := by
  rw [doRead, take]
  cases (L.execute conn.parser bytes).events.foldlM onEvent conn.data with
  | none => rfl
  | some data =>
      simp only [Option.bind_eq_bind, Option.bind_some]
      split
      · rfl
      · split <;> rfl

/-- Reads behind others are taken by the connection that these have left reading. -/
theorem doRead_append {conn conn' : Http.Connection σ} {reads : List Bytes}
    (hread : doRead L parse h conn reads = some (.reading conn')) (reads' : List Bytes) :
    doRead L parse h conn (reads ++ reads') = doRead L parse h conn' reads' := by
  induction reads generalizing conn with
  | nil =>
      obtain rfl : conn = conn' := by simpa [doRead] using hread
      rfl
  | cons bytes reads ih =>
      rw [List.cons_append, doRead_cons]
      rw [doRead_cons] at hread
      cases htake : take L parse conn bytes with
      | none => simp [htake] at hread
      | some taken =>
          cases taken with
          | more conn₁ =>
              simp only [htake, Option.bind_some] at hread ⊢
              exact ih hread
          | _ => simp [htake] at hread

/-! ## What a step does to the server -/

/-- Which connections have begun to write a response. -/
def begun (server : Server) : List Bool := server.connections.map fun c => 0 < c.writes

theorem begun_accept {server server' : Server} {ok : Bool}
    (hstep : server.step (.accept ok) = some server') :
    begun server' =
      begun server ++ if server.acceptorOpen = true ∧ ok = true then [false] else [] := by
  obtain ⟨-, rfl⟩ := Server.step_accept.mp hstep
  cases hopen : server.acceptorOpen with
  | false => simp [Server.onAccept, begun]
  | true =>
      cases ok with
      | false => simp [Server.onAccept, begun, Server.doAccept]
      | true =>
          simp [Server.onAccept, begun, Server.doAccept, Server.managerStart,
            Server.Connection.start, Server.Connection.doRead]

theorem begun_modify {server : Server} {i : ℕ} {f : Server.Connection → Server.Connection}
    {g : Bool → Bool} (hf : ∀ c, decide (0 < (f c).writes) = g (decide (0 < c.writes))) :
    begun (server.modify i f) = (begun server).modify i g := by
  refine List.ext_getElem? fun j => ?_
  simp only [begun, Server.modify, List.getElem?_map, List.getElem?_modify]
  by_cases hij : i = j
  · simp [hij, Function.comp_def, hf]
  · simp [hij]

/-- What is done to a connection that neither reads nor begins to write changes nothing
here. -/
theorem begun_modify_kept {server : Server} {i : ℕ} {f : Server.Connection → Server.Connection}
    (hf : ∀ c, (f c).writes = c.writes) : begun (server.modify i f) = begun server := by
  rw [begun_modify (g := id) (fun c => by rw [hf, id]), List.modify_id]

theorem begun_read {server server' : Server} {i : ℕ} {received : Received}
    (hstep : server.step (.read i (.done received)) = some server') :
    begun server' =
      if received = .incomplete then begun server else (begun server).set i true := by
  obtain ⟨c, -, -, rfl⟩ := Server.step_read.mp hstep
  have hcomplete : begun (server.modify i fun c => c.complete .read) = begun server :=
    begun_modify_kept fun _ => rfl
  cases received with
  | incomplete =>
      rw [if_pos rfl, ← hcomplete]
      exact begun_modify_kept fun _ => rfl
  | parseError =>
      rw [if_neg (by decide), ← hcomplete, List.set_eq_modify]
      exact begun_modify fun c => by simp [Server.Connection.doWrite]
  | complete =>
      rw [if_neg (by decide), ← hcomplete, List.set_eq_modify]
      exact begun_modify fun c => by simp [Server.Connection.doWrite, Server.Connection.handle]

/-- The completions that only the server takes notice of. -/
inductive Silent : Server.Event → Prop
  | readError (i : ℕ) : Silent (.read i .error)
  | readAborted (i : ℕ) : Silent (.read i .aborted)
  | write (i : ℕ) (completion : Completion Unit) : Silent (.write i completion)
  | stop : Silent .stop

theorem begun_silent {server server' : Server} {e : Server.Event} (he : Silent e)
    (hstep : server.step e = some server') : begun server' = begun server := by
  have hstop : ∀ (server : Server) i, begun (server.managerStop i) = begun server :=
    fun server i => begun_modify_kept fun _ => rfl
  cases he with
  | readError i =>
      obtain ⟨c, -, -, rfl⟩ := Server.step_read.mp hstep
      exact (hstop _ i).trans (begun_modify_kept fun _ => rfl)
  | readAborted i =>
      obtain ⟨c, -, -, rfl⟩ := Server.step_read.mp hstep
      exact begun_modify_kept fun _ => rfl
  | write i completion =>
      obtain ⟨c, -, -, rfl⟩ := Server.step_write.mp hstep
      have hcomplete : begun (server.modify i fun c => c.complete .write) = begun server :=
        begun_modify_kept fun _ => rfl
      cases completion with
      | done _ => exact (hstop _ i).trans hcomplete
      | error => exact (hstop _ i).trans hcomplete
      | aborted => exact hcomplete
  | stop =>
      obtain ⟨-, rfl⟩ := Server.step_stop.mp hstep
      refine List.ext_getElem? fun j => ?_
      simp only [begun, Server.onStop, Server.stopAll, List.getElem?_map, List.getElem?_mapIdx,
        Option.map_map]
      refine congrArg (Option.map · _) (funext fun c => ?_)
      simp only [Function.comp_apply]
      split <;> rfl

/-- A connection that completes a read has not begun to write. -/
theorem begun_of_read {server server' : Server} {i : ℕ} {received : Received}
    (hinv : Server.Invariant server)
    (hstep : server.step (.read i (.done received)) = some server') :
    (begun server)[i]? = some false := by
  obtain ⟨c, hi, hcan, -⟩ := Server.step_read.mp hstep
  simp only [Server.Connection.CanComplete, decide_eq_true_eq] at hcan
  obtain ⟨-, -, hwrites⟩ := (hinv.staged i c hi).reading hcan.1
  simp [begun, hi, hwrites]

/-! ## The invariant -/

/-- The connections for which something has been done, in the order of time. -/
def numbers (log : List Entry) : List ℕ := log.filterMap Prod.fst

@[simp] theorem numbers_append (log entries : List Entry) :
    numbers (log ++ entries) = numbers log ++ numbers entries := List.filterMap_append

theorem eq_of_mem_numbers {entries : List Entry} {i j : ℕ} (hentries : ∀ e ∈ entries, e.1 = some i)
    (hj : j ∈ numbers entries) : j = i := by
  obtain ⟨e, he, hej⟩ := List.mem_filterMap.mp hj
  rw [hentries e he] at hej
  exact (Option.some.inj hej).symm

/-- Where a connection stands that has read these bytes. -/
inductive Answers (L : LLHttp σ) (parse : CString → Json)
    (h : RequestHandler Unit Api.Auth.Handler) (log : List Entry) (i : ℕ) (reads : List Bytes) :
    Client σ → Prop
  /-- It waits for more. -/
  | reading {conn} (hread : doRead L parse h (.new L) reads = some (.reading conn))
      (hlog : i ∉ numbers log) : Answers L parse h log i reads { conn }
  /-- Its bytes have been rejected. -/
  | rejected {conn res} (hread : doRead L parse h (.new L) reads = some (.badRequest res []))
      (hlog : i ∉ numbers log) : Answers L parse h log i reads { conn, res := some res }
  /-- Its request has been handled, and it is answered with the response. -/
  | answered {conn req outcome hne ch out res}
      (hread : doRead L parse h (.new L) reads = some (.handled req outcome []))
      (hlog : (some i, .request req hne ch, out) ∈ log)
      (hout : out.reaction = some (.responded res)) :
      Answers L parse h log i reads { conn, res := some res }

/-- What is done for others does not matter. -/
theorem Answers.append {i : ℕ} {reads : List Bytes} {client : Client σ}
    (hans : Answers L parse h log i reads client) {entries : List Entry}
    (hi : i ∉ numbers entries) : Answers L parse h (log ++ entries) i reads client := by
  cases hans with
  | reading hread hlog => exact .reading hread (by simp [hlog, hi])
  | rejected hread hlog => exact .rejected hread (by simp [hlog, hi])
  | answered hread hlog hout => exact .answered hread (List.mem_append_left _ hlog) hout

structure Invariant (L : LLHttp σ) (parse : CString → Json) (argon2 : Argon2)
    (h : RequestHandler Unit Api.Auth.Handler) (events : List Event) (log : List Entry)
    (s : Site σ) : Prop where
  server : ∃ es, Server.Run es s.server
  begun : s.clients.map (fun client => client.res.isSome) = begun s.server
  world : App.Run argon2 h (log.map Prod.snd) s.world
  nodup : (numbers log).Nodup
  answers : ∀ i client, s.clients[i]? = some client →
    Answers L parse h log i (readsOf i events) client
  fresh : ∀ i, s.clients.length ≤ i → readsOf i events = [] ∧ i ∉ numbers log
  expiries : ∀ e ∈ log, e.1 = none → ∃ session, e.2.1 = .expire session

theorem invariant_start : Invariant L parse argon2 h [] [] {} where
  server := ⟨[], rfl⟩
  begun := rfl
  world := .start
  nodup := .nil
  answers := by simp
  fresh := by simp [numbers]
  expiries := by simp

theorem Invariant.server_step (hinv : Invariant L parse argon2 h events log s) {e : Server.Event}
    {server : Server} (hstep : s.server.step e = some server) : ∃ es, Server.Run es server := by
  obtain ⟨es, hrun⟩ := hinv.server
  refine ⟨es ++ [e], ?_⟩
  rw [Server.Run, History.runAll, List.foldlM_append] at *
  simp [hrun, hstep]

/-- An event that concerns no connection. -/
theorem Invariant.other (hinv : Invariant L parse argon2 h events log s) {e : Event}
    (he : ∀ j bytes ch, e ≠ .read j bytes ch) {server : Server} {world : World}
    {entries : List Entry} (hserver : ∃ es, Server.Run es server)
    (hbegun : Site.begun server = Site.begun s.server)
    (hworld : App.Run argon2 h ((log ++ entries).map Prod.snd) world)
    (hnumbers : numbers entries = [])
    (hexpiries : ∀ e ∈ entries, ∃ session, e.2.1 = .expire session) :
    Invariant L parse argon2 h (events ++ [e]) (log ++ entries) ⟨server, s.clients, world⟩ where
  server := hserver
  begun := hinv.begun.trans hbegun.symm
  world := hworld
  nodup := by simpa [hnumbers] using hinv.nodup
  answers i client hi := by
    rw [readsOf_concat_other i events he]
    exact (hinv.answers i client hi).append (by simp [hnumbers])
  fresh i hi := by
    rw [readsOf_concat_other i events he]
    simpa [hnumbers] using hinv.fresh i hi
  expiries e he hnone := by
    rcases List.mem_append.mp he with he | he
    · exact hinv.expiries e he hnone
    · exact hexpiries e he

theorem Invariant.serverOnly (hinv : Invariant L parse argon2 h events log s) {e : Event}
    (he : ∀ j bytes ch, e ≠ .read j bytes ch) {e' : Server.Event} (hsilent : Silent e')
    {s' : Site σ} {entries : List Entry} (hstep : Site.serverOnly s e' = some (s', entries)) :
    Invariant L parse argon2 h (events ++ [e]) (log ++ entries) s' := by
  obtain ⟨server, hserver, heq⟩ := Option.bind_eq_some_iff.mp hstep
  obtain ⟨rfl, rfl⟩ := Prod.mk.inj (Option.some.inj heq)
  refine hinv.other he (hinv.server_step hserver) (begun_silent hsilent hserver) ?_ rfl (by simp)
  rw [List.append_nil]
  exact hinv.world

/-- A connection is accepted. -/
theorem Invariant.accept (hinv : Invariant L parse argon2 h events log s) {server : Server}
    (hserver : s.server.step (.accept true) = some server)
    (hopen : s.server.acceptorOpen = true) :
    Invariant L parse argon2 h (events ++ [.accept true]) log
      { s with server, clients := s.clients ++ [{ conn := .new L }] } where
  server := hinv.server_step hserver
  begun := by
    rw [begun_accept hserver, if_pos ⟨hopen, rfl⟩, ← hinv.begun]
    simp
  world := hinv.world
  nodup := hinv.nodup
  answers i client hi := by
    rw [readsOf_concat_other i events (by simp)]
    rcases Nat.lt_trichotomy i s.clients.length with hlt | rfl | hgt
    · exact hinv.answers i client ((List.getElem?_append_left hlt).symm.trans hi)
    · obtain rfl := Option.some.inj (List.getElem?_concat_length.symm.trans hi)
      obtain ⟨hreads, hlog⟩ := hinv.fresh s.clients.length le_rfl
      rw [hreads]
      exact .reading rfl hlog
    · have hnone : (s.clients ++ [({ conn := .new L } : Client σ)])[i]? = none :=
        List.getElem?_eq_none (by simpa using Nat.succ_le_of_lt hgt)
      cases hnone.symm.trans hi
  fresh i hi := by
    rw [readsOf_concat_other i events (by simp)]
    exact hinv.fresh i (le_trans (by simp) hi)
  expiries := hinv.expiries

/-- A connection that completes a read is the one that the reads before have left. -/
theorem Invariant.reading (hinv : Invariant L parse argon2 h events log s) {i : ℕ}
    {client : Client σ} (hi : s.clients[i]? = some client) {received : Received} {server : Server}
    (hserver : s.server.step (.read i (.done received)) = some server) :
    client.res = none ∧ i ∉ numbers log ∧
      doRead L parse h (.new L) (readsOf i events) = some (.reading client.conn) := by
  obtain ⟨es, hrun⟩ := hinv.server
  have hbegun := begun_of_read (Server.invariant_run hrun).1 hserver
  rw [← hinv.begun, List.getElem?_map, hi] at hbegun
  have hres : client.res = none := by simpa using hbegun
  cases hinv.answers i client hi with
  | reading hread hlog => exact ⟨rfl, hlog, hread⟩
  | rejected _ _ => cases hres
  | answered _ _ _ => cases hres

/-- A connection has taken a read. -/
theorem Invariant.read (hinv : Invariant L parse argon2 h events log s) {i : ℕ} {bytes : Bytes}
    {ch : Chance} {client client' : Client σ} (hi : s.clients[i]? = some client)
    {received : Received} {server : Server}
    (hserver : s.server.step (.read i (.done received)) = some server)
    (hbegun : client'.res.isSome = decide (received ≠ .incomplete)) {world : World}
    {entries : List Entry} (hworld : App.Run argon2 h ((log ++ entries).map Prod.snd) world)
    (hentries : ∀ e ∈ entries, e.1 = some i) (hnodup : (numbers entries).Nodup)
    (hans : Answers L parse h (log ++ entries) i (readsOf i events ++ [bytes]) client') :
    Invariant L parse argon2 h (events ++ [.read i bytes ch]) (log ++ entries)
      ⟨server, s.clients.set i client', world⟩ where
  server := hinv.server_step hserver
  begun := by
    obtain ⟨hres, -, -⟩ := hinv.reading hi hserver
    rw [begun_read hserver, ← hinv.begun, List.map_set, hbegun]
    by_cases hinc : received = .incomplete
    · have hget : (s.clients.map fun client => client.res.isSome)[i]? = some false := by
        simp [hi, hres]
      obtain ⟨hlt, hfalse⟩ := List.getElem?_eq_some_iff.mp hget
      rw [if_pos hinc, decide_eq_false (not_not.mpr hinc), ← hfalse, List.set_getElem_self]
    · rw [if_neg hinc, decide_eq_true hinc]
  world := hworld
  nodup := by
    obtain ⟨-, hlog, -⟩ := hinv.reading hi hserver
    rw [numbers_append, List.nodup_append]
    refine ⟨hinv.nodup, hnodup, fun j hj k hk hjk => hlog ?_⟩
    rw [← eq_of_mem_numbers hentries hk, ← hjk]
    exact hj
  answers j client₁ hj := by
    rw [readsOf_concat_read]
    by_cases hij : i = j
    · subst hij
      have hlt := (List.getElem?_eq_some_iff.mp hi).1
      obtain rfl := Option.some.inj ((List.getElem?_set_self hlt).symm.trans hj)
      rwa [if_pos rfl]
    · rw [if_neg hij, List.append_nil]
      refine (hinv.answers j client₁ ((List.getElem?_set_ne hij).symm.trans hj)).append ?_
      exact fun hmem => hij (eq_of_mem_numbers hentries hmem).symm
  fresh j hj := by
    rw [List.length_set] at hj
    have hlt := (List.getElem?_eq_some_iff.mp hi).1
    have hij : i ≠ j := (hlt.trans_le hj).ne
    obtain ⟨hreads, hlog⟩ := hinv.fresh j hj
    rw [readsOf_concat_read, if_neg hij, List.append_nil, numbers_append, List.mem_append]
    refine ⟨hreads, fun hmem => hmem.elim hlog fun hmem => ?_⟩
    exact hij (eq_of_mem_numbers hentries hmem).symm
  expiries e he hnone := by
    rcases List.mem_append.mp he with he | he
    · exact hinv.expiries e he hnone
    · rw [hentries e he] at hnone
      cases hnone

/-! ## Steps and runs -/

/-- A read that completes a request: it is handled, and the connection answers. -/
theorem step_request_ok {i : ℕ} {bytes : Bytes} {ch : Chance} {client : Client σ} {req : Request}
    {s' : Site σ} {entries : List Entry} (hi : s.clients[i]? = some client)
    (htake : take L parse client.conn bytes = some (.request req))
    (hstep : step L parse argon2 h s (.read i bytes ch) = some (s', entries)) :
    ∃ server hne res, s.server.step (.read i (.done .complete)) = some server ∧
      (App.step argon2 h s.world (.request req hne ch)).2.reaction = some (.responded res) ∧
      s' = respond ⟨server, s.clients, (App.step argon2 h s.world (.request req hne ch)).1⟩
        i client res ∧
      entries = [(some i, .request req hne ch,
        (App.step argon2 h s.world (.request req hne ch)).2)] := by
  simp only [step, hi, htake, Option.bind_eq_bind, Option.bind_some] at hstep
  obtain ⟨server, hserver, hstep⟩ := Option.bind_eq_some_iff.mp hstep
  split at hstep
  next hne =>
      split at hstep
      next res hres =>
          obtain ⟨rfl, rfl⟩ := Prod.mk.inj (Option.some.inj hstep)
          exact ⟨server, hne, res, hserver, hres, rfl, rfl⟩
      next => cases hstep
  next => cases hstep

theorem invariant_step (hinv : Invariant L parse argon2 h events log s) {e : Event} {s' : Site σ}
    {entries : List Entry} (hstep : step L parse argon2 h s e = some (s', entries)) :
    Invariant L parse argon2 h (events ++ [e]) (log ++ entries) s' := by
  have hkept : App.Run argon2 h ((log ++ ([] : List Entry)).map Prod.snd) s.world := by
    rw [List.append_nil]
    exact hinv.world
  cases e with
  | accept ok =>
      obtain ⟨server, hserver, hstep⟩ := Option.bind_eq_some_iff.mp hstep
      split at hstep
      next hopen =>
          obtain ⟨rfl, rfl⟩ := Prod.mk.inj (Option.some.inj hstep)
          obtain rfl := hopen.2
          rw [List.append_nil]
          exact hinv.accept hserver hopen.1
      next hclosed =>
          obtain ⟨rfl, rfl⟩ := Prod.mk.inj (Option.some.inj hstep)
          refine hinv.other (by simp) (hinv.server_step hserver) ?_ hkept rfl (by simp)
          rw [begun_accept hserver, if_neg hclosed, List.append_nil]
  | read i bytes ch =>
      obtain ⟨client, hi, hstep'⟩ := Option.bind_eq_some_iff.mp hstep
      obtain ⟨taken, htake, hstep'⟩ := Option.bind_eq_some_iff.mp hstep'
      have hread : ∀ received server,
          s.server.step (.read i (.done received)) = some server → i ∉ numbers log ∧
            doRead L parse h (.new L) (readsOf i events) = some (.reading client.conn) :=
        fun received server hserver => (hinv.reading hi hserver).2
      have hcons := @doRead_cons σ L parse h client.conn bytes []
      rw [htake] at hcons
      cases taken with
      | rejected =>
          obtain ⟨server, hserver, heq⟩ := Option.bind_eq_some_iff.mp hstep'
          obtain ⟨rfl, rfl⟩ := Prod.mk.inj (Option.some.inj heq)
          obtain ⟨hlog, hreads⟩ := hread _ _ hserver
          refine hinv.read hi hserver rfl hkept (by simp) .nil ?_
          rw [List.append_nil]
          exact .rejected ((doRead_append hreads [bytes]).trans hcons) hlog
      | request req =>
          obtain ⟨server, hne, res, hserver, hres, rfl, rfl⟩ := step_request_ok hi htake hstep
          obtain ⟨-, hreads⟩ := hread _ _ hserver
          refine hinv.read hi hserver rfl ?_ (by simp) (by simp [numbers]) ?_
          · rw [List.map_append]
            exact hinv.world.next _
          · exact .answered ((doRead_append hreads [bytes]).trans hcons)
              (List.mem_append_right _ (List.mem_singleton_self _)) hres
      | more conn =>
          obtain ⟨server, hserver, heq⟩ := Option.bind_eq_some_iff.mp hstep'
          obtain ⟨rfl, rfl⟩ := Prod.mk.inj (Option.some.inj heq)
          obtain ⟨hlog, hreads⟩ := hread _ _ hserver
          have hres := (hinv.reading hi hserver).1
          refine hinv.read hi hserver (by simp [hres]) hkept (by simp) .nil ?_
          rw [hres, List.append_nil]
          exact .reading ((doRead_append hreads [bytes]).trans hcons) hlog
  | readError i => exact hinv.serverOnly (by simp) (.readError i) hstep
  | readAborted i => exact hinv.serverOnly (by simp) (.readAborted i) hstep
  | write i completion => exact hinv.serverOnly (by simp) (.write i completion) hstep
  | stop => exact hinv.serverOnly (by simp) .stop hstep
  | expire session =>
      obtain ⟨rfl, rfl⟩ := Prod.mk.inj (Option.some.inj hstep)
      refine hinv.other (by simp) hinv.server rfl ?_ rfl (by simp)
      rw [List.map_append]
      exact hinv.world.next (.expire session)

theorem invariant_run (hrun : Run L parse argon2 h events log s) :
    Invariant L parse argon2 h events log s := by
  induction hrun with
  | start => exact invariant_start
  | next _ e hstep ih => exact invariant_step ih hstep

theorem Invariant.lt_of_mem (hinv : Invariant L parse argon2 h events log s) {i : ℕ}
    (hi : i ∈ numbers log) : i < s.clients.length := by
  by_contra hlt
  exact (hinv.fresh i (Nat.le_of_not_lt hlt)).2 hi

/-- The beginning of a run is a run, and what it has done is the beginning of what the
whole run has done. -/
theorem Run.of_append {events' : List Event}
    (hrun : Run L parse argon2 h (events ++ events') log s) :
    ∃ log₁ log₂ s₁, log = log₁ ++ log₂ ∧ Run L parse argon2 h events log₁ s₁ := by
  generalize hall : events ++ events' = es at hrun
  induction hrun generalizing events' with
  | start =>
      obtain ⟨rfl, -⟩ := List.append_eq_nil_iff.mp hall
      exact ⟨[], [], {}, rfl, .start⟩
  | @next es log s s' entries hrun e hstep ih =>
      rcases List.eq_nil_or_concat events' with rfl | ⟨events', e', rfl⟩
      · rw [List.append_nil] at hall
        subst hall
        exact ⟨_, [], s', (List.append_nil _).symm, hrun.next e hstep⟩
      · rw [List.concat_eq_append, ← List.append_assoc] at hall
        obtain ⟨log₁, log₂, s₁, rfl, hrun₁⟩ := ih (List.append_inj' hall rfl).1
        exact ⟨log₁, log₂ ++ entries, s₁, List.append_assoc .., hrun₁⟩

/-- However the reads of the connections come, the world is that of the application on
the handled requests one after the other, in the order of the reads that complete them.
Each connection is handled at most once, with the request that its own reads make, and
answered with the response to it. -/
theorem linearized (hrun : Run L parse argon2 h events log s) :
    App.Run argon2 h (log.map Prod.snd) s.world ∧ (numbers log).Nodup ∧
      (∀ i client, s.clients[i]? = some client →
        Answers L parse h log i (readsOf i events) client) ∧
      (∀ i ∈ numbers log, i < s.clients.length) ∧
      ∀ events₁ events₂, events = events₁ ++ events₂ → ∃ log₁ log₂ s₁, log = log₁ ++ log₂ ∧
        Run L parse argon2 h events₁ log₁ s₁ := by
  have hinv := invariant_run hrun
  refine ⟨hinv.world, hinv.nodup, hinv.answers, fun i hi => hinv.lt_of_mem hi, ?_⟩
  rintro events₁ events₂ rfl
  exact hrun.of_append

/-- Two connections read by turns, and the one that was accepted later is answered
first. -/
def sampleEvents : List Event :=
  [.accept true, .accept true, .read 0 (lit "\r\nGET") ⟨.empty, true, .empty⟩,
    .read 1 (lit "\r\nGET / ") ⟨.empty, true, .empty⟩,
    .read 1 (lit "HTTP/1.0\r\n\r\n") ⟨.empty, true, .empty⟩, .write 1 (.done ()),
    .read 0 (lit " / HTTP/1.0\r\n\r\n") ⟨.empty, true, .empty⟩]

theorem linearized_sample :
    ∃ log s, Run Http.sampleRecording.parser (fun _ => .null) sampleArgon2
        Api.Auth.sampleApp sampleEvents log s ∧ numbers log = [1, 0] ∧
      App.Run sampleArgon2 Api.Auth.sampleApp (log.map Prod.snd) s.world := by
  have hrun : Run Http.sampleRecording.parser (fun _ => .null) sampleArgon2 Api.Auth.sampleApp
      sampleEvents _ _ :=
    .next (.next (.next (.next (.next (.next (.next .start _ rfl) _ rfl) _ rfl) _ rfl) _ rfl)
      _ rfl) _ rfl
  exact ⟨_, _, hrun, rfl, (linearized hrun).1⟩

end Site

end RePlace
