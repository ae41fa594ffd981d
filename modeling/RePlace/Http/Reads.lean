import RePlace.Http.Connection
import RePlace.Http.LifeCycle

/-!
# Reads as steps of the server

The server does not look into what is read: a read completes with a parse error,
with a complete message, or with neither. `receivedOf` says which completions come
from given bytes; the server takes them one after the other, and the connection
is then in the stage that `do_read` has left it in (`runAll_of_doRead`).
-/

namespace RePlace.Http

open History (runAll)
open Server (Received Completion)

variable {σ δ ε : Type}

/-- The completions of the reads of these bytes, until the connection reads no more. -/
def receivedOf (L : LLHttp σ) : σ → List Bytes → List Received
  | _, [] => []
  | parser, bytes :: reads =>
      let e := L.execute parser bytes
      if e.errno ≠ 0 then [.parseError]
      else if L.finish e.parser = 0 then [.complete]
      else .incomplete :: receivedOf L e.parser reads

/-- The completions as events of the server. -/
def readEvents (i : ℕ) (received : List Received) : List Server.Event :=
  received.map fun r => .read i (.done r)

/-- A connection stands where `do_read` has come to. -/
def Served.Stands : Served σ δ ε → Server.Connection → Prop
  | .reading _, c => c.Reading
  | .badRequest _ _, c => c.Writing ∧ c.handled = 0
  | .handled _ _ _, c => c.Writing ∧ c.handled = 1

namespace Server

/-- What a connection is after a read with a result. -/
def Connection.after (c : Connection) : Received → Connection
  | .parseError => (c.complete .read).doWrite
  | .complete => (c.complete .read).handle.doWrite
  | .incomplete => (c.complete .read).doRead

/-- A connection that reads can complete a read with any result. -/
theorem step_of_reading {s : Server} {i : ℕ} {c : Connection} (hi : s.connections[i]? = some c)
    (hc : c.Reading) (received : Received) :
    ∃ s', s.step (.read i (.done received)) = some s' ∧
      s'.connections[i]? = some (c.after received) := by
  have hcan : c.CanComplete .read (.done received) = true := by
    simp [Connection.CanComplete, hc.1, Completion.isAborted]
  refine ⟨_, step_read.mpr ⟨c, hi, hcan, rfl⟩, ?_⟩
  cases received with
  | parseError => simp [onRead, modify, hi, Connection.after]
  | complete => simp [onRead, modify, hi, Connection.after]
  | incomplete => simp [onRead, modify, hi, Connection.after]

/-- The bytes that a connection reads are a run of the server, which leaves the
connection in the stage that they have brought it to. -/
theorem runAll_of_doRead {L : LLHttp σ} {parse : CString → Json} {h : RequestHandler δ ε}
    {reads : List Bytes} {conn : Http.Connection σ} {served : Served σ δ ε}
    (hread : Http.doRead L parse h conn reads = some served)
    {s : Server} {i : ℕ} {c : Connection} (hi : s.connections[i]? = some c) (hc : c.Reading) :
    ∃ s' c', runAll step s (readEvents i (receivedOf L conn.parser reads)) = some s' ∧
      s'.connections[i]? = some c' ∧ served.Stands c' := by
  induction reads generalizing conn s c with
  | nil =>
      obtain rfl := Option.some.inj hread
      exact ⟨s, c, rfl, hi, hc⟩
  | cons bytes reads ih =>
      rw [Http.doRead] at hread
      obtain ⟨data, -, hread⟩ := Option.bind_eq_some_iff.mp hread
      rw [receivedOf]
      by_cases herr : (L.execute conn.parser bytes).errno ≠ 0
      · rw [if_pos herr] at hread ⊢
        obtain rfl := Option.some.inj hread
        obtain ⟨s', hstep, hi'⟩ := step_of_reading hi hc .parseError
        exact ⟨s', _, by simp [runAll, readEvents, hstep], hi', hc.doWrite, hc.2.1⟩
      · rw [if_neg herr] at hread ⊢
        by_cases hfinish : L.finish (L.execute conn.parser bytes).parser = 0
        · rw [if_pos hfinish] at hread ⊢
          obtain rfl := Option.some.inj hread
          obtain ⟨s', hstep, hi'⟩ := step_of_reading hi hc .complete
          exact ⟨s', _, by simp [runAll, readEvents, hstep], hi', hc.handle,
            congrArg (· + 1) hc.2.1⟩
        · rw [if_neg hfinish] at hread ⊢
          obtain ⟨s₁, hstep, hi₁⟩ := step_of_reading hi hc .incomplete
          obtain ⟨s', c', hrun, hi', hstands⟩ := ih hread hi₁ hc.doRead
          refine ⟨s', c', ?_, hi', hstands⟩
          rw [readEvents, List.map_cons, runAll, List.foldlM_cons, hstep]
          exact hrun

end Server

end RePlace.Http
