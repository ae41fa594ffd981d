import RePlace.Data.History
import RePlace.Http.Server

/-!
# The life cycle of a connection

A connection reads, then writes one response, then is over. The set of the
connection manager holds only connections with an open socket that are waiting for
something; as `operation_aborted` comes on closed sockets only, no connection can
end unnoticed in the set. All this is an invariant of the steps, in whatever order
completions arrive.
-/

namespace RePlace.Http.Server

/-! ## What a step does -/

section Steps

variable {s s' : Server} {i : ℕ}

theorem step_accept {ok : Bool} : s.step (.accept ok) = some s' ↔
    s.accepting ≠ 0 ∧ ({ s with accepting := s.accepting - 1 } : Server).onAccept ok = s' := by
  simp only [step, Option.ite_none_left_eq_some, Option.some.injEq, ne_eq]

theorem step_read {completion : Completion Received} :
    s.step (.read i completion) = some s' ↔ ∃ c, s.connections[i]? = some c ∧
      c.CanComplete .read completion = true ∧
        (s.modify i fun c => c.complete .read).onRead i completion = s' := by
  simp only [step, Option.ite_none_right_eq_some, Option.some.injEq, Option.any_eq_true,
    ← exists_and_right, and_assoc]

theorem step_write {completion : Completion Unit} :
    s.step (.write i completion) = some s' ↔ ∃ c, s.connections[i]? = some c ∧
      c.CanComplete .write completion = true ∧
        (s.modify i fun c => c.complete .write).onWrite i completion = s' := by
  simp only [step, Option.ite_none_right_eq_some, Option.some.injEq, Option.any_eq_true,
    ← exists_and_right, and_assoc]

theorem step_stop : s.step .stop = some s' ↔
    s.awaitingStop = true ∧ ({ s with awaitingStop := false } : Server).onStop = s' := by
  simp only [step, Option.ite_none_right_eq_some, Option.some.injEq]

end Steps

/-! ## The stages of a connection -/

namespace Connection

/-- It waits for a request. -/
def Reading (c : Connection) : Prop := c.outstanding = [.read] ∧ c.handled = 0 ∧ c.writes = 0

/-- It writes its only response. -/
def Writing (c : Connection) : Prop := c.outstanding = [.write] ∧ c.handled ≤ 1 ∧ c.writes = 1

/-- It waits for nothing any more. -/
def Over (c : Connection) : Prop := c.outstanding = [] ∧ c.handled ≤ 1 ∧ c.writes ≤ 1

/-- The stages that a connection goes through. -/
def Staged (c : Connection) : Prop := c.Reading ∨ c.Writing ∨ c.Over

theorem reading_start : ({} : Connection).start.Reading := ⟨rfl, rfl, rfl⟩

theorem Staged.stop {c : Connection} (h : c.Staged) : c.stop.Staged := h

/-- Only a connection that reads completes a read. -/
theorem Staged.reading {c : Connection} (h : c.Staged) (hread : .read ∈ c.outstanding) :
    c.Reading := by
  rcases h with h | h | h
  · exact h
  · simp [h.1] at hread
  · simp [h.1] at hread

/-- Only a connection that writes completes a write. -/
theorem Staged.writing {c : Connection} (h : c.Staged) (hwrite : .write ∈ c.outstanding) :
    c.Writing := by
  rcases h with h | h | h
  · simp [h.1] at hwrite
  · exact h
  · simp [h.1] at hwrite

theorem Reading.complete {c : Connection} (h : c.Reading) : (c.complete .read).Over := by
  obtain ⟨hout, hhandled, hwrites⟩ := h
  simp [Over, Connection.complete, hout, hhandled, hwrites]

theorem Writing.complete {c : Connection} (h : c.Writing) : (c.complete .write).Over := by
  obtain ⟨hout, hhandled, hwrites⟩ := h
  simp [Over, Connection.complete, hout, hhandled, hwrites]

/-- A read whose message is not complete is followed by the next. -/
theorem Reading.doRead {c : Connection} (h : c.Reading) : (c.complete .read).doRead.Reading := by
  obtain ⟨hout, hhandled, hwrites⟩ := h
  simp [Reading, Connection.doRead, Connection.complete, hout, hhandled, hwrites]

/-- A read that the parser rejects is followed by the response. -/
theorem Reading.doWrite {c : Connection} (h : c.Reading) : (c.complete .read).doWrite.Writing := by
  obtain ⟨hout, hhandled, hwrites⟩ := h
  simp [Writing, Connection.doWrite, Connection.complete, hout, hhandled, hwrites]

/-- A complete message is handled before the response. -/
theorem Reading.handle {c : Connection} (h : c.Reading) :
    (c.complete .read).handle.doWrite.Writing := by
  obtain ⟨hout, hhandled, hwrites⟩ := h
  simp [Writing, Connection.doWrite, Connection.handle, Connection.complete, hout, hhandled,
    hwrites]

end Connection

/-! ## The invariant -/

/-- Every connection is in one of its stages, and the set holds open connections that
wait for something; it is empty once the acceptor is closed. -/
structure Invariant (s : Server) : Prop where
  staged : ∀ (i : ℕ) (c : Connection), s.connections[i]? = some c → c.Staged
  managed : ∀ i ∈ s.managed, ∃ c : Connection, s.connections[i]? = some c ∧
    c.socketOpen = true ∧ c.outstanding ≠ []
  stopped : s.acceptorOpen = false → s.managed = ∅

theorem invariant_init : Invariant {} where
  staged := by simp
  managed := by simp
  stopped := by simp

variable {s : Server}

/-- What is done about one connection keeps the invariant if the connection is in a
stage, and open and waiting if it is still in the set. -/
theorem Invariant.update (h : Invariant s) {s' : Server} {i : ℕ} {c' : Connection}
    (hi : s'.connections[i]? = some c')
    (hother : ∀ j, i ≠ j → s'.connections[j]? = s.connections[j]?) (hstaged : c'.Staged)
    (hsub : s'.managed ⊆ s.managed)
    (hopen : i ∈ s'.managed → c'.socketOpen = true ∧ c'.outstanding ≠ [])
    (hacceptor : s'.acceptorOpen = s.acceptorOpen) : Invariant s' where
  staged j c hj := by
    by_cases hij : i = j
    · obtain rfl := hij
      rwa [← Option.some.inj (hi.symm.trans hj)]
    · exact h.staged j c ((hother j hij).symm.trans hj)
  managed j hj := by
    by_cases hij : i = j
    · obtain rfl := hij
      exact ⟨c', hi, hopen hj⟩
    · rw [hother j hij]
      exact h.managed j (hsub hj)
  stopped hclosed := by
    rw [hacceptor] at hclosed
    exact Finset.subset_empty.mp (h.stopped hclosed ▸ hsub)

/-- A managed connection is open. -/
theorem Invariant.open_of_managed (h : Invariant s) {i : ℕ} {c : Connection}
    (hi : s.connections[i]? = some c) (hmem : i ∈ s.managed) : c.socketOpen = true := by
  obtain ⟨c', hi', hopen, -⟩ := h.managed i hmem
  rwa [Option.some.inj (hi.symm.trans hi')]

/-! ## The steps -/

theorem invariant_accept (h : Invariant s) (ok : Bool) :
    Invariant (({ s with accepting := s.accepting - 1 } : Server).onAccept ok) := by
  unfold onAccept
  by_cases hclosed : s.acceptorOpen = false
  · rw [if_pos hclosed]
    exact ⟨h.staged, h.managed, h.stopped⟩
  · rw [if_neg hclosed]
    cases ok with
    | false => exact ⟨h.staged, h.managed, h.stopped⟩
    | true =>
        have hopen : s.acceptorOpen = true := by simpa using hclosed
        have hnew : (s.connections ++ [({} : Connection).start])[s.connections.length]? =
            some ({} : Connection).start := List.getElem?_concat_length
        refine ⟨fun i c hi => ?_, fun i hi => ?_, fun hfalse => ?_⟩
        · rcases Nat.lt_trichotomy i s.connections.length with hlt | rfl | hgt
          · exact h.staged i c ((List.getElem?_append_left hlt).symm.trans hi)
          · rw [← Option.some.inj (hnew.symm.trans hi)]
            exact .inl Connection.reading_start
          · have hnone : (s.connections ++ [({} : Connection).start])[i]? = none :=
              List.getElem?_eq_none (by simpa using Nat.succ_le_of_lt hgt)
            cases hnone.symm.trans hi
        · rcases Finset.mem_insert.mp hi with rfl | hi
          · exact ⟨_, hnew, rfl, by simp [Connection.start, Connection.doRead]⟩
          · obtain ⟨c, hc, hwaits⟩ := h.managed i hi
            have hlt := (List.getElem?_eq_some_iff.mp hc).1
            exact ⟨c, (List.getElem?_append_left hlt).trans hc, hwaits⟩
        · exact absurd (hopen.symm.trans hfalse) (by decide)

/-- Stopping a connection that is over takes it out of the set. -/
theorem invariant_managerStop (h : Invariant s) {i : ℕ} {c : Connection} {op : Operation}
    (hi : s.connections[i]? = some c) (hover : (c.complete op).Over) :
    Invariant ((s.modify i fun c => c.complete op).managerStop i) := by
  have hat : ((s.modify i fun c => c.complete op).managerStop i).connections[i]? =
      some (c.complete op).stop := by
    simp [managerStop, modify, hi]
  refine h.update hat ?_ (.inr (.inr hover)) ?_ ?_ rfl
  · intro j hij
    simp [managerStop, modify, hij]
  · exact Finset.erase_subset i s.managed
  · intro hmem
    exact absurd hmem (Finset.notMem_erase i s.managed)

/-- A completion after which the connection goes on with an operation. -/
theorem invariant_continue (h : Invariant s) {i : ℕ} {c : Connection} {f : Connection → Connection}
    (hi : s.connections[i]? = some c) (hstaged : (f c).Staged)
    (hopen : (f c).socketOpen = c.socketOpen) (hwaits : (f c).outstanding ≠ []) :
    Invariant (s.modify i f) := by
  have hat : (s.modify i f).connections[i]? = some (f c) := by
    simp [modify, hi]
  refine h.update hat ?_ hstaged (Finset.Subset.refl _) ?_ rfl
  · intro j hij
    simp [modify, hij]
  · intro hmem
    rw [hopen]
    exact ⟨h.open_of_managed hi hmem, hwaits⟩

/-- An aborted operation was on a closed socket, which the set does not hold. -/
theorem invariant_aborted (h : Invariant s) {i : ℕ} {c : Connection} {op : Operation}
    (hi : s.connections[i]? = some c) (hover : (c.complete op).Over)
    (hclosed : c.socketOpen = false) :
    Invariant (s.modify i fun c => c.complete op) := by
  have hat : (s.modify i fun c => c.complete op).connections[i]? = some (c.complete op) := by
    simp [modify, hi]
  refine h.update hat ?_ (.inr (.inr hover)) (Finset.Subset.refl _) ?_ rfl
  · intro j hij
    simp [modify, hij]
  · intro hmem
    exact absurd (hclosed.symm.trans (h.open_of_managed hi hmem)) (by decide)

theorem modify_modify (s : Server) (i : ℕ) (f g : Connection → Connection) :
    (s.modify i f).modify i g = s.modify i (g ∘ f) := by
  simp [modify, List.modify_modify_eq]

theorem invariant_read (h : Invariant s) {i : ℕ} {c : Connection}
    (hi : s.connections[i]? = some c) {completion : Completion Received}
    (hcan : c.CanComplete .read completion = true) :
    Invariant ((s.modify i fun c => c.complete .read).onRead i completion) := by
  simp only [Connection.CanComplete, decide_eq_true_eq] at hcan
  obtain ⟨hmem, hsocket⟩ := hcan
  have hreading := (h.staged i c hi).reading hmem
  cases completion with
  | done received =>
      cases received with
      | parseError =>
          rw [onRead, modify_modify]
          exact invariant_continue h hi (.inr (.inl hreading.doWrite)) rfl (by
            simp [Connection.doWrite])
      | complete =>
          rw [onRead, modify_modify]
          exact invariant_continue h hi (.inr (.inl hreading.handle)) rfl (by
            simp [Connection.doWrite])
      | incomplete =>
          rw [onRead, modify_modify]
          exact invariant_continue h hi (.inl hreading.doRead) rfl (by
            simp [Connection.doRead])
  | error => exact invariant_managerStop h hi hreading.complete
  | aborted =>
      have hclosed : c.socketOpen = false := by simpa [Completion.isAborted] using hsocket
      exact invariant_aborted h hi hreading.complete hclosed

theorem invariant_write (h : Invariant s) {i : ℕ} {c : Connection}
    (hi : s.connections[i]? = some c) {completion : Completion Unit}
    (hcan : c.CanComplete .write completion = true) :
    Invariant ((s.modify i fun c => c.complete .write).onWrite i completion) := by
  simp only [Connection.CanComplete, decide_eq_true_eq] at hcan
  obtain ⟨hmem, hsocket⟩ := hcan
  have hwriting := (h.staged i c hi).writing hmem
  cases completion with
  | done _ => exact invariant_managerStop h hi hwriting.complete
  | error => exact invariant_managerStop h hi hwriting.complete
  | aborted =>
      have hclosed : c.socketOpen = false := by simpa [Completion.isAborted] using hsocket
      exact invariant_aborted h hi hwriting.complete hclosed

/-- The stop signal empties the set and closes what was in it. -/
theorem invariant_stop (h : Invariant s) :
    Invariant ({ s with awaitingStop := false } : Server).onStop where
  staged i c hi := by
    simp only [onStop, stopAll, List.getElem?_mapIdx, Option.map_eq_some_iff] at hi
    obtain ⟨c, hc, rfl⟩ := hi
    split
    · exact (h.staged i c hc).stop
    · exact h.staged i c hc
  managed := by simp [onStop, stopAll]
  stopped := by simp [onStop, stopAll]

theorem invariant_step (h : Invariant s) {e : Event} {s' : Server} (hstep : s.step e = some s') :
    Invariant s' := by
  cases e with
  | accept ok =>
      obtain ⟨-, rfl⟩ := step_accept.mp hstep
      exact invariant_accept h ok
  | read i completion =>
      obtain ⟨c, hi, hcan, rfl⟩ := step_read.mp hstep
      exact invariant_read h hi hcan
  | write i completion =>
      obtain ⟨c, hi, hcan, rfl⟩ := step_write.mp hstep
      exact invariant_write h hi hcan
  | stop =>
      obtain ⟨-, rfl⟩ := step_stop.mp hstep
      exact invariant_stop h

/-! ## The signal -/

@[simp] theorem onRead_acceptorOpen (s : Server) (i : ℕ) (completion : Completion Received) :
    (s.onRead i completion).acceptorOpen = s.acceptorOpen := by
  cases completion with
  | done received => cases received <;> rfl
  | error => rfl
  | aborted => rfl

@[simp] theorem onWrite_acceptorOpen (s : Server) (i : ℕ) (completion : Completion Unit) :
    (s.onWrite i completion).acceptorOpen = s.acceptorOpen := by
  cases completion <;> rfl

@[simp] theorem onAccept_acceptorOpen (s : Server) (ok : Bool) :
    (s.onAccept ok).acceptorOpen = s.acceptorOpen := by
  unfold onAccept
  split
  · rfl
  · cases ok <;> rfl

/-- The signal closes the acceptor, and nothing opens it again. -/
theorem acceptorOpen_step {e : Event} {s' : Server} (hstep : s.step e = some s')
    (h : s.acceptorOpen = false ∨ e = .stop) : s'.acceptorOpen = false := by
  cases e with
  | accept ok =>
      obtain ⟨-, rfl⟩ := step_accept.mp hstep
      rw [onAccept_acceptorOpen]
      exact h.resolve_right (by simp)
  | read i completion =>
      obtain ⟨c, -, -, rfl⟩ := step_read.mp hstep
      rw [onRead_acceptorOpen]
      exact h.resolve_right (by simp)
  | write i completion =>
      obtain ⟨c, -, -, rfl⟩ := step_write.mp hstep
      rw [onWrite_acceptorOpen]
      exact h.resolve_right (by simp)
  | stop =>
      obtain ⟨-, rfl⟩ := step_stop.mp hstep
      rfl

/-! ## Runs -/

/-- The states that the server reaches from its start with some completions. -/
def Run (events : List Event) (s : Server) : Prop := History.runAll step {} events = some s

theorem invariant_run {events : List Event} (hrun : Run events s) :
    Invariant s ∧ (.stop ∈ events → s.acceptorOpen = false) := by
  refine History.runAll_induction
    (K := fun events s => Invariant s ∧ (.stop ∈ events → s.acceptorOpen = false))
    ⟨invariant_init, by simp⟩ ?_ hrun
  rintro events s e s' ⟨hinv, hclosed⟩ hstep
  refine ⟨invariant_step hinv hstep, fun hmem => acceptorOpen_step hstep ?_⟩
  rcases List.mem_append.mp hmem with hmem | hmem
  · exact .inl (hclosed hmem)
  · exact .inr (List.mem_singleton.mp hmem).symm

/-- In every state that is reached, each connection waits for at most one operation,
has begun at most one response and has called `handle_request` at most once; it waits
for exactly one if it is in the set, and is not in the set if it waits for none. The
set holds connections only, and none from the stop signal on. -/
theorem life_cycle {events : List Event} (hrun : Run events s) :
    (∀ (i : ℕ) (c : Connection), s.connections[i]? = some c →
      c.outstanding.length ≤ 1 ∧ c.writes ≤ 1 ∧ c.handled ≤ 1 ∧
        (i ∈ s.managed → c.outstanding.length = 1) ∧ (c.outstanding = [] → i ∉ s.managed)) ∧
      (∀ i ∈ s.managed, i < s.connections.length) ∧
      (.stop ∈ events → s.managed = ∅) := by
  obtain ⟨hinv, hclosed⟩ := invariant_run hrun
  refine ⟨fun i c hi => ?_, fun i hmem => ?_, fun hstop => hinv.stopped (hclosed hstop)⟩
  · have hwaits : i ∈ s.managed → c.outstanding ≠ [] := by
      intro hmem
      obtain ⟨c', hi', -, hne⟩ := hinv.managed i hmem
      rwa [Option.some.inj (hi.symm.trans hi')]
    have hout : c.outstanding.length ≤ 1 ∧ c.writes ≤ 1 ∧ c.handled ≤ 1 := by
      rcases hinv.staged i c hi with ⟨ho, hh, hw⟩ | ⟨ho, hh, hw⟩ | ⟨ho, hh, hw⟩
      · simp [ho, hh, hw]
      · simp [ho, hh, hw]
      · simp [ho, hh, hw]
    refine ⟨hout.1, hout.2.1, hout.2.2, fun hmem => ?_, fun hnil hmem => hwaits hmem hnil⟩
    have hpos := List.length_pos_iff.mpr (hwaits hmem)
    omega
  · obtain ⟨c, hc, -⟩ := hinv.managed i hmem
    exact (List.getElem?_eq_some_iff.mp hc).1

/-- One connection is served; the signal comes while another is reading, and a read of
it that was already queued asks for more before the next is aborted. -/
def sampleEvents : List Event :=
  [.accept true, .read 0 (.done .complete), .accept true, .write 0 (.done ()), .stop,
    .read 1 (.done .incomplete), .read 1 .aborted, .accept true]

theorem life_cycle_sample :
    ∃ s, Run sampleEvents s ∧ s.connections.length = 2 ∧ s.managed = ∅ :=
  ⟨_, rfl, rfl, (@life_cycle _ sampleEvents rfl).2.2 (by decide)⟩

end RePlace.Http.Server
