import Mathlib.Data.List.Basic
import Mathlib.Data.List.Induction

/-!
# Runs and their histories

A machine makes a step for every input and gives an output. `Run` is the relation
between the history of a run, its inputs with their outputs in the order of time,
and the state it has reached; `Run.induction` is the rule for invariants that
speak about both. `Since` says that something has been opened at some point of a
history and has not been closed since. A machine that can refuse an input has a
state after a list of inputs only if it takes them all (`runAll`).
-/

namespace History

variable {ς α β : Type*}

/-- The histories of a machine and the states they lead to. -/
inductive Run (step : ς → α → ς × β) (init : ς) : List (α × β) → ς → Prop
  | start : Run step init [] init
  | next {hist : List (α × β)} {s : ς} (h : Run step init hist s) (a : α) :
      Run step init (hist ++ [(a, (step s a).2)]) (step s a).1

/-- What holds at the start and is kept by every step holds throughout. -/
theorem Run.induction {step : ς → α → ς × β} {init : ς} {K : List (α × β) → ς → Prop}
    (hstart : K [] init)
    (hnext : ∀ hist s a, K hist s → K (hist ++ [(a, (step s a).2)]) (step s a).1)
    {hist : List (α × β)} {s : ς} (h : Run step init hist s) : K hist s := by
  induction h with
  | start => exact hstart
  | next _ a ih => exact hnext _ _ a ih

/-- A run up to one of its entries, which is an input with the output of the state
before it. -/
theorem Run.of_append {step : ς → α → ς × β} {init : ς} {pre post : List (α × β)} {e : α × β}
    {s : ς} (h : Run step init (pre ++ e :: post) s) :
    ∃ s', Run step init pre s' ∧ e.2 = (step s' e.1).2 := by
  generalize hhist : pre ++ e :: post = hist at h
  induction h generalizing post with
  | start => simp at hhist
  | @next hist s hrun a ih =>
      rcases List.eq_nil_or_concat post with rfl | ⟨post, e', rfl⟩
      · obtain ⟨rfl, he⟩ := List.append_inj' hhist rfl
        obtain rfl := List.cons.inj he |>.1
        exact ⟨s, hrun, rfl⟩
      · rw [List.concat_eq_append, ← List.cons_append, ← List.append_assoc] at hhist
        exact ih (List.append_inj' hhist rfl).1

/-- Each entry of a run is an input with the output of some state. -/
theorem Run.exists_state {step : ς → α → ς × β} {init : ς} {hist : List (α × β)} {s : ς}
    (h : Run step init hist s) {e : α × β} (he : e ∈ hist) : ∃ s', e.2 = (step s' e.1).2 := by
  obtain ⟨pre, post, rfl⟩ := List.append_of_mem he
  obtain ⟨s', -, hs'⟩ := h.of_append
  exact ⟨s', hs'⟩

section Since

variable {opens : List α → α → Prop} {closes : α → Prop}

/-- Some entry opens, given the history before it, and no later entry closes. -/
def Since (opens : List α → α → Prop) (closes : α → Prop) (hist : List α) : Prop :=
  ∃ pre e post, hist = pre ++ e :: post ∧ opens pre e ∧ ∀ e' ∈ post, ¬ closes e'

theorem not_since_nil : ¬ Since opens closes [] := by
  rintro ⟨pre, e, post, h, -⟩
  simp at h

/-- The last entry opens, or it leaves open what has been. -/
theorem since_concat {hist : List α} {e : α} :
    Since opens closes (hist ++ [e]) ↔
      opens hist e ∨ Since opens closes hist ∧ ¬ closes e := by
  constructor
  · rintro ⟨pre, e', post, h, hopen, hpost⟩
    rcases List.eq_nil_or_concat post with rfl | ⟨post, e'', rfl⟩
    · obtain ⟨rfl, he⟩ := List.append_inj' h rfl
      obtain rfl : e = e' := by simpa using he
      exact .inl hopen
    · obtain ⟨rfl, rfl⟩ : hist = pre ++ e' :: post ∧ e = e'' := by
        rw [List.concat_eq_append, ← List.cons_append, ← List.append_assoc] at h
        obtain ⟨hpre, he⟩ := List.append_inj' h rfl
        exact ⟨hpre, by simpa using he⟩
      exact .inr ⟨⟨pre, e', post, rfl, hopen, fun x hx => hpost x (by simp [hx])⟩,
        hpost e (by simp)⟩
  · rintro (hopen | ⟨⟨pre, e', post, rfl, hopen, hpost⟩, he⟩)
    · exact ⟨hist, e, [], rfl, hopen, by simp⟩
    · refine ⟨pre, e', post ++ [e], by simp, hopen, fun x hx => ?_⟩
      rcases List.mem_append.mp hx with hx | hx
      · exact hpost x hx
      · obtain rfl := List.mem_singleton.mp hx
        exact he

theorem since_singleton {e : α} : Since opens closes [e] ↔ opens [] e := by
  have := @since_concat α opens closes [] e
  rw [List.nil_append] at this
  rw [this]
  exact or_iff_left fun h => not_since_nil h.1

/-- A history behind another opens, given the first, or it leaves open what has been. -/
theorem since_append {hist hist' : List α} :
    Since opens closes (hist ++ hist') ↔ Since (fun pre => opens (hist ++ pre)) closes hist' ∨
      Since opens closes hist ∧ ∀ e ∈ hist', ¬ closes e := by
  induction hist' using List.reverseRecOn with
  | nil => simp [not_since_nil]
  | append_singleton hist' e ih =>
      rw [← List.append_assoc, since_concat, since_concat, ih]
      simp only [List.mem_append, List.mem_singleton, or_imp, forall_and, forall_eq]
      tauto

/-- A history that is put together from those of its entries. -/
theorem since_flatMap {f : β → List α} {hist : List β} :
    Since opens closes (hist.flatMap f) ↔
      Since (fun pre e => Since (fun mid => opens (pre.flatMap f ++ mid)) closes (f e))
        (fun e => ∃ x ∈ f e, closes x) hist := by
  induction hist using List.reverseRecOn with
  | nil => simp [not_since_nil]
  | append_singleton hist e ih =>
      rw [List.flatMap_append, List.flatMap_singleton, since_append, since_concat, ih]
      simp only [not_exists, not_and]

/-- Only what the entries of a history open and close matters. -/
theorem since_congr {opens' : List α → α → Prop} {closes' : α → Prop} {hist : List α}
    (hopens : ∀ pre, ∀ e ∈ hist, pre <+: hist → (opens pre e ↔ opens' pre e))
    (hcloses : ∀ e ∈ hist, closes e ↔ closes' e) :
    Since opens closes hist ↔ Since opens' closes' hist := by
  unfold Since
  refine exists₃_congr fun pre e post => and_congr_right ?_
  rintro rfl
  refine and_congr (hopens pre e (by simp) (List.prefix_append _ _)) ?_
  refine forall₂_congr fun e' he' => ?_
  rw [hcloses e' (by simp [he'])]

/-- What opens only with something that has happened needs it to have happened. -/
theorem Since.exists_mem {hist : List α} (h : Since opens closes hist) :
    ∃ pre, ∃ e ∈ hist, opens pre e ∧ pre <+: hist := by
  obtain ⟨pre, e, post, rfl, hopen, -⟩ := h
  exact ⟨pre, e, by simp, hopen, List.prefix_append _ _⟩

end Since

section RunAll

variable {step : ς → α → Option ς} {init : ς}

/-- The state after some inputs of a machine that can refuse them. -/
def runAll (step : ς → α → Option ς) (init : ς) (inputs : List α) : Option ς :=
  inputs.foldlM step init

/-- What holds at the start and is kept by every input that is taken holds
throughout. -/
theorem runAll_induction {K : List α → ς → Prop} (hstart : K [] init)
    (hnext : ∀ inputs s a s', K inputs s → step s a = some s' → K (inputs ++ [a]) s')
    {inputs : List α} {s : ς} (h : runAll step init inputs = some s) : K inputs s := by
  induction inputs using List.reverseRecOn generalizing s with
  | nil => exact Option.some.inj h ▸ hstart
  | append_singleton inputs a ih =>
      rw [runAll, List.foldlM_append] at h
      obtain ⟨s', hs', hstep⟩ := Option.bind_eq_some_iff.mp h
      exact hnext inputs s' a s (ih hs') (by simpa using hstep)

/-- Two machines that take the same inputs to related states, from related states, do
so with all lists of inputs. -/
theorem runAll_rel {τ : Type*} {step' : τ → α → Option τ} {init' : τ} {R : ς → τ → Prop}
    (hinit : R init init')
    (hstep : ∀ s t a, R s t → Option.Rel R (step s a) (step' t a)) (inputs : List α) :
    Option.Rel R (runAll step init inputs) (runAll step' init' inputs) := by
  induction inputs generalizing init init' with
  | nil => exact .some hinit
  | cons a inputs ih =>
      rw [runAll, runAll, List.foldlM_cons, List.foldlM_cons]
      have hrel := hstep init init' a hinit
      generalize step init a = v, step' init' a = w at hrel
      cases hrel with
      | none => exact .none
      | some h => exact ih h

end RunAll

end History
