import Mathlib.Data.List.Forall2
import Mathlib.Data.List.ReduceOption
import RePlace.Data.History

/-!
# Machines that follow each other

A machine follows another one when each of its steps is a step of the other or is left
out there, and the states stay related. Its runs are then runs of the other machine
(`Run.simulate`): every entry of the history stands for an entry of the other one, or
for none, in the order of time. The inputs that matter to a part of the state are then a run
of that part by themselves (`Run.project`). On inputs that correspond to each other, two
machines can also run side by side (`Run.lockstep`).
-/

namespace History

open List (Forall₂ reduceOption)

variable {ς τ α β γ δ : Type*}

/-- A run, entry by entry, as a run of the machine that it follows. -/
theorem Run.simulate {step : ς → α → ς × β} {init : ς} {step' : τ → γ → τ × δ} {init' : τ}
    {R : τ → ς → Prop} {E : γ × δ → Option (α × β) → Prop} {V : γ → Prop} (hinit : R init' init)
    (hstep : ∀ t s c, V c → R t s →
      (E (c, (step' t c).2) none ∧ R (step' t c).1 s) ∨
        ∃ a, E (c, (step' t c).2) (some (a, (step s a).2)) ∧ R (step' t c).1 (step s a).1)
    {hist : List (γ × δ)} {t : τ} (h : Run step' init' hist t) (hvalid : ∀ e ∈ hist, V e.1) :
    ∃ es s, Forall₂ E hist es ∧ Run step init es.reduceOption s ∧ R t s := by
  induction h with
  | start => exact ⟨[], init, .nil, .start, hinit⟩
  | @next hist t hrun c ih =>
      obtain ⟨es, s, hes, hs, hR⟩ := ih fun e he => hvalid e (List.mem_append_left _ he)
      have hc : V c := hvalid (c, (step' t c).2) (by simp)
      rcases hstep t s c hc hR with ⟨hE, hR'⟩ | ⟨a, hE, hR'⟩
      · refine ⟨es ++ [none], s, List.rel_append hes (.cons hE .nil), ?_, hR'⟩
        rwa [List.reduceOption_append, List.reduceOption_singleton, Option.toList_none,
          List.append_nil]
      · refine ⟨es ++ [some (a, (step s a).2)], (step s a).1,
          List.rel_append hes (.cons hE .nil), ?_, hR'⟩
        rw [List.reduceOption_append, List.reduceOption_singleton, Option.toList_some]
        exact hs.next a

/-- Where the inputs that are kept do the same to a part of the state, and the others do
nothing to it, the entries that are kept are a run of the part. -/
theorem Run.project {step : ς → α → ς × β} {init : ς} {step' : τ → α → τ × β} {init' : τ}
    {R : τ → ς → Prop} {V : α → Prop} {keep : α → Bool} (hinit : R init' init)
    (hkeep : ∀ t s a, V a → R t s → keep a = true →
      (step s a).2 = (step' t a).2 ∧ R (step' t a).1 (step s a).1)
    (hdrop : ∀ t s a, V a → R t s → keep a = false → R (step' t a).1 s)
    {hist : List (α × β)} {t : τ} (h : Run step' init' hist t) (hvalid : ∀ e ∈ hist, V e.1) :
    ∃ s, Run step init (hist.filter fun e => keep e.1) s ∧ R t s := by
  have hstep : ∀ t s a, V a → R t s →
      ((none = if keep a then some (a, (step' t a).2) else none) ∧ R (step' t a).1 s) ∨
        ∃ a', (some (a', (step s a').2) = if keep a then some (a, (step' t a).2) else none) ∧
          R (step' t a).1 (step s a').1 := by
    intro t s a ha hR
    cases hk : keep a with
    | false => exact .inl ⟨rfl, hdrop t s a ha hR hk⟩
    | true =>
        obtain ⟨hsame, hR'⟩ := hkeep t s a ha hR hk
        exact .inr ⟨a, by rw [hsame]; rfl, hR'⟩
  obtain ⟨es, s, hes, hs, hR⟩ := @Run.simulate ς τ α β α β step init step' init' R
    (fun e o => o = if keep e.1 then some e else none) V hinit hstep hist t h hvalid
  refine ⟨s, ?_, hR⟩
  have hkept : es.reduceOption = hist.filter fun e => keep e.1 := by
    clear h hvalid hs
    induction hes with
    | nil => rfl
    | @cons e o hist es ho _ ih =>
        subst ho
        rw [List.filter_cons, ← ih]
        cases keep e.1 with
        | true => exact List.reduceOption_cons_of_some _ _
        | false => exact List.reduceOption_cons_of_none _
  rwa [← hkept]

theorem forall₂_concat_left {I : α → γ → Prop} {as : List α} {a : α} {cs : List γ}
    (h : Forall₂ I (as ++ [a]) cs) : ∃ past c, cs = past ++ [c] ∧ Forall₂ I as past ∧ I a c := by
  induction as generalizing cs with
  | nil =>
      obtain ⟨c, last, hc, hlast, rfl⟩ := List.forall₂_cons_left_iff.mp h
      cases hlast
      exact ⟨[], c, rfl, .nil, hc⟩
  | cons b as ih =>
      obtain ⟨d, rest, hd, hrest, rfl⟩ := List.forall₂_cons_left_iff.mp h
      obtain ⟨past, c, rfl, hpast, hc⟩ := ih hrest
      exact ⟨d :: past, c, rfl, .cons hd hpast, hc⟩

/-- Two machines that keep a relation on inputs that correspond to each other run side by
side. -/
theorem Run.lockstep {step : ς → α → ς × β} {init : ς} {step' : τ → γ → τ × δ} {init' : τ}
    {R : ς → τ → Prop} {I : α → γ → Prop} {O : β → δ → Prop} (hinit : R init init')
    (hstep : ∀ s t a c, R s t → I a c →
      O (step s a).2 (step' t c).2 ∧ R (step s a).1 (step' t c).1)
    {hist : List (α × β)} {s : ς} (h : Run step init hist s) {inputs : List γ}
    (hinputs : Forall₂ (fun e c => I e.1 c) hist inputs) :
    ∃ hist' t, Run step' init' hist' t ∧ hist'.map Prod.fst = inputs ∧
      Forall₂ (fun e e' => O e.2 e'.2) hist hist' ∧ R s t := by
  induction h generalizing inputs with
  | start =>
      cases hinputs
      exact ⟨[], init', .start, rfl, .nil, hinit⟩
  | @next hist s hrun a ih =>
      obtain ⟨past, c, rfl, hpast, hc⟩ := forall₂_concat_left hinputs
      obtain ⟨hist', t, hrun', hfst, hO, hR⟩ := ih hpast
      obtain ⟨hout, hR'⟩ := hstep s t a c hR hc
      exact ⟨hist' ++ [(c, (step' t c).2)], _, hrun'.next c, by rw [List.map_append, hfst]; rfl,
        List.rel_append hO (.cons hout .nil), hR'⟩

section Entries

variable {E : γ → Option α → Prop} {hist : List γ} {es : List (Option α)}

/-- Where an entry of the other history is, the history has an entry that stands for it. -/
theorem exists_split (h : Forall₂ E hist es) {pre post : List α} {b : α}
    (hes : es.reduceOption = pre ++ b :: post) :
    ∃ pre' a post' es' es'', hist = pre' ++ a :: post' ∧ E a (some b) ∧
      Forall₂ E pre' es' ∧ es'.reduceOption = pre ∧
      Forall₂ E post' es'' ∧ es''.reduceOption = post := by
  induction h generalizing pre with
  | nil => simp at hes
  | @cons a o hist es ha htail ih =>
      cases o with
      | none =>
          rw [List.reduceOption_cons_of_none] at hes
          obtain ⟨pre', a', post', es', es'', rfl, hb, hpre, hpre', hpost⟩ := ih hes
          exact ⟨a :: pre', a', post', none :: es', es'', rfl, hb, .cons ha hpre,
            by rwa [List.reduceOption_cons_of_none], hpost⟩
      | some x =>
          rw [List.reduceOption_cons_of_some] at hes
          cases pre with
          | nil =>
              obtain ⟨rfl, rfl⟩ := List.cons.inj hes
              exact ⟨[], a, hist, [], es, rfl, ha, .nil, rfl, htail, rfl⟩
          | cons y pre =>
              obtain ⟨rfl, htl⟩ := List.cons.inj hes
              obtain ⟨pre', a', post', es', es'', rfl, hb, hpre, hpre', hpost⟩ := ih htl
              exact ⟨a :: pre', a', post', some x :: es', es'', rfl, hb, .cons ha hpre,
                by rw [List.reduceOption_cons_of_some, hpre'], hpost⟩

theorem exists_entry (h : Forall₂ E hist es) {b : α} (hb : b ∈ es.reduceOption) :
    ∃ a ∈ hist, E a (some b) := by
  obtain ⟨pre, post, hes⟩ := List.append_of_mem hb
  obtain ⟨pre', a, post', -, -, rfl, ha, -⟩ := exists_split h hes
  exact ⟨a, by simp, ha⟩

/-- What the entries of the other history amount to is found, in the same order, in those
that stand for them. -/
theorem sublist_flatMap {ω : Type*} (h : Forall₂ E hist es) {f : γ → List ω} {g : α → List ω}
    (hfg : ∀ a b, E a (some b) → (g b).Sublist (f a)) :
    (es.reduceOption.flatMap g).Sublist (hist.flatMap f) := by
  induction h with
  | nil => exact List.nil_sublist _
  | @cons a o hist es ha htail ih =>
      cases o with
      | none =>
          rw [List.reduceOption_cons_of_none, List.flatMap_cons]
          exact ih.trans (List.sublist_append_right _ _)
      | some b =>
          rw [List.reduceOption_cons_of_some, List.flatMap_cons, List.flatMap_cons]
          exact (hfg a b ha).append ih

end Entries

/-- Where an entry is, in what the entries of a history amount to, one of them has it. -/
theorem exists_flatMap_split {f : γ → List α} {hist : List γ} {pre post : List α} {b : α}
    (h : hist.flatMap f = pre ++ b :: post) :
    ∃ before a after xs ys, hist = before ++ a :: after ∧ f a = xs ++ b :: ys ∧
      pre = before.flatMap f ++ xs ∧ post = ys ++ after.flatMap f := by
  induction hist generalizing pre with
  | nil => simp at h
  | cons a hist ih =>
      rw [List.flatMap_cons, List.append_eq_append_iff] at h
      rcases h with ⟨zs, rfl, hzs⟩ | ⟨zs, hzs, htail⟩
      · obtain ⟨before, a', after, xs, ys, rfl, ha', rfl, rfl⟩ := ih hzs
        exact ⟨a :: before, a', after, xs, ys, rfl, ha', by simp, rfl⟩
      · cases zs with
        | nil =>
            obtain ⟨before, a', after, xs, ys, rfl, ha', hnil, rfl⟩ := @ih [] htail.symm
            refine ⟨a :: before, a', after, xs, ys, rfl, ha', ?_, rfl⟩
            rw [List.flatMap_cons, List.append_assoc, ← hnil, hzs, List.append_nil, List.append_nil]
        | cons z zs =>
            obtain ⟨rfl, rfl⟩ := List.cons.inj htail
            exact ⟨[], a, hist, pre, zs, rfl, hzs, rfl, rfl⟩

end History
