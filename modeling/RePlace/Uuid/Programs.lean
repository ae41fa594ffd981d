import RePlace.Data.History
import RePlace.Data.Objects
import RePlace.Uuid.Buffer

/-!
# Programs with uuids

A program constructs uuids, assigns to them and generates them, at any addresses.
`buffers` are the operations of the class, `texts` what they are meant to do. Every
operation keeps that the buffers represent the texts, so a program with buffers is one
with texts.
-/

namespace RePlace.Uuid

open CString (ofBytes)
open Objects (Heap Related build change)

/-- The operations of a class of uuids. -/
structure Class (α : Type*) where
  default : α
  ofString : Bytes → Option α
  ofCString : CString → α
  copy : α → α
  move : α → α
  assign : α → α → α
  moveAssign : α → α → α
  assignCString : α → CString → α
  assignString : α → Bytes → Option α
  generate : α → Unparsed → α

/-- `uuid`. -/
def buffers : Class Buffer where
  default := .default
  ofString := Buffer.ofString
  ofCString := .ofCString
  copy := .copy
  move := .move
  assign := .assign
  moveAssign := .moveAssign
  assignCString := .assignCString
  assignString := Buffer.assignString
  generate := .generate

/-- The texts that the operations are meant to make. -/
def texts : Class Uuid where
  default := .empty
  ofString str := if str.length = size then some (.ofCString (.ofBytes str)) else none
  ofCString := .ofCString
  copy u := u
  move u := u
  assign _ rhs := rhs
  moveAssign _ other := other
  assignCString _ str := .ofCString str
  assignString _ str := if str.length = size then some (.ofCString (.ofBytes str)) else none
  generate _ u := u.uuid

/-- An operation of a program: a construction at an address, or an assignment to the
object there. -/
inductive Op
  | default (a : ℕ)
  | ofString (a : ℕ) (str : Bytes)
  | ofCString (a : ℕ) (str : CString)
  | copy (a other : ℕ)
  | move (a other : ℕ)
  | assign (a rhs : ℕ)
  | moveAssign (a other : ℕ)
  | assignCString (a : ℕ) (str : CString)
  | assignString (a : ℕ) (str : Bytes)
  | generate (a : ℕ) (u : Unparsed)

variable {α β : Type*}

/-- An operation of a program; none when an assertion fails or there is no such object.
The assignments from a uuid compare the addresses first. -/
def step (C : Class α) (s : Heap α) : Op → Option (Heap α)
  | .default a => build s a (some C.default)
  | .ofString a str => build s a (C.ofString str)
  | .ofCString a str => build s a (some (C.ofCString str))
  | .copy a other => build s a ((s other).map C.copy)
  | .move a other => build s a ((s other).map C.move)
  | .assign a rhs =>
      change s a fun u => if a = rhs then some u else (s rhs).map (C.assign u)
  | .moveAssign a other =>
      change s a fun u => if a = other then some u else (s other).map (C.moveAssign u)
  | .assignCString a str => change s a fun u => some (C.assignCString u str)
  | .assignString a str => change s a fun u => C.assignString u str
  | .generate a text => change s a fun u => some (C.generate u text)

/-- The address that an operation writes to. -/
def Op.target : Op → ℕ
  | .default a => a
  | .ofString a _ => a
  | .ofCString a _ => a
  | .copy a _ => a
  | .move a _ => a
  | .assign a _ => a
  | .moveAssign a _ => a
  | .assignCString a _ => a
  | .assignString a _ => a
  | .generate a _ => a

/-- The text that an operation is to leave at its address, when these are the texts
before it. -/
def Op.text (s : ℕ → Option CString) : Op → Option CString
  | .default _ => some (.lit "")
  | .ofString _ str => some (.ofBytes str)
  | .ofCString _ str => some (str.take size)
  | .copy _ other => s other
  | .move _ other => s other
  | .assign _ rhs => s rhs
  | .moveAssign _ other => s other
  | .assignCString _ str => some (str.take size)
  | .assignString _ str => some (.ofBytes str)
  | .generate _ u => some u.text

/-- The operations of two classes take related objects to related objects. -/
structure Simulates (R : α → β → Prop) (C : Class α) (D : Class β) : Prop where
  default : R C.default D.default
  ofString : ∀ str, Option.Rel R (C.ofString str) (D.ofString str)
  ofCString : ∀ str, R (C.ofCString str) (D.ofCString str)
  copy : ∀ x y, R x y → R (C.copy x) (D.copy y)
  move : ∀ x y, R x y → R (C.move x) (D.move y)
  assign : ∀ u v x y, R u v → R x y → R (C.assign u x) (D.assign v y)
  moveAssign : ∀ u v x y, R u v → R x y → R (C.moveAssign u x) (D.moveAssign v y)
  assignCString : ∀ u v str, R u v → R (C.assignCString u str) (D.assignCString v str)
  assignString : ∀ u v str, R u v → Option.Rel R (C.assignString u str) (D.assignString v str)
  generate : ∀ u v text, R u v → R (C.generate u text) (D.generate v text)

/-- Programs with classes that are related have related objects after every operation. -/
theorem Simulates.step {R : α → β → Prop} {C : Class α} {D : Class β} (h : Simulates R C D)
    {s : Heap α} {t : Heap β} (hst : Related R s t) (op : Op) :
    Option.Rel (Related R) (step C s op) (step D t op) := by
  have hother : ∀ (f : α → α) (g : β → β) (other : ℕ), (∀ x y, R x y → R (f x) (g y)) →
      Option.Rel R ((s other).map f) ((t other).map g) := by
    intro f g other hfg
    rcases hst.cases other with ⟨hs, ht⟩ | ⟨x, y, hs, ht, hxy⟩
    · rw [hs, ht]
      exact .none
    · rw [hs, ht]
      exact .some (hfg x y hxy)
  have hassign : ∀ (f : α → α → α) (g : β → β → β) (a other : ℕ),
      (∀ u v x y, R u v → R x y → R (f u x) (g v y)) → ∀ u v, R u v →
      Option.Rel R (if a = other then some u else (s other).map (f u))
        (if a = other then some v else (t other).map (g v)) := by
    intro f g a other hfg u v huv
    split
    · exact .some huv
    · exact hother (f u) (g v) other fun x y => hfg u v x y huv
  cases op with
  | default a => exact hst.build a (.some h.default)
  | ofString a str => exact hst.build a (h.ofString str)
  | ofCString a str => exact hst.build a (.some (h.ofCString str))
  | copy a other => exact hst.build a (hother C.copy D.copy other h.copy)
  | move a other => exact hst.build a (hother C.move D.move other h.move)
  | assign a rhs => exact hst.change a (hassign C.assign D.assign a rhs h.assign)
  | moveAssign a other =>
      exact hst.change a (hassign C.moveAssign D.moveAssign a other h.moveAssign)
  | assignCString a str => exact hst.change a fun u v huv => .some (h.assignCString u v str huv)
  | assignString a str => exact hst.change a fun u v huv => h.assignString u v str huv
  | generate a text => exact hst.change a fun u v huv => .some (h.generate u v text huv)

/-- An operation writes to its address only. -/
theorem step_frame {C : Class α} {s s' : Heap α} {op : Op} (h : step C s op = some s') {a : ℕ}
    (ha : a ≠ op.target) : s' a = s a := by
  cases op with
  | default b => exact Objects.build_frame h ha
  | ofString b str => exact Objects.build_frame h ha
  | ofCString b str => exact Objects.build_frame h ha
  | copy b other => exact Objects.build_frame h ha
  | move b other => exact Objects.build_frame h ha
  | assign b rhs => exact Objects.change_frame h ha
  | moveAssign b other => exact Objects.change_frame h ha
  | assignCString b str => exact Objects.change_frame h ha
  | assignString b str => exact Objects.change_frame h ha
  | generate b u => exact Objects.change_frame h ha

/-! ## What a program with texts leaves -/

theorem ofCString_text_of_length {str : Bytes} (h : str.length = size) :
    (ofCString (.ofBytes str)).text = .ofBytes str := by
  refine CString.ext (List.take_of_length_le ?_)
  rw [CString.bytes_ofBytes, ← h]
  exact (List.takeWhile_prefix _).length_le

section Texts

variable {s s' : Heap Uuid} {a other : ℕ} {u v : Uuid}

theorem text_of_copied (h : (s other).map (fun u => u) = some u) :
    (s other).map Uuid.text = some u.text := by
  rw [Option.map_id'] at h
  rw [h, Option.map_some]

theorem text_of_assigned (hv : s a = some v)
    (h : (if a = other then some v else (s other).map fun u => u) = some u) :
    (s other).map Uuid.text = some u.text := by
  split at h
  · rename_i hself
    rw [← hself, hv, Option.map_some, Option.some.inj h]
  · exact text_of_copied h

theorem text_of_string {str : Bytes}
    (h : (if str.length = size then some (ofCString (.ofBytes str)) else none) = some u) :
    some (CString.ofBytes str) = some u.text := by
  split at h
  · rename_i hlen
    rw [← Option.some.inj h, ofCString_text_of_length hlen]
  · cases h

/-- At its address an operation leaves the text that it is to leave. -/
theorem texts_step {op : Op} (h : step texts s op = some s') :
    ∃ u, s' op.target = some u ∧ op.text (fun a => (s a).map Uuid.text) = some u.text := by
  have hbuild : ∀ {a v t}, build s a v = some s' → (∀ u, v = some u → t = some u.text) →
      ∃ u, s' a = some u ∧ t = some u.text := by
    intro a v t h ht
    obtain ⟨u, hu, hs'⟩ := Objects.build_at h
    exact ⟨u, hs', ht u hu⟩
  have hchange : ∀ {a f t}, change s a f = some s' →
      (∀ v u, s a = some v → f v = some u → t = some u.text) →
      ∃ u, s' a = some u ∧ t = some u.text := by
    intro a f t h ht
    obtain ⟨v, u, hv, hu, hs'⟩ := Objects.change_at h
    exact ⟨u, hs', ht v u hv hu⟩
  cases op with
  | default a => exact hbuild h fun u hu => by rw [← Option.some.inj hu]; rfl
  | ofString a str => exact hbuild h fun u hu => text_of_string hu
  | ofCString a str => exact hbuild h fun u hu => by rw [← Option.some.inj hu]; rfl
  | copy a other => exact hbuild h fun u hu => text_of_copied hu
  | move a other => exact hbuild h fun u hu => text_of_copied hu
  | assign a rhs => exact hchange h fun v u hv hu => text_of_assigned hv hu
  | moveAssign a other => exact hchange h fun v u hv hu => text_of_assigned hv hu
  | assignCString a str => exact hchange h fun v u _ hu => by rw [← Option.some.inj hu]; rfl
  | assignString a str => exact hchange h fun v u _ hu => text_of_string hu
  | generate a text => exact hchange h fun v u _ hu => by rw [← Option.some.inj hu]; rfl

end Texts

/-! ## Buffers and texts -/

namespace Buffer

/-- Every operation of a buffer leaves a buffer that represents the text that it is
meant to make. -/
theorem simulates : Simulates Represents buffers texts where
  default := represents_default
  ofString str := by
    dsimp only [buffers, texts, Buffer.ofString]
    split
    · exact .some (represents_store _ _)
    · exact .none
  ofCString str := by
    have h := represents_store zeros str.bytes
    rwa [CString.ofBytes_bytes] at h
  copy b u h := by
    have hcopy := represents_copyFrom zeros_terminated b.str
    rwa [h.ofCString] at hcopy
  move b u h := by
    have hmove := represents_copyFrom zeros_terminated b.str
    rwa [h.ofCString] at hmove
  assign b _ rhs u _ h := by
    have hassign := represents_store b rhs.str
    rwa [h.ofCString] at hassign
  moveAssign b _ other u hb h := by
    have hassign := represents_copyFrom hb.terminated other.str
    rwa [h.ofCString] at hassign
  assignCString b _ str _ := by
    have h := represents_store b str.bytes
    rwa [CString.ofBytes_bytes] at h
  assignString b _ str _ := by
    dsimp only [buffers, texts, Buffer.assignString]
    split
    · exact .some (represents_store _ _)
    · exact .none
  generate b _ u _ := represents_generate b u

end Buffer

/-! ## Runs -/

/-- What holds of the objects of a program: they are well-formed, their texts have at
most 36 characters, and the comparison is the equality of the texts. -/
structure Sound (s : Heap Buffer) : Prop where
  wellFormed : ∀ a b, s a = some b → b.WellFormed ∧ b.getString.bytes.length ≤ size
  eq_iff : ∀ a a' b b', s a = some b → s a' = some b' →
    (b.eq b' = true ↔ b.getString = b'.getString)

/-- A program that starts without objects. -/
def run {α : Type*} (C : Class α) (ops : List Op) : Option (Heap α) :=
  History.runAll (step C) (fun _ => none) ops

/-- A program with buffers is one with texts. -/
theorem run_related (ops : List Op) :
    Option.Rel (Related Buffer.Represents) (run buffers ops) (run texts ops) :=
  History.runAll_rel (fun _ => .none) (fun _ _ op h => Buffer.simulates.step h op) ops

theorem Sound.of_related {s : Heap Buffer} {t : Heap Uuid} (h : Related Buffer.Represents s t) :
    Sound s where
  wellFormed a b hb := by
    obtain ⟨u, -, hu⟩ := h.of_left hb
    exact ⟨hu.wellFormed, hu.getString ▸ u.length_le⟩
  eq_iff a a' b b' hb hb' := by
    obtain ⟨u, -, hu⟩ := h.of_left hb
    obtain ⟨v, -, hv⟩ := h.of_left hb'
    rw [hu.eq hv, Uuid.eq_iff, hu.getString, hv.getString]

theorem Related.texts_eq {s : Heap Buffer} {t : Heap Uuid} (h : Related Buffer.Represents s t) :
    (fun a => (s a).map Buffer.getString) = fun a => (t a).map Uuid.text := by
  funext a
  rcases h.cases a with ⟨hs, ht⟩ | ⟨b, u, hs, ht, hu⟩
  · rw [hs, ht]
    rfl
  · rw [hs, ht, Option.map_some, Option.map_some, hu.getString]

/-- Whatever uuids a program has constructed, copied, moved, assigned and generated:
they are sound, and a further operation leaves the text that it is to leave at its
address and nothing else changed. -/
theorem uuid_runs {ops : List Op} {s : Heap Buffer} (h : run buffers ops = some s) :
    Sound s ∧ ∀ op s', step buffers s op = some s' → Sound s' ∧
      (∃ b, s' op.target = some b ∧
        op.text (fun a => (s a).map Buffer.getString) = some b.getString) ∧
      ∀ a, a ≠ op.target → s' a = s a := by
  have hrel := run_related ops
  rw [h] at hrel
  generalize run texts ops = w at hrel
  cases hrel with
  | @some _ t hst =>
  refine ⟨.of_related hst, fun op s' hstep => ?_⟩
  have hnext := Buffer.simulates.step hst op
  rw [hstep] at hnext
  generalize ht : step texts t op = w' at hnext
  cases hnext with
  | @some _ t' hst' =>
  refine ⟨.of_related hst', ?_, fun a ha => step_frame hstep ha⟩
  obtain ⟨u, hu, htext⟩ := texts_step ht
  rcases hst'.cases op.target with ⟨-, hnone⟩ | ⟨b, v, hb, hv, hrep⟩
  · cases hnone.symm.trans hu
  · obtain rfl := Option.some.inj (hv.symm.trans hu)
    exact ⟨b, hb, by rw [Related.texts_eq hst, htext, hrep.getString]⟩

/-- A long text that is copied, and replaced by a short one that is moved over the
copy. -/
def sampleOps : List Op :=
  [.ofCString 0 sampleUuid.text, .copy 1 0, .assignCString 0 (.lit "short"), .moveAssign 1 0,
    .default 2, .generate 2 ⟨sampleUuid.text, by decide⟩]

theorem uuid_runs_sample :
    ∃ s, run buffers sampleOps = some s ∧ Sound s ∧
      (s 1).map Buffer.getString = some (.lit "short") ∧
      ((s 1).map Buffer.str).map (List.drop 5) = some (List.replicate 35 0) :=
  ⟨_, rfl, (@uuid_runs sampleOps _ rfl).1, by decide, by decide⟩

end RePlace.Uuid
