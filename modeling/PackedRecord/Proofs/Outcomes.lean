import Mathlib

/-! # Outcomes — sequences of steps that may fail

    What a step, or a list of steps, that has an answer says about its parts:
    a sequence that succeeds has succeeded at every step. -/

namespace PackedRecord.Outcome

variable {ε δ α β γ : Type}

theorem ok_ne_error {a : α} {err : ε} : (Except.ok a : Except ε α) ≠ .error err :=
  fun h => nomatch h

theorem error_ne_ok {err : ε} {a : α} : (Except.error err : Except ε α) ≠ .ok a :=
  ok_ne_error.symm

theorem exists_error_iff {x : Except ε α} : (∃ err, x = .error err) ↔ ¬ ∃ a, x = .ok a := by
  cases x with
  | error err => exact iff_of_true ⟨err, rfl⟩ fun h => h.elim fun _ => error_ne_ok
  | ok a => exact iff_of_false (fun h => h.elim fun _ => ok_ne_error) fun h => h ⟨a, rfl⟩

/-- A step after another has an answer only if the first one has. -/
theorem of_bind_ok {x : Except ε α} {f : α → Except ε β} {b : β} (h : x >>= f = .ok b) :
    ∃ a, x = .ok a ∧ f a = .ok b := by
  cases x with
  | error err => exact nomatch h
  | ok a => exact ⟨a, rfl, h⟩

/-- Of two steps that fail together, the first one fails, or the second one
    behind an answer of the first. -/
theorem of_bind_error {x : Except ε α} {f : α → Except ε β} {err : ε}
    (h : x >>= f = .error err) : x = .error err ∨ ∃ a, x = .ok a ∧ f a = .error err := by
  cases x with
  | error err' => exact Or.inl (congrArg Except.error (Except.error.inj h))
  | ok a => exact Or.inr ⟨a, rfl, h⟩

/-- The image of an answer is the image of one answer. -/
theorem of_map_ok {x : Except ε α} {f : α → β} {b : β} (h : x.map f = .ok b) :
    ∃ a, x = .ok a ∧ f a = b := by
  cases x with
  | error err => exact nomatch h
  | ok a => exact ⟨a, rfl, Except.ok.inj h⟩

/-- A function of the answer changes no error. -/
theorem map_eq_error_iff {x : Except ε α} {f : α → β} {err : ε} :
    x.map f = .error err ↔ x = .error err := by
  cases x with
  | error err' => exact ⟨fun h => congrArg Except.error (Except.error.inj h), fun h =>
      congrArg Except.error (Except.error.inj h)⟩
  | ok a => exact ⟨fun h => absurd h ok_ne_error, fun h => absurd h ok_ne_error⟩

/-- A step with its errors renamed has the answers that it had. -/
theorem of_mapError_ok {x : Except ε α} {f : ε → δ} {a : α} (h : x.mapError f = .ok a) :
    x = .ok a := by
  cases x with
  | error err => exact nomatch h
  | ok b => exact congrArg Except.ok (Except.ok.inj h)

theorem mapError_eq_ok_iff {x : Except ε α} {f : ε → δ} {a : α} :
    x.mapError f = .ok a ↔ x = .ok a := by
  constructor
  · exact of_mapError_ok
  · rintro rfl
    rfl

/-- The outcome with answers and errors changed. -/
def rename (answer : α → β) (refusal : ε → δ) : Except ε α → Except δ β
  | .ok a => .ok (answer a)
  | .error err => .error (refusal err)

/-- Steps one after the other are renamed one after the other. -/
theorem rename_bind {α' β' : Type} {answer : α → α'} {answer' : β → β'} {refusal : ε → δ}
    {x : Except ε α} {f : α → Except ε β} {f' : α' → Except δ β'}
    (h : ∀ a, rename answer' refusal (f a) = f' (answer a)) :
    rename answer' refusal (x >>= f) = rename answer refusal x >>= f' := by
  cases x with
  | error err => rfl
  | ok a => exact h a

/-- Steps that all have an answer have the list of their answers. -/
theorem mapM_eq_pure {m : Type → Type} [Monad m] [LawfulMonad m] {f : α → m β} {g : α → β}
    {l : List α} (h : ∀ a ∈ l, f a = pure (g a)) : l.mapM f = pure (l.map g) := by
  induction l with
  | nil => rfl
  | cons a rest ih =>
      rw [List.mapM_cons, h a List.mem_cons_self, pure_bind,
        ih (fun b hb => h b (List.mem_cons_of_mem a hb)), pure_bind]
      rfl

/-- Steps that undo a function give the list back. -/
theorem mapM_map_eq_self {m : Type → Type} [Monad m] [LawfulMonad m] {print : α → β}
    {read : β → m α} {l : List α} (h : ∀ a ∈ l, read (print a) = pure a) :
    (l.map print).mapM read = pure l := by
  rw [List.mapM_map]
  exact (mapM_eq_pure h).trans (congrArg pure (List.map_id l))

/-- Steps that agree on a list have the same outcome on it. -/
theorem mapM_congr {m : Type → Type} [Monad m] [LawfulMonad m] {f g : α → m β} {l : List α}
    (h : ∀ a ∈ l, f a = g a) : l.mapM f = l.mapM g := by
  induction l with
  | nil => rfl
  | cons a rest ih =>
      rw [List.mapM_cons, List.mapM_cons, h a List.mem_cons_self,
        ih (fun b hb => h b (List.mem_cons_of_mem a hb))]

/-- Renaming the errors of every step renames the error of the list. -/
theorem mapM_mapError (f : α → Except ε β) (g : ε → δ) (l : List α) :
    (l.mapM fun a => (f a).mapError g) = (l.mapM f).mapError g := by
  induction l with
  | nil => rfl
  | cons a rest ih =>
      rw [List.mapM_cons, List.mapM_cons, ih]
      cases f a with
      | error err => rfl
      | ok b => cases rest.mapM f <;> rfl

/-- A list of answers pairs every step with its own. -/
theorem mapM_eq_ok_iff {f : α → Except ε β} {l : List α} {out : List β} :
    l.mapM f = .ok out ↔ List.Forall₂ (fun a b => f a = .ok b) l out := by
  induction l generalizing out with
  | nil =>
      rw [List.forall₂_nil_left_iff]
      exact ⟨fun h => (Except.ok.inj h).symm, fun h => congrArg Except.ok h.symm⟩
  | cons a rest ih =>
      rw [List.mapM_cons]
      constructor
      · intro h
        obtain ⟨b, hb, h⟩ := of_bind_ok h
        obtain ⟨bs, hbs, h⟩ := of_bind_ok h
        obtain rfl := Except.ok.inj h
        exact List.Forall₂.cons hb (ih.mp hbs)
      · intro h
        cases h with
        | cons hb hbs =>
            rw [hb, ih.mpr hbs]
            rfl

/-- Steps that all have an answer have a list of answers. -/
theorem exists_mapM_eq_ok {f : α → Except ε β} {l : List α} (h : ∀ a ∈ l, ∃ b, f a = .ok b) :
    ∃ out, l.mapM f = .ok out := by
  induction l with
  | nil => exact ⟨[], rfl⟩
  | cons a rest ih =>
      obtain ⟨b, hb⟩ := h a List.mem_cons_self
      obtain ⟨out, hout⟩ := ih fun a' ha' => h a' (List.mem_cons_of_mem a ha')
      refine ⟨b :: out, ?_⟩
      rw [List.mapM_cons, hb, hout]
      rfl

/-- A list of steps succeeds exactly if each of them does. -/
theorem exists_mapM_eq_ok_iff {f : α → Except ε β} {l : List α} :
    (∃ out, l.mapM f = .ok out) ↔ ∀ a ∈ l, ∃ b, f a = .ok b := by
  constructor
  · rintro ⟨out, hout⟩
    have hall := mapM_eq_ok_iff.mp hout
    clear hout
    induction hall with
    | nil => exact fun a ha => nomatch ha
    | cons hb _ ih => exact List.forall_mem_cons.mpr ⟨⟨_, hb⟩, ih⟩
  · exact exists_mapM_eq_ok

/-- Steps in order end at the first one without an answer. -/
theorem mapM_eq_error_iff {f : α → Except ε β} {l : List α} {err : ε} :
    l.mapM f = .error err
      ↔ ∃ before a after, l = before ++ a :: after ∧ (∀ b ∈ before, ∃ c, f b = .ok c)
          ∧ f a = .error err := by
  induction l with
  | nil =>
      constructor
      · exact fun h => absurd h ok_ne_error
      · rintro ⟨before, a, after, hnil, -, -⟩
        exact absurd hnil.symm (List.append_ne_nil_of_right_ne_nil before (List.cons_ne_nil a after))
  | cons a rest ih =>
      rw [List.mapM_cons]
      constructor
      · intro h
        rcases of_bind_error h with ha | ⟨b, hb, h⟩
        · exact ⟨[], a, rest, rfl, fun b hb => (nomatch hb), ha⟩
        rcases of_bind_error h with hrest | ⟨bs, -, h⟩
        · obtain ⟨before, a', after, rfl, hbefore, ha'⟩ := ih.mp hrest
          exact ⟨a :: before, a', after, rfl, List.forall_mem_cons.mpr ⟨⟨b, hb⟩, hbefore⟩, ha'⟩
        · exact absurd h ok_ne_error
      · rintro ⟨before, a', after, hsplit, hbefore, ha'⟩
        cases before with
        | nil =>
            obtain ⟨rfl, rfl⟩ := List.cons.inj hsplit
            rw [ha']
            rfl
        | cons b before =>
            obtain ⟨rfl, rfl⟩ := List.cons.inj hsplit
            obtain ⟨⟨c, hc⟩, hbefore⟩ := List.forall_mem_cons.mp hbefore
            rw [hc, ih.mpr ⟨before, a', after, rfl, hbefore, ha'⟩]
            rfl

/-- Lists are told apart by their images if their members are. -/
theorem eq_of_map_eq {f : α → β} {l l' : List α} (hf : ∀ a ∈ l, ∀ a' ∈ l', f a = f a' → a = a')
    (h : l.map f = l'.map f) : l = l' := by
  induction l generalizing l' with
  | nil => exact (List.map_eq_nil_iff.mp h.symm).symm
  | cons a rest ih =>
      obtain ⟨a', rest', rfl, ha, hrest⟩ := List.map_eq_cons_iff.mp h.symm
      rw [hf a List.mem_cons_self a' List.mem_cons_self ha.symm,
        ih (fun b hb b' hb' => hf b (List.mem_cons_of_mem a hb) b' (List.mem_cons_of_mem a' hb'))
          hrest.symm]

/-- Every answer in a list of answers is that of one of the steps. -/
theorem exists_of_mem_mapM {f : α → Except ε β} {l : List α} {out : List β} {b : β}
    (h : l.mapM f = .ok out) (hb : b ∈ out) : ∃ a ∈ l, f a = .ok b := by
  induction l generalizing out with
  | nil =>
      obtain rfl := Except.ok.inj h
      exact nomatch hb
  | cons a rest ih =>
      rw [List.mapM_cons] at h
      obtain ⟨b', hb', h⟩ := of_bind_ok h
      obtain ⟨bs, hbs, h⟩ := of_bind_ok h
      obtain rfl := Except.ok.inj h
      rcases List.mem_cons.mp hb with rfl | hb
      · exact ⟨a, List.mem_cons_self, hb'⟩
      · obtain ⟨a', ha', heq⟩ := ih hbs hb
        exact ⟨a', List.mem_cons_of_mem a ha', heq⟩

end PackedRecord.Outcome
