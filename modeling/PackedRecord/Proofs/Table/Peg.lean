import Mathlib

/-! # Parsing expressions — matching in order, without looking back

    A parsing expression matches a beginning of a text or fails.  A choice
    takes its first alternative that matches, a repetition goes on for as long
    as it can, and neither is ever reconsidered; looking ahead takes nothing.
    Nothing is skipped between the parts of a sequence.  Rules leave nodes
    behind, except where something is only looked at.

    Most rules of a lexical grammar repeat one guarded character;
    `run_until` says what such a repetition takes. -/

namespace PackedRecord.Peg

variable {ρ : Type}

/-- What a rule leaves in the tree of a match. -/
inductive Trace
  /-- A node with the nodes of the rules inside. -/
  | full
  /-- A node with nothing inside. -/
  | leaf
  /-- No node; the rules inside count for the rule around. -/
  | silent
  deriving DecidableEq

/-- Parsing expressions, with rules named by `ρ`. -/
inductive Expr (ρ : Type)
  | text (s : List Char)
  | any
  /-- The start of the text. -/
  | start
  /-- Its end. -/
  | finish
  | seq (a b : Expr ρ)
  | choice (a b : Expr ρ)
  | star (a : Expr ρ)
  | optional (a : Expr ρ)
  | ahead (a : Expr ρ)
  | notAhead (a : Expr ρ)
  | rule (name : ρ) (trace : Trace) (body : Expr ρ)

/-- What a rule has matched. -/
structure Node (ρ : Type) where
  rule : ρ
  text : List Char
  inner : List (Node ρ)

structure Match (ρ : Type) where
  taken : List Char
  rest : List Char
  nodes : List (Node ρ)

/-- The match that takes nothing. -/
def Match.empty (input : List Char) : Match ρ := ⟨[], input, []⟩

/-- A match, and another one behind it. -/
def Match.followedBy (m next : Match ρ) : Match ρ :=
  ⟨m.taken ++ next.taken, next.rest, m.nodes ++ next.nodes⟩

def Trace.nodes (trace : Trace) (name : ρ) (m : Match ρ) : List (Node ρ) :=
  match trace with
  | full => [⟨name, m.taken, m.nodes⟩]
  | leaf => [⟨name, m.taken, []⟩]
  | silent => m.nodes

/-- Matches as often as it can.  Rounds that take nothing could go on for
    ever and are not made. -/
def repeated (body : Nat → List Char → Option (Match ρ)) (pos : Nat) (input : List Char) :
    Match ρ :=
  match body pos input with
  | none => .empty input
  | some m =>
      if m.rest.length < input.length then
        m.followedBy (repeated body (pos + m.taken.length) m.rest)
      else .empty input
termination_by input.length

/-- Matches the expression at a position of a text, of which `input` is what
    remains. -/
def Expr.run : Expr ρ → Nat → List Char → Option (Match ρ)
  | text s, _, input => if s <+: input then some ⟨s, input.drop s.length, []⟩ else none
  | any, _, [] => none
  | any, _, c :: rest => some ⟨[c], rest, []⟩
  | start, pos, input => if pos = 0 then some (.empty input) else none
  | finish, _, input => if input = [] then some (.empty input) else none
  | seq a b, pos, input => do
      let m ← a.run pos input
      let next ← b.run (pos + m.taken.length) m.rest
      return m.followedBy next
  | choice a b, pos, input =>
      match a.run pos input with
      | some m => some m
      | none => b.run pos input
  | star a, pos, input => some (repeated a.run pos input)
  | optional a, pos, input =>
      match a.run pos input with
      | some m => some m
      | none => some (.empty input)
  | ahead a, pos, input => if (a.run pos input).isSome then some (.empty input) else none
  | notAhead a, pos, input => if (a.run pos input).isSome then none else some (.empty input)
  | rule name trace body, pos, input => do
      let m ← body.run pos input
      return { m with nodes := trace.nodes name m }

/-! ## One step each -/

section

variable {a b : Expr ρ} {pos : Nat} {input : List Char} {m next : Match ρ}

/-- A text matches itself in front of anything. -/
theorem run_text (s rest : List Char) (pos : Nat) :
    (Expr.text s : Expr ρ).run pos (s ++ rest) = some ⟨s, rest, []⟩ := by
  show (if s <+: s ++ rest then some _ else none) = _
  rw [if_pos (List.prefix_append s rest), List.drop_left]

/-- A text does not match what begins otherwise. -/
theorem run_text_of_head_ne {c : Char} (h : input.head? ≠ some c) (s : List Char) (pos : Nat) :
    (Expr.text (c :: s) : Expr ρ).run pos input = none := by
  refine if_neg ?_
  rintro ⟨rest, rfl⟩
  exact h rfl

theorem isSome_run_text (s : List Char) (pos : Nat) (input : List Char) :
    ((Expr.text s : Expr ρ).run pos input).isSome = decide (s <+: input) := by
  show (if s <+: input then some _ else none).isSome = _
  by_cases h : s <+: input
  · rw [if_pos h, decide_eq_true h]
    rfl
  · rw [if_neg h, decide_eq_false h]
    rfl

/-- The second alternative is for where the first does not match. -/
theorem run_choice (a b : Expr ρ) (pos : Nat) (input : List Char) :
    (Expr.choice a b).run pos input = (a.run pos input).or (b.run pos input) := by
  show (match a.run pos input with
    | some m => some m
    | none => b.run pos input) = _
  cases a.run pos input <;> rfl

/-- A sequence matches what its parts match, one behind the other. -/
theorem run_seq (ha : a.run pos input = some m)
    (hb : b.run (pos + m.taken.length) m.rest = some next) :
    (Expr.seq a b).run pos input = some (m.followedBy next) := by
  show a.run pos input >>= _ = _
  rw [ha]
  show b.run (pos + m.taken.length) m.rest >>= _ = _
  rw [hb]
  rfl

/-- A sequence needs its first part. -/
theorem run_seq_of_none (ha : a.run pos input = none) : (Expr.seq a b).run pos input = none := by
  show a.run pos input >>= _ = _
  rw [ha]
  rfl

/-- A sequence needs its second part, and does not look for another match of the
    first. -/
theorem run_seq_of_right_none (ha : a.run pos input = some m)
    (hb : b.run (pos + m.taken.length) m.rest = none) : (Expr.seq a b).run pos input = none := by
  show a.run pos input >>= _ = _
  rw [ha]
  show b.run (pos + m.taken.length) m.rest >>= _ = _
  rw [hb]
  rfl

/-- An option always matches, perhaps nothing. -/
theorem run_optional (a : Expr ρ) (pos : Nat) (input : List Char) :
    (Expr.optional a).run pos input = some ((a.run pos input).getD (.empty input)) := by
  show (match a.run pos input with
    | some m => some m
    | none => some (Match.empty input)) = _
  cases a.run pos input <;> rfl

/-- A rule matches what its expression matches, and leaves a node behind. -/
theorem run_rule (name : ρ) (trace : Trace) (h : a.run pos input = some m) :
    (Expr.rule name trace a).run pos input = some { m with nodes := trace.nodes name m } := by
  show a.run pos input >>= _ = _
  rw [h]
  rfl

theorem run_rule_of_none (name : ρ) (trace : Trace) (h : a.run pos input = none) :
    (Expr.rule name trace a).run pos input = none := by
  show a.run pos input >>= _ = _
  rw [h]
  rfl

/-! ## Repetitions -/

/-- A repetition ends where its body does not match. -/
theorem run_star_of_none (h : a.run pos input = none) :
    (Expr.star a).run pos input = some (.empty input) := by
  show some (repeated a.run pos input) = _
  rw [repeated, h]

/-- A repetition goes on where its body has taken something. -/
theorem run_star_of_some (ha : a.run pos input = some m) (hlt : m.rest.length < input.length)
    (hnext : (Expr.star a).run (pos + m.taken.length) m.rest = some next) :
    (Expr.star a).run pos input = some (m.followedBy next) := by
  have hrest : repeated a.run (pos + m.taken.length) m.rest = next := Option.some.inj hnext
  show some (repeated a.run pos input) = _
  rw [repeated, ha]
  show some (if m.rest.length < input.length then _ else _) = _
  rw [if_pos hlt, hrest]

end

/-- A guarded character: any one before which the guard does not match. -/
def Expr.guarded (guard : Expr ρ) : Expr ρ :=
  .seq (.notAhead guard) .any

theorem run_guarded_nil (guard : Expr ρ) (pos : Nat) : guard.guarded.run pos [] = none := by
  show (if (guard.run pos []).isSome then none else some (Match.empty [])) >>= _ = _
  cases (guard.run pos []).isSome <;> rfl

/-- A guarded character is any character at which the guard does not match. -/
theorem run_guarded_cons (guard : Expr ρ) (pos : Nat) (c : Char) (rest : List Char) :
    guard.guarded.run pos (c :: rest)
      = if (guard.run pos (c :: rest)).isSome then none else some ⟨[c], rest, []⟩ := by
  show (if (guard.run pos (c :: rest)).isSome then none else some (Match.empty (c :: rest)))
    >>= _ = _
  cases (guard.run pos (c :: rest)).isSome <;> rfl

/-- A repetition of a guarded character takes everything before the first
    place at which the guard matches. -/
theorem run_until {guard : Expr ρ} {stops : List Char → Bool}
    (hguard : ∀ pos input, (guard.run pos input).isSome = stops input)
    {tail : List Char} (htail : tail = [] ∨ stops tail = true) :
    ∀ {text : List Char} (pos : Nat),
      (∀ suffix, suffix <:+ text → suffix ≠ [] → stops (suffix ++ tail) = false) →
      (Expr.star guard.guarded).run pos (text ++ tail) = some ⟨text, tail, []⟩ := by
  intro text
  induction text with
  | nil =>
      intro pos _
      refine run_star_of_none ?_
      rcases htail with rfl | htail
      · exact run_guarded_nil guard pos
      · cases tail with
        | nil => exact run_guarded_nil guard pos
        | cons c rest =>
            have hstops := hguard pos (c :: rest)
            rw [htail] at hstops
            exact (run_guarded_cons guard pos c rest).trans (if_pos hstops)
  | cons c text ih =>
      intro pos hfree
      have hc : (guard.run pos (c :: (text ++ tail))).isSome = false :=
        (hguard pos _).trans (hfree (c :: text) List.suffix_rfl (List.cons_ne_nil c text))
      have hround : guard.guarded.run pos (c :: (text ++ tail)) = some ⟨[c], text ++ tail, []⟩ := by
        rw [run_guarded_cons, hc]
        rfl
      refine run_star_of_some hround (Nat.lt_succ_self _) (ih _ fun suffix h => ?_)
      exact hfree suffix (h.trans (List.suffix_cons c text))

end PackedRecord.Peg
