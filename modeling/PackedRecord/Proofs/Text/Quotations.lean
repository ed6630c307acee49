import PackedRecord.Proofs.Table.Pieces
import PackedRecord.Text.Quoted

/-! # Quotations — what stands between quotes, and what stands in brackets

    Of the characters that are printable in ASCII two are escaped between
    quotes.  Who knows these two reads back what was quoted, and where it ends.
    Who follows a line, and takes a bracket between quotes for text, can tell
    at every character in how many brackets it stands; behind a text that opens
    and closes its own brackets this is the same as in front of it. -/

namespace PackedRecord.Text

namespace Quoted

/-! ## Reading what is quoted -/

/-- The characters that are escaped although they are printable. -/
def IsMark (c : Char) : Prop :=
  c = '"' ∨ c = '\\'

instance : DecidablePred IsMark := fun c => inferInstanceAs (Decidable (c = '"' ∨ c = '\\'))

/-- Printable characters have no short escape, unless they are one of the two
    marks. -/
theorem shortEscape?_eq_none {c : Char} (h : isPrintableAscii c = true) (hmark : ¬ IsMark c) :
    shortEscape? c = none := by
  unfold shortEscape?
  split
  · exact absurd h (by decide)
  · exact absurd h (by decide)
  · exact absurd h (by decide)
  · exact absurd h (by decide)
  · exact absurd (Or.inl rfl) hmark
  · exact absurd (Or.inr rfl) hmark
  · rfl

/-- A printable character is quoted as it is, or behind a backslash. -/
theorem encodeChar_eq {c : Char} (h : isPrintableAscii c = true) :
    encodeChar c = if IsMark c then ['\\', c] else [c] := by
  by_cases hmark : IsMark c
  · rw [if_pos hmark]
    rcases hmark with rfl | rfl
    · rfl
    · rfl
  · have hprintable : isPrintable c = true := by
      rw [isPrintable, h]
      rfl
    rw [if_neg hmark, encodeChar, shortEscape?_eq_none h hmark]
    exact if_pos hprintable

/-- Reads to the end of a quotation: what it says, and what stands behind it.
    There is a backslash before each mark, and before nothing else. -/
def readOn? : List Char → Option (List Char × List Char)
  | [] => none
  | '"' :: behind => some ([], behind)
  | '\\' :: c :: rest =>
      if IsMark c then (readOn? rest).map fun (said, behind) => (c :: said, behind) else none
  | c :: rest =>
      if IsMark c then none else (readOn? rest).map fun (said, behind) => (c :: said, behind)

/-- A backslash in front of a mark says the mark. -/
theorem readOn?_of_isMark {c : Char} (h : IsMark c) (rest : List Char) :
    readOn? ('\\' :: c :: rest)
      = (readOn? rest).map fun (said, behind) => (c :: said, behind) :=
  if_pos h

/-- Any other character says itself. -/
theorem readOn?_of_not_isMark {c : Char} (h : ¬ IsMark c) (rest : List Char) :
    readOn? (c :: rest) = (readOn? rest).map fun (said, behind) => (c :: said, behind) := by
  rw [readOn?.eq_def]
  split
  · next hnil => exact nomatch hnil
  · next hquote => exact absurd (Or.inl (List.cons.inj hquote).1) h
  · next hslash => exact absurd (Or.inr (List.cons.inj hslash).1) h
  · next hcons =>
      obtain ⟨rfl, rfl⟩ := List.cons.inj hcons
      exact if_neg h

/-- What the quotation says with which a line begins. -/
def said? : List Char → Option (List Char)
  | '"' :: rest => (readOn? rest).map (·.1)
  | _ => none

/-- **QUOTATIONS READ BACK**, whatever stands behind them. -/
theorem readOn?_encode {text : List Char} (h : ∀ c ∈ text, isPrintableAscii c = true)
    (behind : List Char) : readOn? (encode text ++ '"' :: behind) = some (text, behind) := by
  induction text with
  | nil => rfl
  | cons c rest ih =>
      obtain ⟨hc, hrest⟩ := List.forall_mem_cons.mp h
      rw [encode_cons, encodeChar_eq hc, List.append_assoc]
      by_cases hmark : IsMark c
      · rw [if_pos hmark, List.cons_append, List.singleton_append, readOn?_of_isMark hmark,
          ih hrest]
        rfl
      · rw [if_neg hmark, List.singleton_append, readOn?_of_not_isMark hmark, ih hrest]
        rfl

theorem toList_quote (text : String) :
    (quote text).toList = '"' :: (encode text.toList ++ ['"']) := by
  simp [quote]

/-- **WHAT IS QUOTED IS READ BACK**, whatever stands behind the quote. -/
theorem said?_quote {text : String} (h : Every isPrintableAscii text) (behind : List Char) :
    said? ((quote text).toList ++ behind) = some text.toList := by
  rw [toList_quote, List.cons_append, List.append_assoc, List.singleton_append, said?,
    readOn?_encode h]
  rfl

end Quoted

/-! ## Brackets -/

/-- Where a reader of a line stands: outside of quotes, between quotes, or
    there behind a backslash; and in how many brackets. -/
inductive Spot
  | plain (depth : Nat)
  | quoted (depth : Nat)
  | escaped (depth : Nat)

namespace Spot

/-- The brackets that are open. -/
def depth : Spot → Nat
  | plain depth => depth
  | quoted depth => depth
  | escaped depth => depth

/-- The spot behind one more character. -/
def next : Spot → Char → Spot
  | plain depth, c =>
      if c = '"' then quoted depth
      else if c = '[' then plain (depth + 1)
      else if c = ']' then plain (depth - 1)
      else plain depth
  | quoted depth, c =>
      if c = '"' then plain depth
      else if c = '\\' then escaped depth
      else quoted depth
  | escaped depth, _ => quoted depth

/-- The spot behind some more text. -/
def after (spot : Spot) (text : List Char) : Spot :=
  text.foldl next spot

@[simp] theorem after_nil (spot : Spot) : spot.after [] = spot := rfl

@[simp] theorem after_cons (spot : Spot) (c : Char) (text : List Char) :
    spot.after (c :: text) = (spot.next c).after text := rfl

/-- A text is followed part by part. -/
@[simp] theorem after_append (spot : Spot) (a b : List Char) :
    spot.after (a ++ b) = (spot.after a).after b :=
  List.foldl_append

end Spot

/-- What stands behind the text is neither quoted nor in a bracket. -/
def OnTop (before : List Char) : Prop :=
  (Spot.plain 0).after before = .plain 0

/-- The text leaves a reader where he was, and never takes him out of the
    brackets that he was in. -/
structure Closed (text : List Char) : Prop where
  back : ∀ depth, (Spot.plain depth).after text = .plain depth
  within : ∀ depth before, before <+: text → depth ≤ ((Spot.plain depth).after before).depth

theorem closed_nil : Closed [] where
  back := fun _ => rfl
  within := by
    intro depth before hbefore
    rw [List.prefix_nil.mp hbefore]
    exact Nat.le_refl depth

/-- What begins a text of two parts ends in the first part or in the second. -/
theorem prefix_append_cases {a b before : List Char} (h : before <+: a ++ b) :
    before <+: a ∨ ∃ rest, rest <+: b ∧ before = a ++ rest := by
  rcases List.prefix_or_prefix_of_prefix h (List.prefix_append a b) with hshort | ⟨rest, rfl⟩
  · exact Or.inl hshort
  · exact Or.inr ⟨rest, (List.prefix_append_right_inj a).mp h, rfl⟩

/-- What closes its brackets may be put together. -/
theorem Closed.append {a b : List Char} (ha : Closed a) (hb : Closed b) : Closed (a ++ b) where
  back := by
    intro depth
    rw [Spot.after_append, ha.back, hb.back]
  within := by
    intro depth before hbefore
    rcases prefix_append_cases hbefore with hfirst | ⟨rest, hrest, rfl⟩
    · exact ha.within depth before hfirst
    · rw [Spot.after_append, ha.back]
      exact hb.within depth rest hrest

/-- Closed pieces stay closed with a closed text between them. -/
theorem closed_intercalate {between : List Char} (hbetween : Closed between)
    {pieces : List (List Char)} (h : ∀ piece ∈ pieces, Closed piece) :
    Closed (between.intercalate pieces) := by
  induction pieces with
  | nil => exact closed_nil
  | cons piece rest ih =>
      obtain ⟨hpiece, hrest⟩ := List.forall_mem_cons.mp h
      cases rest with
      | nil =>
          rw [List.intercalate_singleton]
          exact hpiece
      | cons next rest =>
          rw [List.intercalate_cons_cons]
          exact (hpiece.append hbetween).append (ih hrest)

/-- A character that is neither a quote nor a bracket. -/
def isLoose (c : Char) : Bool :=
  c ≠ '"' && c ≠ '[' && c ≠ ']'

/-- A text without quotes and brackets is passed at the same depth. -/
theorem Spot.after_of_isLoose {text : List Char} (h : ∀ c ∈ text, isLoose c = true)
    (depth : Nat) : (Spot.plain depth).after text = .plain depth := by
  induction text with
  | nil => rfl
  | cons c rest ih =>
      obtain ⟨hc, hrest⟩ := List.forall_mem_cons.mp h
      have hnext : (Spot.plain depth).next c = .plain depth := by
        simp only [isLoose, Bool.and_eq_true, decide_eq_true_eq] at hc
        rw [Spot.next, if_neg hc.1.1, if_neg hc.1.2, if_neg hc.2]
      rw [Spot.after_cons, hnext]
      exact ih hrest

/-- A text without quotes and brackets has nothing to close. -/
theorem closed_of_isLoose {text : List Char} (h : ∀ c ∈ text, isLoose c = true) :
    Closed text where
  back := Spot.after_of_isLoose h
  within := by
    intro depth before hbefore
    rw [Spot.after_of_isLoose (fun c hc => h c (hbefore.subset hc))]
    exact Nat.le_refl depth

/-- What stands between two brackets is never on top. -/
theorem Closed.not_onTop {inner before : List Char} (h : Closed inner)
    (hbefore : before <+: '[' :: inner) (hne : before ≠ []) : ¬ OnTop before := by
  rcases List.prefix_cons_iff.mp hbefore with rfl | ⟨rest, rfl, hrest⟩
  · exact absurd rfl hne
  · intro htop
    have hdepth : 1 ≤ ((Spot.plain 1).after rest).depth := h.within 1 rest hrest
    have hzero : (Spot.plain 1).after rest = .plain 0 := htop
    rw [hzero] at hdepth
    exact absurd hdepth (by decide)

/-- Brackets around a closed text are closed. -/
theorem Closed.bracketed {inner : List Char} (h : Closed inner) :
    Closed ('[' :: (inner ++ [']'])) where
  back := by
    intro depth
    have hopen : (Spot.plain depth).next '[' = .plain (depth + 1) := rfl
    rw [Spot.after_cons, hopen, Spot.after_append, h.back]
    rfl
  within := by
    intro depth before hbefore
    rcases List.prefix_cons_iff.mp hbefore with rfl | ⟨rest, rfl, hrest⟩
    · exact Nat.le_refl depth
    have hopen : (Spot.plain depth).next '[' = .plain (depth + 1) := rfl
    rw [Spot.after_cons, hopen]
    rcases List.prefix_concat_iff.mp hrest with rfl | hinner
    · rw [Spot.after_append, h.back]
      exact Nat.le_refl depth
    · exact (Nat.le_succ depth).trans (h.within (depth + 1) rest hinner)

/-! ## Quotes -/

section

variable {text : List Char}

theorem Spot.next_quoted_of_not_isMark {c : Char} (h : ¬ Quoted.IsMark c) (depth : Nat) :
    (Spot.quoted depth).next c = .quoted depth := by
  obtain ⟨hquote, hslash⟩ := not_or.mp h
  rw [Spot.next, if_neg hquote, if_neg hslash]

/-- Inside quotes, what is encoded leads neither out nor deeper. -/
theorem Spot.after_encode (h : ∀ c ∈ text, isPrintableAscii c = true) (depth : Nat) :
    (Spot.quoted depth).after (Quoted.encode text) = .quoted depth := by
  induction text with
  | nil => rfl
  | cons c rest ih =>
      obtain ⟨hc, hrest⟩ := List.forall_mem_cons.mp h
      rw [Quoted.encode_cons, Quoted.encodeChar_eq hc, Spot.after_append]
      by_cases hmark : Quoted.IsMark c
      · rw [if_pos hmark]
        exact ih hrest
      · rw [if_neg hmark, Spot.after_cons, Spot.next_quoted_of_not_isMark hmark]
        exact ih hrest

/-- A quotation neither opens nor closes a bracket. -/
theorem Spot.depth_after_encode (h : ∀ c ∈ text, isPrintableAscii c = true) (depth : Nat)
    {before : List Char} (hbefore : before <+: Quoted.encode text ++ ['"']) :
    ((Spot.quoted depth).after before).depth = depth := by
  induction text generalizing before with
  | nil =>
      rcases List.prefix_cons_iff.mp hbefore with rfl | ⟨rest, rfl, hrest⟩
      · rfl
      · rw [List.prefix_nil.mp hrest]
        rfl
  | cons c rest ih =>
      obtain ⟨hc, hrest⟩ := List.forall_mem_cons.mp h
      rw [Quoted.encode_cons, Quoted.encodeChar_eq hc, List.append_assoc] at hbefore
      by_cases hmark : Quoted.IsMark c
      · rw [if_pos hmark, List.cons_append, List.singleton_append] at hbefore
        rcases List.prefix_cons_iff.mp hbefore with rfl | ⟨tail, rfl, htail⟩
        · rfl
        rcases List.prefix_cons_iff.mp htail with rfl | ⟨behind, rfl, hbehind⟩
        · rfl
        · show ((Spot.quoted depth).after behind).depth = depth
          exact ih hrest hbehind
      · rw [if_neg hmark, List.singleton_append] at hbefore
        rcases List.prefix_cons_iff.mp hbefore with rfl | ⟨tail, rfl, htail⟩
        · rfl
        · rw [Spot.after_cons, Spot.next_quoted_of_not_isMark hmark]
          exact ih hrest htail

end

/-- A quoted text is closed, whatever brackets stand between the quotes. -/
theorem closed_quote {text : String} (h : Every isPrintableAscii text) :
    Closed (Quoted.quote text).toList := by
  rw [Quoted.toList_quote]
  constructor
  · intro depth
    have hopen : (Spot.plain depth).next '"' = .quoted depth := rfl
    rw [Spot.after_cons, hopen, Spot.after_append, Spot.after_encode h]
    rfl
  · intro depth before hbefore
    rcases List.prefix_cons_iff.mp hbefore with rfl | ⟨rest, rfl, hrest⟩
    · exact Nat.le_refl depth
    · exact (Spot.depth_after_encode h depth hrest).ge

end PackedRecord.Text
