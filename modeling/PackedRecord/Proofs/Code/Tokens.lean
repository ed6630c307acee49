import Mathlib
import PackedRecord.Code.Program

/-! # Tokens — generated code as words and signs

    Blanks separate words and mean nothing else, so that code is read as a
    list of tokens.  Where two texts meet, their tokens are simply put together
    unless a word goes on across the seam: the heart is
    `tokens_append_of_startsApart` and `tokens_append_of_endsApart`, and
    `tokens_append_append` for a text that no word touches on either side.
    `split` cuts tokens at a separator that stands outside all brackets;
    `through?` follows the depth of the brackets, and what it passes without
    a cut is a piece of `split`. -/

namespace PackedRecord.Code

/-- A word, or a character that belongs to no word. -/
inductive Token
  | word (text : List Char)
  | sign (c : Char)
  deriving DecidableEq, Repr

/-- Letters, digits and `_`; the mark of an escaped name belongs to it. -/
def isWordChar (c : Char) : Bool :=
  c.isAlphanum || c == '_' || c == '#'

namespace Token

/-- The word that ends here, if there is one. -/
def ofWord : List Char → List Token
  | [] => []
  | c :: w => [word (c :: w)]

/-- The token of a character that belongs to no word, unless it is blank. -/
def ofSign (c : Char) : List Token :=
  if c.isWhitespace then [] else [sign c]

/-- The tokens of a text that goes on with the word `w`. -/
def listFrom (w : List Char) : List Char → List Token
  | [] => ofWord w
  | c :: rest =>
      if isWordChar c then listFrom (w ++ [c]) rest
      else ofWord w ++ ofSign c ++ listFrom [] rest

end Token

def tokens (text : String) : List Token :=
  Token.listFrom [] text.toList

/-! ## Where texts meet -/

/-- A text that goes on with no word. -/
def startsApart (text : String) : Bool :=
  text.toList.head?.all fun c => !isWordChar c

/-- A text behind which no word goes on. -/
def endsApart (text : String) : Bool :=
  text.toList.getLast?.all fun c => !isWordChar c

/-- What a text ends in, any longer text ends in. -/
theorem endsApart_append (a : String) {b : String} (hne : b ≠ "") (h : endsApart b = true) :
    endsApart (a ++ b) = true := by
  rw [endsApart] at h ⊢
  have hlist : b.toList ≠ [] := fun hnil => hne (String.toList_eq_nil_iff.mp hnil)
  rw [List.getLast?_eq_some_getLast hlist] at h
  rw [String.toList_append, List.getLast?_append, List.getLast?_eq_some_getLast hlist]
  exact h

namespace Token

/-- A character of a word is taken into the word so far. -/
theorem listFrom_of_wordChar {c : Char} (h : isWordChar c = true) (w rest : List Char) :
    listFrom w (c :: rest) = listFrom (w ++ [c]) rest :=
  if_pos h

theorem listFrom_of_not_wordChar {c : Char} (h : isWordChar c = false) (w rest : List Char) :
    listFrom w (c :: rest) = ofWord w ++ ofSign c ++ listFrom [] rest :=
  if_neg (by rw [h]; exact Bool.false_ne_true)

/-- A character that belongs to no word ends the one before it. -/
theorem listFrom_append_cons {c : Char} (h : isWordChar c = false) (a b : List Char) :
    ∀ w : List Char, listFrom w (a ++ c :: b) = listFrom w a ++ listFrom [] (c :: b) := by
  induction a with
  | nil =>
      intro w
      show listFrom w (c :: b) = ofWord w ++ listFrom [] (c :: b)
      rw [listFrom_of_not_wordChar h, listFrom_of_not_wordChar h, List.append_assoc]
      rfl
  | cons d a ih =>
      intro w
      show listFrom w (d :: (a ++ c :: b)) = _
      by_cases hd : isWordChar d = true
      · rw [listFrom_of_wordChar hd, listFrom_of_wordChar hd, ih]
      · rw [Bool.not_eq_true] at hd
        rw [listFrom_of_not_wordChar hd, listFrom_of_not_wordChar hd, ih,
          List.append_assoc _ _ (listFrom [] (c :: b))]

end Token

/-- The seam before a text that goes on with no word cuts no word. -/
theorem tokens_append_of_startsApart (a : String) {b : String} (h : startsApart b = true) :
    tokens (a ++ b) = tokens a ++ tokens b := by
  rw [tokens, String.toList_append, tokens, tokens]
  rw [startsApart] at h
  cases hb : b.toList with
  | nil => rw [List.append_nil]; exact (List.append_nil _).symm
  | cons c rest =>
      rw [hb] at h
      have hc : isWordChar c = false := by simpa using h
      exact Token.listFrom_append_cons hc a.toList rest []

/-- The seam behind a text that no word goes on from cuts no word. -/
theorem tokens_append_of_endsApart {a : String} (h : endsApart a = true) (b : String) :
    tokens (a ++ b) = tokens a ++ tokens b := by
  rw [tokens, String.toList_append, tokens, tokens]
  rw [endsApart] at h
  rcases List.eq_nil_or_concat a.toList with ha | ⟨rest, c, ha⟩
  · rw [ha]
    rfl
  · rw [ha, List.concat_eq_append] at h ⊢
    have hc : isWordChar c = false := by simpa using h
    -- the last character starts a text of its own, before `b` and alone
    rw [List.append_assoc, List.singleton_append, Token.listFrom_append_cons hc,
      Token.listFrom_append_cons hc, Token.listFrom_of_not_wordChar hc,
      Token.listFrom_of_not_wordChar hc, List.append_assoc (Token.listFrom [] rest)]
    show _ = Token.listFrom [] rest ++ ([] ++ Token.ofSign c ++ [] ++ Token.listFrom [] b.toList)
    rw [List.append_nil]
    rfl

/-- A text that no word touches on either side. -/
theorem tokens_append_append (a : String) {text : String} (b : String) (hne : text ≠ "")
    (hstarts : startsApart text = true) (hends : endsApart text = true) :
    tokens (a ++ text ++ b) = tokens a ++ tokens text ++ tokens b := by
  have hseam : startsApart (text ++ b) = true := by
    rw [startsApart] at hstarts ⊢
    rw [String.toList_append]
    cases ht : text.toList with
    | nil => exact absurd (String.toList_eq_nil_iff.mp ht) hne
    | cons c rest =>
        rw [ht] at hstarts
        exact hstarts
  rw [String.append_assoc, tokens_append_of_startsApart a hseam, tokens_append_of_endsApart hends,
    List.append_assoc]

def IsWord (text : String) : Prop :=
  text ≠ "" ∧ ∀ c ∈ text.toList, isWordChar c = true

/-- Blanks, brackets and other signs stand in no word. -/
theorem IsWord.not_mem {w : String} (h : IsWord w) {c : Char} (hc : isWordChar c = false) :
    c ∉ w.toList := by
  intro hmem
  rw [h.2 c hmem] at hc
  exact nomatch hc

/-- All of a word is one token. -/
theorem tokens_of_isWord {w : String} (h : IsWord w) : tokens w = [.word w.toList] := by
  obtain ⟨hne, hword⟩ := h
  -- the word so far takes in one character after another
  have hrun : ∀ (rest v : List Char), (∀ c ∈ rest, isWordChar c = true) →
      Token.listFrom v rest = Token.ofWord (v ++ rest) := by
    intro rest
    induction rest with
    | nil =>
        intro v _
        rw [List.append_nil]
        rfl
    | cons c rest ih =>
        intro v h
        rw [List.append_cons, Token.listFrom_of_wordChar (h c List.mem_cons_self),
          ih (v ++ [c]) fun d hd => h d (List.mem_cons_of_mem c hd)]
  show Token.listFrom [] w.toList = _
  rw [hrun w.toList [] hword, List.nil_append]
  cases hw : w.toList with
  | nil => exact absurd (String.toList_eq_nil_iff.mp hw) hne
  | cons c rest => rfl

/-! ## Brackets and separators -/

/-- The depth of the brackets behind a token. -/
def Token.depthAfter (depth : Nat) : Token → Nat
  | word _ => depth
  | sign c =>
      if c = '(' ∨ c = '[' ∨ c = '\x7b' then depth + 1
      else if c = ')' ∨ c = ']' ∨ c = '\x7d' then depth - 1
      else depth

/-- The pieces between separators outside all brackets, of tokens that stand
    at the given depth. -/
def split (separator : Char) : Nat → List Token → List (List Token)
  | _, [] => [[]]
  | depth, t :: ts =>
      if t = .sign separator ∧ depth = 0 then [] :: split separator 0 ts
      else (split separator (t.depthAfter depth) ts).modifyHead (t :: ·)

/-- The depth behind the tokens, unless `split` would cut them. -/
def through? (separator : Char) : Nat → List Token → Option Nat
  | depth, [] => some depth
  | depth, t :: ts =>
      if t = .sign separator ∧ depth = 0 then none
      else through? separator (t.depthAfter depth) ts

/-- A cut in either part is a cut in the whole, and the depth is handed on at
    the seam. -/
theorem through?_append (separator : Char) (a b : List Token) :
    ∀ depth, through? separator depth (a ++ b)
      = (through? separator depth a).bind fun d => through? separator d b := by
  induction a with
  | nil => exact fun _ => rfl
  | cons t a ih =>
      intro depth
      rw [List.cons_append, through?, through?]
      split
      · rfl
      · exact ih (t.depthAfter depth)

/-- Tokens without a cut stay in one piece with what follows. -/
theorem split_append_of_through {separator : Char} {a : List Token} (b : List Token) :
    ∀ {depth d : Nat}, through? separator depth a = some d →
      split separator depth (a ++ b) = (split separator d b).modifyHead (a ++ ·) := by
  induction a with
  | nil =>
      intro depth d h
      obtain rfl := Option.some.inj h
      show split separator depth b = _
      cases split separator depth b <;> rfl
  | cons t a ih =>
      intro depth d h
      rw [through?] at h
      split at h
      · exact nomatch h
      · next hcut =>
          show (if _ then _ else _) = _
          rw [if_neg hcut, List.append_eq, ih h, List.modifyHead_modifyHead]
          rfl

/-- Tokens that are cut at no depth and close what they open. -/
def Whole (separator : Char) (ts : List Token) : Prop :=
  ∀ depth, through? separator depth ts = some depth

/-- Tokens without a cut stay so when they are put together. -/
theorem whole_append {separator : Char} {a b : List Token} (ha : Whole separator a)
    (hb : Whole separator b) : Whole separator (a ++ b) := by
  intro depth
  rw [through?_append, ha depth]
  exact hb depth

theorem whole_word (separator : Char) (w : List Char) : Whole separator [.word w] := by
  intro depth
  rw [through?, if_neg (fun h => nomatch h.1)]
  rfl

/-- Tokens that are cut nowhere inside a bracket and close what they open. -/
def Inner (separator : Char) (ts : List Token) : Prop :=
  ∀ depth, through? separator (depth + 1) ts = some (depth + 1)

theorem Whole.inner {separator : Char} {ts : List Token} (h : Whole separator ts) :
    Inner separator ts :=
  fun depth => h (depth + 1)

theorem inner_append {separator : Char} {a b : List Token} (ha : Inner separator a)
    (hb : Inner separator b) : Inner separator (a ++ b) := by
  intro depth
  rw [through?_append, ha depth]
  exact hb depth

/-- Inside a bracket, pieces with a token between them that cuts nothing
    there. -/
theorem inner_intercalate {separator : Char} {between : Token} (hbetween : Inner separator [between])
    {pieces : List (List Token)} (h : ∀ piece ∈ pieces, Inner separator piece) :
    Inner separator ([between].intercalate pieces) := by
  induction pieces with
  | nil => exact fun _ => rfl
  | cons piece rest ih =>
      have hpiece := h piece List.mem_cons_self
      cases rest with
      | nil =>
          rw [List.intercalate_singleton]
          exact hpiece
      | cons next rest =>
          rw [List.intercalate_cons_cons]
          exact inner_append (inner_append hpiece hbetween)
            (ih fun p hp => h p (List.mem_cons_of_mem piece hp))

/-- The same with such a token behind every piece. -/
theorem inner_flatMap {separator : Char} {behind : Token} (hbehind : Inner separator [behind])
    {pieces : List (List Token)} (h : ∀ piece ∈ pieces, Inner separator piece) :
    Inner separator (pieces.flatMap (· ++ [behind])) := by
  induction pieces with
  | nil => exact fun _ => rfl
  | cons piece rest ih =>
      exact inner_append (inner_append (h piece List.mem_cons_self) hbehind)
        (ih fun p hp => h p (List.mem_cons_of_mem piece hp))

/-- Brackets around something that is not cut inside of them. -/
theorem whole_enclosed {separator : Char} {opening inner closing : List Token} (k : Nat)
    (hopening : ∀ depth, through? separator depth opening = some (depth + k + 1))
    (hinner : Inner separator inner)
    (hclosing : ∀ depth, through? separator (depth + k + 1) closing = some depth) :
    Whole separator (opening ++ inner ++ closing) := by
  intro depth
  rw [through?_append, through?_append, hopening depth]
  show Option.bind (through? separator (depth + k + 1) inner) _ = _
  rw [hinner (depth + k)]
  exact hclosing depth

theorem split_of_whole {separator : Char} {a : List Token} (h : Whole separator a) :
    split separator 0 a = [a] := by
  have hnil := split_append_of_through [] (h 0)
  rw [List.append_nil] at hnil
  rw [hnil]
  show [a ++ []] = [a]
  rw [List.append_nil]

/-- The separator behind tokens without a cut ends the first piece. -/
theorem split_append_separator {separator : Char} {a : List Token} (h : Whole separator a)
    (rest : List Token) :
    split separator 0 (a ++ .sign separator :: rest) = a :: split separator 0 rest := by
  rw [split_append_of_through _ (h 0), split, if_pos ⟨rfl, rfl⟩]
  show (a ++ []) :: _ = _
  rw [List.append_nil]

/-- Pieces that all end in the separator are found again, with nothing behind
    the last. -/
theorem split_terminated {separator : Char} {pieces : List (List Token)}
    (h : ∀ piece ∈ pieces, Whole separator piece) :
    split separator 0 (pieces.flatMap (· ++ [.sign separator])) = pieces ++ [[]] := by
  induction pieces with
  | nil => rfl
  | cons piece rest ih =>
      rw [List.flatMap_cons, List.append_assoc, List.singleton_append,
        split_append_separator (h piece List.mem_cons_self),
        ih fun p hp => h p (List.mem_cons_of_mem piece hp)]
      rfl

/-- Pieces with the separator between them are found again. -/
theorem split_intercalate {separator : Char} {pieces : List (List Token)} (hne : pieces ≠ [])
    (h : ∀ piece ∈ pieces, Whole separator piece) :
    split separator 0 ([.sign separator].intercalate pieces) = pieces := by
  induction pieces with
  | nil => exact absurd rfl hne
  | cons piece rest ih =>
      have hpiece := h piece List.mem_cons_self
      cases rest with
      | nil =>
          rw [List.intercalate_singleton]
          exact split_of_whole hpiece
      | cons next rest =>
          rw [List.intercalate_cons_cons, List.append_assoc, List.singleton_append,
            split_append_separator hpiece,
            ih (List.cons_ne_nil next rest) fun p hp => h p (List.mem_cons_of_mem piece hp)]

/-! ## Lines -/

/-- The text of the lines, each with its line feed. -/
def textOf (indent : Nat) (lines : List Line) : String :=
  String.join (lines.map (·.text indent))

/-- The lines of two lists follow each other in the text. -/
theorem textOf_append (indent : Nat) (a b : List Line) :
    textOf indent (a ++ b) = textOf indent a ++ textOf indent b := by
  rw [textOf, List.map_append, String.join_append]
  rfl

theorem textOf_singleton (indent : Nat) (line : Line) :
    textOf indent [line] = line.text indent := by
  rw [textOf, List.map_singleton, String.join_cons, String.join_nil, String.append_empty]

/-- No word goes on behind a line feed. -/
theorem endsApart_textOf (indent : Nat) (lines : List Line) :
    endsApart (textOf indent lines) = true := by
  rcases List.eq_nil_or_concat lines with rfl | ⟨before, line, rfl⟩
  · rfl
  · -- the last character is the line feed of the last line
    rw [List.concat_eq_append, textOf_append, textOf_singleton, endsApart]
    simp [Line.text, isWordChar, Char.isAlphanum, Char.isAlpha]

/-- A line feed lies at the seam between lines, so that their tokens are put
    together. -/
theorem tokens_textOf_append (indent : Nat) (a b : List Line) :
    tokens (textOf indent (a ++ b)) = tokens (textOf indent a) ++ tokens (textOf indent b) := by
  rw [textOf_append, tokens_append_of_endsApart (endsApart_textOf indent a)]

/-- Indentation means nothing. -/
theorem tokens_spaces (n : Nat) (text : String) :
    tokens (Text.spaces n ++ text) = tokens text := by
  induction n with
  | zero => exact congrArg tokens String.empty_append
  | succ n ih =>
      have hsplit : Text.spaces (n + 1) = " " ++ Text.spaces n := by
        rw [← String.toList_inj]
        simp [Text.spaces, List.replicate_succ]
      rw [hsplit, String.append_assoc, tokens_append_of_endsApart rfl, ih]
      rfl

/-- A line of code has the tokens of its code, however far it is indented. -/
theorem tokens_textOf_code (indent depth : Nat) (code : String) :
    tokens (textOf indent [.code depth code]) = tokens code := by
  rw [textOf_singleton]
  show tokens (Text.spaces (indent * depth) ++ code ++ "\n") = _
  rw [String.append_assoc, tokens_spaces, tokens_append_of_startsApart _ rfl]
  exact List.append_nil _

/-- The same for a line of code from every element of a list. -/
theorem tokens_textOf_map {α : Type} (indent depth : Nat) (code : α → String) (l : List α) :
    tokens (textOf indent (l.map fun a => .code depth (code a)))
      = l.flatMap fun a => tokens (code a) := by
  induction l with
  | nil => rfl
  | cons a l ih =>
      rw [List.map_cons, ← List.singleton_append, tokens_textOf_append, tokens_textOf_code, ih]
      rfl

end PackedRecord.Code
