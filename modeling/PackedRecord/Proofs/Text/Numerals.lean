import PackedRecord.Proofs.Outcomes
import PackedRecord.Proofs.Text.Digits

/-! # Numerals — which texts are numbers, and which numbers they are

    A run of digits denotes the sum of their values, each weighted by a power of
    the base; leading zeros add nothing, and letters count in either case.  The
    reader goes from the left and gives up as soon as the value reaches the
    bound.  Since more digits never make a number smaller, that is to say that
    the whole number reaches it (`readDigits_eq_ok_iff`). -/

namespace PackedRecord.Text

/-! ## What digits denote -/

/-- The character is a digit of the base and counts `d`, in either case. -/
def IsDigit (base : Nat) (c : Char) (d : Nat) : Prop :=
  d < base ∧ (c = Nat.digitChar d ∨ c = (Nat.digitChar d).toUpper)

/-- One digit or more, the last one counting once, and each other one `base`
    times as much as it would one place further right. -/
def Denotes (base : Nat) (text : List Char) (n : Nat) : Prop :=
  text ≠ [] ∧ ∃ digits, List.Forall₂ (IsDigit base) text digits
    ∧ n = Nat.ofDigits base digits.reverse

example : Denotes 16 ['0', '1', 'f', 'F'] 511 :=
  ⟨by decide, [0, 1, 15, 15], by simp [IsDigit, Nat.digitChar], by simp [Nat.ofDigits]⟩

section

variable {base : Nat} (hsixteen : base ≤ 16)

include hsixteen

theorem isDigit_of_digitValue? {c : Char} {d : Nat} (h : digitValue? base c = some d) :
    IsDigit base c d := by
  -- each class of digits begins somewhere, and digits are counted from there
  have hfrom : ∀ first : Nat, c.toNat = d + first → c = Char.ofNat (d + first) := by
    intro first hc
    rw [← hc, Char.ofNat_toNat]
  have hdecimal : ∀ k < 10, Char.ofNat (k + 48) = Nat.digitChar k := by decide
  have hlower : ∀ k < 16, 10 ≤ k → Char.ofNat (k + 87) = Nat.digitChar k := by decide
  have hupper : ∀ k < 16, 10 ≤ k → Char.ofNat (k + 55) = (Nat.digitChar k).toUpper := by decide
  unfold digitValue? at h
  simp only [Option.ite_none_right_eq_some, Option.some.injEq] at h
  obtain ⟨hd, hvalue⟩ := h
  rw [hvalue] at hd
  refine ⟨hd, ?_⟩
  have hrange : ∀ a b : Char, a ≤ c ∧ c ≤ b → a.toNat ≤ c.toNat ∧ c.toNat ≤ b.toNat :=
    fun a b h => h
  split_ifs at hvalue with h0 ha hA
  · have := hrange '0' '9' h0
    have hc := hfrom 48 (by simp at this hvalue; omega)
    rw [hdecimal d (by simp at this hvalue; omega)] at hc
    exact Or.inl hc
  · have := hrange 'a' 'z' ha
    have hc := hfrom 87 (by simp at this hvalue; omega)
    rw [hlower d (by omega) (by omega)] at hc
    exact Or.inl hc
  · have := hrange 'A' 'Z' hA
    have hc := hfrom 55 (by simp at this hvalue; omega)
    rw [hupper d (by omega) (by omega)] at hc
    exact Or.inr hc
  · omega

/-- The reader of digits knows the digits of the base, letters in either case,
    and no others. -/
theorem digitValue?_eq_some_iff {c : Char} {d : Nat} :
    digitValue? base c = some d ↔ IsDigit base c d := by
  refine ⟨isDigit_of_digitValue? hsixteen, ?_⟩
  have hupper : ∀ k < 16, digitValue? 16 (Nat.digitChar k).toUpper = some k := by decide
  rintro ⟨hd, rfl | rfl⟩
  · exact digitValue?_digitChar hd hsixteen
  · exact digitValue?_of_sixteen (hupper d (by omega)) hd

/-! ## Reading digits -/

omit hsixteen in
/-- Digits put behind a number, one after another. -/
theorem ofDigits_reverse (digits : List Nat) :
    Nat.ofDigits base digits.reverse = digits.foldl (fun value d => value * base + d) 0 := by
  rw [Nat.ofDigits_eq_foldr, List.foldr_reverse]
  congr 1
  funext value d
  simp [Nat.add_comm, Nat.mul_comm]

omit hsixteen in
/-- Digits put behind a number do not make it smaller. -/
theorem le_foldl (hbase : 0 < base) (digits : List Nat) :
    ∀ value, value ≤ digits.foldl (fun value d => value * base + d) value := by
  induction digits with
  | nil =>
      intro value
      exact Nat.le_refl value
  | cons d digits ih =>
      intro value
      have hstep : value ≤ value * base := Nat.le_mul_of_pos_right value hbase
      exact (hstep.trans (Nat.le_add_right _ d)).trans (ih _)

/-- Digits are read behind a number exactly if the whole number stays below the
    bound. -/
theorem readDigits_eq_ok_iff {bound n : Nat} (text : List Char) :
    ∀ {value : Nat}, value < bound →
      (readDigits base bound value text = .ok n
        ↔ n < bound ∧ ∃ digits, List.Forall₂ (IsDigit base) text digits
            ∧ n = digits.foldl (fun value d => value * base + d) value) := by
  induction text with
  | nil =>
      intro value hvalue
      rw [readDigits]
      constructor
      · intro h
        obtain rfl := Except.ok.inj h
        exact ⟨hvalue, [], List.Forall₂.nil, rfl⟩
      · rintro ⟨-, digits, hdigits, rfl⟩
        rw [List.forall₂_nil_left_iff.mp hdigits]
        rfl
  | cons c rest ih =>
      intro value _
      rw [readDigits]
      cases hc : digitValue? base c with
      | none =>
          constructor
          · intro h
            exact absurd h Outcome.error_ne_ok
          · rintro ⟨-, digits, hdigits, -⟩
            obtain ⟨d, digits, hd, -, rfl⟩ := List.forall₂_cons_left_iff.mp hdigits
            rw [(digitValue?_eq_some_iff hsixteen).mpr hd] at hc
            cases hc
      | some d =>
          have hd := (digitValue?_eq_some_iff hsixteen).mp hc
          -- no other digit can stand there
          have hcons : (∃ digits, List.Forall₂ (IsDigit base) (c :: rest) digits
                ∧ n = digits.foldl (fun value d => value * base + d) value)
              ↔ ∃ digits, List.Forall₂ (IsDigit base) rest digits
                ∧ n = digits.foldl (fun value d => value * base + d) (value * base + d) := by
            constructor
            · rintro ⟨digits, hdigits, hn⟩
              obtain ⟨d', digits, hd', hrest, rfl⟩ := List.forall₂_cons_left_iff.mp hdigits
              rw [(digitValue?_eq_some_iff hsixteen).mpr hd'] at hc
              obtain rfl := Option.some.inj hc
              exact ⟨digits, hrest, hn⟩
            · rintro ⟨digits, hrest, hn⟩
              exact ⟨d :: digits, List.Forall₂.cons hd hrest, hn⟩
          rw [hcons]
          dsimp only
          by_cases hlt : value * base + d < bound
          · rw [if_pos hlt]
            exact ih hlt
          · rw [if_neg hlt]
            constructor
            · intro h
              exact absurd h Outcome.error_ne_ok
            · rintro ⟨hn, digits, -, rfl⟩
              have hbase : 0 < base := (Nat.zero_le d).trans_lt hd.1
              have := le_foldl hbase digits (value * base + d)
              omega

/-- **A RUN OF DIGITS IS READ** exactly if the number that it denotes is below
    the bound. -/
theorem readDigits_zero_eq_ok_iff {bound n : Nat} (hbound : 0 < bound) {text : List Char}
    (hne : text ≠ []) :
    readDigits base bound 0 text = .ok n ↔ n < bound ∧ Denotes base text n := by
  rw [readDigits_eq_ok_iff hsixteen text hbound, Denotes]
  simp only [ofDigits_reverse, ne_eq, hne, not_false_eq_true, true_and]

omit hsixteen in
theorem not_denotes_nil (n : Nat) : ¬ Denotes base [] n :=
  fun h => h.1 rfl

/-- What begins with another character is no number. -/
theorem not_denotes_cons {c : Char} (hc : digitValue? base c = none) (rest : List Char) (n : Nat) :
    ¬ Denotes base (c :: rest) n := by
  rintro ⟨-, digits, hdigits, -⟩
  obtain ⟨d, -, hd, -, -⟩ := List.forall₂_cons_left_iff.mp hdigits
  rw [(digitValue?_eq_some_iff hsixteen).mpr hd] at hc
  exact nomatch hc

end

/-! ## Numbers with a sign -/

/-- A number, perhaps with a plus sign in front. -/
def IsNumber (base : Nat) (text : List Char) (n : Nat) : Prop :=
  ∃ digits, (text = digits ∨ text = '+' :: digits) ∧ Denotes base digits n

/-- A decimal number, perhaps with a sign in front. -/
def IsInteger (text : List Char) (i : Int) : Prop :=
  (∃ n : Nat, IsNumber 10 text n ∧ i = n)
    ∨ ∃ digits, ∃ n : Nat, text = '-' :: digits ∧ Denotes 10 digits n ∧ i = -n

section

variable {base : Nat}

/-- A sign is no digit. -/
theorem digitValue?_sign {c : Char} (hc : c = '+' ∨ c = '-') : digitValue? base c = none := by
  rcases hc with rfl | rfl <;> simp [digitValue?]

theorem isNumber_plus_iff (hsixteen : base ≤ 16) (digits : List Char) (n : Nat) :
    IsNumber base ('+' :: digits) n ↔ Denotes base digits n := by
  constructor
  · rintro ⟨digits', rfl | hplus, hn⟩
    · exact absurd hn (not_denotes_cons hsixteen (digitValue?_sign (Or.inl rfl)) digits n)
    · rw [(List.cons.inj hplus).2]
      exact hn
  · intro hn
    exact ⟨digits, Or.inr rfl, hn⟩

/-- Without a plus sign a number is its digits. -/
theorem isNumber_iff_of_ne_plus {text : List Char} (h : ∀ digits, text ≠ '+' :: digits) (n : Nat) :
    IsNumber base text n ↔ Denotes base text n := by
  constructor
  · rintro ⟨digits, rfl | hplus, hn⟩
    · exact hn
    · exact absurd hplus (h digits)
  · intro hn
    exact ⟨text, Or.inl rfl, hn⟩

/-- The letter of a mark is no digit, so no number begins with a mark. -/
theorem not_isNumber_marked (hsixteen : base ≤ 16) {x : Char} (hx : x = 'x' ∨ x = 'X')
    (digits : List Char) (n : Nat) : ¬ IsNumber base ('0' :: x :: digits) n := by
  have hnone : digitValue? base x = none := by
    rcases hx with rfl | rfl <;> simp [digitValue?] <;> omega
  have hplus : ∀ others, '0' :: x :: digits ≠ '+' :: others := by simp
  rw [isNumber_iff_of_ne_plus hplus]
  rintro ⟨-, values, hvalues, -⟩
  obtain ⟨-, values, -, hrest, -⟩ := List.forall₂_cons_left_iff.mp hvalues
  obtain ⟨d, -, hd, -, -⟩ := List.forall₂_cons_left_iff.mp hrest
  rw [(digitValue?_eq_some_iff hsixteen).mpr hd] at hnone
  exact nomatch hnone

/-- **NUMBERS ARE READ** exactly if they are below the bound. -/
theorem readNat_eq_ok_iff (hsixteen : base ≤ 16) {bound n : Nat} (hbound : 0 < bound)
    (text : List Char) :
    readNat base bound text = .ok n ↔ n < bound ∧ IsNumber base text n := by
  rw [readNat.eq_def]
  split
  · rw [isNumber_iff_of_ne_plus fun digits => (List.cons_ne_nil '+' digits).symm]
    exact ⟨fun h => absurd h Outcome.error_ne_ok, fun h => absurd h.2 (not_denotes_nil n)⟩
  · rw [isNumber_plus_iff hsixteen]
    exact ⟨fun h => absurd h Outcome.error_ne_ok, fun h => absurd h.2 (not_denotes_nil n)⟩
  · next digits hne =>
      rw [isNumber_plus_iff hsixteen]
      exact readDigits_zero_eq_ok_iff hsixteen hbound fun hnil => hne hnil
  · next hempty _ hplus =>
      rw [isNumber_iff_of_ne_plus (fun digits h => hplus digits h)]
      exact readDigits_zero_eq_ok_iff hsixteen hbound fun hnil => hempty hnil

end

/-- Behind a minus sign stand digits, and no second sign. -/
theorem isInteger_minus_iff (digits : List Char) (i : Int) :
    IsInteger ('-' :: digits) i ↔ ∃ n : Nat, Denotes 10 digits n ∧ i = -n := by
  constructor
  · rintro (⟨n, hn, -⟩ | ⟨digits', n, hminus, hn, hi⟩)
    · have hplus : ∀ others, '-' :: digits ≠ '+' :: others := by simp
      rw [isNumber_iff_of_ne_plus hplus] at hn
      exact absurd hn (not_denotes_cons (by decide) (digitValue?_sign (Or.inr rfl)) digits n)
    · rw [(List.cons.inj hminus).2]
      exact ⟨n, hn, hi⟩
  · rintro ⟨n, hn, hi⟩
    exact Or.inr ⟨digits, n, rfl, hn, hi⟩

/-- Without a minus sign an integer is a number. -/
theorem isInteger_iff_of_ne_minus {text : List Char} (h : ∀ digits, text ≠ '-' :: digits)
    (i : Int) : IsInteger text i ↔ ∃ n : Nat, IsNumber 10 text n ∧ i = n := by
  constructor
  · rintro (hn | ⟨digits, n, hminus, -⟩)
    · exact hn
    · exact absurd hminus (h digits)
  · intro hn
    exact Or.inl hn

/-- **INTEGERS ARE READ** exactly if they are in range; the least one is one
    further from zero than the largest. -/
theorem readInt_eq_ok_iff {bound : Nat} {i : Int} (hbound : 0 < bound) (text : List Char) :
    readInt bound text = .ok i ↔ (-(bound : Int) ≤ i ∧ i < bound) ∧ IsInteger text i := by
  rw [readInt.eq_def]
  split
  · rw [isInteger_minus_iff]
    constructor
    · intro h
      exact absurd h Outcome.error_ne_ok
    · rintro ⟨-, n, hn, -⟩
      exact absurd hn (not_denotes_nil n)
  · next digits hne =>
      rw [isInteger_minus_iff]
      have hread : ∀ n,
          readDigits 10 (bound + 1) 0 digits = .ok n ↔ n < bound + 1 ∧ Denotes 10 digits n :=
        fun n => readDigits_zero_eq_ok_iff (by decide) (Nat.succ_pos bound) fun hnil => hne hnil
      constructor
      · intro h
        obtain ⟨_, hm, rfl⟩ := Outcome.of_map_ok h
        obtain ⟨n, hread', hm⟩ := Outcome.of_bind_ok hm
        obtain rfl := Except.ok.inj hm
        obtain ⟨hlt, hn⟩ := (hread n).mp hread'
        exact ⟨by omega, n, hn, rfl⟩
      · rintro ⟨hrange, n, hn, rfl⟩
        rw [(hread n).mpr ⟨by omega, hn⟩]
        rfl
  · next hminus =>
      rw [isInteger_iff_of_ne_minus (fun digits h => hminus digits h)]
      constructor
      · intro h
        obtain ⟨m, hm, rfl⟩ := Outcome.of_map_ok h
        obtain ⟨hlt, hn⟩ := (readNat_eq_ok_iff (by decide) hbound text).mp hm
        exact ⟨⟨by simp, Int.ofNat_lt.mpr hlt⟩, m, hn, rfl⟩
      · rintro ⟨hrange, n, hn, rfl⟩
        rw [(readNat_eq_ok_iff (by decide) hbound text).mpr ⟨by omega, hn⟩]
        rfl

end PackedRecord.Text
