import PackedRecord.Proofs.Table.Pieces
import PackedRecord.Text.Numeral
import PackedRecord.Text.Printable

/-! # Digits — numbers written and read back

    The digits of a number, in any base up to sixteen, read as that number if
    it is below the bound.  Both proofs go by `toDigits_induction`: a number
    has its last digit, and before it the digits of what is left. -/

namespace PackedRecord.Text

/-! ## Digits -/

section

variable {base n : Nat}

/-- A number has its last digit, and before it, unless it is the only one, the
    digits of what is left. -/
theorem toDigits_induction {motive : Nat → List Char → Prop} (hbase : 1 < base)
    (one : ∀ d, d < base → motive d [Nat.digitChar d])
    (more : ∀ m d, d < base → motive m (Nat.toDigits base m) →
      motive (m * base + d) (Nat.toDigits base m ++ [Nat.digitChar d])) :
    ∀ n, motive n (Nat.toDigits base n) := by
  intro n
  induction n using Nat.strong_induction_on with
  | _ n ih =>
      rw [Nat.toDigits_eq_if hbase]
      by_cases hlt : n < base
      · rw [if_pos hlt]
        exact one n hlt
      · rw [if_neg hlt]
        have hmod : n % base < base := Nat.mod_lt n (by omega)
        have hrest : n / base < n := Nat.div_lt_self (by omega) hbase
        have hmore := more (n / base) (n % base) hmod (ih (n / base) hrest)
        rwa [Nat.div_add_mod'] at hmore

/-- What the digits of a number are taken from, in bases up to sixteen. -/
def digitChars : List Char :=
  ['0', '1', '2', '3', '4', '5', '6', '7', '8', '9', 'a', 'b', 'c', 'd', 'e', 'f']

/-- Numerals in bases up to sixteen are written in sixteen digits. -/
theorem mem_digitChars_of_mem_toDigits (hbase : 1 < base) (hsixteen : base ≤ 16) :
    ∀ c ∈ Nat.toDigits base n, c ∈ digitChars := by
  have hdigit : ∀ d < 16, Nat.digitChar d ∈ digitChars := by decide
  induction n using toDigits_induction hbase with
  | one d hd =>
      intro c hc
      rw [List.mem_singleton.mp hc]
      exact hdigit d (by omega)
  | more m d hd ih =>
      intro c hc
      rcases List.mem_append.mp hc with hc | hc
      · exact ih c hc
      · rw [List.mem_singleton.mp hc]
        exact hdigit d (by omega)

/-- A character that is no digit is in no number. -/
theorem not_mem_toDigits {c : Char} (hc : c ∉ digitChars) (hbase : 1 < base)
    (hsixteen : base ≤ 16) : c ∉ Nat.toDigits base n :=
  fun hmem => hc (mem_digitChars_of_mem_toDigits hbase hsixteen c hmem)

/-- What is no digit stands in no numeral. -/
theorem not_mem_toString {c : Char} (hc : c ∉ digitChars) (n : Nat) : c ∉ (toString n).toList := by
  rw [Nat.toString_eq_ofList_toDigits, String.toList_ofList]
  exact not_mem_toDigits hc (by decide) (by decide)

/-- What holds of all digits holds of every numeral. -/
theorem every_toString {kind : Char → Bool} (h : ∀ c ∈ digitChars, kind c = true) (n : Nat) :
    Every kind (toString n) := by
  rw [Nat.toString_eq_ofList_toDigits]
  exact every_ofList fun c hc =>
    h c (mem_digitChars_of_mem_toDigits (by decide) (by decide) c hc)

theorem every_hex {kind : Char → Bool} (h : ∀ c ∈ digitChars, kind c = true) (n : Nat) :
    Every kind (hex n) :=
  every_ofList fun c hc => h c (mem_digitChars_of_mem_toDigits (by decide) (by decide) c hc)

theorem every_toString_int {kind : Char → Bool} (hminus : kind '-' = true)
    (h : ∀ c ∈ digitChars, kind c = true) (i : Int) : Every kind (toString i) := by
  cases i with
  | ofNat m => exact every_toString h m
  | negSucc m =>
      have hsign : Every kind "-" := fun c hc => List.mem_singleton.mp hc ▸ hminus
      exact every_append hsign (every_toString h (m + 1))

theorem isPrintableAscii_of_mem_digitChars : ∀ c ∈ digitChars, isPrintableAscii c = true := by
  simp [digitChars, isPrintableAscii]

/-! ## Reading digits -/

/-- A digit counts the same in every base that has it. -/
theorem digitValue?_of_sixteen {c : Char} {d : Nat} (h : digitValue? 16 c = some d)
    (hd : d < base) : digitValue? base c = some d := by
  unfold digitValue? at h ⊢
  split_ifs at h ⊢ <;> simp_all

/-- A digit has the value that it was written for. -/
theorem digitValue?_digitChar {d : Nat} (hd : d < base) (hsixteen : base ≤ 16) :
    digitValue? base (Nat.digitChar d) = some d := by
  have hall : ∀ k < 16, digitValue? 16 (Nat.digitChar k) = some k := by decide
  exact digitValue?_of_sixteen (hall d (by omega)) hd

/-- Digits are read from the left, with the value so far. -/
theorem readDigits_append {bound : Nat} (a b : List Char) :
    ∀ value, readDigits base bound value (a ++ b)
      = readDigits base bound value a >>= fun v => readDigits base bound v b := by
  induction a with
  | nil => exact fun value => rfl
  | cons c rest ih =>
      intro value
      rw [List.cons_append, readDigits, readDigits]
      cases digitValue? base c with
      | none => rfl
      | some d =>
          show (if _ then _ else _) = (if _ then _ else _) >>= _
          by_cases hlt : value * base + d < bound
          · rw [if_pos hlt, if_pos hlt]
            exact ih (value * base + d)
          · rw [if_neg hlt, if_neg hlt]
            rfl

/-- **DIGITS READ BACK**, if the number is allowed. -/
theorem readDigits_toDigits {bound : Nat} (hbase : 1 < base) (hsixteen : base ≤ 16) :
    n < bound → readDigits base bound 0 (Nat.toDigits base n) = .ok n := by
  have hdigit : ∀ value d, d < base → value * base + d < bound →
      readDigits base bound value [Nat.digitChar d] = .ok (value * base + d) := by
    intro value d hd hlt
    rw [readDigits, digitValue?_digitChar hd hsixteen]
    exact if_pos hlt
  induction n using toDigits_induction hbase with
  | one d hd =>
      intro hlt
      rw [hdigit 0 d hd (by omega), Nat.zero_mul, Nat.zero_add]
  | more m d hd ih =>
      intro hlt
      have hm : m ≤ m * base := Nat.le_mul_of_pos_right m (by omega)
      rw [readDigits_append, ih (by omega)]
      exact hdigit m d hd hlt

/-- No digit is taken for a sign. -/
theorem readNat_toDigits {bound : Nat} (hbase : 1 < base) (hsixteen : base ≤ 16)
    (hlt : n < bound) : readNat base bound (Nat.toDigits base n) = .ok n := by
  have hdigits := readDigits_toDigits hbase hsixteen hlt
  have hplus : '+' ∉ Nat.toDigits base n := not_mem_toDigits (by decide) hbase hsixteen
  cases h : Nat.toDigits base n with
  | nil => exact absurd h Nat.toDigits_ne_nil
  | cons c rest =>
      rw [h] at hdigits hplus
      rw [readNat.eq_def]
      split
      · next hnil => exact nomatch hnil
      · next hsign =>
          obtain ⟨rfl, -⟩ := List.cons.inj hsign
          exact absurd List.mem_cons_self hplus
      · next hsign =>
          obtain ⟨rfl, -⟩ := List.cons.inj hsign
          exact absurd List.mem_cons_self hplus
      · exact hdigits

/-- **INTEGERS READ BACK**, the least one too. -/
theorem readInt_toString {bound : Nat} {i : Int} (hlow : -(bound : Int) ≤ i) (hhigh : i < bound) :
    readInt bound (toString i).toList = .ok i := by
  cases i with
  | ofNat m =>
      have hlist : (toString (Int.ofNat m)).toList = Nat.toDigits 10 m := Nat.toList_repr
      have hminus : '-' ∉ Nat.toDigits 10 m := not_mem_toDigits (by decide) (by decide) (by decide)
      have hread : readNat 10 bound (Nat.toDigits 10 m) = .ok m :=
        readNat_toDigits (by decide) (by decide) (Int.ofNat_lt.mp hhigh)
      rw [hlist, readInt.eq_def]
      split
      · next hsign =>
          rw [hsign] at hminus
          exact absurd List.mem_cons_self hminus
      · next hsign =>
          rw [hsign] at hminus
          exact absurd List.mem_cons_self hminus
      · rw [hread]
        rfl
  | negSucc m =>
      have hlist : (toString (Int.negSucc m)).toList = '-' :: Nat.toDigits 10 (m + 1) := by
        show ("-" ++ toString (m + 1)).toList = _
        rw [String.toList_append, Nat.toString_eq_ofList_toDigits, String.toList_ofList,
          String.toList_ofList]
        rfl
      have hlt : m + 1 < bound + 1 := by omega
      have hread : readDigits 10 (bound + 1) 0 (Nat.toDigits 10 (m + 1)) = .ok (m + 1) :=
        readDigits_toDigits (by decide) (by decide) hlt
      rw [hlist, readInt.eq_def]
      split
      · next hsign =>
          exact absurd (List.cons.inj hsign).2 Nat.toDigits_ne_nil
      · next hsign =>
          rw [← (List.cons.inj hsign).2, hread]
          rfl
      · next hsign => exact absurd rfl (hsign _)

end

end PackedRecord.Text
