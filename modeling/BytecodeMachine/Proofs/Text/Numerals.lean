import BytecodeMachine.CommandLine.Options
import BytecodeMachine.Text.Radix
import Mathlib.Data.List.Forall2
import Mathlib.Data.Nat.Digits.Defs
import Mathlib.Tactic.SplitIfs

/-!
# Numbers written in digits

Listings write numbers with `Text.digits`, and the command line reads them with
`CommandLine.digits?`, in any base up to sixteen.

* `IsDigit` says which characters are digits, without a computation on their codes;
* `digits?_eq_some_iff` says that the number read is the positional value of the digits;
* `digits?_digits` says that reading undoes writing, whatever the least width is.
-/

namespace BytecodeMachine.CommandLine

/-! ## Single digits -/

/-- The character is the digit `d` of the base; letters may be of either case. -/
def IsDigit (base d : Nat) (c : Char) : Prop :=
  d < base ∧ (c = d.digitChar ∨ c = d.digitChar.toUpper)

/-- What holds of every character code between two characters holds of every character there. -/
theorem of_char_between {P : Char → Prop} {first last c : Char} (hfrom : first ≤ c)
    (hto : c ≤ last)
    (hall : ∀ n, n < last.toNat + 1 → first.toNat ≤ n → P (Char.ofNat n)) : P c := by
  have hc := hall c.toNat (Nat.lt_succ_of_le hto) hfrom
  rwa [Char.ofNat_toNat] at hc

theorem isDigit_of_digit? {base d : Nat} {c : Char} (hdigit : digit? base c = some d) :
    IsDigit base d c := by
  obtain ⟨hvalue, hsmall⟩ := Option.filter_eq_some_iff.mp hdigit
  refine ⟨by simpa using hsmall, ?_⟩
  split_ifs at hvalue with hfigure hlower hupper
  · rw [← Option.some.inj hvalue]
    left
    exact of_char_between (P := fun c => c = (c.toNat - '0'.toNat).digitChar) hfigure.1
      hfigure.2 (by decide)
  · rw [← Option.some.inj hvalue]
    left
    exact of_char_between (P := fun c => c = (c.toNat - 'a'.toNat + 10).digitChar) hlower.1
      hlower.2 (by decide)
  · rw [← Option.some.inj hvalue]
    right
    exact of_char_between (P := fun c => c = (c.toNat - 'A'.toNat + 10).digitChar.toUpper)
      hupper.1 hupper.2 (by decide)

theorem digit?_of_isDigit {base d : Nat} {c : Char} (hbase : base ≤ 16)
    (hdigit : IsDigit base d c) : digit? base c = some d := by
  obtain ⟨hsmall, hchar⟩ := hdigit
  have hall : ∀ k, k < 16 →
      digit? 16 k.digitChar = some k ∧ digit? 16 k.digitChar.toUpper = some k := by decide
  have hread : digit? 16 c = some d := by
    rcases hchar with rfl | rfl
    · exact (hall d (by omega)).1
    · exact (hall d (by omega)).2
  obtain ⟨hvalue, -⟩ := Option.filter_eq_some_iff.mp hread
  exact Option.filter_eq_some_iff.mpr ⟨hvalue, by simpa using hsmall⟩

/-! ## Rows of digits -/

/-- Reading goes on where it stopped. -/
theorem digits?_append (base value : Nat) (front back : List Char) :
    digits? base value (front ++ back) =
      (digits? base value front).bind fun read => digits? base read back := by
  induction front generalizing value with
  | nil => rfl
  | cons c front ih =>
      rw [List.cons_append, digits?, digits?]
      cases digit? base c with
      | none => rfl
      | some d => exact ih _

/-- Only digits are read. -/
theorem digit?_isSome_of_mem {base value n : Nat} {ds : List Char} {c : Char}
    (hread : digits? base value ds = some n) (hc : c ∈ ds) : (digit? base c).isSome := by
  induction ds generalizing value with
  | nil => cases hc
  | cons first ds ih =>
      rw [digits?] at hread
      cases hdigit : digit? base first with
      | none =>
          rw [hdigit] at hread
          cases hread
      | some d =>
          rw [hdigit] at hread
          rcases List.mem_cons.mp hc with rfl | hrest
          · rw [hdigit]
            rfl
          · exact ih hread hrest

/-- Reading gives the positional value of the digits, behind what was read before. -/
theorem digits?_eq_some_iff {base : Nat} (hbase : base ≤ 16) (value n : Nat) (ds : List Char) :
    digits? base value ds = some n ↔
      ∃ figures, List.Forall₂ (IsDigit base) figures ds ∧
        Nat.ofDigits base (figures.reverse ++ [value]) = n := by
  induction ds generalizing value with
  | nil =>
      simp only [digits?, List.forall₂_nil_right_iff, exists_eq_left, List.reverse_nil,
        List.nil_append, Nat.ofDigits_singleton, Option.some.injEq]
  | cons c ds ih =>
      -- A further digit is the one of least weight, and what was read moves up by one place.
      have hshift : ∀ (d : Nat) (figures : List Nat),
          Nat.ofDigits base ((d :: figures).reverse ++ [value]) =
            Nat.ofDigits base (figures.reverse ++ [base * value + d]) := by
        intro d figures
        simp only [List.reverse_cons, List.append_assoc, Nat.ofDigits_append,
          Nat.ofDigits_singleton, List.length_singleton, Nat.pow_one]
        rw [Nat.add_comm d]
      rw [digits?]
      cases hdigit : digit? base c with
      | none =>
          simp only [reduceCtorEq, false_iff]
          rintro ⟨figures, hfigures, -⟩
          cases hfigures with
          | cons hhead _ =>
              rw [digit?_of_isDigit hbase hhead] at hdigit
              cases hdigit
      | some d =>
          simp only [ih]
          constructor
          · rintro ⟨figures, hfigures, hn⟩
            exact ⟨d :: figures, .cons (isDigit_of_digit? hdigit) hfigures,
              (hshift d figures).trans hn⟩
          · rintro ⟨figures, hfigures, hn⟩
            cases hfigures with
            | @cons d' _ figures _ hhead htail =>
                have hsame : d' = d := by
                  rw [digit?_of_isDigit hbase hhead] at hdigit
                  exact Option.some.inj hdigit
                subst hsame
                exact ⟨figures, htail, (hshift d' figures).symm.trans hn⟩

/-! ## Written numbers -/

theorem digit?_digitChar {base d : Nat} (hbase : base ≤ 16) (hd : d < base) :
    digit? base d.digitChar = some d :=
  digit?_of_isDigit hbase ⟨hd, .inl rfl⟩

theorem digits?_toDigits {base : Nat} (hone : 1 < base) (hbase : base ≤ 16) (n : Nat) :
    digits? base 0 (Nat.toDigits base n) = some n := by
  induction n using Nat.strongRecOn with
  | ind n ih =>
      rw [Nat.toDigits_eq_if hone]
      split_ifs with hsmall
      · rw [digits?, digit?_digitChar hbase hsmall]
        simp only [digits?, Nat.mul_zero, Nat.zero_add]
      · have hshorter : n / base < n := Nat.div_lt_self (by omega) hone
        have hlast : n % base < base := Nat.mod_lt n (by omega)
        rw [digits?_append, ih _ hshorter, Option.bind_some, digits?,
          digit?_digitChar hbase hlast]
        simp only [digits?, Nat.div_add_mod]

theorem digits?_zeros {base : Nat} (hone : 1 < base) (hbase : base ≤ 16) (k : Nat) :
    digits? base 0 (List.replicate k '0') = some 0 := by
  have hzero : digit? base '0' = some 0 := digit?_of_isDigit hbase ⟨by omega, .inl rfl⟩
  induction k with
  | zero => rfl
  | succ k ih => rw [List.replicate_succ, digits?, hzero]; exact ih

/-- A number that was written is read back, whatever the least width is. -/
theorem digits?_digits {base : Nat} (hone : 1 < base) (hbase : base ≤ 16) (width n : Nat) :
    digits? base 0 (Text.digits base width n) = some n := by
  rw [Text.digits, digits?_append, digits?_zeros hone hbase, Option.bind_some,
    digits?_toDigits hone hbase]

end BytecodeMachine.CommandLine
