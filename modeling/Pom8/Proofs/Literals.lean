import Mathlib.Data.Nat.Digits.Defs
import Pom8.Proofs.Lookahead
import Pom8.Proofs.Numerals

/-!
# Literals of any length

A register number or a literal is judged by the number that its digits denote,
however many digits there are.  A reader that keeps the number in a machine
integer and checks each step for overflow judges in the same way: the number
leaves the integer only after it has left its range, and zeros in front never
make it grow.
-/

namespace Pom8

/-! ## The number that digits denote -/

namespace Numeral

/-- The number that digits denote by their places, the last digit counting
once. -/
def number (base : Nat) (digits : List Char) : Nat :=
  Nat.ofDigits base (digits.reverse.map digitValue)

theorem value_eq_number (base : Nat) (digits : List Char) :
    value base digits = number base digits := by
  induction digits using List.reverseRecOn with
  | nil => rfl
  | append_singleton digits c ih =>
      rw [value_concat, ih, number, number, List.reverse_concat, List.map_cons,
        Nat.ofDigits_cons, Nat.mul_comm, Nat.add_comm]

/-! ## Digits read in a machine integer -/

/-- The least and the greatest number that a machine integer holds. -/
structure Bounds where
  least : Int
  greatest : Int
  least_le : least ≤ 0
  le_greatest : 0 ≤ greatest

namespace Bounds

/-- Natural numbers of 32 bits. -/
def unsigned32 : Bounds := ⟨0, 0xFFFFFFFF, by decide, by decide⟩

/-- Integers of 64 bits. -/
def signed64 : Bounds :=
  ⟨-0x8000000000000000, 0x7FFFFFFFFFFFFFFF, by decide, by decide⟩

/-- A number, unless it overflows. -/
def check (bounds : Bounds) (n : Int) : Option Int :=
  if bounds.least ≤ n ∧ n ≤ bounds.greatest then some n else none

/-- Adds a digit to what was read, or subtracts it below zero.  The product and
the sum are checked in turn. -/
def step (bounds : Bounds) (base : Nat) (sign n : Int) (c : Char) : Option Int :=
  (bounds.check (n * base)).bind fun scaled =>
    bounds.check (scaled + sign * digitValue c)

/-- Reads digits from the left, up to the first overflow. -/
def read (bounds : Bounds) (base : Nat) (sign : Int) (digits : List Char) :
    Option Int :=
  digits.foldlM (bounds.step base sign) 0

variable {bounds : Bounds}

/-- A number that overflows on the way to a number farther from zero makes no
difference: the other overflows too. -/
theorem check_bind_eq
    {m n : Int} {next : Int → Option Int}
    (hbetween : 0 ≤ m ∧ m ≤ n ∨ n ≤ m ∧ m ≤ 0) (hnext : next m = bounds.check n) :
    (bounds.check m).bind next = bounds.check n := by
  have hleast := bounds.least_le
  have hgreatest := bounds.le_greatest
  unfold check at *
  by_cases hfits : bounds.least ≤ m ∧ m ≤ bounds.greatest
  · rw [if_pos hfits]
    exact hnext
  · rw [if_neg hfits, if_neg (by omega)]
    rfl

/-- Reading in a machine integer fails only if the number itself overflows. -/
theorem read_eq_check
    {base : Nat} (hbase : 0 < base) {sign : Int} (hsign : sign = 1 ∨ sign = -1)
    (digits : List Char) :
    bounds.read base sign digits = bounds.check (sign * value base digits) := by
  induction digits using List.reverseRecOn with
  | nil =>
      have hzero : bounds.check 0 = some 0 :=
        if_pos ⟨bounds.least_le, bounds.le_greatest⟩
      simp [read, value, hzero]
  | append_singleton digits c ih =>
      have hgrows : value base digits ≤ value base digits * base :=
        Nat.le_mul_of_pos_right _ hbase
      rw [read, List.foldlM_append, ← read, ih, value_concat]
      simp only [List.foldlM_cons, List.foldlM_nil, bind_pure]
      generalize value base digits = n at *
      generalize hscaled : n * base = scaled at *
      apply check_bind_eq
      · rcases hsign with rfl | rfl <;> omega
      · rw [step]
        have hmul : sign * (n : Int) * base = sign * scaled := by
          rw [Int.mul_assoc, ← Int.natCast_mul, hscaled]
        rw [hmul]
        apply check_bind_eq
        · rcases hsign with rfl | rfl <;> omega
        · rw [Int.natCast_add, Int.mul_add]

theorem read_positive
    {base : Nat} (hbase : 0 < base) (digits : List Char) :
    bounds.read base 1 digits = bounds.check (number base digits) := by
  rw [read_eq_check hbase (Or.inl rfl), Int.one_mul, value_eq_number]

theorem read_negative
    {base : Nat} (hbase : 0 < base) (digits : List Char) :
    bounds.read base (-1) digits = bounds.check (-number base digits) := by
  rw [read_eq_check hbase (Or.inr rfl), Int.neg_mul, Int.one_mul, value_eq_number]

/-- A number is kept, or it fails every condition that would make it fit. -/
theorem map_check_cases
    {α : Type} {n : Int} {condition : Prop}
    (hfits : condition → bounds.least ≤ n ∧ n ≤ bounds.greatest) (f : Int → α) :
    (bounds.check n).map f = some (f n) ∨
      (bounds.check n).map f = none ∧ ¬condition := by
  unfold check
  split
  next => exact Or.inl rfl
  next hoverflow => exact Or.inr ⟨rfl, mt hfits hoverflow⟩

end Bounds
end Numeral

open Numeral

/-! ## The number that a token denotes -/

namespace Token.Kind

/-- The kinds of the tokens that write a number. -/
def ofNumber : List Kind :=
  [.register, .hexadecimal, .binary, .decimal]

/-- The texts that write a number, by their kind. -/
inductive Denotes : Kind → List Char → Int → Prop
  | register {c : Char} {digits : List Char} :
      c = 'r' ∨ c = 'R' → Grammar.IsNumeral Char.isDigit digits →
        Denotes .register (c :: digits) (number 10 digits)
  | hexadecimal {c : Char} {digits : List Char} :
      c = 'x' ∨ c = 'X' → Grammar.IsNumeral isHexDigit digits →
        Denotes .hexadecimal ('0' :: c :: digits) (number 16 digits)
  | binary {c : Char} {digits : List Char} :
      c = 'b' ∨ c = 'B' → Grammar.IsNumeral isBinaryDigit digits →
        Denotes .binary ('0' :: c :: digits) (number 2 digits)
  | decimal {digits : List Char} :
      Grammar.IsNumeral Char.isDigit digits →
        Denotes .decimal digits (number 10 digits)
  | negative {digits : List Char} :
      Grammar.IsNumeral Char.isDigit digits →
        Denotes .decimal ('-' :: digits) (-number 10 digits)

/-- The numbers that can be used. -/
def InRange : Kind → Int → Prop
  | .register, n => n ≤ 15
  | .hexadecimal, n => n ≤ 0x3FF
  | .binary, n => n ≤ 255
  | .decimal, n => -128 ≤ n ∧ n ≤ 255
  | .mnemonic, _ | .label, _ | .comment, _ | .newline, _ => False

instance (kind : Kind) (n : Int) : Decidable (kind.InRange n) :=
  match kind with
  | .register => inferInstanceAs (Decidable (n ≤ 15))
  | .hexadecimal => inferInstanceAs (Decidable (n ≤ 0x3FF))
  | .binary => inferInstanceAs (Decidable (n ≤ 255))
  | .decimal => inferInstanceAs (Decidable (-128 ≤ n ∧ n ≤ 255))
  | .mnemonic | .label | .comment | .newline => inferInstanceAs (Decidable False)

/-- A literal in range overflows no integer of 64 bits. -/
theorem Denotes.fits_signed64
    {kind : Kind} {text : List Char} {n : Int} (h : Denotes kind text n)
    (hrange : kind.InRange n) :
    Bounds.signed64.least ≤ n ∧ n ≤ Bounds.signed64.greatest := by
  cases h <;>
    simp only [InRange, Bounds.signed64] at hrange ⊢ <;>
    omega

end Token.Kind

namespace Operand

/-- The operands that carry a number, with the base that the kind of the token
tells. -/
inductive Carries : Token.Kind → Int → Operand → Prop
  | register (index : Nat) : Carries .register index (register index)
  | hexadecimal (n : Nat) : Carries .hexadecimal n (immediate n .hexadecimal)
  | binary (n : Nat) : Carries .binary n (immediate n .binary)
  | decimal (n : Int) : Carries .decimal n (immediate n .decimal)

end Operand

/-! ## Operands read in machine integers -/

/-- The operand that a token writes, unless its number overflows a machine
integer: one of 32 bits for registers, of 64 bits for literals. -/
def Operand.read? (token : Token) : Option Operand :=
  let characters := token.text.toList
  match token.kind with
  | .register =>
    (Bounds.unsigned32.read 10 1 (characters.drop 1)).map fun n =>
      register n.toNat
  | .decimal =>
    match characters with
    | '-' :: digits =>
      (Bounds.signed64.read 10 (-1) digits).map (immediate · .decimal)
    | digits => (Bounds.signed64.read 10 1 digits).map (immediate · .decimal)
  | .hexadecimal =>
    (Bounds.signed64.read 16 1 (characters.drop 2)).map (immediate · .hexadecimal)
  | .binary =>
    (Bounds.signed64.read 2 1 (characters.drop 2)).map (immediate · .binary)
  | .mnemonic => some (label token.text)
  | .label | .comment | .newline => none

/-- Takes a token as the next operand, with its number read in a machine integer.
An overflow is found before the range is looked at. -/
def Statement.takeRead (symbols : SymbolTable) (statement : Statement) (token : Token) :
    Except Fault (Operand × Statement) :=
  let layouts := statement.layouts.filterMap (Layout.after? token.kind)
  if layouts = [] then
    .error (.unexpected token.line statement.expectation (some token))
  else
    match Operand.read? token with
    | none => .error (.outOfRange token.line token.text token.kind)
    | some operand =>
      if operand.isValid symbols then
        .ok (operand,
          { statement with
            lastLine := token.line
            operands := statement.operands ++ [operand]
            layouts := layouts })
      else .error (Statement.invalidOperand token operand)

namespace Operand.Carries

variable {kind : Token.Kind} {n : Int} {operand : Operand}

theorem isValid_iff (h : Carries kind n operand) (symbols : SymbolTable) :
    operand.isValid symbols = true ↔ kind.InRange n := by
  cases h with
  | register index =>
      simp only [isValid, decide_eq_true_eq, Token.Kind.InRange]
      omega
  | hexadecimal n | binary n =>
      rw [Grammar.isValid_immediate_iff]
      simp only [Radix.least, Radix.greatest, Token.Kind.InRange]
      omega
  | decimal n => exact Grammar.isValid_immediate_iff

theorem invalidOperand_eq (h : Carries kind n operand) (token : Token) :
    Statement.invalidOperand token operand =
      .outOfRange token.line token.text token.kind := by
  cases h <;> rfl

theorem unique {other : Int} (h : Carries kind n operand)
    (hother : Carries kind other operand) : n = other := by
  cases h <;> cases hother <;> rfl

end Operand.Carries

section Denoted

variable {token : Token}

theorem Token.exists_denotes (h : token.kind ∈ Kind.ofNumber) :
    ∃ n, token.kind.Denotes token.text.toList n := by
  have hadmits := Kind.admits_of_ofText?_eq_some token.kind_eq
  simp only [Kind.ofNumber, List.mem_cons, List.not_mem_nil, or_false] at h
  rcases h with hkind | hkind | hkind | hkind
  · rw [hkind] at hadmits ⊢
    obtain ⟨c, digits, htext, hc, hdigits⟩ := isRegister_iff.mp hadmits
    rw [htext]
    exact ⟨_, .register hc (Grammar.isNumeral_iff.mpr hdigits)⟩
  · rw [hkind] at hadmits ⊢
    obtain ⟨c, digits, htext, hc, hdigits⟩ := isHexadecimal_iff.mp hadmits
    rw [htext]
    exact ⟨_, .hexadecimal hc (Grammar.isNumeral_iff.mpr hdigits)⟩
  · rw [hkind] at hadmits ⊢
    obtain ⟨c, digits, htext, hc, hdigits⟩ := isBinary_iff.mp hadmits
    rw [htext]
    exact ⟨_, .binary hc (Grammar.isNumeral_iff.mpr hdigits)⟩
  · rw [hkind] at hadmits ⊢
    rcases isDecimal_iff.mp hadmits with hdigits | ⟨digits, htext, hdigits⟩
    · exact ⟨_, .decimal (Grammar.isNumeral_iff.mpr hdigits)⟩
    · rw [htext]
      exact ⟨_, .negative (Grammar.isNumeral_iff.mpr hdigits)⟩

/-- A token writes the operand that carries its number.  A machine integer holds
the number, or the number lies outside its range. -/
theorem Operand.carries_of_denotes
    {n : Int} (h : token.kind.Denotes token.text.toList n) :
    ∃ operand, Carries token.kind n operand ∧ ofToken? token = some operand ∧
      (read? token = some operand ∨
        read? token = none ∧ ¬token.kind.InRange n) := by
  have hfits := h.fits_signed64
  generalize hkind : token.kind = kind at h hfits
  generalize htext : token.text.toList = text at h
  cases h with
  | register hc hdigits =>
      refine ⟨_, .register _, ?_, ?_⟩
      · simp only [ofToken?, hkind, htext, List.drop_one, List.tail_cons,
          value_eq_number]
      · simp only [read?, hkind, htext, List.drop_one, List.tail_cons,
          Bounds.read_positive (show 0 < 10 by decide)]
        refine Bounds.map_check_cases (fun hrange => ?_) fun n => register n.toNat
        simp only [Bounds.unsigned32, Token.Kind.InRange] at hrange ⊢
        omega
  | hexadecimal hc hdigits =>
      refine ⟨_, .hexadecimal _, ?_, ?_⟩
      · simp only [ofToken?, hkind, htext, List.drop_succ_cons, List.drop_zero,
          value_eq_number]
      · simp only [read?, hkind, htext, List.drop_succ_cons, List.drop_zero,
          Bounds.read_positive (show 0 < 16 by decide)]
        exact Bounds.map_check_cases hfits _
  | binary hc hdigits =>
      refine ⟨_, .binary _, ?_, ?_⟩
      · simp only [ofToken?, hkind, htext, List.drop_succ_cons, List.drop_zero,
          value_eq_number]
      · simp only [read?, hkind, htext, List.drop_succ_cons, List.drop_zero,
          Bounds.read_positive (show 0 < 2 by decide)]
        exact Bounds.map_check_cases hfits _
  | decimal hdigits =>
      have hsign : ∀ rest, text ≠ '-' :: rest := by
        rintro rest rfl
        exact absurd (hdigits.2 '-' List.mem_cons_self) (by decide)
      refine ⟨_, .decimal _, ?_, ?_⟩
      · simp only [ofToken?, hkind, htext, value_eq_number]
      · simp only [read?, hkind, htext, Bounds.read_positive (show 0 < 10 by decide)]
        exact Bounds.map_check_cases hfits _
  | negative hdigits =>
      refine ⟨_, .decimal _, ?_, ?_⟩
      · simp only [ofToken?, hkind, htext, value_eq_number]
      · simp only [read?, hkind, htext, Bounds.read_negative (show 0 < 10 by decide)]
        exact Bounds.map_check_cases hfits _

theorem Operand.read?_eq_ofToken? (h : token.kind ∉ Token.Kind.ofNumber) :
    read? token = ofToken? token := by
  unfold read? ofToken?
  cases hkind : token.kind with
  | register | hexadecimal | binary | decimal =>
      rw [hkind] at h
      exact absurd (by decide) h
  | mnemonic | label | comment | newline => rfl

end Denoted

namespace Statement

/-- Reading numbers in machine integers changes nothing. -/
theorem takeRead_eq_take
    (symbols : SymbolTable) (statement : Statement) (token : Token) :
    statement.takeRead symbols token = statement.take symbols token := by
  by_cases hnil : statement.layouts.filterMap (Layout.after? token.kind) = []
  · rw [takeRead, if_pos hnil, take_of_filterMap_eq_nil hnil]
  · obtain ⟨rest, hrest⟩ := List.exists_mem_of_ne_nil _ hnil
    obtain ⟨slot, -, haccepts⟩ := mem_filterMap_after?.mp hrest
    obtain ⟨operand, hoperand⟩ := Operand.exists_ofToken?_of_accepts haccepts
    rw [takeRead, if_neg hnil, take_of_filterMap_ne_nil hoperand hnil]
    by_cases hnumber : token.kind ∈ Token.Kind.ofNumber
    · obtain ⟨n, hn⟩ := Token.exists_denotes hnumber
      obtain ⟨other, hcarries, hother, hread⟩ := Operand.carries_of_denotes hn
      obtain rfl := Option.some.inj (hoperand.symm.trans hother)
      rcases hread with hread | ⟨hread, hrange⟩
      · rw [hread]
      · rw [hread, if_neg (mt (hcarries.isValid_iff symbols).mp hrange),
          hcarries.invalidOperand_eq]
    · rw [Operand.read?_eq_ofToken? hnumber, hoperand]

/-- A register number or a literal denotes one number, whatever the number of its
digits.  In a slot that accepts its kind it is taken exactly if the number lies
in range, as the operand that carries this number; otherwise the fault names its
line, its text and its kind.  Reading the number in a machine integer, where it
can overflow, gives the same. -/
theorem literals_are_judged_by_their_number
    {token : Token} (hkind : token.kind ∈ Token.Kind.ofNumber)
    {statement : Statement} {slot : Slot} {rest : Layout}
    (hslot : slot :: rest ∈ statement.layouts)
    (haccepts : slot.accepts token.kind = true) (symbols : SymbolTable) :
    ∃ n, (∀ other, token.kind.Denotes token.text.toList other ↔ other = n) ∧
      (token.kind.InRange n →
        ∃ operand grown, statement.take symbols token = .ok (operand, grown) ∧
          Operand.Carries token.kind n operand ∧
          grown.operands = statement.operands ++ [operand]) ∧
      (¬token.kind.InRange n →
        statement.take symbols token =
          .error (.outOfRange token.line token.text token.kind)) ∧
      statement.takeRead symbols token = statement.take symbols token := by
  obtain ⟨n, hn⟩ := Token.exists_denotes hkind
  obtain ⟨operand, hcarries, hoperand, -⟩ := Operand.carries_of_denotes hn
  have htake := take_of_filterMap_ne_nil hoperand
    (List.ne_nil_of_mem (mem_filterMap_after?.mpr ⟨slot, hslot, haccepts⟩)) symbols
  refine ⟨n, fun other => ⟨fun hother => ?_, fun h => h ▸ hn⟩, fun hrange => ?_,
    fun hrange => ?_, takeRead_eq_take symbols statement token⟩
  · obtain ⟨operand', hcarries', hoperand', -⟩ := Operand.carries_of_denotes hother
    obtain rfl := Option.some.inj (hoperand.symm.trans hoperand')
    exact hcarries'.unique hcarries
  · rw [if_pos ((hcarries.isValid_iff symbols).mpr hrange)] at htake
    exact ⟨operand, _, htake, hcarries, rfl⟩
  · rw [htake, if_neg (mt (hcarries.isValid_iff symbols).mp hrange),
      hcarries.invalidOperand_eq]

/-- Zeros in front of a literal leave it in range, and a literal that no integer
of 64 bits holds is refused like any other. -/
theorem literals_are_judged_by_their_number_long :
    let statement : Statement :=
      ⟨.ldi, 1, 1, [.register 1], [[.numeric], [.register, .numeric]]⟩
    let padded : Token := ⟨⟨"0X00000000000000000003fF", 1⟩, .hexadecimal, by decide⟩
    let long : Token := ⟨⟨"-9223372036854775809", 1⟩, .decimal, by decide⟩
    (∃ grown, statement.take .empty padded =
        .ok (.immediate 0x3FF .hexadecimal, grown)) ∧
      statement.take .empty long =
        .error (.outOfRange 1 "-9223372036854775809" .decimal) := by
  intro statement padded long
  have hslot : [.numeric] ∈ statement.layouts := List.mem_cons_self
  constructor
  · obtain ⟨n, hn, htaken, -⟩ := literals_are_judged_by_their_number
      (show padded.kind ∈ Token.Kind.ofNumber by decide) hslot rfl .empty
    have htext : padded.text.toList =
        '0' :: 'X' :: "00000000000000000003fF".toList := by decide
    have hdigits : Grammar.IsNumeral isHexDigit "00000000000000000003fF".toList :=
      Grammar.isNumeral_iff.mpr (by decide)
    rw [htext] at hn
    obtain rfl := (hn _).mp (.hexadecimal (Or.inr rfl) hdigits)
    rw [← value_eq_number] at htaken
    obtain ⟨operand, grown, htake, hcarries, -⟩ := htaken (by decide)
    cases hcarries
    exact ⟨grown, htake⟩
  · obtain ⟨n, hn, -, hrefused, -⟩ := literals_are_judged_by_their_number
      (show long.kind ∈ Token.Kind.ofNumber by decide) hslot rfl .empty
    have htext : long.text.toList = '-' :: "9223372036854775809".toList := by decide
    have hdigits : Grammar.IsNumeral Char.isDigit "9223372036854775809".toList :=
      Grammar.isNumeral_iff.mpr (by decide)
    rw [htext] at hn
    obtain rfl := (hn _).mp (.negative hdigits)
    rw [← value_eq_number] at hrefused
    exact hrefused (by decide)

end Statement
end Pom8
