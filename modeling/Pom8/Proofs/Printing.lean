import Pom8.Proofs.Language
import Pom8.Proofs.Numerals

/-!
# The texts of instructions

The text of an operand is an item that writes the operand, and the text of an
instruction is a line whose items are the name of the mnemonic and the texts of
the operands.  So a statement that is printed is read as the same statement.
-/

namespace Pom8

/-! ## Characters of items -/

namespace Source

theorem isItemCharacter_of_isNameCharacter
    {c : Char} (hc : Text.isNameCharacter c = true) : isItemCharacter c = true := by
  have hcode : 48 ≤ c.toNat ∧ c.toNat ≤ 57 ∨ 65 ≤ c.toNat ∧ c.toNat ≤ 90 ∨
      97 ≤ c.toNat ∧ c.toNat ≤ 122 ∨ c.toNat = 0x17F ∨ c.toNat = 0x212A := by
    rw [Text.isNameCharacter, Bool.or_eq_true, Text.isLetter_iff,
      Text.isDigit_iff] at hc
    omega
  have hcomma : c ≠ ',' := by
    rintro rfl
    exact absurd hcode (by decide)
  have hcomment : c ≠ ';' := by
    rintro rfl
    exact absurd hcode (by decide)
  have hblank : Text.isBlank c = false := by
    rw [Bool.eq_false_iff, Ne, Text.isBlank_iff]
    omega
  simp [isItemCharacter_iff, Text.isSeparator, hcomma, hcomment, hblank]

/-- A nonempty text of name characters and minus signs, which may stand as an
item of code. -/
def IsPlain (item : List Char) : Prop :=
  item ≠ [] ∧ ∀ c ∈ item, Text.isNameCharacter c = true ∨ c = '-'

theorem IsPlain.isItemCharacter
    {item : List Char} (h : IsPlain item) : ∀ c ∈ item, isItemCharacter c = true := by
  intro c hc
  rcases h.2 c hc with hname | rfl
  · exact isItemCharacter_of_isNameCharacter hname
  · decide

theorem IsPlain.lineBreak_not_mem
    {item : List Char} (h : IsPlain item) : '\n' ∉ item := by
  intro hmem
  exact absurd (h.isItemCharacter '\n' hmem) (by decide)

theorem IsPlain.isLabel_eq_false
    {item : List Char} (h : IsPlain item) : Token.isLabel item = false := by
  rw [Bool.eq_false_iff]
  intro hlabel
  obtain ⟨name, rfl, -⟩ := Token.isLabel_iff.mp hlabel
  rcases h.2 ':' (by simp) with hcolon | hcolon
  · exact absurd hcolon (by decide)
  · exact absurd hcolon (by decide)

theorem isPlain_of_isName
    {item : List Char} (h : Token.isName item = true) : IsPlain item := by
  obtain ⟨c, rest, rfl, hc, hrest⟩ := Token.isName_iff.mp h
  refine ⟨List.cons_ne_nil c rest, ?_⟩
  rw [List.forall_mem_cons]
  constructor
  · simp [Text.isNameCharacter, hc]
  · intro d hd
    exact Or.inl (hrest d hd)

theorem isPlain_of_isRunOf
    {isMember : Char → Bool} {item : List Char}
    (hmember : ∀ c, isMember c = true → Text.isNameCharacter c = true)
    (h : Token.isRunOf isMember item = true) : IsPlain item := by
  obtain ⟨hne, hitem⟩ := Token.isRunOf_iff.mp h
  exact ⟨hne, fun c hc => Or.inl (hmember c (hitem c hc))⟩

theorem IsPlain.cons
    {c : Char} {rest : List Char}
    (hc : Text.isNameCharacter c = true ∨ c = '-') (hrest : IsPlain rest) :
    IsPlain (c :: rest) :=
  ⟨List.cons_ne_nil c rest, List.forall_mem_cons.mpr ⟨hc, hrest.2⟩⟩

theorem isNameCharacter_of_isHexDigit
    {c : Char} (hc : Numeral.isHexDigit c = true) :
    Text.isNameCharacter c = true := by
  rw [Text.isHexDigit_iff] at hc
  rw [Text.isNameCharacter, Bool.or_eq_true, Text.isLetter_iff, Text.isDigit_iff]
  omega

/-- An item that a kind other than those of labels, comments and line breaks
admits. -/
def IsCodeItem (item : List Char) : Prop :=
  ∃ kind : Token.Kind, kind.admits item = true ∧
    kind ≠ .label ∧ kind ≠ .comment ∧ kind ≠ .newline

theorem IsCodeItem.isPlain {item : List Char} (h : IsCodeItem item) : IsPlain item := by
  obtain ⟨kind, hadmits, hkind⟩ := h
  have hdigit : ∀ c : Char, c.isDigit = true → Text.isNameCharacter c = true := by
    intro c hc
    simp [Text.isNameCharacter, hc]
  cases kind with
  | register => exact isPlain_of_isName (Token.Kind.isName_of_isRegister hadmits)
  | mnemonic => exact isPlain_of_isName hadmits
  | hexadecimal =>
      obtain ⟨c, digits, rfl, hc, hdigits⟩ := Token.isHexadecimal_iff.mp hadmits
      have hrest := isPlain_of_isRunOf
        (fun _ => isNameCharacter_of_isHexDigit) hdigits
      refine .cons (Or.inl (by decide)) (.cons (Or.inl ?_) hrest)
      rcases hc with rfl | rfl <;> decide
  | binary =>
      obtain ⟨c, digits, rfl, hc, hdigits⟩ := Token.isBinary_iff.mp hadmits
      have hbit : ∀ c, Numeral.isBinaryDigit c = true →
          Text.isNameCharacter c = true := by
        intro c hc
        have hcases : c = '0' ∨ c = '1' := by
          simpa [Numeral.isBinaryDigit] using hc
        rcases hcases with rfl | rfl <;> decide
      have hrest := isPlain_of_isRunOf hbit hdigits
      refine .cons (Or.inl (by decide)) (.cons (Or.inl ?_) hrest)
      rcases hc with rfl | rfl <;> decide
  | decimal =>
      rcases Token.isDecimal_iff.mp hadmits with hdigits | ⟨digits, rfl, hdigits⟩
      · exact isPlain_of_isRunOf hdigit hdigits
      · exact .cons (Or.inr rfl) (isPlain_of_isRunOf hdigit hdigits)
  | label => exact absurd rfl hkind.1
  | comment => exact absurd rfl hkind.2.1
  | newline => exact absurd rfl hkind.2.2

theorem IsCodeItem.classified
    {item : List Char} (h : IsCodeItem item) : Classified item := by
  obtain ⟨kind, hadmits, -⟩ := h
  have hsome : (Token.Kind.ofText? (String.ofList item)).isSome = true := by
    rw [Token.Kind.ofText?, String.toList_ofList, List.find?_isSome]
    exact ⟨kind, Token.Kind.mem_order kind, hadmits⟩
  exact Option.isSome_iff_exists.mp hsome

/-! ## Items between commas -/

theorem items_eq_singleton
    {item : List Char} (hne : item ≠ [])
    (hitem : ∀ c ∈ item, isItemCharacter c = true) : items item = [item] := by
  have hitems := @items_append item [] hne hitem (by simp)
  rwa [List.append_nil, items_nil] at hitems

theorem IsPlain.items_append_separator
    {item : List Char} (h : IsPlain item) {c : Char}
    (hc : Text.isSeparator c = true) (rest : List Char) :
    items (item ++ c :: rest) = item :: items rest := by
  rw [items_append h.1 h.isItemCharacter, items_separator hc]
  intro d hd
  obtain rfl := Option.some.inj hd
  exact isItemCharacter_eq_false_iff.mpr (Or.inl hc)

/-- Plain items with commas between them are read as they are. -/
theorem items_intercalate
    {found : List (List Char)} (h : ∀ item ∈ found, IsPlain item) :
    items ([',', ' '].intercalate found) = found := by
  induction found with
  | nil => rfl
  | cons item rest ih =>
      rw [List.forall_mem_cons] at h
      by_cases hrest : rest = []
      · rw [hrest, List.intercalate_singleton]
        exact items_eq_singleton h.1.1 h.1.isItemCharacter
      · rw [List.intercalate_cons_of_ne_nil hrest, List.append_assoc,
          List.cons_append, h.1.items_append_separator (by decide),
          List.cons_append, items_separator (by decide), List.nil_append, ih h.2]

theorem lineBreak_not_mem_intercalate
    {found : List (List Char)} (h : ∀ item ∈ found, IsPlain item) :
    '\n' ∉ [',', ' '].intercalate found := by
  induction found with
  | nil => simp
  | cons item rest ih =>
      rw [List.forall_mem_cons] at h
      have hitem := h.1.lineBreak_not_mem
      by_cases hrest : rest = []
      · rwa [hrest, List.intercalate_singleton]
      · rw [List.intercalate_cons_of_ne_nil hrest]
        simp [hitem, ih h.2]

end Source

/-! ## Numerals -/

theorem bitPattern_natCast {n : Nat} (h : n < 18446744073709551616) :
    bitPattern n = n := by
  rw [bitPattern, BitVec.ofInt_natCast, BitVec.toNat_ofNat]
  exact Nat.mod_eq_of_lt h

namespace Grammar

theorem isNumeral_digits
    {isDigit : Char → Bool} {base : Nat} (hbase : 1 < base)
    (hdigit : ∀ d < base, isDigit d.digitChar = true) (width n : Nat) :
    IsNumeral isDigit (Numeral.digits base width n) :=
  ⟨Numeral.digits_ne_nil base width n,
    Numeral.forall_mem_digits hbase (hdigit 0 (by omega)) hdigit width n⟩

theorem isNumeral_decimal (n : Nat) :
    IsNumeral Char.isDigit (Numeral.digits 10 1 n) :=
  isNumeral_digits (by decide) (by decide) 1 n

theorem value_decimal (n : Nat) :
    Numeral.value 10 (Numeral.digits 10 1 n) = n :=
  Numeral.value_digits (by decide) (by decide) 1 n

theorem isNumeral_upperHex (width n : Nat) :
    IsNumeral Numeral.isHexDigit ((Numeral.digits 16 width n).map Char.toUpper) := by
  obtain ⟨hne, hdigits⟩ := @isNumeral_digits Numeral.isHexDigit 16 (by decide)
    (fun d hd => Numeral.isHexDigit_digitChar hd) width n
  refine ⟨by simpa using hne, ?_⟩
  intro c hc
  obtain ⟨d, hd, rfl⟩ := List.mem_map.mp hc
  rw [Text.isHexDigit_toUpper]
  exact hdigits d hd

/-! ## Operands -/

section Operands

variable {labels : List String}

theorem writesOperand_register {index : Nat} (h : index ≤ 15) :
    WritesOperand labels .register (Operand.register index).text.toList
      (.register index) := by
  have hwrites := @WritesOperand.register labels 'r' _ (Or.inl rfl)
    (isNumeral_decimal index) (by rwa [value_decimal])
  rw [value_decimal] at hwrites
  simpa [Operand.text, Numeral.decimal] using hwrites

theorem writesOperand_decimal
    {value : Int} (hleast : -128 ≤ value) (hgreatest : value ≤ 255) :
    WritesOperand labels .numeric (Operand.immediate value .decimal).text.toList
      (.immediate value .decimal) := by
  cases value with
  | ofNat n =>
      have hle : n ≤ 255 := Int.ofNat_le.mp hgreatest
      have hwrites := @WritesOperand.decimal labels _ (isNumeral_decimal n)
        (by rwa [value_decimal])
      rw [value_decimal] at hwrites
      simpa [Operand.text, Numeral.signedDecimal, Numeral.decimal] using hwrites
  | negSucc n =>
      have hle : n + 1 ≤ 128 := by omega
      have hwrites := @WritesOperand.negative labels _ (isNumeral_decimal (n + 1))
        (by rwa [value_decimal])
      have hvalue : -((n + 1 : Nat) : Int) = Int.negSucc n := rfl
      rw [value_decimal, hvalue] at hwrites
      simpa [Operand.text, Numeral.signedDecimal, Numeral.decimal] using hwrites

theorem writesOperand_binary {n : Nat} (h : n ≤ 255) :
    WritesOperand labels .numeric (Operand.immediate n .binary).text.toList
      (.immediate n .binary) := by
  have hvalue : Numeral.value 2 (Numeral.digits 2 1 n) = n :=
    Numeral.value_digits (by decide) (by decide) 1 n
  have hnumeral : IsNumeral Numeral.isBinaryDigit (Numeral.digits 2 1 n) :=
    isNumeral_digits (by decide) (fun d hd => Numeral.isBinaryDigit_digitChar hd) 1 n
  have hwrites := @WritesOperand.binary labels 'b' _ (Or.inl rfl) hnumeral
    (by rwa [hvalue])
  rw [hvalue] at hwrites
  have hpattern := @bitPattern_natCast n (by omega)
  simpa [Operand.text, Numeral.binary, hpattern] using hwrites

theorem writesOperand_hexadecimal
    {slot : Slot} (hslot : slot = .numeric ∨ slot = .target) {n : Nat}
    (h : n ≤ 0x3FF) :
    WritesOperand labels slot (Operand.immediate n .hexadecimal).text.toList
      (.immediate n .hexadecimal) := by
  have hvalue :
      Numeral.value 16 ((Numeral.digits 16 3 n).map Char.toUpper) = n := by
    rw [Numeral.value_map_toUpper]
    exact Numeral.value_digits (by decide) (by decide) 3 n
  have hwrites := @WritesOperand.hexadecimal labels slot 'x' _ hslot (Or.inl rfl)
    (isNumeral_upperHex 3 n) (by rwa [hvalue])
  rw [hvalue] at hwrites
  have hpattern := @bitPattern_natCast n (by omega)
  simpa [Operand.text, Numeral.upperHex, hpattern] using hwrites

end Operands

/-- The text of an operand writes it in the slot that it was read for, wherever
the same labels are defined. -/
theorem WritesOperand.writes_text
    {labels other : List String} {slot : Slot} {item : List Char}
    {operand : Operand}
    (hlabels : ∀ name ∈ labels, Text.lower name ∈ other.map Text.lower)
    (h : WritesOperand labels slot item operand) :
    WritesOperand other slot operand.text.toList operand := by
  cases h with
  | register _ _ hle => exact writesOperand_register hle
  | decimal _ hle => exact writesOperand_decimal (by omega) (by omega)
  | negative _ hle => exact writesOperand_decimal (by omega) (by omega)
  | binary _ _ hle => exact writesOperand_binary hle
  | hexadecimal hslot _ _ hle => exact writesOperand_hexadecimal hslot hle
  | @label _ name hname hregister hmem hlower =>
      obtain ⟨name', hmem', hlower'⟩ := List.mem_map.mp (hlabels name hmem)
      have hwrites := WritesOperand.label hname hregister hmem'
        (hlower'.trans hlower)
      simpa [Operand.text] using hwrites

theorem WritesOperand.isCodeItem
    {labels : List String} {slot : Slot} {item : List Char} {operand : Operand}
    (h : WritesOperand labels slot item operand) : Source.IsCodeItem item := by
  cases h with
  | @register c digits hc hdigits _ =>
      exact ⟨.register,
        Token.isRegister_iff.mpr ⟨c, digits, rfl, hc, isNumeral_iff.mp hdigits⟩,
        by decide⟩
  | decimal hdigits _ =>
      exact ⟨.decimal, Token.isDecimal_iff.mpr (Or.inl (isNumeral_iff.mp hdigits)),
        by decide⟩
  | @negative digits hdigits _ =>
      exact ⟨.decimal,
        Token.isDecimal_iff.mpr (Or.inr ⟨digits, rfl, isNumeral_iff.mp hdigits⟩),
        by decide⟩
  | @binary c digits hc hdigits _ =>
      exact ⟨.binary,
        Token.isBinary_iff.mpr ⟨c, digits, rfl, hc, isNumeral_iff.mp hdigits⟩,
        by decide⟩
  | @hexadecimal _ c digits _ hc hdigits _ =>
      exact ⟨.hexadecimal,
        Token.isHexadecimal_iff.mpr ⟨c, digits, rfl, hc, isNumeral_iff.mp hdigits⟩,
        by decide⟩
  | label hname _ _ _ => exact ⟨.mnemonic, hname, by decide⟩

/-! ## Statements -/

theorem WritesOperands.writes_texts
    {labels other : List String} {layout : Layout} {found : List (List Char)}
    {operands : List Operand}
    (hlabels : ∀ name ∈ labels, Text.lower name ∈ other.map Text.lower)
    (h : WritesOperands labels layout found operands) :
    WritesOperands other layout (operands.map fun operand => operand.text.toList)
      operands := by
  induction h with
  | nil => exact .nil
  | cons hoperand _ ih => exact .cons (hoperand.writes_text hlabels) ih

theorem WritesOperands.isCodeItem_of_mem
    {labels : List String} {layout : Layout} {found : List (List Char)}
    {operands : List Operand} (h : WritesOperands labels layout found operands) :
    ∀ item ∈ found, Source.IsCodeItem item := by
  induction h with
  | nil => simp
  | cons hoperand _ ih => exact List.forall_mem_cons.mpr ⟨hoperand.isCodeItem, ih⟩

theorem ofText?_name (mnemonic : Mnemonic) :
    Token.Kind.ofText? mnemonic.name = some .mnemonic := by
  cases mnemonic <;> decide

theorem upper_name (mnemonic : Mnemonic) :
    Text.upper mnemonic.name = mnemonic.name := by
  apply String.toList_inj.mp
  rw [Text.toList_upper]
  cases mnemonic <;> decide

end Grammar

/-- The items of the text of an instruction. -/
def Instruction.printedItems (instruction : Instruction) : List (List Char) :=
  instruction.mnemonic.name.toList ::
    instruction.operands.map fun operand => operand.text.toList

/-- Whether the items of the text of an instruction can be read as code. -/
def Instruction.IsPrintable (instruction : Instruction) : Prop :=
  ∀ item ∈ instruction.printedItems, Source.IsCodeItem item

namespace Grammar.WritesStatement

variable {labels : List String} {found : List (List Char)}
  {instruction : Instruction}

/-- A statement is written by the items of its text, wherever the same labels are
defined. -/
theorem writes_text
    {other : List String}
    (hlabels : ∀ name ∈ labels, Text.lower name ∈ other.map Text.lower)
    (h : WritesStatement labels found instruction.mnemonic instruction.operands) :
    WritesStatement other instruction.printedItems instruction.mnemonic
      instruction.operands := by
  generalize hmnemonic : instruction.mnemonic = mnemonic at h
  generalize hoperands : instruction.operands = operands at h
  cases h with
  | statement _ _ hallows hwrites =>
      rw [Instruction.printedItems, hmnemonic, hoperands]
      refine .statement ?_ ?_ hallows (hwrites.writes_texts hlabels)
      · rw [String.ofList_toList]
        exact ofText?_name mnemonic
      · rw [String.ofList_toList]
        exact upper_name mnemonic

theorem isPrintable
    (h : WritesStatement labels found instruction.mnemonic instruction.operands) :
    instruction.IsPrintable := by
  generalize hmnemonic : instruction.mnemonic = mnemonic at h
  generalize hoperands : instruction.operands = operands at h
  cases h with
  | statement _ _ _ hwrites =>
      have hname : Source.IsCodeItem mnemonic.name.toList :=
        ⟨.mnemonic, Token.Kind.admits_of_ofText?_eq_some (ofText?_name mnemonic),
          by decide⟩
      have htexts := hwrites.writes_texts fun name hmem =>
        List.mem_map_of_mem (f := Text.lower) hmem
      rw [Instruction.IsPrintable, Instruction.printedItems, hmnemonic, hoperands]
      exact List.forall_mem_cons.mpr ⟨hname, htexts.isCodeItem_of_mem⟩

end Grammar.WritesStatement

namespace Instruction

variable {instruction : Instruction}

theorem toList_text (instruction : Instruction) :
    instruction.text.toList =
      if instruction.operands = [] then instruction.mnemonic.name.toList
      else
        instruction.mnemonic.name.toList ++ ' ' ::
          [',', ' '].intercalate
            (instruction.operands.map fun operand => operand.text.toList) := by
  unfold text
  split
  next hnone => rw [if_pos hnone]
  next hsome =>
    rw [if_neg hsome, String.toList_append, String.toList_append,
      String.toList_intercalate, List.map_map, List.append_assoc]
    rfl

theorem IsPrintable.isPlain
    (h : instruction.IsPrintable) :
    Source.IsPlain instruction.mnemonic.name.toList ∧
      ∀ item ∈ instruction.operands.map fun operand => operand.text.toList,
        Source.IsPlain item := by
  rw [← List.forall_mem_cons]
  intro item hitem
  exact (h item hitem).isPlain

/-- The line of an instruction has the items of its text. -/
theorem IsPrintable.items_text (h : instruction.IsPrintable) :
    Source.items instruction.text.toList = instruction.printedItems := by
  obtain ⟨hname, hoperands⟩ := h.isPlain
  rw [toList_text, printedItems]
  by_cases hnone : instruction.operands = []
  · rw [if_pos hnone, hnone]
    exact Source.items_eq_singleton hname.1 hname.isItemCharacter
  · rw [if_neg hnone, hname.items_append_separator (by decide),
      Source.items_intercalate hoperands]

theorem IsPrintable.lineBreak_not_mem_text (h : instruction.IsPrintable) :
    '\n' ∉ instruction.text.toList := by
  obtain ⟨hname, hoperands⟩ := h.isPlain
  have hrest := Source.lineBreak_not_mem_intercalate hoperands
  rw [toList_text]
  split
  · exact hname.lineBreak_not_mem
  · simp [hname.lineBreak_not_mem, hrest]

end Instruction
end Pom8
