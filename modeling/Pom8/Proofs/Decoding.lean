import Pom8.Proofs.Numerals
import Pom8.Proofs.Registers

/-!
# Reading words back

The text of a word is its binary numeral of 32 digits.  The fields of the three
formats lie side by side, and the opcode field is zero in register format only;
so the fields of a word tell its mnemonic and what the operands were.
-/

namespace Pom8

/-! ## The text of a word -/

namespace Word

/-- The digit of a bit. -/
def digit (bit : Bool) : Char :=
  if bit then '1' else '0'

theorem toList_text (word : Word) :
    (text word).toList = (List.range 32).map fun i => digit (word.getMsbD i) :=
  String.toList_ofList

theorem digitValue_digit (bit : Bool) :
    Numeral.digitValue (digit bit) = bit.toNat := by
  cases bit <;> decide

/-- The leading digits of a word write the number that its leading bits write. -/
theorem value_leading_digits (word : Word) {count : Nat} (hcount : count ≤ 32) :
    Numeral.value 2 ((List.range count).map fun i => digit (word.getMsbD i)) =
      word.toNat >>> (32 - count) := by
  induction count with
  | zero =>
      rw [Nat.sub_zero, Nat.shiftRight_eq_div_pow, Nat.div_eq_of_lt word.isLt]
      rfl
  | succ count ih =>
      have hbit : (word.getMsbD count).toNat =
          word.toNat >>> (32 - (count + 1)) % 2 := by
        have hindex : 32 - 1 - count = 32 - (count + 1) := by omega
        rw [BitVec.getMsbD_eq_getLsbD, decide_eq_true (by omega), Bool.true_and,
          hindex, Nat.shiftRight_eq_div_pow]
        exact Nat.toNat_testBit _ _
      have hhalf : word.toNat >>> (32 - count) =
          word.toNat >>> (32 - (count + 1)) / 2 := by
        have hshift : 32 - count = 32 - (count + 1) + 1 := by omega
        rw [hshift, Nat.shiftRight_succ]
      rw [List.range_succ, List.map_append, List.map_singleton,
        Numeral.value_concat, ih (by omega), digitValue_digit, hbit, hhalf]
      omega

theorem value_text (word : Word) :
    Numeral.value 2 (text word).toList = word.toNat := by
  rw [toList_text, value_leading_digits word (Nat.le_refl 32)]
  simp

theorem text_injective {first second : Word} (h : first.text = second.text) :
    first = second := by
  apply BitVec.eq_of_toNat_eq
  rw [← value_text first, h, value_text]

/-! ## The fields of the formats -/

/-- The bits that no format uses. -/
def reserved (word : Word) : BitVec 8 :=
  word.extractLsb' 24 8

/-- The opcode of a word of branch or immediate format. -/
def opcode (word : Word) : BitVec 6 :=
  word.extractLsb' 18 6

/-- The opcode of a word of register format. -/
def function (word : Word) : BitVec 6 :=
  word.extractLsb' 0 6

/-- The bits between the opcode and the address of a word of branch format. -/
def gap (word : Word) : BitVec 2 :=
  word.extractLsb' 16 2

/-- The numbers in the fields of registers; a word of immediate format has the
first two only. -/
def registers (word : Word) : List Nat :=
  [(word.extractLsb' 14 4).toNat, (word.extractLsb' 10 4).toNat,
    (word.extractLsb' 6 4).toNat]

/-- Whether a word has the format and the opcode of a mnemonic. -/
def Names (word : Word) (mnemonic : Mnemonic) : Prop :=
  if word.opcode = 0 then
    mnemonic.format = .register ∧ mnemonic.code = word.function.toNat
  else mnemonic.format ≠ .register ∧ mnemonic.code = word.opcode.toNat

section Formats

variable {word : Word} {code : BitVec 6}

theorem fields_of_register_format
    {first second third : BitVec 4}
    (h : word = 0#14 ++ (first ++ second ++ third) ++ code) :
    word.reserved = 0 ∧ word.opcode = 0 ∧ word.function = code ∧
      word.registers = [first.toNat, second.toNat, third.toNat] := by
  subst h
  refine ⟨?_, ?_, BitVec.extractLsb'_append_eq_right, ?_⟩
  · rw [reserved, BitVec.extractLsb'_append_eq_of_le (by decide),
      BitVec.extractLsb'_append_eq_of_le (by decide)]
    decide
  · rw [opcode, BitVec.extractLsb'_append_eq_of_le (by decide),
      BitVec.extractLsb'_append_eq_of_le (by decide)]
    decide
  · have hfirst : BitVec.extractLsb' 14 4
        (0#14 ++ (first ++ second ++ third) ++ code) = first := by
      rw [BitVec.extractLsb'_append_eq_of_le (by decide),
        BitVec.extractLsb'_append_eq_of_add_le (by decide),
        BitVec.extractLsb'_append_eq_of_le (by decide)]
      exact BitVec.extractLsb'_append_eq_left
    have hsecond : BitVec.extractLsb' 10 4
        (0#14 ++ (first ++ second ++ third) ++ code) = second := by
      rw [BitVec.extractLsb'_append_eq_of_le (by decide),
        BitVec.extractLsb'_append_eq_of_add_le (by decide),
        BitVec.extractLsb'_append_eq_of_le (by decide)]
      exact BitVec.extractLsb'_append_eq_right
    have hthird : BitVec.extractLsb' 6 4
        (0#14 ++ (first ++ second ++ third) ++ code) = third := by
      rw [BitVec.extractLsb'_append_eq_of_le (by decide),
        BitVec.extractLsb'_append_eq_of_add_le (by decide)]
      exact BitVec.extractLsb'_append_eq_right
    rw [registers, hfirst, hsecond, hthird]

/-- Branch and immediate format have zeros and the opcode in front. -/
theorem front_of_append
    {v w : Nat} (hwidth : v + w = 18) {middle : BitVec v} {low : BitVec w} :
    BitVec.extractLsb' 24 8 (0#8 ++ code ++ middle ++ low) = 0 ∧
      BitVec.extractLsb' 18 6 (0#8 ++ code ++ middle ++ low) = code := by
  constructor
  · have hstart : 24 - w - v = 6 := by omega
    rw [BitVec.extractLsb'_append_eq_of_le (by omega),
      BitVec.extractLsb'_append_eq_of_le (by omega), hstart]
    exact BitVec.extractLsb'_append_eq_left
  · have hstart : 18 - w - v = 0 := by omega
    rw [BitVec.extractLsb'_append_eq_of_le (by omega),
      BitVec.extractLsb'_append_eq_of_le (by omega), hstart]
    exact BitVec.extractLsb'_append_eq_right

theorem fields_of_branch_format
    {address : BitVec 16} (h : word = 0#8 ++ code ++ 0#2 ++ address) :
    word.reserved = 0 ∧ word.opcode = code ∧ word.gap = 0 := by
  subst h
  obtain ⟨hreserved, hopcode⟩ :=
    @front_of_append code 2 16 rfl 0#2 address
  refine ⟨hreserved, hopcode, ?_⟩
  rw [gap, BitVec.extractLsb'_append_eq_of_le (by decide)]
  exact BitVec.extractLsb'_append_eq_right

theorem fields_of_immediate_format
    {first second : BitVec 4} {value : BitVec 10}
    (h : word = 0#8 ++ code ++ (first ++ second) ++ value) :
    word.reserved = 0 ∧ word.opcode = code ∧
      word.registers.take 2 = [first.toNat, second.toNat] := by
  subst h
  obtain ⟨hreserved, hopcode⟩ :=
    @front_of_append code 8 10 rfl (first ++ second) value
  have hfirst : BitVec.extractLsb' 14 4
      (0#8 ++ code ++ (first ++ second) ++ value) = first := by
    rw [BitVec.extractLsb'_append_eq_of_le (by decide),
      BitVec.extractLsb'_append_eq_of_add_le (by decide)]
    exact BitVec.extractLsb'_append_eq_left
  have hsecond : BitVec.extractLsb' 10 4
      (0#8 ++ code ++ (first ++ second) ++ value) = second := by
    rw [BitVec.extractLsb'_append_eq_of_le (by decide),
      BitVec.extractLsb'_append_eq_of_add_le (by decide)]
    exact BitVec.extractLsb'_append_eq_right
  refine ⟨hreserved, hopcode, ?_⟩
  rw [registers, hfirst, hsecond]
  rfl

end Formats
end Word

/-! ## Opcodes -/

namespace Mnemonic

theorem code_lt (mnemonic : Mnemonic) : mnemonic.code < 64 := by
  cases mnemonic <;> decide

theorem code_pos {mnemonic : Mnemonic} (h : mnemonic.format ≠ .register) :
    0 < mnemonic.code := by
  revert h
  cases mnemonic <;> decide

/-- Whether two mnemonics have their opcodes in one field. -/
def sharesField (mnemonic other : Mnemonic) : Bool :=
  (mnemonic.format == .register) == (other.format == .register)

theorem find?_code (mnemonic : Mnemonic) :
    all.find? (fun other =>
      sharesField mnemonic other && mnemonic.code == other.code) =
        some mnemonic := by
  cases mnemonic <;> decide

/-- An opcode stands for one mnemonic among those that share its field. -/
theorem eq_of_code_eq
    {mnemonic other : Mnemonic}
    (hformat : mnemonic.format = .register ↔ other.format = .register)
    (hcode : mnemonic.code = other.code) : mnemonic = other := by
  have hshares : (mnemonic.format == .register) = (other.format == .register) := by
    rw [Bool.eq_iff_iff, beq_iff_eq, beq_iff_eq]
    exact hformat
  have hfind := find?_code mnemonic
  simp only [sharesField, hshares, hcode] at hfind
  exact Option.some.inj (hfind.symm.trans (find?_code other))

end Mnemonic

namespace Instruction

/-- The numbers of the registers among the operands. -/
def registers (instruction : Instruction) : List Nat :=
  instruction.operands.filterMap Operand.register?

/-- The values of the literals among the operands. -/
def literals (instruction : Instruction) : List Int :=
  instruction.operands.filterMap Operand.value?

variable {symbols : SymbolTable} {instruction : Instruction}

theorem toNat_codeField (instruction : Instruction) :
    instruction.codeField.toNat = instruction.mnemonic.code := by
  rw [codeField, BitVec.toNat_ofNat]
  exact Nat.mod_eq_of_lt (Mnemonic.code_lt _)

theorem codeField_ne_zero (h : instruction.mnemonic.format ≠ .register) :
    instruction.codeField ≠ 0 := by
  intro hzero
  have hpos := Mnemonic.code_pos h
  rw [← toNat_codeField, hzero] at hpos
  exact absurd hpos (by decide)

theorem names_iff_of_register_format
    {word : Word} (hformat : instruction.mnemonic.format = .register)
    (hopcode : word.opcode = 0) (hfunction : word.function = instruction.codeField)
    (mnemonic : Mnemonic) :
    word.Names mnemonic ↔ mnemonic = instruction.mnemonic := by
  rw [Word.Names, if_pos hopcode, hfunction, toNat_codeField]
  constructor
  · intro h
    apply Mnemonic.eq_of_code_eq _ h.2
    rw [h.1, hformat]
  · intro h
    rw [h]
    exact ⟨hformat, rfl⟩

theorem names_iff_of_other_format
    {word : Word} (hformat : instruction.mnemonic.format ≠ .register)
    (hopcode : word.opcode = instruction.codeField) (mnemonic : Mnemonic) :
    word.Names mnemonic ↔ mnemonic = instruction.mnemonic := by
  have hne : word.opcode ≠ 0 := by
    rw [hopcode]
    exact codeField_ne_zero hformat
  rw [Word.Names, if_neg hne, hopcode, toNat_codeField]
  constructor
  · intro h
    apply Mnemonic.eq_of_code_eq _ h.2
    exact iff_of_false h.1 hformat
  · intro h
    rw [h]
    exact ⟨hformat, rfl⟩

end Instruction

/-! ## Decoded instructions -/

/-- What the fields of a word say about the instruction it was made from. -/
structure Word.DecodesTo
    (symbols : SymbolTable) (word : Word) (instruction : Instruction) : Prop where
  format : instruction.format = instruction.mnemonic.format
  reserved : word.reserved = 0
  mnemonic : ∀ mnemonic, word.Names mnemonic ↔ mnemonic = instruction.mnemonic
  register : instruction.format = .register →
    word.registers =
      if instruction.mnemonic = .ijmp then 0 :: instruction.registers
      else instruction.registers.rightpad 3 0
  branch : instruction.format = .branch →
    word.gap = 0 ∧
      (instruction.operands = [] ∧ word.target = 0 ∨
        ∃ operand address, instruction.operands = [operand] ∧
          operand.LeadsTo symbols address ∧
            word.target.toNat = address % 65536)
  immediate : instruction.format = .immediate →
    (word.registers.take 2 =
      if instruction.mnemonic = .sta ∨ instruction.mnemonic = .push then
        0 :: instruction.registers.take 1
      else instruction.registers.rightpad 2 0) ∧
      (instruction.mnemonic ∈ Grammar.stack ∧ instruction.literals = [] ∧
          word.literal = 0 ∨
        instruction.mnemonic ∉ Grammar.stack ∧ ∃ value,
          instruction.literals = [value] ∧
            (word.literal.toNat : Int) = value % 1024)

namespace Instruction

variable {symbols : SymbolTable} {instruction : Instruction}

/-- The operands of a written instruction fill a layout that the grammar allows. -/
theorem Written.exists_layout
    {tokens : List Token} (h : Written symbols tokens instruction) :
    instruction.format = instruction.mnemonic.format ∧
      ∃ layout, Grammar.Allows instruction.mnemonic layout ∧
        List.Forall₂ (Slot.Holds symbols) layout instruction.operands := by
  cases h with
  | statement _ _ hlayout hfilled hwritten =>
      exact ⟨rfl, _, Grammar.allows_iff.mpr hlayout,
        Slot.forall₂_holds hfilled hwritten⟩

/-- A checked register number is in its field as it is; the other fields are
zero. -/
theorem Shaped.toNat_registerField
    (h : Shaped symbols instruction) (position : Nat) :
    (instruction.registerField position).toNat =
      (instruction.operands[position]?.bind Operand.register?).getD 0 := by
  rw [registerField, BitVec.toNat_ofNat]
  apply Nat.mod_eq_of_lt
  cases hoperand : instruction.operands[position]? with
  | none => exact Nat.two_pow_pos 4
  | some operand =>
      cases operand with
      | register index =>
          exact Nat.lt_succ_of_le (h.index_le (List.mem_of_getElem? hoperand))
      | immediate value radix => exact Nat.two_pow_pos 4
      | label name => exact Nat.two_pow_pos 4

variable {tokens : List Token}

/-- The operands of register format are registers: two of an indirect jump, and
no more than three of the others. -/
theorem Written.operands_of_register_format
    (h : Written symbols tokens instruction)
    (hformat : instruction.format = .register) :
    (instruction.mnemonic ≠ .ijmp ∧ instruction.operands = []) ∨
      (∃ first second, instruction.operands = [.register first, .register second]) ∨
        (instruction.mnemonic ≠ .ijmp ∧ ∃ first second third,
          instruction.operands =
            [.register first, .register second, .register third]) := by
  obtain ⟨hmnemonic, layout, hallows, hholds⟩ := h.exists_layout
  rw [hmnemonic] at hformat
  generalize instruction.mnemonic = mnemonic at *
  generalize instruction.operands = operands at *
  cases hallows with
  | nullary hnullary =>
      left
      refine ⟨?_, List.forall₂_nil_left_iff.mp hholds⟩
      rintro rfl
      exact absurd hnullary (by decide)
  | branch hbranch => exact absurd (hformat.symm.trans hbranch) (by decide)
  | stack hstack =>
      have himmediate := (Grammar.mem_stack_iff.mp hstack).1
      exact absurd (hformat.symm.trans himmediate) (by decide)
  | immediate himmediate | longImmediate himmediate =>
      exact absurd (hformat.symm.trans himmediate) (by decide)
  | twoRegisters =>
      right; left
      rcases hholds with _ | ⟨hfirst, _ | ⟨hsecond, ⟨⟩⟩⟩
      obtain ⟨first, rfl, -⟩ := hfirst.eq_register
      obtain ⟨second, rfl, -⟩ := hsecond.eq_register
      exact ⟨first, second, rfl⟩
  | threeRegisters _ _ htwo =>
      right; right
      rcases hholds with _ | ⟨hfirst, _ | ⟨hsecond, _ | ⟨hthird, ⟨⟩⟩⟩⟩
      obtain ⟨first, rfl, -⟩ := hfirst.eq_register
      obtain ⟨second, rfl, -⟩ := hsecond.eq_register
      obtain ⟨third, rfl, -⟩ := hthird.eq_register
      refine ⟨?_, first, second, third, rfl⟩
      rintro rfl
      exact htwo (by decide)

theorem Written.operands_of_branch_format
    (h : Written symbols tokens instruction)
    (hformat : instruction.format = .branch) :
    instruction.operands = [] ∨
      ∃ operand, instruction.operands = [operand] ∧
        Slot.Holds symbols .target operand := by
  obtain ⟨hmnemonic, layout, hallows, hholds⟩ := h.exists_layout
  rw [hmnemonic] at hformat
  generalize instruction.operands = operands at *
  cases hallows with
  | nullary => exact Or.inl (List.forall₂_nil_left_iff.mp hholds)
  | branch =>
      rcases hholds with _ | ⟨htarget, ⟨⟩⟩
      exact Or.inr ⟨_, rfl, htarget⟩
  | stack hstack =>
      have himmediate := (Grammar.mem_stack_iff.mp hstack).1
      exact absurd (hformat.symm.trans himmediate) (by decide)
  | immediate hother | longImmediate hother | threeRegisters hother =>
      exact absurd (hformat.symm.trans hother) (by decide)
  | twoRegisters htwo =>
      have hregister := (Grammar.mem_twoRegister_iff.mp htwo).1
      exact absurd (hformat.symm.trans hregister) (by decide)

/-- The operands of immediate format are one or two registers and a literal; of
a stack operation, one register alone. -/
theorem Written.operands_of_immediate_format
    (h : Written symbols tokens instruction)
    (hformat : instruction.format = .immediate) :
    (instruction.mnemonic ∈ Grammar.stack ∧
        ∃ index, instruction.operands = [.register index]) ∨
      (instruction.mnemonic ∉ Grammar.stack ∧ ∃ value radix,
        (∃ index, instruction.operands =
          [.register index, .immediate value radix]) ∨
        ∃ first second, instruction.operands =
          [.register first, .register second, .immediate value radix]) := by
  obtain ⟨hmnemonic, layout, hallows, hholds⟩ := h.exists_layout
  rw [hmnemonic] at hformat
  generalize instruction.operands = operands at *
  cases hallows with
  | nullary hnullary =>
      have hbare := Grammar.mem_nullary_iff.mp hnullary
      rw [Grammar.isNullary_of_format_eq_immediate hformat] at hbare
      exact absurd hbare (by decide)
  | branch hother | threeRegisters hother =>
      exact absurd (hformat.symm.trans hother) (by decide)
  | twoRegisters htwo =>
      have hregister := (Grammar.mem_twoRegister_iff.mp htwo).1
      exact absurd (hformat.symm.trans hregister) (by decide)
  | stack hstack =>
      rcases hholds with _ | ⟨hindex, ⟨⟩⟩
      obtain ⟨index, rfl, -⟩ := hindex.eq_register
      exact Or.inl ⟨hstack, index, rfl⟩
  | immediate _ hstack =>
      rcases hholds with _ | ⟨hindex, _ | ⟨hvalue, ⟨⟩⟩⟩
      obtain ⟨index, rfl, -⟩ := hindex.eq_register
      obtain ⟨value, radix, rfl, -⟩ := hvalue.eq_immediate
      exact Or.inr ⟨hstack, value, radix, Or.inl ⟨index, rfl⟩⟩
  | longImmediate _ hstack =>
      rcases hholds with _ | ⟨hfirst, _ | ⟨hsecond, _ | ⟨hvalue, ⟨⟩⟩⟩⟩
      obtain ⟨first, rfl, -⟩ := hfirst.eq_register
      obtain ⟨second, rfl, -⟩ := hsecond.eq_register
      obtain ⟨value, radix, rfl, -⟩ := hvalue.eq_immediate
      exact Or.inr ⟨hstack, value, radix, Or.inr ⟨first, second, rfl⟩⟩

/-! ## One format at a time -/

theorem encode_of_register_format (hformat : instruction.format = .register) :
    ∃ first second third : BitVec 4,
      instruction.encode symbols =
          0#14 ++ (first ++ second ++ third) ++ instruction.codeField ∧
        [first, second, third] =
          if instruction.mnemonic = .ijmp then
            [0, instruction.registerField 0, instruction.registerField 1]
          else
            [instruction.registerField 0, instruction.registerField 1,
              instruction.registerField 2] := by
  rw [encode, hformat]
  by_cases hjump : instruction.mnemonic = .ijmp
  · refine ⟨0, instruction.registerField 0, instruction.registerField 1, ?_, ?_⟩
    · simp only [registerWord, if_pos hjump]
      rfl
    · rw [if_pos hjump]
  · refine ⟨instruction.registerField 0, instruction.registerField 1,
      instruction.registerField 2, ?_, ?_⟩
    · simp only [registerWord, if_neg hjump]
    · rw [if_neg hjump]

theorem encode_of_immediate_format (hformat : instruction.format = .immediate) :
    ∃ first second : BitVec 4,
      instruction.encode symbols =
          0#8 ++ instruction.codeField ++ (first ++ second) ++
            instruction.valueField ∧
        [first, second] =
          if instruction.mnemonic.isStore then [0, instruction.registerField 0]
          else [instruction.registerField 0, instruction.registerField 1] := by
  rw [encode, hformat]
  by_cases hstore : instruction.mnemonic.isStore = true
  · refine ⟨0, instruction.registerField 0, ?_, ?_⟩
    · simp only [immediateWord, if_pos hstore]
      rfl
    · rw [if_pos hstore]
  · refine ⟨instruction.registerField 0, instruction.registerField 1, ?_, ?_⟩
    · simp only [immediateWord, if_neg hstore]
    · rw [if_neg hstore]

/-- A word of register format holds the registers of its instruction. -/
theorem Written.decodesTo_of_register_format
    (h : Written symbols tokens instruction)
    (hformat : instruction.format = .register) :
    Word.DecodesTo symbols (instruction.encode symbols) instruction := by
  have hmnemonic := h.exists_layout.1
  have hfield := h.shaped.toNat_registerField
  obtain ⟨first, second, third, hword, hfields⟩ :=
    @encode_of_register_format symbols instruction hformat
  obtain ⟨hreserved, hopcode, hfunction, hregisters⟩ :=
    Word.fields_of_register_format hword
  refine
    { format := hmnemonic
      reserved := hreserved
      mnemonic :=
        names_iff_of_register_format (hmnemonic ▸ hformat) hopcode hfunction
      register := fun _ => ?_
      branch := fun hother => absurd (hformat.symm.trans hother) (by decide)
      immediate := fun hother => absurd (hformat.symm.trans hother) (by decide) }
  rw [hregisters]
  change [first, second, third].map BitVec.toNat = _
  rw [hfields, registers]
  rcases h.operands_of_register_format hformat with
    ⟨hjump, hoperands⟩ | ⟨first, second, hoperands⟩ |
      ⟨hjump, first, second, third, hoperands⟩
  · rw [if_neg hjump, if_neg hjump]
    simp only [List.map_cons, List.map_nil, hfield, hoperands]
    rfl
  · by_cases hjump : instruction.mnemonic = .ijmp
    · rw [if_pos hjump, if_pos hjump]
      simp only [List.map_cons, List.map_nil, hfield, hoperands]
      rfl
    · rw [if_neg hjump, if_neg hjump]
      simp only [List.map_cons, List.map_nil, hfield, hoperands]
      rfl
  · rw [if_neg hjump, if_neg hjump]
    simp only [List.map_cons, List.map_nil, hfield, hoperands]
    rfl

/-- A target in a slot leads to an address, whose low bits its field holds. -/
theorem exists_leadsTo_of_holds
    {operand : Operand} (h : Slot.Holds symbols .target operand)
    (hoperands : instruction.operands = [operand]) :
    ∃ address, operand.LeadsTo symbols address ∧
      (instruction.addressField symbols).toNat = address % 65536 := by
  cases h with
  | @address value hnonneg hle =>
      refine ⟨value.toNat, Int.toNat_of_nonneg hnonneg, ?_⟩
      simp only [addressField, hoperands, List.head?_cons, BitVec.toNat_ofInt]
      omega
  | @label name hcontains =>
      obtain ⟨address, haddress⟩ := SymbolTable.exists_address hcontains
      refine ⟨address, haddress, ?_⟩
      simp only [addressField, hoperands, List.head?_cons, haddress,
        Option.getD_some, BitVec.toNat_ofNat]

/-- A word of branch format holds the target of its instruction. -/
theorem Written.decodesTo_of_branch_format
    (h : Written symbols tokens instruction)
    (hformat : instruction.format = .branch) :
    Word.DecodesTo symbols (instruction.encode symbols) instruction := by
  have hmnemonic := h.exists_layout.1
  have hword : instruction.encode symbols =
      0#8 ++ instruction.codeField ++ 0#2 ++ instruction.addressField symbols := by
    rw [encode, hformat]
    rfl
  obtain ⟨hreserved, hopcode, hgap⟩ := Word.fields_of_branch_format hword
  have hother : instruction.mnemonic.format ≠ .register := by
    rw [← hmnemonic, hformat]
    decide
  refine
    { format := hmnemonic
      reserved := hreserved
      mnemonic := names_iff_of_other_format hother hopcode
      register := fun hother => absurd (hformat.symm.trans hother) (by decide)
      branch := fun _ => ⟨hgap, ?_⟩
      immediate := fun hother => absurd (hformat.symm.trans hother) (by decide) }
  rw [target_encode hformat]
  rcases h.operands_of_branch_format hformat with
    hoperands | ⟨operand, hoperands, hholds⟩
  · left
    refine ⟨hoperands, ?_⟩
    simp only [addressField, hoperands, List.head?_nil]
  · right
    obtain ⟨address, hleads, hfield⟩ := exists_leadsTo_of_holds hholds hoperands
    exact ⟨operand, address, hoperands, hleads, hfield⟩

theorem toNat_valueField (instruction : Instruction) :
    (instruction.valueField.toNat : Int) =
      instruction.literals.getLast?.getD 0 % 1024 := by
  rw [valueField, BitVec.toNat_ofInt]
  exact Int.toNat_of_nonneg (Int.emod_nonneg _ (by decide))

/-- A word of immediate format holds the registers and the literal of its
instruction. -/
theorem Written.decodesTo_of_immediate_format
    (h : Written symbols tokens instruction)
    (hformat : instruction.format = .immediate) :
    Word.DecodesTo symbols (instruction.encode symbols) instruction := by
  have hmnemonic := h.exists_layout.1
  have hfield := h.shaped.toNat_registerField
  obtain ⟨first, second, hword, hfields⟩ :=
    @encode_of_immediate_format symbols instruction hformat
  obtain ⟨hreserved, hopcode, hregisters⟩ := Word.fields_of_immediate_format hword
  have hother : instruction.mnemonic.format ≠ .register := by
    rw [← hmnemonic, hformat]
    decide
  have hliteral := toNat_valueField instruction
  rw [← @literal_encode symbols instruction hformat] at hliteral
  have hoperands := h.operands_of_immediate_format hformat
  refine
    { format := hmnemonic
      reserved := hreserved
      mnemonic := names_iff_of_other_format hother hopcode
      register := fun hother => absurd (hformat.symm.trans hother) (by decide)
      branch := fun hother => absurd (hformat.symm.trans hother) (by decide)
      immediate := fun _ => ⟨?_, ?_⟩ }
  · rw [hregisters]
    change [first, second].map BitVec.toNat = _
    have hshape : instruction.registers.take 1 =
          [(instruction.registerField 0).toNat] ∧
        instruction.registers.rightpad 2 0 =
          [(instruction.registerField 0).toNat,
            (instruction.registerField 1).toNat] := by
      rw [hfield, hfield, registers]
      rcases hoperands with
        ⟨-, index, hoperands⟩ | ⟨-, value, radix, ⟨index, hoperands⟩ |
          ⟨first, second, hoperands⟩⟩
      · rw [hoperands]
        exact ⟨rfl, rfl⟩
      · rw [hoperands]
        exact ⟨rfl, rfl⟩
      · rw [hoperands]
        exact ⟨rfl, rfl⟩
    rw [hfields, hshape.1, hshape.2]
    by_cases hstore : instruction.mnemonic.isStore = true
    · rw [if_pos hstore, if_pos (isStore_iff.mp hstore)]
      rfl
    · rw [if_neg hstore, if_neg (mt isStore_iff.mpr hstore)]
      rfl
  · rcases hoperands with
      ⟨hstack, index, hoperands⟩ | ⟨hstack, value, radix, hoperands⟩
    · left
      have hnone : instruction.literals = [] := by
        rw [literals, hoperands]
        rfl
      rw [hnone] at hliteral
      refine ⟨hstack, hnone, ?_⟩
      apply BitVec.eq_of_toNat_eq
      exact Int.natCast_eq_zero.mp hliteral
    · right
      have hone : instruction.literals = [value] := by
        rw [literals]
        rcases hoperands with ⟨index, hoperands⟩ | ⟨first, second, hoperands⟩
        · rw [hoperands]
          rfl
        · rw [hoperands]
          rfl
      rw [hone] at hliteral
      exact ⟨hstack, value, hone, hliteral⟩

/-- The word of a written instruction tells what the instruction is. -/
theorem Written.decodesTo
    (h : Written symbols tokens instruction) :
    Word.DecodesTo symbols (instruction.encode symbols) instruction := by
  cases hformat : instruction.format with
  | register => exact h.decodesTo_of_register_format hformat
  | branch => exact h.decodesTo_of_branch_format hformat
  | immediate => exact h.decodesTo_of_immediate_format hformat

end Instruction

/-! ## Programs -/

namespace Word

variable {symbols : SymbolTable} {word : Word} {instruction : Instruction}

theorem length_text (word : Word) : word.text.length = 32 := by
  rw [← String.length_toList, toList_text, List.length_map, List.length_range]

theorem eq_of_mem_text {c : Char} (hc : c ∈ word.text.toList) : c = '0' ∨ c = '1' := by
  rw [toList_text] at hc
  obtain ⟨i, -, rfl⟩ := List.mem_map.mp hc
  cases word.getMsbD i
  · exact Or.inl rfl
  · exact Or.inr rfl

/-- The digits of the bits that no format uses. -/
theorem take_text_of_reserved (h : word.reserved = 0) :
    word.text.toList.take 8 = List.replicate 8 '0' := by
  rw [toList_text, ← List.map_take, List.take_range, List.eq_replicate_iff]
  refine ⟨by simp, ?_⟩
  intro c hc
  obtain ⟨i, hi, rfl⟩ := List.mem_map.mp hc
  have hlt : i < 8 := by simpa using hi
  have hbit : word.getMsbD i = word.reserved.getLsbD (7 - i) := by
    have hindex : 32 - 1 - i = 24 + (7 - i) := by omega
    rw [BitVec.getMsbD_eq_getLsbD, reserved, BitVec.getLsbD_extractLsb',
      decide_eq_true (by omega : i < 32), decide_eq_true (by omega : 7 - i < 8),
      hindex]
  rw [hbit, h]
  simp [digit]

theorem DecodesTo.mnemonic_eq
    {symbols' : SymbolTable} {other : Instruction}
    (h : word.DecodesTo symbols instruction)
    (h' : word.DecodesTo symbols' other) :
    instruction.mnemonic = other.mnemonic :=
  (h'.mnemonic _).mp ((h.mnemonic _).mpr rfl)

end Word

/-- Every drafted program has one text of 32 binary digits for each instruction.
The text is the numeral of the instruction's word, and the fields of the word
tell the mnemonic and the operands; equal texts have equal mnemonics. -/
theorem words_decode_to_their_instructions
    {symbols : SymbolTable} {tokens : List Token} {draft : Draft}
    (hdraft : Draft.ofTokens symbols tokens = .running draft) :
    List.Forall₂
        (fun instruction text =>
          text.length = 32 ∧ (∀ c ∈ text.toList, c = '0' ∨ c = '1') ∧
            Numeral.value 2 text.toList = (instruction.encode symbols).toNat ∧
              text.toList.take 8 = List.replicate 8 '0' ∧
                Word.DecodesTo symbols (instruction.encode symbols) instruction)
        draft.instructions.toList
        ((Word.ofProgram symbols draft.instructions.toList).map Word.text) ∧
      ∀ symbols' tokens' draft',
        Draft.ofTokens symbols' tokens' = .running draft' →
          ∀ first ∈ draft.instructions.toList,
            ∀ second ∈ draft'.instructions.toList,
              (first.encode symbols).text = (second.encode symbols').text →
                first.mnemonic = second.mnemonic := by
  have hdecodes : ∀ instruction ∈ draft.instructions.toList,
      Word.DecodesTo symbols (instruction.encode symbols) instruction := by
    intro instruction hmem
    obtain ⟨body, hwritten⟩ := Draft.exists_written_of_mem hdraft hmem
    exact hwritten.decodesTo
  constructor
  · rw [Word.ofProgram, List.map_map, List.forall₂_map_right_iff, List.forall₂_same]
    intro instruction hmem
    have hword := hdecodes instruction hmem
    exact ⟨Word.length_text _, fun c hc => Word.eq_of_mem_text hc, Word.value_text _,
      Word.take_text_of_reserved hword.reserved, hword⟩
  · intro symbols' tokens' draft' hdraft' first hfirst second hsecond htext
    obtain ⟨body, hwritten⟩ := Draft.exists_written_of_mem hdraft' hsecond
    have hsecondWord := hwritten.decodesTo
    rw [← Word.text_injective htext] at hsecondWord
    exact (hdecodes first hfirst).mnemonic_eq hsecondWord

/-- An indirect jump, whose first field stays empty, and a literal below zero. -/
theorem words_decode_to_their_instructions_pair :
    ∃ scan draft,
      Scan.ofSource "IJMP r3, r9\nADDI r1, r2, -2" = .running scan ∧
        Draft.ofTokens scan.symbols scan.tokens.toList = .running draft ∧
          ∃ jump ∈ draft.instructions.toList,
            ∃ sum ∈ draft.instructions.toList,
              jump.operands = [.register 3, .register 9] ∧
                sum.operands =
                  [.register 1, .register 2, .immediate (-2) .decimal] ∧
                  (jump.encode scan.symbols).registers = [0, 3, 9] ∧
                    (sum.encode scan.symbols).registers.take 2 = [1, 2] ∧
                      (sum.encode scan.symbols).literal.toNat = 1022 := by
  obtain ⟨scan, draft, hscan, hdraft, hjump, hsum⟩ :=
    exists_draft_of_pair
      (show (assemble "IJMP r3, r9\nADDI r1, r2, -2").toOption.map
          Assembly.program =
        some
          [⟨.ijmp, [.register 3, .register 9], .register, 1⟩,
            ⟨.addi, [.register 1, .register 2, .immediate (-2) .decimal],
              .immediate, 2⟩]
        by decide +kernel)
  obtain ⟨htexts, -⟩ := words_decode_to_their_instructions hdraft
  obtain ⟨-, -, -, -, -, -, hjumpWord⟩ := exists_mem_right_of_forall₂ htexts hjump
  obtain ⟨-, -, -, -, -, -, hsumWord⟩ := exists_mem_right_of_forall₂ htexts hsum
  obtain ⟨hregisters, hstack | ⟨-, value, hvalue, hliteral⟩⟩ := hsumWord.immediate rfl
  · exact absurd hstack.1 (by decide)
  · obtain rfl : -2 = value := (List.cons.inj hvalue).1
    refine ⟨scan, draft, hscan, hdraft, _, hjump, _, hsum, rfl, rfl,
      hjumpWord.register rfl, hregisters, ?_⟩
    exact Int.ofNat.inj hliteral

end Pom8
