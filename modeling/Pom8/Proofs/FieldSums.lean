import Pom8.Proofs.Decoding

/-!
# Words as sums

The fields of a word do not overlap, so a word is the sum of its fields, each
times the weight of its lowest bit.  This holds of every instruction, also of
those that no source gives: the format may be that of another mnemonic, the
operands may be of any number and kind, and a number that is too large for its
field counts modulo the size of the field.  Masking the numbers, shifting them to
their places and joining them bit by bit gives the same word.
-/

namespace Pom8

/-! ## Fields side by side -/

namespace Word

theorem toNat_append {v w : Nat} (high : BitVec v) (low : BitVec w) :
    (high ++ low).toNat = high.toNat <<< w + low.toNat := by
  rw [BitVec.toNat_append, Nat.shiftLeft_add_eq_or_of_lt low.isLt]

theorem toNat_of_register_format
    (first second third : BitVec 4) (code : BitVec 6) :
    (0#14 ++ (first ++ second ++ third) ++ code).toNat =
      first.toNat * 0x4000 + second.toNat * 0x400 + third.toNat * 0x40 +
        code.toNat := by
  simp only [toNat_append, BitVec.toNat_ofNat, Nat.shiftLeft_eq]
  omega

theorem toNat_of_branch_format (code : BitVec 6) (address : BitVec 16) :
    (0#8 ++ code ++ 0#2 ++ address).toNat =
      code.toNat * 0x40000 + address.toNat := by
  simp only [toNat_append, BitVec.toNat_ofNat, Nat.shiftLeft_eq]
  omega

theorem toNat_of_immediate_format
    (code : BitVec 6) (first second : BitVec 4) (value : BitVec 10) :
    (0#8 ++ code ++ (first ++ second) ++ value).toNat =
      code.toNat * 0x40000 + first.toNat * 0x4000 + second.toNat * 0x400 +
        value.toNat := by
  simp only [toNat_append, BitVec.toNat_ofNat, Nat.shiftLeft_eq]
  omega

/-! ## Fields joined bit by bit -/

/-- The low bits of a register number, shifted to the place of their field. -/
def place (shift index : Nat) : Word :=
  (BitVec.ofNat 32 index &&& 0xF#32) <<< shift

/-- An opcode and two register numbers at the places they have in branch and
immediate format; register format has zero for the opcode. -/
def pack (code first second : Nat) : Word :=
  BitVec.ofNat 32 code <<< 18 ||| place 14 first ||| place 10 second

/-- Joining the bits above some place to those below it adds them. -/
theorem toNat_or_of_dvd
    {high low : Word} {above below : Nat} (shift : Nat)
    (habove : high.toNat = above) (hbelow : low.toNat = below)
    (hdvd : 1 <<< shift ∣ above) (hlt : below < 1 <<< shift) :
    (high ||| low).toNat = above + below := by
  obtain ⟨count, rfl⟩ := hdvd
  rw [Nat.one_shiftLeft] at habove hlt ⊢
  rw [BitVec.toNat_or, habove, hbelow, Nat.mul_comm, ← Nat.shiftLeft_eq,
    Nat.shiftLeft_add_eq_or_of_lt hlt]

theorem toNat_place {shift : Nat} (hshift : shift ≤ 28) (index : Nat) :
    (place shift index).toNat = (index % 16) <<< shift := by
  have hmask : (BitVec.ofNat 32 index &&& 0xF#32).toNat = index % 16 := by
    rw [BitVec.toNat_and, BitVec.toNat_ofNat]
    change index % 2 ^ 32 &&& (2 ^ 4 - 1) = _
    rw [Nat.and_two_pow_sub_one_eq_mod]
    omega
  rw [place, BitVec.toNat_shiftLeft, hmask]
  apply Nat.mod_eq_of_lt
  calc
    (index % 16) <<< shift < 16 <<< shift := by
      rw [Nat.shiftLeft_eq, Nat.shiftLeft_eq]
      exact Nat.mul_lt_mul_of_pos_right (Nat.mod_lt _ (by decide))
        (Nat.two_pow_pos shift)
    _ ≤ 16 <<< 28 := by
      rw [Nat.shiftLeft_eq, Nat.shiftLeft_eq]
      exact Nat.mul_le_mul_left 16 (Nat.pow_le_pow_right (by decide) hshift)

theorem toNat_opcode {code : Nat} (hcode : code < 64) :
    (BitVec.ofNat 32 code <<< 18).toNat = code * 0x40000 := by
  rw [BitVec.toNat_shiftLeft, BitVec.toNat_ofNat, Nat.shiftLeft_eq]
  omega

theorem toNat_pack {code : Nat} (hcode : code < 64) (first second : Nat) :
    (pack code first second).toNat =
      code * 0x40000 + first % 16 * 0x4000 + second % 16 * 0x400 := by
  have hfirst := toNat_place (show 14 ≤ 28 by decide) first
  have hsecond := toNat_place (show 10 ≤ 28 by decide) second
  rw [Nat.shiftLeft_eq] at hfirst hsecond
  have hfront := toNat_or_of_dvd 18 (toNat_opcode hcode) hfirst
    (Nat.dvd_mul_left 0x40000 code) (by omega)
  exact toNat_or_of_dvd 14 hfront hsecond (show 0x4000 ∣ _ by omega) (by omega)

/-- A mask of low bits leaves the remainder, which is not negative. -/
theorem toNat_ofInt_and_mask
    {width count mask : Nat} (hcount : count ≤ width) (hmask : mask + 1 = 1 <<< count)
    (value : Int) :
    ((BitVec.ofInt width value &&& BitVec.ofNat width mask).toNat : Int) =
      value % (mask + 1 : Nat) := by
  rw [Nat.one_shiftLeft] at hmask
  have hle : 2 ^ count ≤ 2 ^ width := Nat.pow_le_pow_right (by decide) hcount
  have hdvd : ((mask + 1 : Nat) : Int) ∣ (2 ^ width : Nat) := by
    rw [hmask]
    exact Int.natCast_dvd_natCast.mpr (Nat.pow_dvd_pow 2 hcount)
  have hand (n : Nat) : n &&& mask = n % (mask + 1) := by
    rw [hmask, Nat.eq_sub_of_add_eq hmask, Nat.and_two_pow_sub_one_eq_mod]
  rw [BitVec.toNat_and, BitVec.toNat_ofNat, Nat.mod_eq_of_lt (by omega), hand,
    BitVec.toNat_ofInt, Int.natCast_emod,
    Int.toNat_of_nonneg (Int.emod_nonneg _ (by omega)),
    Int.emod_emod_of_dvd _ hdvd]

end Word

/-! ## The numbers in the fields -/

namespace Instruction

/-- The number of the register at a position of the operands, zero if there is
no register at it. -/
def indexAt (instruction : Instruction) (position : Nat) : Nat :=
  match instruction.operands[position]? with
  | some (.register index) => index
  | _ => 0

/-- The value of the last literal among some operands, wherever it stands, or the
value that was there before if they have none. -/
def lastValue (before : Int) : List Operand → Int
  | [] => before
  | .immediate value _ :: rest => lastValue value rest
  | .register _ :: rest | .label _ :: rest => lastValue before rest

/-- The address that the first operand stands for: that of its label, or its
value; zero if the label is not defined or the operand is no target. -/
def target (symbols : SymbolTable) (instruction : Instruction) : Int :=
  match instruction.operands with
  | .label name :: _ => (symbols.address? name).getD 0
  | .immediate value _ :: _ => value
  | _ => 0

/-- The numbers of the registers in the fields of register format. -/
def registerIndices (instruction : Instruction) : Nat × Nat × Nat :=
  if instruction.mnemonic = .ijmp then
    (0, instruction.indexAt 0, instruction.indexAt 1)
  else (instruction.indexAt 0, instruction.indexAt 1, instruction.indexAt 2)

/-- The numbers of the registers in the fields of immediate format. -/
def immediateIndices (instruction : Instruction) : Nat × Nat :=
  if instruction.mnemonic = .sta ∨ instruction.mnemonic = .push then
    (0, instruction.indexAt 0)
  else (instruction.indexAt 0, instruction.indexAt 1)

/-- The fields of an instruction added up, each times the weight of its lowest
bit.  Numbers count modulo the size of their field; the remainder of a negative
value is not negative. -/
def fieldSum (symbols : SymbolTable) (instruction : Instruction) : Int :=
  let code := instruction.mnemonic.code
  match instruction.format with
  | .register =>
    let (first, second, third) := instruction.registerIndices
    (first % 16 * 0x4000 + second % 16 * 0x400 + third % 16 * 0x40 + code : Nat)
  | .branch => (code * 0x40000 : Nat) + instruction.target symbols % 0x10000
  | .immediate =>
    let (first, second) := instruction.immediateIndices
    (code * 0x40000 + first % 16 * 0x4000 + second % 16 * 0x400 : Nat) +
      lastValue 0 instruction.operands % 0x400

/-- The fields of an instruction masked, shifted to their places and joined bit
by bit, with numbers cut to 32 bits or, for the literal, to 64. -/
def packed (symbols : SymbolTable) (instruction : Instruction) : Word :=
  let code := instruction.mnemonic.code
  match instruction.format with
  | .register =>
    let (first, second, third) := instruction.registerIndices
    Word.pack 0 first second ||| Word.place 6 third ||| BitVec.ofNat 32 code
  | .branch =>
    BitVec.ofNat 32 code <<< 18 |||
      (BitVec.ofInt 32 (instruction.target symbols) &&& 0xFFFF#32)
  | .immediate =>
    let (first, second) := instruction.immediateIndices
    Word.pack code first second |||
      (BitVec.ofInt 64 (lastValue 0 instruction.operands) &&& 0x3FF#64).setWidth 32

variable {symbols : SymbolTable} {instruction : Instruction}

theorem toNat_registerField (instruction : Instruction) (position : Nat) :
    (instruction.registerField position).toNat =
      instruction.indexAt position % 16 := by
  rw [registerField, BitVec.toNat_ofNat, indexAt]
  cases instruction.operands[position]? with
  | none => rfl
  | some operand => cases operand <;> rfl

theorem lastValue_eq_getLast? (before : Int) (operands : List Operand) :
    lastValue before operands =
      (operands.filterMap Operand.value?).getLast?.getD before := by
  induction operands generalizing before with
  | nil => rfl
  | cons operand rest ih =>
      cases operand with
      | immediate value radix =>
          have hcons : (Operand.immediate value radix :: rest).filterMap
              Operand.value? = value :: rest.filterMap Operand.value? := rfl
          rw [lastValue, ih, hcons, List.getLast?_cons, Option.getD_some]
      | register index => exact ih before
      | label name => exact ih before

theorem toNat_addressField (symbols : SymbolTable) (instruction : Instruction) :
    ((instruction.addressField symbols).toNat : Int) =
      instruction.target symbols % 0x10000 := by
  have hfield : instruction.addressField symbols =
      BitVec.ofInt 16 (instruction.target symbols) := by
    unfold addressField target
    cases instruction.operands with
    | nil => rfl
    | cons operand rest =>
        cases operand with
        | label name => exact (BitVec.ofInt_natCast _ _).symm
        | immediate value radix => rfl
        | register index => rfl
  rw [hfield, BitVec.toNat_ofInt]
  exact Int.toNat_of_nonneg (Int.emod_nonneg _ (by decide))

/-! ## Every word is the sum of its fields -/

theorem toNat_encode (symbols : SymbolTable) (instruction : Instruction) :
    ((instruction.encode symbols).toNat : Int) = instruction.fieldSum symbols := by
  have hzero : (0 : BitVec 4).toNat = 0 % 16 := rfl
  unfold fieldSum
  cases hformat : instruction.format with
  | register =>
      obtain ⟨first, second, third, hword, hfields⟩ :=
        @encode_of_register_format symbols instruction hformat
      rw [hword, Word.toNat_of_register_format, toNat_codeField, registerIndices]
      split at hfields
      next hjump =>
        obtain ⟨rfl, rfl, rfl⟩ : first = 0 ∧ second = _ ∧ third = _ := by
          simpa using hfields
        rw [if_pos hjump, hzero, toNat_registerField, toNat_registerField]
      next hjump =>
        obtain ⟨rfl, rfl, rfl⟩ : first = _ ∧ second = _ ∧ third = _ := by
          simpa using hfields
        rw [if_neg hjump, toNat_registerField, toNat_registerField,
          toNat_registerField]
  | branch =>
      rw [encode, hformat]
      dsimp only
      rw [branchWord, Word.toNat_of_branch_format, toNat_codeField, Int.natCast_add,
        toNat_addressField]
  | immediate =>
      obtain ⟨first, second, hword, hfields⟩ :=
        @encode_of_immediate_format symbols instruction hformat
      have hvalue := toNat_valueField instruction
      rw [literals, ← lastValue_eq_getLast?] at hvalue
      rw [hword, Word.toNat_of_immediate_format, toNat_codeField, Int.natCast_add,
        hvalue, immediateIndices]
      split at hfields
      next hstore =>
        obtain ⟨rfl, rfl⟩ : first = 0 ∧ second = _ := by simpa using hfields
        rw [if_pos (isStore_iff.mp hstore), hzero, toNat_registerField]
      next hstore =>
        obtain ⟨rfl, rfl⟩ : first = _ ∧ second = _ := by simpa using hfields
        rw [if_neg (mt isStore_iff.mpr hstore), toNat_registerField,
          toNat_registerField]

theorem toNat_packed (symbols : SymbolTable) (instruction : Instruction) :
    ((instruction.packed symbols).toNat : Int) = instruction.fieldSum symbols := by
  have hlt := instruction.mnemonic.code_lt
  unfold packed fieldSum
  cases instruction.format with
  | register =>
      obtain ⟨first, second, third⟩ := instruction.registerIndices
      have hthird := Word.toNat_place (show 6 ≤ 28 by decide) third
      rw [Nat.shiftLeft_eq] at hthird
      have hcode : (BitVec.ofNat 32 instruction.mnemonic.code).toNat =
          instruction.mnemonic.code := by
        rw [BitVec.toNat_ofNat]
        omega
      have hregisters := Word.toNat_or_of_dvd 10
        (Word.toNat_pack (show 0 < 64 by decide) first second) hthird
        (show 0x400 ∣ _ by omega) (by omega)
      have hword := Word.toNat_or_of_dvd 6 hregisters hcode
        (show 0x40 ∣ _ by omega) (by omega)
      dsimp only
      rw [hword]
      omega
  | branch =>
      have htarget := @Word.toNat_ofInt_and_mask 32 16 0xFFFF (by decide) rfl
        (instruction.target symbols)
      have hword := Word.toNat_or_of_dvd 18 (Word.toNat_opcode hlt)
        (Eq.refl (BitVec.ofInt 32 (instruction.target symbols) &&& 0xFFFF#32).toNat)
        (Nat.dvd_mul_left 0x40000 _) (by omega)
      dsimp only
      rw [hword, Int.natCast_add, htarget]
      rfl
  | immediate =>
      obtain ⟨first, second⟩ := instruction.immediateIndices
      have hvalue := @Word.toNat_ofInt_and_mask 64 10 0x3FF (by decide) rfl
        (lastValue 0 instruction.operands)
      generalize BitVec.ofInt 64 (lastValue 0 instruction.operands) &&& 0x3FF#64 =
        literal at hvalue ⊢
      have hliteral : (literal.setWidth 32).toNat = literal.toNat := by
        rw [BitVec.toNat_setWidth]
        omega
      have hword := Word.toNat_or_of_dvd 10 (Word.toNat_pack hlt first second)
        hliteral (show 0x400 ∣ _ by omega) (by omega)
      dsimp only
      rw [hword, Int.natCast_add, hvalue]
      rfl

theorem fieldSum_lt (symbols : SymbolTable) (instruction : Instruction) :
    instruction.fieldSum symbols < 0x1000000 := by
  have hcode := instruction.mnemonic.code_lt
  unfold fieldSum
  cases instruction.format with
  | register | branch | immediate =>
      dsimp only
      omega

/-- Every word has 24 bits at most and is the sum of its fields, and the fields
joined bit by bit give the same word. -/
theorem word_is_sum_of_fields (symbols : SymbolTable) (instruction : Instruction) :
    (instruction.encode symbols).toNat < 0x1000000 ∧
      ((instruction.encode symbols).toNat : Int) = instruction.fieldSum symbols ∧
      instruction.encode symbols = instruction.packed symbols := by
  have hsum := toNat_encode symbols instruction
  refine ⟨?_, hsum, ?_⟩
  · have hlt := fieldSum_lt symbols instruction
    omega
  · apply BitVec.eq_of_toNat_eq
    exact Int.ofNat.inj (hsum.trans (toNat_packed symbols instruction).symm)

/-- A store in register format, with a register that is too large for its field
and a literal where a register is called for. -/
example :
    (encode .empty ⟨.sta, [.immediate (-3) .binary, .register 0xFFFFFFFE],
      .register, 7⟩).toNat = 14 * 0x400 + 19 := by
  decide

end Instruction
end Pom8
