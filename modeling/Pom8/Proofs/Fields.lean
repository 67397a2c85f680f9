import Pom8.Proofs.Addresses
import Pom8.Proofs.Language

/-!
# Operands and the fields of words

Every instruction of a draft has the shape of a layout of its mnemonic, with
numbers that were checked against their ranges.  Registers and literals
therefore fit their fields.  The addresses of labels are not checked, so they
fit exactly while they stay below 65536.
-/

namespace Pom8

/-! ## The shapes of instructions -/

/-- The operands that a slot can hold. -/
inductive Slot.Holds (symbols : SymbolTable) : Slot → Operand → Prop
  | register {index : Nat} :
      index ≤ 15 → Holds symbols .register (.register index)
  | literal {value : Int} {radix : Radix} :
      radix.least ≤ value → value ≤ radix.greatest →
        Holds symbols .numeric (.immediate value radix)
  | address {value : Int} :
      0 ≤ value → value ≤ 0x3FF →
        Holds symbols .target (.immediate value .hexadecimal)
  | label {name : String} :
      symbols.contains name = true → Holds symbols .target (.label name)

/-- The instructions that statements give, one shape for each layout. -/
inductive Instruction.Shaped (symbols : SymbolTable) : Instruction → Prop
  | bare {mnemonic : Mnemonic} {line : Nat} :
      Shaped symbols ⟨mnemonic, [], mnemonic.format, line⟩
  | branch {mnemonic : Mnemonic} {target : Operand} {line : Nat} :
      mnemonic.format = .branch → Slot.Holds symbols .target target →
        Shaped symbols ⟨mnemonic, [target], mnemonic.format, line⟩
  | stack {mnemonic : Mnemonic} {index line : Nat} :
      mnemonic.format = .immediate → index ≤ 15 →
        Shaped symbols ⟨mnemonic, [.register index], mnemonic.format, line⟩
  | immediate {mnemonic : Mnemonic} {index : Nat} {value : Int} {radix : Radix}
      {line : Nat} :
      mnemonic.format = .immediate → index ≤ 15 →
        radix.least ≤ value → value ≤ radix.greatest →
          Shaped symbols ⟨mnemonic,
            [.register index, .immediate value radix], mnemonic.format, line⟩
  | longImmediate {mnemonic : Mnemonic} {first second : Nat} {value : Int}
      {radix : Radix} {line : Nat} :
      mnemonic.format = .immediate → mnemonic ∉ Grammar.stack →
        first ≤ 15 → second ≤ 15 →
          radix.least ≤ value → value ≤ radix.greatest →
            Shaped symbols ⟨mnemonic,
              [.register first, .register second, .immediate value radix],
              mnemonic.format, line⟩
  | twoRegisters {mnemonic : Mnemonic} {first second line : Nat} :
      mnemonic.format = .register → first ≤ 15 → second ≤ 15 →
        Shaped symbols ⟨mnemonic,
          [.register first, .register second], mnemonic.format, line⟩
  | threeRegisters {mnemonic : Mnemonic} {first second third line : Nat} :
      mnemonic.format = .register → mnemonic ∉ Grammar.twoRegister →
        first ≤ 15 → second ≤ 15 → third ≤ 15 →
          Shaped symbols ⟨mnemonic,
            [.register first, .register second, .register third],
            mnemonic.format, line⟩

section Shapes

variable {symbols : SymbolTable}

theorem Slot.holds_of_taken
    {slot : Slot} {token : Token} {operand : Operand}
    (haccepts : slot.accepts token.kind = true)
    (hoperand : Operand.ofToken? token = some operand)
    (hvalid : operand.isValid symbols = true) : Holds symbols slot operand := by
  rcases Grammar.accepts_iff.mp haccepts with
    ⟨rfl, hkind⟩ | ⟨rfl, hkind⟩ | ⟨rfl, hkind | hkind⟩
  · simp only [Operand.ofToken?, hkind, Option.some.injEq] at hoperand
    subst hoperand
    exact .register (by simpa [Operand.isValid] using hvalid)
  · obtain ⟨value, radix, rfl⟩ : ∃ value radix, operand = .immediate value radix := by
      rcases hkind with hkind | hkind | hkind
      · simp only [Operand.ofToken?, hkind] at hoperand
        split at hoperand <;> exact ⟨_, _, (Option.some.inj hoperand).symm⟩
      · simp only [Operand.ofToken?, hkind] at hoperand
        exact ⟨_, _, (Option.some.inj hoperand).symm⟩
      · simp only [Operand.ofToken?, hkind] at hoperand
        exact ⟨_, _, (Option.some.inj hoperand).symm⟩
    obtain ⟨hleast, hgreatest⟩ := Grammar.isValid_immediate_iff.mp hvalid
    exact .literal hleast hgreatest
  · simp only [Operand.ofToken?, hkind, Option.some.injEq] at hoperand
    subst hoperand
    exact .address (Int.natCast_nonneg _) (Grammar.isValid_immediate_iff.mp hvalid).2
  · simp only [Operand.ofToken?, hkind, Option.some.injEq] at hoperand
    subst hoperand
    exact .label hvalid

theorem Slot.forall₂_holds
    {layout : Layout} {tokens : List Token} {operands : List Operand}
    (hfilled : layout.FilledBy tokens)
    (hwritten : Operand.WrittenBy symbols operands tokens) :
    List.Forall₂ (Holds symbols) layout operands := by
  induction hfilled generalizing operands with
  | nil =>
      cases hwritten
      exact .nil
  | cons haccepts _ ih =>
      rcases hwritten with _ | ⟨hoperand, hrest⟩
      exact .cons (holds_of_taken haccepts hoperand.1 hoperand.2) (ih hrest)

theorem Slot.Holds.eq_register
    {operand : Operand} (h : Holds symbols .register operand) :
    ∃ index, operand = .register index ∧ index ≤ 15 := by
  cases h with
  | register hle => exact ⟨_, rfl, hle⟩

theorem Slot.Holds.eq_immediate
    {operand : Operand} (h : Holds symbols .numeric operand) :
    ∃ value radix, operand = .immediate value radix ∧
      radix.least ≤ value ∧ value ≤ radix.greatest := by
  cases h with
  | literal hleast hgreatest => exact ⟨_, _, rfl, hleast, hgreatest⟩

/-- A written instruction has the shape of the layout it was written in. -/
theorem Instruction.Written.shaped
    {tokens : List Token} {instruction : Instruction}
    (h : Written symbols tokens instruction) : Shaped symbols instruction := by
  cases h with
  | statement _ _ hlayout hfilled hwritten =>
      have hholds := Slot.forall₂_holds hfilled hwritten
      cases Grammar.allows_iff.mpr hlayout with
      | nullary _ =>
          cases hholds
          exact .bare
      | branch hformat _ =>
          rcases hholds with _ | ⟨htarget, ⟨⟩⟩
          exact .branch hformat htarget
      | stack hmem =>
          rcases hholds with _ | ⟨hindex, ⟨⟩⟩
          obtain ⟨index, rfl, hle⟩ := hindex.eq_register
          exact .stack (Grammar.mem_stack_iff.mp hmem).1 hle
      | immediate hformat _ =>
          rcases hholds with _ | ⟨hindex, _ | ⟨hvalue, ⟨⟩⟩⟩
          obtain ⟨index, rfl, hle⟩ := hindex.eq_register
          obtain ⟨value, radix, rfl, hleast, hgreatest⟩ := hvalue.eq_immediate
          exact .immediate hformat hle hleast hgreatest
      | longImmediate hformat hstack =>
          rcases hholds with _ | ⟨hfirst, _ | ⟨hsecond, _ | ⟨hvalue, ⟨⟩⟩⟩⟩
          obtain ⟨first, rfl, hle⟩ := hfirst.eq_register
          obtain ⟨second, rfl, hle'⟩ := hsecond.eq_register
          obtain ⟨value, radix, rfl, hleast, hgreatest⟩ := hvalue.eq_immediate
          exact .longImmediate hformat hstack hle hle' hleast hgreatest
      | twoRegisters hmem =>
          rcases hholds with _ | ⟨hfirst, _ | ⟨hsecond, ⟨⟩⟩⟩
          obtain ⟨first, rfl, hle⟩ := hfirst.eq_register
          obtain ⟨second, rfl, hle'⟩ := hsecond.eq_register
          exact .twoRegisters (Grammar.mem_twoRegister_iff.mp hmem).1 hle hle'
      | threeRegisters hformat _ htwo =>
          rcases hholds with _ | ⟨hfirst, _ | ⟨hsecond, _ | ⟨hthird, ⟨⟩⟩⟩⟩
          obtain ⟨first, rfl, hle⟩ := hfirst.eq_register
          obtain ⟨second, rfl, hle'⟩ := hsecond.eq_register
          obtain ⟨third, rfl, hle''⟩ := hthird.eq_register
          exact .threeRegisters hformat htwo hle hle' hle''

end Shapes

/-! ## The fields of a word -/

/-- The field of a literal in a word of immediate format. -/
def Word.literal (word : Word) : BitVec 10 :=
  word.extractLsb' 0 10

/-- The field of an address in a word of branch format. -/
def Word.target (word : Word) : BitVec 16 :=
  word.extractLsb' 0 16

theorem SymbolTable.exists_address
    {symbols : SymbolTable} {name : String} (h : symbols.contains name = true) :
    ∃ address, symbols.address? name = some address := by
  obtain ⟨symbol, hsymbol⟩ := Option.isSome_iff_exists.mp h
  exact ⟨symbol.address, by rw [address?, hsymbol, Option.map_some]⟩

/-- The address that an operand stands for: a label stands for the address it is
bound to, and a literal for its value. -/
def Operand.LeadsTo (symbols : SymbolTable) : Operand → Nat → Prop
  | label name, address => symbols.address? name = some address
  | immediate value _, address => (address : Int) = value
  | register _, _ => False

namespace Instruction

/-- Every register keeps its number in its field. -/
def RegistersFit (instruction : Instruction) : Prop :=
  ∀ position index, instruction.operands[position]? = some (.register index) →
    index < 16 ∧ (instruction.registerField position).toNat = index

/-- Every literal of a word of immediate format is read back from its field, as
a number without sign unless it lies below zero. -/
def LiteralsFit (symbols : SymbolTable) (instruction : Instruction) : Prop :=
  instruction.format = .immediate →
    ∀ value radix, .immediate value radix ∈ instruction.operands →
      let field := Word.literal (instruction.encode symbols)
      (0 ≤ value ∧ value ≤ 1023 ∧ (field.toNat : Int) = value) ∨
        (value < 0 ∧ field.toInt = value)

/-- The target of a branch is read back in full from its field. -/
def TargetFits (symbols : SymbolTable) (instruction : Instruction) : Prop :=
  instruction.format = .branch →
    ∀ operand ∈ instruction.operands,
      operand.LeadsTo symbols (Word.target (instruction.encode symbols)).toNat

variable {symbols : SymbolTable} {instruction : Instruction}

theorem literal_encode (hformat : instruction.format = .immediate) :
    Word.literal (instruction.encode symbols) = instruction.valueField := by
  rw [encode, hformat]
  exact BitVec.extractLsb'_append_eq_right

theorem target_encode (hformat : instruction.format = .branch) :
    Word.target (instruction.encode symbols) = instruction.addressField symbols := by
  rw [encode, hformat]
  exact BitVec.extractLsb'_append_eq_right

/-- A word depends on the symbols through the label of its instruction only. -/
theorem encode_congr
    {other : SymbolTable}
    (h : ∀ name, .label name ∈ instruction.operands →
      symbols.address? name = other.address? name) :
    instruction.encode symbols = instruction.encode other := by
  have haddress : instruction.addressField symbols =
      instruction.addressField other := by
    unfold addressField
    split
    next name hhead =>
      rw [h name (List.mem_of_head? hhead)]
    · rfl
    · rfl
  cases hformat : instruction.format with
  | register => simp only [encode, hformat]
  | branch => simp only [encode, hformat, branchWord, haddress]
  | immediate => simp only [encode, hformat]

theorem Shaped.index_le
    (h : Shaped symbols instruction) {index : Nat}
    (hmem : .register index ∈ instruction.operands) : index ≤ 15 := by
  cases h with
  | bare => cases hmem
  | branch _ htarget =>
      obtain rfl := List.mem_singleton.mp hmem
      cases htarget
  | stack | immediate | longImmediate | twoRegisters | threeRegisters =>
      simp only [List.mem_cons, List.not_mem_nil, Operand.register.injEq,
        reduceCtorEq, or_false] at hmem
      omega

theorem Shaped.registersFit (h : Shaped symbols instruction) :
    instruction.RegistersFit := by
  intro position index hposition
  have hle := h.index_le (List.mem_of_getElem? hposition)
  refine ⟨by omega, ?_⟩
  rw [registerField, hposition, BitVec.toNat_ofNat]
  exact Nat.mod_eq_of_lt (Nat.lt_succ_of_le hle)

theorem Shaped.valueField_eq
    (h : Shaped symbols instruction) (hformat : instruction.format = .immediate)
    {value : Int} {radix : Radix}
    (hmem : .immediate value radix ∈ instruction.operands) :
    radix.least ≤ value ∧ value ≤ radix.greatest ∧
      instruction.valueField = BitVec.ofInt 10 value := by
  cases h with
  | bare => cases hmem
  | branch hbranch => exact absurd (hformat.symm.trans hbranch) (by decide)
  | stack | twoRegisters | threeRegisters => simp at hmem
  | immediate _ _ hleast hgreatest | longImmediate _ _ _ _ hleast hgreatest =>
      obtain ⟨rfl, rfl⟩ : value = _ ∧ radix = _ := by simpa using hmem
      exact ⟨hleast, hgreatest, rfl⟩

theorem Shaped.literalsFit (h : Shaped symbols instruction) :
    instruction.LiteralsFit symbols := by
  intro hformat value radix hmem
  obtain ⟨hleast, hgreatest, hfield⟩ := h.valueField_eq hformat hmem
  have hrange : -128 ≤ value ∧ value ≤ 1023 := by
    cases radix <;> simp only [Radix.least, Radix.greatest] at hleast hgreatest <;>
      omega
  rw [literal_encode hformat, hfield]
  by_cases hsign : 0 ≤ value
  · left
    refine ⟨hsign, hrange.2, ?_⟩
    rw [BitVec.toNat_ofInt]
    omega
  · right
    refine ⟨by omega, BitVec.toInt_ofInt_eq_self (by decide) ?_ ?_⟩ <;> omega

/-- A branch keeps its target exactly if the address of its label, where it has
one, lies below 65536. -/
theorem Shaped.targetFits_iff (h : Shaped symbols instruction) :
    instruction.TargetFits symbols ↔
      ∀ name address, .label name ∈ instruction.operands →
        symbols.address? name = some address → address < 65536 := by
  cases h with
  | bare => simp [TargetFits]
  | stack hformat | immediate hformat | longImmediate hformat
  | twoRegisters hformat | threeRegisters hformat =>
      simp [TargetFits, hformat]
  | @branch mnemonic target line hformat htarget =>
      constructor
      · intro hfits name address hlabel haddress
        obtain rfl := List.mem_singleton.mp hlabel
        have hleads := hfits hformat _ (List.mem_singleton_self _)
        rw [Operand.LeadsTo, haddress, Option.some_inj] at hleads
        rw [hleads]
        exact BitVec.isLt _
      · intro hbound _ operand hmem
        obtain rfl := List.mem_singleton.mp hmem
        rw [target_encode hformat]
        cases htarget with
        | address hnonneg hle =>
            simp only [Operand.LeadsTo, addressField, List.head?_cons,
              BitVec.toNat_ofInt]
            omega
        | @label name hcontains =>
            obtain ⟨address, haddress⟩ := SymbolTable.exists_address hcontains
            have hlt := hbound name address hmem haddress
            simp only [Operand.LeadsTo, addressField, List.head?_cons, haddress,
              Option.getD_some, BitVec.toNat_ofNat, Nat.mod_eq_of_lt hlt]

end Instruction

/-! ## Programs whose operands fit -/

theorem AssembledFrom.shaped
    {source : String} {assembly : Assembly} (h : AssembledFrom source assembly)
    {instruction : Instruction} (hmem : instruction ∈ assembly.program) :
    instruction.Shaped assembly.symbols := by
  obtain ⟨line, -, hwritten⟩ := exists_mem_left_of_forall₂ h.program hmem
  exact hwritten.shaped

theorem AssembledFrom.address_le_length
    {source : String} {assembly : Assembly} (h : AssembledFrom source assembly)
    {name : String} {address : Nat}
    (haddress : assembly.symbols.address? name = some address) :
    address ≤ assembly.program.length := by
  obtain ⟨symbol, hsymbol, rfl⟩ := Option.map_eq_some_iff.mp haddress
  rw [h.address_eq_countP (List.mem_of_find?_eq_some hsymbol)]
  exact List.countP_le_length

/-- The operands of a program fit their fields exactly where the addresses of
its labels lie below 65536, as all of them do in a program of fewer
instructions. -/
theorem operands_fit_iff_label_addresses_fit
    {source : String} {assembly : Assembly}
    (hassembly : assemble source = .ok assembly)
    {instruction : Instruction} (hmem : instruction ∈ assembly.program) :
    instruction.RegistersFit ∧
      instruction.LiteralsFit assembly.symbols ∧
        (instruction.TargetFits assembly.symbols ↔
          ∀ name address, .label name ∈ instruction.operands →
            assembly.symbols.address? name = some address → address < 65536) ∧
          (assembly.program.length < 65536 →
            instruction.TargetFits assembly.symbols) := by
  have hassembled := assemble_eq_ok_iff_assembledFrom.mp hassembly
  have hshaped := hassembled.shaped hmem
  refine ⟨hshaped.registersFit, hshaped.literalsFit, hshaped.targetFits_iff, ?_⟩
  intro hlength
  rw [hshaped.targetFits_iff]
  intro name address _ haddress
  exact lt_of_le_of_lt (hassembled.address_le_length haddress) hlength

/-- A loop whose literal lies below zero and whose label fits. -/
theorem operands_fit_iff_label_addresses_fit_loop :
    ∃ assembly load branch,
      assemble "loop: LDI r15, -128\nBRZ loop" = .ok assembly ∧
        assembly.program = [load, branch] ∧
          load.operands = [.register 15, .immediate (-128) .decimal] ∧
            branch.operands = [.label "loop"] ∧
              (load.RegistersFit ∧ load.LiteralsFit assembly.symbols) ∧
                branch.TargetFits assembly.symbols := by
  obtain ⟨assembly, hassembly, hprogram⟩ :=
    exists_assembly_of_toOption_eq
      (show (assemble "loop: LDI r15, -128\nBRZ loop").toOption.map
          Assembly.program =
        some [⟨.ldi, [.register 15, .immediate (-128) .decimal], .immediate, 1⟩,
          ⟨.brz, [.label "loop"], .branch, 2⟩] by decide +kernel)
  obtain ⟨hregisters, hliterals, -⟩ :=
    operands_fit_iff_label_addresses_fit hassembly (hprogram ▸ List.mem_cons_self)
  obtain ⟨-, -, -, htarget⟩ :=
    operands_fit_iff_label_addresses_fit hassembly
      (hprogram ▸ List.mem_cons_of_mem _ List.mem_cons_self)
  exact ⟨assembly, _, _, hassembly, hprogram, rfl, rfl, ⟨hregisters, hliterals⟩,
    htarget (by rw [hprogram]; decide)⟩

/-! ## A label out of reach -/

namespace Source

/-- A source of given lines, each with a line break. -/
def ofLines (lines : List (List Char)) : String :=
  String.ofList (lines.flatMap fun line => line ++ ['\n'])

theorem lines_ofLines
    {given : List (List Char)} (h : ∀ line ∈ given, '\n' ∉ line) :
    lines (ofLines given) = given := by
  have hsplit : (ofLines given).toList.splitOnP (· == '\n') = given ++ [[]] := by
    rw [ofLines, String.toList_ofList]
    induction given with
    | nil => rfl
    | cons line rest ih =>
        rw [List.forall_mem_cons] at h
        rw [List.flatMap_cons, List.append_assoc, List.singleton_append,
          List.splitOnP_append_cons_of_forall_mem _ '\n' rfl, ih h.2]
        · rfl
        · intro c hc
          rw [beq_eq_false_iff_ne]
          rintro rfl
          exact h.1 hc
  rw [lines, hsplit]
  simp

/-- A line of code without labels. -/
def plainLine : List Char := "NOP".toList

/-- A line whose label is the target of its jump. -/
def jumpLine : List Char := "far: JMP far".toList

/-- A jump that leads to itself, after some plain lines. -/
def longJump (count : Nat) : String :=
  ofLines (List.replicate count plainLine ++ [jumpLine])

theorem eq_of_mem_longJump
    {count : Nat} {line : List Char}
    (h : line ∈ List.replicate count plainLine ++ [jumpLine]) :
    line = plainLine ∨ line = jumpLine := by
  rcases List.mem_append.mp h with hline | hline
  · exact Or.inl (List.eq_of_mem_replicate hline)
  · exact Or.inr (List.mem_singleton.mp hline)

theorem lines_longJump (count : Nat) :
    lines (longJump count) = List.replicate count plainLine ++ [jumpLine] := by
  apply lines_ofLines
  intro line hline
  rcases eq_of_mem_longJump hline with rfl | rfl <;> decide

theorem numberedLines_longJump (count : Nat) :
    numberedLines (longJump count) =
      (List.replicate count plainLine).zipIdx 1 ++ [(jumpLine, count + 1)] := by
  rw [numberedLines, lines_longJump, List.zipIdx_append, List.length_replicate,
    Nat.add_comm 1 count, List.zipIdx_singleton]

theorem labelNames_longJump (count : Nat) :
    labelNames (longJump count) = ["far"] := by
  have hnone : (labelItems plainLine).map labelName = [] := by decide
  have hfar : (labelItems jumpLine).map labelName = ["far"] := by decide
  rw [labelNames, lines_longJump, List.flatMap_append, List.flatMap_replicate, hnone,
    List.flatMap_singleton, hfar, List.flatten_replicate_nil, List.nil_append]

theorem codeItems_plainLine : codeItems plainLine = ["NOP".toList] := by
  decide

theorem codeItems_jumpLine :
    codeItems jumpLine = ["JMP".toList, "far".toList] := by
  decide

theorem follows_longJump (count : Nat) : Grammar.Follows (longJump count) where
  classified := by
    intro line hline
    rw [lines_longJump] at hline
    have hkinds : ∀ item ∈ items line,
        (Token.Kind.ofText? (String.ofList item)).isSome = true := by
      rcases eq_of_mem_longJump hline with rfl | rfl <;> decide
    exact fun item hitem => Option.isSome_iff_exists.mp (hkinds item hitem)
  distinct := by
    rw [labelNames_longJump]
    decide
  statements := by
    intro line hline _
    rw [lines_longJump] at hline
    rw [labelNames_longJump]
    rcases eq_of_mem_longJump hline with rfl | rfl
    · rw [codeItems_plainLine]
      exact ⟨.nop, [], .statement (by decide) (by decide +kernel)
        (.nullary (by decide)) .nil⟩
    · rw [codeItems_jumpLine]
      refine ⟨.jmp, [.label "far"], .statement (by decide) (by decide +kernel)
        (.branch rfl (by decide)) (.cons ?_ .nil)⟩
      exact .label (by decide) (by decide) (List.mem_singleton_self _) rfl

theorem symbolsFrom_longJump (count : Nat) :
    symbolsFrom 0 (numberedLines (longJump count)) =
      [⟨"far", count, count + 1⟩] := by
  have hnone : symbolsFrom 0 ((List.replicate count plainLine).zipIdx 1) = [] := by
    rw [← List.map_eq_nil_iff, map_name_symbolsFrom, List.flatMap_eq_nil_iff]
    intro line hline
    have hplain := List.eq_of_mem_replicate (List.fst_mem_of_mem_zipIdx hline)
    rw [hplain]
    decide
  have hcount : ((List.replicate count plainLine).zipIdx 1).countP
      (fun line => isCode line.1) = count := by
    change List.countP (isCode ∘ Prod.fst) _ = _
    rw [← List.countP_map, List.zipIdx_map_fst, List.countP_replicate,
      if_pos (by decide)]
  have hjump : (items jumpLine).filter Token.isLabel = ["far:".toList] := by decide
  have hname : Text.lower (labelName "far:".toList) = "far" := by decide +kernel
  rw [numberedLines_longJump, symbolsFrom_append, hnone, hcount, Nat.zero_add,
    List.nil_append, symbolsFrom, symbolsFrom, List.append_nil, definedSymbols, hjump,
    List.map_singleton, hname]

/-- The last instruction of a long jump names the label on its line. -/
theorem exists_jump_of_describes_longJump
    {count : Nat} {assembly : Assembly}
    (h : Grammar.Describes (longJump count) assembly) :
    ∃ instruction ∈ assembly.program, instruction.operands = [.label "far"] := by
  have hisCode : isCode jumpLine = true := by decide
  have hcode : (jumpLine, count + 1) ∈ codeLines (longJump count) := by
    rw [codeLines, numberedLines_longJump]
    exact List.mem_filter.mpr ⟨by simp, hisCode⟩
  obtain ⟨instruction, hmem, hwrites⟩ :=
    exists_mem_right_of_forall₂ h.program hcode
  have hstatement := hwrites.statement
  refine ⟨instruction, hmem, ?_⟩
  rw [codeItems_jumpLine, labelNames_longJump] at hstatement
  generalize instruction.mnemonic = mnemonic at hstatement
  generalize instruction.operands = operands at hstatement ⊢
  cases hstatement with
  | statement _ hname hallows hoperands =>
      have hjmp : Mnemonic.ofText? (String.ofList "JMP".toList) = some .jmp := by
        decide +kernel
      rw [Grammar.ofText?_eq_some_iff.mpr hname, Option.some_inj] at hjmp
      subst hjmp
      obtain rfl := List.mem_singleton.mp (Grammar.allows_iff.mp hallows)
      rcases hoperands with _ | ⟨htarget, ⟨⟩⟩
      cases htarget with
      | label => rfl

end Source

/-- After 65536 instructions, a jump to its own line is assembled to a word
that does not hold its target. -/
theorem target_after_all_addresses_does_not_fit :
    ∃ assembly, assemble (Source.longJump 65536) = .ok assembly ∧
      ∃ instruction ∈ assembly.program,
        instruction.operands = [.label "far"] ∧
          assembly.symbols.address? "far" = some 65536 ∧
            ¬instruction.TargetFits assembly.symbols := by
  have hfollows := Source.follows_longJump 65536
  obtain ⟨assembly, h⟩ := Grammar.exists_describes_of_follows hfollows
  have hassembly := Grammar.assemble_eq_ok_iff_describes.mpr ⟨hfollows, h⟩
  obtain ⟨instruction, hmem, hoperands⟩ := Source.exists_jump_of_describes_longJump h
  have haddress : assembly.symbols.address? "far" = some 65536 := by
    rw [SymbolTable.address?, SymbolTable.find?, h.symbols,
      Source.symbolsFrom_longJump]
    decide +kernel
  refine ⟨assembly, hassembly, instruction, hmem, hoperands, haddress, ?_⟩
  rw [((assemble_eq_ok_iff_assembledFrom.mp hassembly).shaped hmem).targetFits_iff]
  intro hbound
  exact absurd (hbound "far" 65536 (by simp [hoperands]) haddress) (by decide)

end Pom8
