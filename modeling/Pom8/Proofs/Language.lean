import Pom8.Proofs.Assembling

/-!
# The assembly language

The grammar is told in terms of the items of a line: what items write an
operand, which operands a mnemonic allows, and which labels a source may
define.  A source is assembled exactly when it follows the grammar, and its
program says what the grammar says its lines of code mean.
-/

namespace Pom8.Grammar

/-- The mnemonics that stand alone. -/
def nullary : List Mnemonic :=
  [.nop, .hlt, .ret, .setc, .clrc, .setv, .clrv]

/-- The mnemonics of immediate format that take a register only. -/
def stack : List Mnemonic :=
  [.push, .pop]

/-- The mnemonics of register format that take two registers. -/
def twoRegister : List Mnemonic :=
  [.lsl, .lsr, .mov, .ijmp]

/-- The layouts that mnemonics allow. -/
inductive Allows : Mnemonic → Layout → Prop
  | nullary {mnemonic : Mnemonic} :
      mnemonic ∈ nullary → Allows mnemonic []
  | branch {mnemonic : Mnemonic} :
      mnemonic.format = .branch → mnemonic ∉ nullary →
        Allows mnemonic [.target]
  | stack {mnemonic : Mnemonic} :
      mnemonic ∈ stack → Allows mnemonic [.register]
  | immediate {mnemonic : Mnemonic} :
      mnemonic.format = .immediate → mnemonic ∉ stack →
        Allows mnemonic [.register, .numeric]
  | longImmediate {mnemonic : Mnemonic} :
      mnemonic.format = .immediate → mnemonic ∉ stack →
        Allows mnemonic [.register, .register, .numeric]
  | twoRegisters {mnemonic : Mnemonic} :
      mnemonic ∈ twoRegister → Allows mnemonic [.register, .register]
  | threeRegisters {mnemonic : Mnemonic} :
      mnemonic.format = .register → mnemonic ∉ nullary →
        mnemonic ∉ twoRegister →
          Allows mnemonic [.register, .register, .register]

/-- A nonempty list of digits. -/
def IsNumeral (isDigit : Char → Bool) (digits : List Char) : Prop :=
  digits ≠ [] ∧ ∀ c ∈ digits, isDigit c = true

/-- The items that write an operand in a slot, where a source has some labels. -/
inductive WritesOperand (labels : List String) :
    Slot → List Char → Operand → Prop
  | register {c : Char} {digits : List Char} :
      c = 'r' ∨ c = 'R' → IsNumeral Char.isDigit digits →
        Numeral.value 10 digits ≤ 15 →
          WritesOperand labels .register (c :: digits)
            (.register (Numeral.value 10 digits))
  | decimal {digits : List Char} :
      IsNumeral Char.isDigit digits → Numeral.value 10 digits ≤ 255 →
        WritesOperand labels .numeric digits
          (.immediate (Numeral.value 10 digits) .decimal)
  | negative {digits : List Char} :
      IsNumeral Char.isDigit digits → Numeral.value 10 digits ≤ 128 →
        WritesOperand labels .numeric ('-' :: digits)
          (.immediate (-Numeral.value 10 digits) .decimal)
  | binary {c : Char} {digits : List Char} :
      c = 'b' ∨ c = 'B' → IsNumeral Numeral.isBinaryDigit digits →
        Numeral.value 2 digits ≤ 255 →
          WritesOperand labels .numeric ('0' :: c :: digits)
            (.immediate (Numeral.value 2 digits) .binary)
  | hexadecimal {slot : Slot} {c : Char} {digits : List Char} :
      slot = .numeric ∨ slot = .target → c = 'x' ∨ c = 'X' →
        IsNumeral Numeral.isHexDigit digits →
          Numeral.value 16 digits ≤ 0x3FF →
            WritesOperand labels slot ('0' :: c :: digits)
              (.immediate (Numeral.value 16 digits) .hexadecimal)
  | label {item : List Char} {name : String} :
      Token.isName item = true → Token.isRegister item = false →
        name ∈ labels → Text.lower name = Text.lower (String.ofList item) →
          WritesOperand labels .target item (.label (String.ofList item))

/-- Items that write operands in the slots of a layout, in order. -/
inductive WritesOperands (labels : List String) :
    Layout → List (List Char) → List Operand → Prop
  | nil : WritesOperands labels [] [] []
  | cons {slot : Slot} {layout : Layout} {item : List Char}
      {rest : List (List Char)} {operand : Operand} {operands : List Operand} :
      WritesOperand labels slot item operand →
        WritesOperands labels layout rest operands →
          WritesOperands labels (slot :: layout) (item :: rest)
            (operand :: operands)

/-- Items that write a mnemonic, in any case, and the operands of one of its
layouts. -/
inductive WritesStatement (labels : List String) :
    List (List Char) → Mnemonic → List Operand → Prop
  | statement {head : List Char} {rest : List (List Char)}
      {mnemonic : Mnemonic} {layout : Layout} {operands : List Operand} :
      Token.Kind.ofText? (String.ofList head) = some .mnemonic →
        Text.upper (String.ofList head) = mnemonic.name →
          Allows mnemonic layout → WritesOperands labels layout rest operands →
            WritesStatement labels (head :: rest) mnemonic operands

/-- Numbered lines that write an instruction. -/
structure WritesInstruction (labels : List String) (line : List Char × Nat)
    (instruction : Instruction) : Prop where
  number : instruction.line = line.2
  format : instruction.format = instruction.mnemonic.format
  statement : WritesStatement labels (Source.codeItems line.1)
    instruction.mnemonic instruction.operands

/-- The sources that follow the grammar. -/
structure Follows (source : String) : Prop where
  /-- Every item has a kind. -/
  classified : ∀ line ∈ Source.lines source, ∀ item ∈ Source.items line,
    Source.Classified item
  /-- No two labels are equal up to case. -/
  distinct : ((Source.labelNames source).map Text.lower).Nodup
  /-- The items of a line other than labels write a statement. -/
  statements : ∀ line ∈ Source.lines source, Source.codeItems line ≠ [] →
    ∃ mnemonic operands, WritesStatement (Source.labelNames source)
      (Source.codeItems line) mnemonic operands

/-! ## The tables of the instruction set -/

theorem mem_nullary_iff {mnemonic : Mnemonic} :
    mnemonic ∈ nullary ↔ mnemonic.isNullary = true := by
  cases mnemonic <;> decide

theorem mem_stack_iff {mnemonic : Mnemonic} :
    mnemonic ∈ stack ↔
      mnemonic.format = .immediate ∧ mnemonic.isStack = true := by
  cases mnemonic <;> decide

theorem mem_twoRegister_iff {mnemonic : Mnemonic} :
    mnemonic ∈ twoRegister ↔ mnemonic.format = .register ∧
      mnemonic.isNullary = false ∧ mnemonic.isTwoRegister = true := by
  cases mnemonic <;> decide

theorem isNullary_of_format_eq_immediate
    {mnemonic : Mnemonic} (h : mnemonic.format = .immediate) :
    mnemonic.isNullary = false := by
  revert h
  cases mnemonic <;> decide

/-- The grammar allows the layouts of the instruction set. -/
theorem allows_iff {mnemonic : Mnemonic} {layout : Layout} :
    Allows mnemonic layout ↔ layout ∈ mnemonic.layouts := by
  constructor
  · intro h
    cases h with
    | nullary hmem => simp [Mnemonic.layouts, mem_nullary_iff.mp hmem]
    | branch hformat hnullary =>
        simp [Mnemonic.layouts, hformat, mt mem_nullary_iff.mpr hnullary]
    | stack hmem =>
        obtain ⟨hformat, hstack⟩ := mem_stack_iff.mp hmem
        simp [Mnemonic.layouts, isNullary_of_format_eq_immediate hformat,
          hformat, hstack]
    | immediate hformat hstack | longImmediate hformat hstack =>
        rw [mem_stack_iff, not_and] at hstack
        simp [Mnemonic.layouts, isNullary_of_format_eq_immediate hformat,
          hformat, hstack hformat]
    | twoRegisters hmem =>
        obtain ⟨hformat, hnullary, htwo⟩ := mem_twoRegister_iff.mp hmem
        simp [Mnemonic.layouts, hformat, hnullary, htwo]
    | threeRegisters hformat hnullary htwo =>
        rw [mem_nullary_iff, Bool.not_eq_true] at hnullary
        rw [mem_twoRegister_iff, not_and, not_and] at htwo
        simp [Mnemonic.layouts, hformat, hnullary, htwo hformat hnullary]
  · intro h
    unfold Mnemonic.layouts at h
    split at h
    next hnullary =>
      obtain rfl := List.mem_singleton.mp h
      exact .nullary (mem_nullary_iff.mpr hnullary)
    next hnullary =>
      have hmem : mnemonic ∉ nullary := mt mem_nullary_iff.mp hnullary
      rw [Bool.not_eq_true] at hnullary
      split at h
      next hformat =>
        obtain rfl := List.mem_singleton.mp h
        exact .branch hformat hmem
      next hformat =>
        split at h
        next hstack =>
          obtain rfl := List.mem_singleton.mp h
          exact .stack (mem_stack_iff.mpr ⟨hformat, hstack⟩)
        next hstack =>
          have hmem' : mnemonic ∉ stack := fun h => hstack (mem_stack_iff.mp h).2
          simp only [List.mem_cons, List.not_mem_nil, or_false] at h
          rcases h with rfl | rfl
          · exact .immediate hformat hmem'
          · exact .longImmediate hformat hmem'
      next hformat =>
        split at h
        next htwo =>
          obtain rfl := List.mem_singleton.mp h
          exact .twoRegisters (mem_twoRegister_iff.mpr ⟨hformat, hnullary, htwo⟩)
        next htwo =>
          obtain rfl := List.mem_singleton.mp h
          exact .threeRegisters hformat hmem
            fun h => htwo (mem_twoRegister_iff.mp h).2.2

theorem ofText?_eq_some_iff {text : String} {mnemonic : Mnemonic} :
    Mnemonic.ofText? text = some mnemonic ↔ Text.upper text = mnemonic.name := by
  constructor
  · intro h
    have hname := List.find?_some h
    exact (beq_iff_eq.mp hname).symm
  · intro h
    rw [Mnemonic.ofText?, h]
    cases mnemonic <;> decide

theorem accepts_iff {slot : Slot} {kind : Token.Kind} :
    slot.accepts kind = true ↔
      (slot = .register ∧ kind = .register) ∨
        (slot = .numeric ∧
          (kind = .decimal ∨ kind = .hexadecimal ∨ kind = .binary)) ∨
        (slot = .target ∧ (kind = .hexadecimal ∨ kind = .mnemonic)) := by
  cases slot <;> cases kind <;> decide

/-! ## Items and tokens -/

theorem isNumeral_iff {isDigit : Char → Bool} {digits : List Char} :
    IsNumeral isDigit digits ↔ Token.isRunOf isDigit digits = true :=
  Token.isRunOf_iff.symm

theorem contains_iff
    {labels : List String} {symbols : SymbolTable}
    (hsymbols : symbols.entries.map Symbol.name = labels.map Text.lower)
    {name : String} :
    symbols.contains name = true ↔
      ∃ label ∈ labels, Text.lower label = Text.lower name := by
  rw [← List.mem_map, ← hsymbols, SymbolTable.contains, Option.isSome_iff_ne_none,
    Ne, SymbolTable.find?_eq_none_iff, not_not]

section Items

variable {token : Token} {item : List Char} {number : Nat}

theorem kind_eq_iff
    (htoken : token.toLexeme = ⟨String.ofList item, number⟩)
    {kind : Token.Kind} :
    token.kind = kind ↔
      kind.admits item = true ∧
        (kind = .mnemonic → Token.isRegister item = false) := by
  rw [← Option.some_inj, ← Token.ofText?_of_toLexeme_eq htoken,
    Token.Kind.ofText?_eq_some_iff, String.toList_ofList]

theorem kind_eq_of_admits
    (htoken : token.toLexeme = ⟨String.ofList item, number⟩)
    {kind : Token.Kind} (hne : kind ≠ .mnemonic)
    (hadmits : kind.admits item = true) : token.kind = kind :=
  (kind_eq_iff htoken).mpr ⟨hadmits, fun h => absurd h hne⟩

theorem ofToken?_of_isDigit
    (htoken : token.toLexeme = ⟨String.ofList item, number⟩)
    (hkind : token.kind = .decimal) (hitem : ∀ c ∈ item, c.isDigit = true) :
    Operand.ofToken? token =
      some (.immediate (Numeral.value 10 item) .decimal) := by
  simp only [Operand.ofToken?, hkind, htoken, String.toList_ofList]
  split
  · exact absurd (hitem '-' (by simp)) (by decide)
  · rfl

theorem isValid_immediate_iff
    {symbols : SymbolTable} {value : Int} {radix : Radix} :
    (Operand.immediate value radix).isValid symbols = true ↔
      radix.least ≤ value ∧ value ≤ radix.greatest := by
  simp [Operand.isValid]

variable {labels : List String} {symbols : SymbolTable}
  {slot : Slot} {operand : Operand}

/-- The token of an item that writes an operand is taken. -/
theorem taken_of_writesOperand
    (hsymbols : symbols.entries.map Symbol.name = labels.map Text.lower)
    (htoken : token.toLexeme = ⟨String.ofList item, number⟩)
    (h : WritesOperand labels slot item operand) :
    slot.accepts token.kind = true ∧ Operand.ofToken? token = some operand ∧
      operand.isValid symbols = true := by
  have hcharacters : token.text.toList = item := by
    rw [htoken, String.toList_ofList]
  cases h with
  | @register c digits hc hdigits hle =>
      have hkind : token.kind = .register :=
        kind_eq_of_admits htoken (by decide)
          (Token.isRegister_iff.mpr ⟨c, digits, rfl, hc, isNumeral_iff.mp hdigits⟩)
      simp [Slot.accepts, Operand.ofToken?, hkind, hcharacters,
        Operand.isValid, hle]
  | decimal hdigits hle =>
      have hkind : token.kind = .decimal :=
        kind_eq_of_admits htoken (by decide)
          (Token.isDecimal_iff.mpr (Or.inl (isNumeral_iff.mp hdigits)))
      refine ⟨by rw [hkind]; rfl,
        ofToken?_of_isDigit htoken hkind hdigits.2, ?_⟩
      rw [isValid_immediate_iff, Radix.least, Radix.greatest]
      omega
  | @negative digits hdigits hle =>
      have hkind : token.kind = .decimal :=
        kind_eq_of_admits htoken (by decide)
          (Token.isDecimal_iff.mpr
            (Or.inr ⟨digits, rfl, isNumeral_iff.mp hdigits⟩))
      refine ⟨by rw [hkind]; rfl,
        by simp [Operand.ofToken?, hkind, hcharacters], ?_⟩
      rw [isValid_immediate_iff, Radix.least, Radix.greatest]
      omega
  | @binary c digits hc hdigits hle =>
      have hkind : token.kind = .binary :=
        kind_eq_of_admits htoken (by decide)
          (Token.isBinary_iff.mpr ⟨c, digits, rfl, hc, isNumeral_iff.mp hdigits⟩)
      refine ⟨by rw [hkind]; rfl,
        by simp [Operand.ofToken?, hkind, hcharacters], ?_⟩
      rw [isValid_immediate_iff, Radix.least, Radix.greatest]
      omega
  | @hexadecimal slot c digits hslot hc hdigits hle =>
      have hkind : token.kind = .hexadecimal :=
        kind_eq_of_admits htoken (by decide)
          (Token.isHexadecimal_iff.mpr
            ⟨c, digits, rfl, hc, isNumeral_iff.mp hdigits⟩)
      refine ⟨?_, by simp [Operand.ofToken?, hkind, hcharacters], ?_⟩
      · rw [hkind]
        rcases hslot with rfl | rfl <;> rfl
      · rw [isValid_immediate_iff, Radix.least, Radix.greatest]
        omega
  | @label item name hname hregister hlabel hlower =>
      have hkind : token.kind = .mnemonic :=
        (kind_eq_iff htoken).mpr ⟨hname, fun _ => hregister⟩
      refine ⟨by rw [hkind]; rfl,
        by simp [Operand.ofToken?, hkind, htoken], ?_⟩
      exact (contains_iff hsymbols).mpr ⟨name, hlabel, hlower⟩

/-- An item whose token is taken writes its operand. -/
theorem writesOperand_of_taken
    (hsymbols : symbols.entries.map Symbol.name = labels.map Text.lower)
    (htoken : token.toLexeme = ⟨String.ofList item, number⟩)
    (haccepts : slot.accepts token.kind = true)
    (hoperand : Operand.ofToken? token = some operand)
    (hvalid : operand.isValid symbols = true) :
    WritesOperand labels slot item operand := by
  have hcharacters : token.text.toList = item := by
    rw [htoken, String.toList_ofList]
  cases hkind : token.kind with
  | register =>
      obtain ⟨c, digits, rfl, hc, hdigits⟩ :=
        Token.isRegister_iff.mp ((kind_eq_iff htoken).mp hkind).1
      obtain rfl : slot = .register := by
        simpa [hkind, accepts_iff] using haccepts
      obtain rfl : .register (Numeral.value 10 digits) = operand := by
        simpa [Operand.ofToken?, hkind, hcharacters] using hoperand
      exact .register hc (isNumeral_iff.mpr hdigits)
        (by simpa [Operand.isValid] using hvalid)
  | decimal =>
      obtain rfl : slot = .numeric := by
        simpa [hkind, accepts_iff] using haccepts
      rcases Token.isDecimal_iff.mp ((kind_eq_iff htoken).mp hkind).1 with
        hdigits | ⟨digits, rfl, hdigits⟩
      · rw [ofToken?_of_isDigit htoken hkind (isNumeral_iff.mpr hdigits).2,
          Option.some_inj] at hoperand
        subst hoperand
        rw [isValid_immediate_iff, Radix.greatest] at hvalid
        exact .decimal (isNumeral_iff.mpr hdigits) (by omega)
      · obtain rfl : .immediate (-Numeral.value 10 digits) .decimal = operand := by
          simpa [Operand.ofToken?, hkind, hcharacters] using hoperand
        rw [isValid_immediate_iff, Radix.least] at hvalid
        exact .negative (isNumeral_iff.mpr hdigits) (by omega)
  | hexadecimal =>
      obtain ⟨c, digits, rfl, hc, hdigits⟩ :=
        Token.isHexadecimal_iff.mp ((kind_eq_iff htoken).mp hkind).1
      have hslot : slot = .numeric ∨ slot = .target := by
        simpa [hkind, accepts_iff] using haccepts
      obtain rfl : .immediate (Numeral.value 16 digits) .hexadecimal = operand := by
        simpa [Operand.ofToken?, hkind, hcharacters] using hoperand
      rw [isValid_immediate_iff, Radix.greatest] at hvalid
      exact .hexadecimal hslot hc (isNumeral_iff.mpr hdigits) (by omega)
  | binary =>
      obtain ⟨c, digits, rfl, hc, hdigits⟩ :=
        Token.isBinary_iff.mp ((kind_eq_iff htoken).mp hkind).1
      obtain rfl : slot = .numeric := by
        simpa [hkind, accepts_iff] using haccepts
      obtain rfl : .immediate (Numeral.value 2 digits) .binary = operand := by
        simpa [Operand.ofToken?, hkind, hcharacters] using hoperand
      rw [isValid_immediate_iff, Radix.greatest] at hvalid
      exact .binary hc (isNumeral_iff.mpr hdigits) (by omega)
  | mnemonic =>
      obtain ⟨hname, hregister⟩ := (kind_eq_iff htoken).mp hkind
      obtain rfl : slot = .target := by
        simpa [hkind, accepts_iff] using haccepts
      obtain rfl : .label (String.ofList item) = operand := by
        simpa [Operand.ofToken?, hkind, htoken] using hoperand
      obtain ⟨label, hlabel, hlower⟩ := (contains_iff hsymbols).mp hvalid
      exact .label hname (hregister rfl) hlabel hlower
  | label | comment | newline =>
      simp [Operand.ofToken?, hkind] at hoperand

end Items

/-! ## Lines of items and lines of tokens -/

/-- Tokens read from items of a line. -/
def ReadFrom (number : Nat) (found : List (List Char)) (tokens : List Token) :
    Prop :=
  List.Forall₂ (fun item token => token.toLexeme = ⟨String.ofList item, number⟩)
    found tokens

theorem readFrom_of_classified
    (number : Nat) {found : List (List Char)}
    (hclassified : ∀ item ∈ found, Source.Classified item) :
    ReadFrom number found
      (found.filterMap fun item =>
        Token.ofLexeme? ⟨String.ofList item, number⟩) := by
  induction found with
  | nil => exact .nil
  | cons item rest ih =>
      rw [List.forall_mem_cons] at hclassified
      obtain ⟨kind, hkind⟩ := hclassified.1
      obtain ⟨token, htoken, -⟩ := Token.exists_ofLexeme?_eq_some hkind number
      simp only [List.filterMap_cons, htoken]
      exact .cons (Token.ofLexeme?_eq_some_iff.mp htoken) (ih hclassified.2)

theorem readFrom_keptTokens
    (number : Nat) {line : List Char}
    (hclassified : ∀ item ∈ Source.items line, Source.Classified item) :
    ReadFrom number (Source.codeItems line)
      (Source.keptTokens number (Source.items line)) :=
  readFrom_of_classified number fun item hitem =>
    hclassified item (List.mem_filter.mp hitem).1

section Lines

variable {labels : List String} {symbols : SymbolTable} {number : Nat}
  {found : List (List Char)} {tokens : List Token}

theorem writesOperands_iff
    (hsymbols : symbols.entries.map Symbol.name = labels.map Text.lower)
    (hread : ReadFrom number found tokens)
    {layout : Layout} {operands : List Operand} :
    WritesOperands labels layout found operands ↔
      layout.FilledBy tokens ∧ Operand.WrittenBy symbols operands tokens := by
  induction hread generalizing layout operands with
  | nil =>
      constructor
      · rintro ⟨⟩
        exact ⟨.nil, .nil⟩
      · rintro ⟨⟨⟩, ⟨⟩⟩
        exact .nil
  | cons htoken _ ih =>
      constructor
      · rintro (_ | ⟨hitem, hrest⟩)
        obtain ⟨haccepts, hoperand⟩ := taken_of_writesOperand hsymbols htoken hitem
        obtain ⟨hfilled, hwritten⟩ := ih.mp hrest
        exact ⟨.cons haccepts hfilled, .cons hoperand hwritten⟩
      · rintro ⟨_ | ⟨haccepts, hfilled⟩, _ | ⟨hoperand, hwritten⟩⟩
        exact .cons
          (writesOperand_of_taken hsymbols htoken haccepts hoperand.1 hoperand.2)
          (ih.mpr ⟨hfilled, hwritten⟩)

/-- The items of a line write the statement of the instruction that their
tokens write. -/
theorem written_iff
    (hsymbols : symbols.entries.map Symbol.name = labels.map Text.lower)
    (hread : ReadFrom number found tokens) {instruction : Instruction} :
    Instruction.Written symbols tokens instruction ↔
      instruction.line = number ∧
        instruction.format = instruction.mnemonic.format ∧
          WritesStatement labels found instruction.mnemonic
            instruction.operands := by
  constructor
  · intro h
    cases h with
    | @statement head tokens _ _ _ hkind hname hlayout hfilled hoperands =>
        obtain ⟨item, rest, hhead, hrest, rfl⟩ :=
          List.forall₂_cons_right_iff.mp hread
        have hitem := Token.ofText?_of_toLexeme_eq hhead
        rw [hkind] at hitem
        rw [hhead] at hname ⊢
        exact ⟨rfl, rfl, .statement hitem (ofText?_eq_some_iff.mp hname)
          (allows_iff.mpr hlayout)
          ((writesOperands_iff hsymbols hrest).mpr ⟨hfilled, hoperands⟩)⟩
  · rintro ⟨hline, hformat, hstatement⟩
    obtain ⟨mnemonic, operands, format, line⟩ := instruction
    dsimp only at hline hformat hstatement
    subst hline hformat
    cases hstatement with
    | statement hitem hname hlayout hoperands =>
        obtain ⟨head, tokens, hhead, hrest, rfl⟩ :=
          List.forall₂_cons_left_iff.mp hread
        have hkind := Token.ofText?_of_toLexeme_eq hhead
        rw [hitem, Option.some_inj] at hkind
        obtain ⟨hfilled, hwritten⟩ := (writesOperands_iff hsymbols hrest).mp hoperands
        have hwritten := Instruction.Written.statement hkind.symm
          (by rw [hhead]; exact ofText?_eq_some_iff.mpr hname)
          (allows_iff.mp hlayout) hfilled hwritten
        rwa [hhead] at hwritten

end Lines

/-! ## The whole language -/

/-- What a source that follows the grammar stands for: an instruction for each
line of code, a symbol for each label, and a word for each instruction. -/
structure Describes (source : String) (assembly : Assembly) : Prop where
  program : List.Forall₂ (WritesInstruction (Source.labelNames source))
    (Source.codeLines source) assembly.program
  symbols : assembly.symbols.entries =
    Source.symbolsFrom 0 (Source.numberedLines source)
  words : assembly.words =
    assembly.program.map fun instruction => instruction.encode assembly.symbols

theorem mem_lines_of_mem_codeLines
    {source : String} {line : List Char × Nat}
    (h : line ∈ Source.codeLines source) :
    line.1 ∈ Source.lines source ∧ Source.codeItems line.1 ≠ [] := by
  obtain ⟨hline, hcode⟩ := List.mem_filter.mp h
  exact ⟨Source.exists_mem_numberedLines_iff.mp ⟨line.2, hline⟩,
    Source.isCode_iff.mp hcode⟩

theorem mem_codeLines_of_mem_lines
    {source : String} {line : List Char}
    (hline : line ∈ Source.lines source) (hcode : Source.codeItems line ≠ []) :
    ∃ number, (line, number) ∈ Source.codeLines source := by
  obtain ⟨number, hnumber⟩ := Source.exists_mem_numberedLines_iff.mpr hline
  exact ⟨number, List.mem_filter.mpr ⟨hnumber, Source.isCode_iff.mpr hcode⟩⟩

theorem written_keptTokens_iff
    {labels : List String} {symbols : SymbolTable}
    (hsymbols : symbols.entries.map Symbol.name = labels.map Text.lower)
    {line : List Char × Nat}
    (hclassified : ∀ item ∈ Source.items line.1, Source.Classified item)
    (instruction : Instruction) :
    Instruction.Written symbols
        (Source.keptTokens line.2 (Source.items line.1)) instruction ↔
      WritesInstruction labels line instruction := by
  rw [written_iff hsymbols (readFrom_keptTokens line.2 hclassified)]
  constructor
  · rintro ⟨hnumber, hformat, hstatement⟩
    exact ⟨hnumber, hformat, hstatement⟩
  · intro h
    exact ⟨h.number, h.format, h.statement⟩

/-- The grammar describes the assemblies of a source whose items have kinds. -/
theorem assembledFrom_iff {source : String} {assembly : Assembly} :
    AssembledFrom source assembly ↔
      (∀ line ∈ Source.lines source, ∀ item ∈ Source.items line,
          Source.Classified item) ∧
        Describes source assembly := by
  have hprogram
      (hclassified : ∀ line ∈ Source.lines source, ∀ item ∈ Source.items line,
        Source.Classified item)
      (hentries : assembly.symbols.entries =
        Source.symbolsFrom 0 (Source.numberedLines source)) :
      List.Forall₂ (fun line instruction => Instruction.Written assembly.symbols
            (Source.keptTokens line.2 (Source.items line.1)) instruction)
          (Source.codeLines source) assembly.program ↔
        List.Forall₂ (WritesInstruction (Source.labelNames source))
          (Source.codeLines source) assembly.program := by
    have hnames : assembly.symbols.entries.map Symbol.name =
        (Source.labelNames source).map Text.lower := by
      rw [hentries, Source.map_name_symbolsFrom_numberedLines]
    apply forall₂_iff_of_forall_mem
    intro line hline
    have hmem := (mem_lines_of_mem_codeLines hline).1
    exact written_keptTokens_iff hnames (hclassified line.1 hmem)
  constructor
  · intro h
    exact ⟨h.classified,
      { program := (hprogram h.classified h.symbols).mp h.program
        symbols := h.symbols
        words := h.words }⟩
  · rintro ⟨hclassified, h⟩
    exact
      { classified := hclassified
        symbols := h.symbols
        program := (hprogram hclassified h.symbols).mpr h.program
        words := h.words }

/-- A source is assembled only if it follows the grammar. -/
theorem follows_of_describes
    {source : String} {assembly : Assembly}
    (hclassified : ∀ line ∈ Source.lines source, ∀ item ∈ Source.items line,
      Source.Classified item)
    (h : Describes source assembly) : Follows source where
  classified := hclassified
  distinct := by
    rw [← Source.map_name_symbolsFrom_numberedLines 0, ← h.symbols]
    exact assembly.symbols.names_nodup
  statements := by
    intro line hline hcode
    obtain ⟨number, hnumber⟩ := mem_codeLines_of_mem_lines hline hcode
    obtain ⟨instruction, -, hwrites⟩ :=
      exists_mem_right_of_forall₂ h.program hnumber
    exact ⟨_, _, hwrites.statement⟩

/-- The grammar describes an assembly of every source that follows it. -/
theorem exists_describes_of_follows
    {source : String} (h : Follows source) :
    ∃ assembly, Describes source assembly := by
  obtain ⟨scan, hscan⟩ :=
    Scan.exists_ofSource_eq_running_iff.mpr ⟨h.classified, h.distinct⟩
  have hstatements : ∀ line ∈ Source.codeLines source, ∃ instruction,
      WritesInstruction (Source.labelNames source) line instruction := by
    intro line hline
    obtain ⟨hmem, hcode⟩ := mem_lines_of_mem_codeLines hline
    obtain ⟨mnemonic, operands, hstatement⟩ := h.statements line.1 hmem hcode
    exact ⟨⟨mnemonic, operands, mnemonic.format, line.2⟩, rfl, rfl, hstatement⟩
  obtain ⟨program, hprogram⟩ := exists_forall₂_of_forall_mem hstatements
  exact ⟨⟨program, scan.symbols, Word.ofProgram scan.symbols program⟩,
    { program := hprogram
      symbols := (Scan.linesRead_of_ofSource hscan).symbols
      words := rfl }⟩

/-- A source is assembled if it follows the grammar, to what the grammar
describes. -/
theorem assemble_eq_ok_iff_describes
    {source : String} {assembly : Assembly} :
    assemble source = .ok assembly ↔
      Follows source ∧ Describes source assembly := by
  rw [assemble_eq_ok_iff_assembledFrom, assembledFrom_iff]
  constructor
  · rintro ⟨hclassified, h⟩
    exact ⟨follows_of_describes hclassified h, h⟩
  · rintro ⟨hfollows, h⟩
    exact ⟨hfollows.classified, h⟩

/-- The language is the one that the grammar tells of: the items of a line are
its longest runs of item characters, the sources that are assembled are those
that follow the grammar, and their assemblies are the ones it describes. -/
theorem assembled_language_is_grammar (source : String) :
    (∀ line found,
        Source.items line = found ↔ Source.Itemised line found) ∧
      ((∃ assembly, assemble source = .ok assembly) ↔ Follows source) ∧
        ∀ assembly, assemble source = .ok assembly ↔
          Follows source ∧ Describes source assembly := by
  refine ⟨fun line found => Source.items_eq_iff, ?_,
    fun assembly => assemble_eq_ok_iff_describes⟩
  constructor
  · rintro ⟨assembly, h⟩
    exact (assemble_eq_ok_iff_describes.mp h).1
  · intro hfollows
    obtain ⟨assembly, h⟩ := exists_describes_of_follows hfollows
    exact ⟨assembly, assemble_eq_ok_iff_describes.mpr ⟨hfollows, h⟩⟩

end Pom8.Grammar
