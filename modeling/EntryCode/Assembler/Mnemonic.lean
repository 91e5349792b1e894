import EntryCode.Assembler.Program

/-!
Operations as they are written: a mnemonic and its operands. Names with a dot are written with an
underscore.
-/

namespace EntryCode.Op

inductive Written where
  | number (v : Dword)
  | text (s : String)
  deriving DecidableEq, Repr

/-- Takes operands from the left; there is no operation where one is missing or of another kind.
Operands that are left over are ignored. -/
abbrev Reading := StateT (List Written) Option

namespace Reading

def next : Reading Written := do
  match ← get with
  | w :: rest => set rest; return w
  | [] => failure

def number : Reading Dword := do
  match ← next with
  | .number v => return v
  | .text s => liftM (Text.dword? s)

def text : Reading String := do
  match ← next with
  | .text s => return s
  | .number _ => failure

def register : Reading Register := do return ⟨(← number).setWidth 8⟩
def float : Reading FloatRegister := do return ⟨(← number).setWidth 8⟩
def label : Reading Label := do return ⟨((← number).setWidth 32).toInt⟩
def condition : Reading Condition := do return ⟨(← number).setWidth 32⟩
def fenceSet : Reading FenceSet := do return ⟨(← number).setWidth 32⟩

/-- The kind of an offset, `r` or `c`, and what it is. -/
def offset : Reading Offset := do
  match ← text with
  | "r" => return .register (← register)
  | "c" => return .constant (← number)
  | _ => failure

end Reading

section Tables

def named {α : Type} (name : α → String) (all : List α) : List (String × α) :=
  all.map fun a => (name a, a)

def immediates : List (String × ImmediateOp) :=
  named ImmediateOp.name [.addi, .addiw, .andi, .ori, .xori, .sltiu, .jalr]

def shifts : List (String × ShiftOp) := named ShiftOp.name [.slli, .srli, .srai]

def uppers : List (String × UpperOp) := named UpperOp.name [.lui, .auipc]

def arithmetics : List (String × RegisterOp) :=
  named RegisterOp.name [.add, .sub, .sltu, .xor, .or, .and, .sh3add]

def extenders : List (String × ExtendOp) :=
  [("sext_b", .sextB), ("sext_h", .sextH), ("zext_h", .zextH)]

def loads : List (String × LoadOp) :=
  named LoadOp.name [.lb, .lh, .lw, .ld, .lbu, .lhu, .lwu]

def stores : List (String × StoreOp) := named StoreOp.name [.sb, .sh, .sw, .sd]

def wideLoads : List (String × LoadOp) :=
  [("load_b", .lb), ("load_h", .lh), ("load_w", .lw), ("load_d", .ld), ("load_bu", .lbu),
   ("load_hu", .lhu), ("load_wu", .lwu)]

def wideStores : List (String × StoreOp) :=
  [("store_b", .sb), ("store_h", .sh), ("store_w", .sw), ("store_d", .sd)]

def branches : List (String × Condition) :=
  Condition.known.map fun (c, name) => ("b" ++ name, c)

def moves : List (String × (Register → Register → Instruction)) :=
  [("mv", Pseudo.mv), ("not", Pseudo.not), ("neg", Pseudo.neg), ("snez", Pseudo.snez),
   ("seqz", Pseudo.seqz), ("sext_w", Pseudo.sextW)]

end Tables

open Reading

def instructionOf (name : String) : Reading Instruction := do
  if let some op := immediates.lookup name then
    return .immediate op (← register) (← register) (← number)
  else if let some op := shifts.lookup name then
    return .shift op (← register) (← register) (← number)
  else if let some op := uppers.lookup name then return .upper op (← register) (← number)
  else if let some op := arithmetics.lookup name then
    return .arithmetic op (← register) (← register) (← register)
  else if let some op := extenders.lookup name then return .extend op (← register) (← register)
  else if let some op := loads.lookup name then
    return .load op (← register) (← register) (← number)
  else if let some op := stores.lookup name then
    return .store op (← register) (← register) (← number)
  else if let some f := moves.lookup name then return f (← register) (← register)
  else match name with
    | "flw" => return .loadFloat .single (← float) (← register) (← number)
    | "fld" => return .loadFloat .double (← float) (← register) (← number)
    | "fsw" => return .storeFloat .single (← float) (← register) (← number)
    | "fsd" => return .storeFloat .double (← float) (← register) (← number)
    | "fence" => return .fence (← fenceSet) (← fenceSet)
    | "fsqrt_d" => return .sqrt (← float) (← float)
    | "fabs_d" => return Pseudo.fabs (← float) (← float)
    | "fsgnjx_d" => return .signXor (← float) (← float) (← float)
    | "fmv_x_d" => return .moveBits (← register) (← float)
    | "jr" => return Pseudo.jr (← register)
    | "nop" => return Pseudo.nop
    | "ret" => return Pseudo.ret
    | "ebreak" => return .ebreak
    | _ => failure

def composite (name : String) : Reading Op := do
  if let some c := branches.lookup name then
    return .branch c (← register) (← register) (← label)
  else if let some op := wideLoads.lookup name then
    return .load op (← register) (← register) (← offset) (← register)
  else if let some op := wideStores.lookup name then
    return .store op (← register) (← register) (← offset) (← register)
  else match name with
    | "call_address" => return .callAddress (← number) (← register)
    | "jump_address" => return .jumpAddress (← number) (← register)
    | "add_constant" => return .addConstant (← register) (← register) (← number) (← register)
    | "li" | "li_address" => return .constant (← register) (← number)
    | "branch" => return .branch (← condition) (← register) (← register) (← label)
    | "branch_to" => return .branchTo (← condition) (← register) (← register) (← number)
    | "beqz" => return .branch .eq (← register) .zero (← label)
    | "bnez" => return .branch .ne (← register) .zero (← label)
    | "jal" => return .jump (← register) (← label)
    | "j" => return .jump .zero (← label)
    | "call" => return .jump .ra (← label)
    | "jal_to" => return .jumpTo (← register) (← number)
    | "bind" => return .bind (← label)
    | "comment" => return .comment (← text)
    | _ => failure

def ofWritten? (name : String) (operands : List Written) : Option Op :=
  let read : Reading Op := (Op.instruction <$> instructionOf name) <|> composite name
  read.run' operands

end EntryCode.Op
