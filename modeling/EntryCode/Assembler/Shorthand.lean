import EntryCode.Assembler.Program

/-!
Operations by the names of their instructions, for programs written as lists.
-/

namespace EntryCode.Op

section Arithmetic

def addi (rd rs : Register) (imm : Dword) : Op := .instruction (.immediate .addi rd rs imm)
def andi (rd rs : Register) (imm : Dword) : Op := .instruction (.immediate .andi rd rs imm)
def slli (rd rs : Register) (n : Dword) : Op := .instruction (.shift .slli rd rs n)
def srli (rd rs : Register) (n : Dword) : Op := .instruction (.shift .srli rd rs n)
def srai (rd rs : Register) (n : Dword) : Op := .instruction (.shift .srai rd rs n)
def add (rd rs1 rs2 : Register) : Op := .instruction (.arithmetic .add rd rs1 rs2)
def sub (rd rs1 rs2 : Register) : Op := .instruction (.arithmetic .sub rd rs1 rs2)
def or (rd rs1 rs2 : Register) : Op := .instruction (.arithmetic .or rd rs1 rs2)
def mv (rd rs : Register) : Op := .instruction (Pseudo.mv rd rs)
def snez (rd rs : Register) : Op := .instruction (Pseudo.snez rd rs)
def sextW (rd rs : Register) : Op := .instruction (Pseudo.sextW rd rs)

/-- `rd = pc`. -/
def here (rd : Register) : Op := .instruction (.upper .auipc rd 0)

end Arithmetic

section Memory

def lbu (rd base : Register) (off : Dword) : Op := .instruction (.load .lbu rd base off)
def lhu (rd base : Register) (off : Dword) : Op := .instruction (.load .lhu rd base off)
def lwu (rd base : Register) (off : Dword) : Op := .instruction (.load .lwu rd base off)
def ld (rd base : Register) (off : Dword) : Op := .instruction (.load .ld rd base off)
def sw (src base : Register) (off : Dword) : Op := .instruction (.store .sw src base off)
def sd (src base : Register) (off : Dword) : Op := .instruction (.store .sd src base off)

def flw (fd : FloatRegister) (base : Register) (off : Dword) : Op :=
  .instruction (.loadFloat .single fd base off)

def fld (fd : FloatRegister) (base : Register) (off : Dword) : Op :=
  .instruction (.loadFloat .double fd base off)

def fsd (fs : FloatRegister) (base : Register) (off : Dword) : Op :=
  .instruction (.storeFloat .double fs base off)

def fence (pred succ : FenceSet) : Op := .instruction (.fence pred succ)

end Memory

section Control

def beqz (rs : Register) (l : Label) : Op := .branch .eq rs .zero l
def bnez (rs : Register) (l : Label) : Op := .branch .ne rs .zero l
def bltu (rs1 rs2 : Register) (l : Label) : Op := .branch .ltu rs1 rs2 l
def bgeu (rs1 rs2 : Register) (l : Label) : Op := .branch .geu rs1 rs2 l
def j (l : Label) : Op := .jump .zero l
def jr (rs : Register) : Op := .instruction (Pseudo.jr rs)
def ret : Op := .instruction Pseudo.ret
def ebreak : Op := .instruction .ebreak

def callRegister (rs : Register) : Op := .instruction (.immediate .jalr .ra rs 0)

end Control

end EntryCode.Op
