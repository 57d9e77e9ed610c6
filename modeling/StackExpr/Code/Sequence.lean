import StackExpr.Code.Instr

/-! Code with everything needed to run it. -/
namespace StackExpr

structure Sequence where
  code : List Instr
  pool : Pool
  maxStack : Nat
  maxLocals : Nat
  locals : List Local
  resultType : Ty

namespace Sequence

/-- One line an instruction, pool entries written out. -/
def listing (s : Sequence) : List String := s.code.map (·.render s.pool)

/-- Instruction names without the labels. -/
def mnemonics (s : Sequence) : List String :=
  (s.code.filter (!·.isLabel)).map Instr.mnemonic

/-- Lines that end in a colon stand at the margin. -/
def indent (line : String) : String :=
  if line.toList.getLast? = some ':' then line ++ "\n" else "    " ++ line ++ "\n"

def text (s : Sequence) : String :=
  s!"; max_stack={s.maxStack} max_locals={s.maxLocals} result={s.resultType.text}\n" ++
    String.join (s.listing.map indent)

end Sequence
end StackExpr
