import ByteAsm.CommandLine.Run
import ByteAsm.Proofs.Completeness
import ByteAsm.Proofs.Identifiers
import ByteAsm.Proofs.Outcome
import ByteAsm.Proofs.Tiling

namespace ByteAsm

open Expression (Predeclares result)
open Expression.Token (IsName)

-- A line of data that is the value of a name.
def Source.evaluating (name : Text) : Text :=
  Text.ofString "DB $(" ++ name ++ [')'.toUInt8]

namespace CommandLine

variable {name value : Text} {after : Defines} {options : Options}

theorem evaluator_foldl_predefine (defines : Defines) (asm : Assembler) :
    (defines.foldl (fun asm (name, value) => asm.predefine name value) asm).evaluator =
      asm.evaluator := by
  induction defines generalizing asm
  case nil => rfl
  case cons entry defines hi => exact hi _

theorem find?_foldl_predefine (h : ∀ entry ∈ after, entry.1 ≠ name) (asm : Assembler) :
    (after.foldl (fun asm (name, value) => asm.predefine name value) asm).predefines.find? name =
      asm.predefines.find? name := by
  induction after generalizing asm
  case nil => rfl
  case cons entry after hi =>
    obtain ⟨hne, h⟩ := List.forall_mem_cons.mp h
    rw [List.foldl_cons, hi h]
    simp only [Assembler.predefine, Table.find?_insert, if_neg hne.symm]

end CommandLine

variable {name : Text}

namespace Expansion

variable {value? : Text → Option Int}

end Expansion

-- A line of data with one byte.
def Line.data (v : Nat) : Line :=
  ⟨none, some ⟨Text.ofString "DB", [Numeral.natural v]⟩⟩

namespace Draft

variable {asm : Assembler} {d : Draft} {raws : List Text} {lines : List Line} {n v : Nat}

end Draft

end ByteAsm
