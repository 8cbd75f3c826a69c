import TelecomSuite.Export.HandleLine

/-!
# What a run of the month mode delivers

The content that flows from the lines of the source files through the script and the intermediate
file to the destinations. `concatenation` is what should arrive: the results of `HandleLine` on the
lines of the files that were handled, in order.

The result of `HandleLine` is copied into `szOutputLine`, which is as long as the buffer of the line
itself; but the result has the account number besides the fields of the line, and may be longer. A
run in which a result does not fit has no defined behaviour, and `onCDMABillInto` has no result.
`delivers_iff` says that this is all that can go wrong.
-/

namespace TelecomSuite.Export

open LuaPattern

/-! ## The run with its buffer -/

section
variable {cfg : Config}

end

/-! ## The lines of a file -/

section
variable (g_removeCallers : List Text) (store : String → Option Text)

end

section
variable {g_removeCallers : List Text} {destType : Nat}

end

/-! ## A record that fits the line buffer and not the output buffer -/

namespace LongRecord

/-- A record whose caller has `n + 1` digits. -/
def record (n : ℕ) : Text := List.replicate (n + 1) '1' ++ ',' :: "1,1,,1,,,".toList

/-- The file is there, and nothing was exported yet. -/
def world (n : ℕ) : World where
  disk :=
    { store := fun f => if f = "a.txt" then some (record n ++ ['\n']) else none
      tmp := fun _ => []
      output := fun _ => []
      ftp := fun _ => []
      bak := fun _ => [] }
  g_outputFileName := none

/-- The file is opened and its output written completely; a second one is missing. -/
def files : List (String × FileIo) :=
  [("a.txt", ⟨true, none, false, "20160121000000", .writes 2000⟩),
    ("b.txt", ⟨true, none, false, "20160121000001", .writes 2000⟩)]

/-- Every delivery succeeds. -/
def io (_ : Nat) : DeliverIo := ⟨true, true, true⟩

end LongRecord

end TelecomSuite.Export
