/-
A report on the chain, for a reader.

It has a line for each block, and behind the line of a block with a token the text of its
snapshot.  A snapshot that cannot be written ends the report there.
-/
import FirstFit.Arena

namespace FirstFit

open Text (hex)

/-- A text, and whether all of it could be written. -/
structure Report where
  text : String
  complete : Bool
  deriving DecidableEq, Repr

namespace Report

/-- The report that says nothing. -/
def empty : Report := ⟨"", true⟩

/-- One report behind the other; what follows an incomplete one is never written. -/
def append (r s : Report) : Report :=
  if r.complete then ⟨r.text ++ s.text, s.complete⟩ else r

/-- A link as it is written. -/
def link : Link → String
  | none => "-"
  | some offset => hex offset

/-- The line of a block. -/
def line (b : Block) : String :=
  "HDR: OFFSET(" ++ hex b.offset ++ ") PREV(" ++ link b.header.prev ++ ") NEXT("
    ++ link b.header.next ++ ") ALLOC(" ++ (if b.isFree then "0" else "1") ++ ") SIZE("
    ++ toString b.size ++ ")\n"

/-- What is written of one block. -/
def block [Tracer τ] (tracer : τ) (b : Block) : Report :=
  match b.header.trace with
  | none => ⟨line b, true⟩
  | some token =>
    match Tracer.describe? tracer token with
    | none => ⟨line b ++ "TRACE:\n", false⟩
    | some text => ⟨line b ++ "TRACE:\n" ++ text ++ "\n", true⟩

end Report

/-- The report on an arena. -/
def Arena.report [Tracer τ] (arena : Arena τ) : Report :=
  match arena.verify with
  | .error cause => ⟨"chain is corrupt: " ++ cause.message ++ "\n", true⟩
  | .ok () =>
    if arena.blocks.all Block.isFree then
      ⟨"all memory released in buffer arena\n", true⟩
    else
      arena.blocks.foldl (fun report b => report.append (Report.block arena.tracer b))
        ⟨"memory currently allocated:\n", true⟩

end FirstFit
