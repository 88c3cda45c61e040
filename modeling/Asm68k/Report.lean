import Asm68k.Report.Document
import Asm68k.Report.Plain

/-!
Reports on resolved lines, in one of two formats.
-/

namespace Asm68k.Report

inductive Format where
  | plain (color : Bool)
  | document (layout : Json.Layout)
  deriving DecidableEq, Repr

def render (format : Format) (parts : Include) (lines : List Line) (totals : Totals) : Bytes :=
  match format with
  | .plain color => Plain.render Decimal.grouped parts color lines totals
  | .document layout => Document.render parts layout lines totals

/-- The report could not be written, for the reason given. -/
structure WriteError where
  format : Format
  reason : Bytes
  deriving DecidableEq, Repr

def WriteError.message (error : WriteError) : Bytes :=
  match error.format with
  | .plain _ => Bytes.ofString "writing output: " ++ error.reason
  | .document _ => Bytes.ofString "encoding JSON: " ++ error.reason

end Asm68k.Report
