import Asm68k.Report
import Asm68k.Resolver

/-!
What the user can ask the command for.
-/

namespace Asm68k.Command

structure Options where
  /-- The file to read; standard input if there is none. -/
  input : Bytes := []
  parts : Bytes := Bytes.ofString Report.Include.standardList
  depth : Int64 := Int64.ofNat Resolver.Limits.standard.depth
  lines : Int64 := Int64.ofNat Resolver.Limits.standard.lines
  json : Bool := false
  pretty : Bool := false
  color : Bool := false
  noColor : Bool := false
  debug : Bool := false
  quiet : Bool := false
  version : Bool := false
  deriving DecidableEq, Repr

def Options.format (options : Options) (outputIsTerminal : Bool) : Report.Format :=
  if options.json then .document (if options.pretty then .indented else .compact)
  else .plain (!options.noColor && (options.color || outputIsTerminal))

def Options.limits (options : Options) : Resolver.Limits :=
  .ofRequest options.depth.toInt options.lines.toInt

/-! ### Reports on the way -/

inductive LogLevel where
  | debug
  | info
  | error
  deriving DecidableEq, Repr

def LogLevel.name : LogLevel → String
  | .debug => "DEBUG"
  | .info => "INFO"
  | .error => "ERROR"

def Options.logLevel (options : Options) : LogLevel :=
  if options.debug then .debug else if options.quiet then .error else .info

end Asm68k.Command
