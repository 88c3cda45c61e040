import Asm68k.Command.Options
import Asm68k.Decimal
import Asm68k.Rune.Quoted

/-!
Command line arguments, outside of what a run depends on. They are read as the package `climate/arg`
reads them, and the rules below are its rules: options have a name after two dashes, most also a
letter after one dash, and letters can be joined. The first argument that is no option is the file.
-/

namespace Asm68k.Command

/-! ### Options by name -/

inductive Switch where
  | json
  | pretty
  | color
  | noColor
  | debug
  | quiet
  | version
  deriving DecidableEq, Repr

inductive Key where
  | switch (s : Switch)
  | parts
  | depth
  | lines
  deriving DecidableEq, Repr

def longNames : List (String × Key) :=
  [("json", .switch .json), ("pretty", .switch .pretty), ("include", .parts),
    ("color", .switch .color), ("nocolor", .switch .noColor), ("depth", .depth), ("lines", .lines),
    ("debug", .switch .debug), ("quiet", .switch .quiet), ("version", .switch .version)]

def shortNames : List (Char × Key) :=
  [('j', .switch .json), ('p', .switch .pretty), ('i', .parts), ('c', .switch .color),
    ('n', .switch .noColor), ('d', .switch .debug), ('q', .switch .quiet), ('V', .switch .version)]

def longKey? (name : Bytes) : Option Key :=
  (longNames.find? fun (long, _) => Bytes.ofString long == name).map (·.2)

def shortKey? : Rune → Option Key
  | .scalar c => shortNames.lookup c
  | .stray _ => none

def Options.turn (options : Options) (value : Bool) : Switch → Options
  | .json => { options with json := value }
  | .pretty => { options with pretty := value }
  | .color => { options with color := value }
  | .noColor => { options with noColor := value }
  | .debug => { options with debug := value }
  | .quiet => { options with quiet := value }
  | .version => { options with version := value }

/-! ### Values -/

inductive ArgumentError where
  | emptyOption
  | unknown (option : Bytes)
  | missingValue (option : Bytes)
  | badNumber (text : Bytes) (fault : Decimal.Fault)
  deriving DecidableEq, Repr

def ArgumentError.message (error : ArgumentError) : Bytes :=
  Bytes.ofString "parsing arguments: " ++
    match error with
    | .emptyOption => Bytes.ofString "long option without a string"
    | .unknown option => option ++ Bytes.ofString ": unknown option"
    | .missingValue option => option ++ Bytes.ofString ": missing option parameter"
    | .badNumber text fault =>
      Bytes.ofString "strconv.Atoi: parsing " ++ text.quote ++
        match fault with
        | .malformed => Bytes.ofString ": invalid syntax"
        | .outOfRange => Bytes.ofString ": value out of range"

/-- The words that turn an option on and off, in either case. -/
def truth? (text : Bytes) : Option Bool :=
  let word := text.lower
  if (["true", "yes", "on", "1", "t"].map Bytes.ofString).contains word then some true
  else if (["false", "no", "off", "0", "f"].map Bytes.ofString).contains word then some false
  else none

def readNumber (text : Bytes) : Except ArgumentError Int64 :=
  (Decimal.readInt64 text).mapError (.badNumber text)

/-- The options so far and the next argument, which is empty once it has served as a value. -/
structure Progress where
  options : Options
  next : Option Bytes

/-- Turns on an option without a value of its own, unless the next argument says otherwise. -/
def Progress.turn (p : Progress) (s : Switch) : Progress :=
  match p.next.bind truth? with
  | some value => ⟨p.options.turn value s, some []⟩
  | none => ⟨p.options.turn true s, p.next⟩

/-- The value of an option: the one that is written with it, or else the next argument. -/
def Progress.value (p : Progress) (option : Bytes) (own : Option Bytes) :
    Except ArgumentError (Bytes × Option Bytes) :=
  match own, p.next with
  | some value, next => .ok (value, next)
  | none, some value => .ok (value, some [])
  | none, none => .error (.missingValue option)

def Progress.set (p : Progress) (key : Key) (option : Bytes) (own : Option Bytes) :
    Except ArgumentError Progress :=
  match key with
  | .switch s => .ok (p.turn s)
  | .parts => do
    let (parts, next) ← p.value option own
    return ⟨{ p.options with parts }, next⟩
  | .depth => do
    let (text, next) ← p.value option own
    return ⟨{ p.options with depth := ← readNumber text }, next⟩
  | .lines => do
    let (text, next) ← p.value option own
    return ⟨{ p.options with lines := ← readNumber text }, next⟩

/-! ### Reading -/

def dashes (count : Nat) (name : Bytes) : Bytes := List.replicate count '-'.toUInt8 ++ name

/-- The part before the first equals sign and the value after it, unless that is empty. -/
def ownValue (text : Bytes) : Bytes × Option Bytes :=
  match text.cut? '='.toUInt8 with
  | none => (text, none)
  | some (name, []) => (name, none)
  | some (name, value) => (name, some value)

/-- An option by its name, `text` being what follows the two dashes. -/
def readLong (p : Progress) (text : Bytes) : Except ArgumentError Progress :=
  if text.isEmpty then .error .emptyOption
  else
    let (name, own) := ownValue text
    match longKey? name with
    | none => .error (.unknown (dashes 2 name))
    | some (.switch s) =>
      match own.bind truth? with
      | some value => .ok { p with options := p.options.turn value s }
      | none => .ok (p.turn s)
    | some key => p.set key (dashes 2 name) own

/-- One of the letters after a dash. A value belongs to it only if it is the only letter, and then
a word that does not mean on turns the option off. -/
def readLetter (p : Progress) (alone : Bool) (own : Option Bytes) (letter : Rune) :
    Except ArgumentError Progress :=
  let option := dashes 1 letter.toBytes
  match shortKey? letter with
  | none => .error (.unknown option)
  | some (.switch s) =>
    match alone, own with
    | true, some value => .ok { p with options := p.options.turn (truth? value == some true) s }
    | _, _ => .ok (p.turn s)
  | some key => p.set key option none

/-- The letters after a dash. An equals sign without a value behind it counts as a letter. -/
def readShort (p : Progress) (text : Bytes) : Except ArgumentError Progress :=
  let (letters, own) :=
    match ownValue text with
    | (_, none) => (text, none)
    | (letters, some value) => (letters, some value)
  let runes := Rune.ofBytes letters
  runes.foldlM (fun p letter => readLetter p (runes.length == 1) own letter) p

/-- One argument; the flag says that the file is already known. -/
def readArgument (p : Progress) (hasFile : Bool) (argument : Bytes) :
    Except ArgumentError (Progress × Bool) :=
  if (dashes 2 []).isPrefixOf argument then
    return (← readLong p (argument.drop 2), hasFile)
  else if (dashes 1 []).isPrefixOf argument && argument.length != 1 then
    return (← readShort p (argument.drop 1), hasFile)
  else if hasFile then return (p, true)
  else return ({ p with options := { p.options with input := argument } }, true)

/-- Reads the arguments in order. Empty ones, and those used up as values, are passed over. -/
def readFrom (options : Options) (hasFile : Bool) : List Bytes → Except ArgumentError Options
  | [] => .ok options
  | [] :: rest => readFrom options hasFile rest
  | [argument] => do
    let (p, _) ← readArgument ⟨options, none⟩ hasFile argument
    return p.options
  | argument :: next :: rest => do
    let (p, hasFile) ← readArgument ⟨options, some next⟩ hasFile argument
    if p.next = some [] then readFrom p.options hasFile rest
    else readFrom p.options hasFile (next :: rest)

/-- The options in a list of arguments that begins with the program's name. Where there is only the
name, it is not read; otherwise it is an argument like the others. -/
def Options.ofArguments : List Bytes → Except ArgumentError Options
  | [_] => .ok {}
  | arguments => readFrom {} false arguments

end Asm68k.Command
