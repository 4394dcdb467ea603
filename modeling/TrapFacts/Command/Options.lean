import TrapFacts.Text.Digits

/-!
The options of the command line.
-/

namespace TrapFacts

/-- What the command is asked to do. -/
structure Options where
  model : String
  out : String
  sources : List String := []
  assemblies : List String := []
  compilation : Bool := false
  threads : Option Nat := none
  config : Option String := none
  standalone : Bool := false
  json : Bool := false
  deriving DecidableEq

/-- An option that has a value. -/
inductive Setting where
  | model
  | out
  | source
  | assembly
  | threads
  | config
  deriving DecidableEq

/-- An option that has none. -/
inductive Switch where
  | compilation
  | standalone
  | json
  deriving DecidableEq

inductive Flag where
  | setting (value : Setting)
  | switch (value : Switch)
  | help
  | version
  deriving DecidableEq

/-- Why options are not accepted. -/
inductive UsageError where
  | unexpected (argument : String)
  | repeated (option : String)
  | missingValue (option : String)
  | needlessValue (option : String)
  | badValue (option value : String)
  | missing (option : String)
  deriving DecidableEq

/-- Why the options are not read to their end. -/
inductive Interruption where
  | help
  | version
  | usage (cause : UsageError)
  deriving DecidableEq

def UsageError.message : UsageError → String
  | unexpected argument => "unexpected argument '" ++ argument ++ "'"
  | repeated option => "the option '" ++ option ++ "' is given more than once"
  | missingValue option => "the option '" ++ option ++ "' needs a value"
  | needlessValue option => "the option '" ++ option ++ "' takes no value"
  | badValue option value => "invalid value '" ++ value ++ "' for '" ++ option ++ "'"
  | missing option => "the option '" ++ option ++ "' is required"

def Setting.name : Setting → String
  | model => "--model"
  | out => "--out"
  | source => "--source"
  | assembly => "--assembly"
  | threads => "--threads"
  | config => "--config"

def Switch.name : Switch → String
  | compilation => "--compilation"
  | standalone => "--standalone"
  | json => "--json"

namespace Flag

def ofName? : String → Option Flag
  | "--model" => some (.setting .model)
  | "--out" => some (.setting .out)
  | "--source" => some (.setting .source)
  | "--assembly" => some (.setting .assembly)
  | "--threads" => some (.setting .threads)
  | "--config" => some (.setting .config)
  | "--compilation" => some (.switch .compilation)
  | "--standalone" => some (.switch .standalone)
  | "--json" => some (.switch .json)
  | "--help" => some help
  | "--version" => some version
  | _ => none

def ofLetter? : Char → Option Flag
  | 'o' => some (.setting .out)
  | 'h' => some help
  | 'V' => some version
  | _ => none

end Flag

namespace Options

/-- The options read so far. -/
structure Draft where
  model : Option String := none
  out : Option String := none
  sources : List String := []
  assemblies : List String := []
  compilation : Bool := false
  threads : Option Nat := none
  config : Option String := none
  standalone : Bool := false
  json : Bool := false

/-- A number of threads: decimal digits, perhaps behind a plus, that fit a word of 64 bits. -/
def readThreads? (s : String) : Option Nat :=
  let digits := match s.toList with
    | '+' :: cs => cs
    | cs => cs
  if digits.isEmpty || !digits.all Digits.isDigit then none
  else
    let n := Digits.natOfDigits 10 (digits.map Digits.digitValue)
    if n < 0x10000000000000000 then some n else none

namespace Draft

/-- Set an option that is given at most once. -/
def once {α : Type} (setting : Setting) (current : Option α) (value : String)
    (read : String → Option α) : Except Interruption (Option α) :=
  match read value with
  | none => .error (.usage (.badValue setting.name value))
  | some a =>
    if current.isSome then .error (.usage (.repeated setting.name)) else .ok (some a)

/-- A path is not empty. -/
def readPath? (s : String) : Option String :=
  if s.isEmpty then none else some s

/-- Give an option its value. -/
def give (d : Draft) (setting : Setting) (value : String) : Except Interruption Draft := do
  match setting with
  | .model => return { d with model := ← once setting d.model value readPath? }
  | .out => return { d with out := ← once setting d.out value readPath? }
  | .config => return { d with config := ← once setting d.config value readPath? }
  | .threads => return { d with threads := ← once setting d.threads value readThreads? }
  | .source => return { d with sources := d.sources ++ [value] }
  | .assembly => return { d with assemblies := d.assemblies ++ [value] }

def isOn (d : Draft) : Switch → Bool
  | .compilation => d.compilation
  | .standalone => d.standalone
  | .json => d.json

/-- Turn an option on, once. -/
def turnOn (d : Draft) (switch : Switch) : Except Interruption Draft :=
  if d.isOn switch then .error (.usage (.repeated switch.name))
  else .ok (match switch with
    | .compilation => { d with compilation := true }
    | .standalone => { d with standalone := true }
    | .json => { d with json := true })

/-- What is asked for, if nothing that is required is missing. -/
def finish (d : Draft) : Except Interruption Options :=
  match d.model, d.out with
  | none, _ => .error (.usage (.missing Setting.model.name))
  | _, none => .error (.usage (.missing Setting.out.name))
  | some model, some out =>
    .ok {
      model, out
      sources := d.sources
      assemblies := d.assemblies
      compilation := d.compilation
      threads := d.threads
      config := d.config
      standalone := d.standalone
      json := d.json }

end Draft

/-- An argument as it is written: a flag, and the value that is attached to it. -/
structure Argument where
  flag : Option Flag
  attached : Option String

/-- The text before the first `=`, and the one behind it if there is one. -/
def splitEquals (cs : List Char) : String × Option String :=
  match cs.span (· ≠ '=') with
  | (name, []) => (String.ofList name, none)
  | (name, _ :: value) => (String.ofList name, some (String.ofList value))

/-- The value that is attached to a letter. -/
def attachedToLetter : List Char → Option String
  | [] => none
  | '=' :: value => some (String.ofList value)
  | value => some (String.ofList value)

/-- A hyphen alone is no flag. -/
def looksLikeFlag (s : String) : Bool :=
  match s.toList with
  | '-' :: _ :: _ => true
  | _ => false

/-- Behind a letter that has no value, further letters may follow. They are never reached. -/
def readArgument (s : String) : Argument :=
  match s.toList with
  | '-' :: '-' :: _ =>
    let (name, attached) := splitEquals s.toList
    ⟨Flag.ofName? name, attached⟩
  | '-' :: c :: cs =>
    match Flag.ofLetter? c with
    | some (.setting s) => ⟨some (.setting s), attachedToLetter cs⟩
    | flag => ⟨flag, none⟩
  | _ => ⟨none, none⟩

/-- A flag without an attached value that has one takes the next argument, which is no flag. -/
def scan : Draft → List String → Except Interruption Draft
  | d, [] => .ok d
  | d, ["--"] => .ok d
  | d, arg :: rest =>
    match readArgument arg with
    | ⟨none, _⟩ => .error (.usage (.unexpected arg))
    | ⟨some .help, none⟩ => .error .help
    | ⟨some .version, none⟩ => .error .version
    | ⟨some (.switch s), none⟩ =>
      match d.turnOn s with
      | .error e => .error e
      | .ok d => scan d rest
    | ⟨some (.setting s), some value⟩ =>
      match d.give s value with
      | .error e => .error e
      | .ok d => scan d rest
    | ⟨some (.setting s), none⟩ =>
      match rest with
      | value :: rest =>
        if looksLikeFlag value then .error (.usage (.missingValue s.name))
        else
          match d.give s value with
          | .error e => .error e
          | .ok d => scan d rest
      | [] => .error (.usage (.missingValue s.name))
    | ⟨some _, some _⟩ => .error (.usage (.needlessValue arg))

/-- The options that the arguments of a command give. -/
def parse (args : List String) : Except Interruption Options :=
  match scan {} args with
  | .error e => .error e
  | .ok d => d.finish

end Options

end TrapFacts
