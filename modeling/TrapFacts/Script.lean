import TrapFacts.TrapUnit

/-!
Scripts: programs written down step by step. Each step leaves a note when it ends.
-/

namespace TrapFacts

inductive Step where
  /-- An entity with the given features. Without a body it describes itself by a single fact. -/
  | create (slot : Slot) (features : Custom) (factory : List Step) (body : Option (List Step))
  | fresh
  | define (key : Key)
  | emit (fact : Tuple)
  | guard (key : Key) (steps : List Step)
  | later (steps : List Step)
  | populateAll
  | attempt (node : Option NodeId) (symbol : Option SymbolId) (steps : List Step)
  | modelError (symbol : Option SymbolId) (text : String)
  | message (message : Message)
  | report (error : Failure) (node : Option NodeId) (symbol : Option SymbolId)
  | fail (error : Failure)
  | generics (label : Label)
  | defines (symbol : SymbolId)
  | definesFile (path : String)
  | scopeIsAssembly
  | setAssemblyFile (name file : String)
  | missingType (name : String)
  | file (path : String)
  | generatedFile
  | location (place : Option Declaration)
  | assembly (name : String)
  | space (symbol : SymbolId)
  | namedType (symbol : SymbolId)
  | pointer (symbol : SymbolId)
  | method (symbol : SymbolId)
  | typeOf (symbol : SymbolId)
  | symbol (symbol : SymbolId)
  | typeArguments (symbol : SymbolId) (label : Label)
  | compilation

namespace Step

/-- The entity of a recipe, as an answer. -/
def answerEntity (recipe : Recipe) : Prog Answer := do
  return .entity (← Prog.entity recipe)

/-- Note how a step ended, and end the same way. -/
def noting (name : String) (p : Prog Answer) : Prog Unit :=
  .catch p fun result =>
    .snapshot fun state =>
      .note (.finished name result state)
        (match result with
        | .ok _ => .pure ()
        | .error e => .fail e)

variable (m : Model) (scope : Scope)

mutual

/-- What a step does, a note at its end included. -/
def program : Step → Prog Unit
  | .create slot features factory body =>
    noting "create" (.create slot
      ((allOf factory).bind fun _ => .pure (.custom features))
      (fun _ label =>
        match body with
        | some steps => .note (.describing label) (allOf steps)
        | none => Prog.fact "bare" [.label label])
      (fun c => .pure (.entity c)))
  | .fresh => noting "fresh" (.fresh fun l => .pure (.label l))
  | .define key => noting "define" (.define key fun l => .pure (.label l))
  | .emit tuple => noting "emit" (.emit tuple (.pure .nothing))
  | .guard key steps => noting "guard" (.guarded key (allOf steps) (.pure .nothing))
  | .later steps => noting "later" (.later (allOf steps) (.pure .nothing))
  | .populateAll => noting "populate_all" (.drain (.pure .nothing))
  | .attempt node id steps => noting "try" (.attempt node id (allOf steps) (.pure .nothing))
  | .modelError id text => noting "model_error" (.modelError id text (.pure .nothing))
  | .message text => noting "message" (.send text (.pure .nothing))
  | .report e node id => noting "report" (.send (m.failureMessage e node id) (.pure .nothing))
  | .fail e => noting "fail" (.fail e)
  | .generics label => noting "generics" (.openGenerics label fun b => .pure (.flag b))
  | .defines id =>
    noting "defines" ((Prog.ofExcept (scope.defines m id)).bind fun b => .pure (.flag b))
  | .definesFile path => noting "defines_file" (.pure (.flag (scope.ownsFile path)))
  | .scopeIsAssembly => noting "scope_is_assembly" (.pure (.flag scope.isAssembly))
  | .setAssemblyFile name path =>
    noting "set_assembly_file" (.setAssemblyFile name path (.pure .nothing))
  | .missingType name => noting "missing_type" (.missingType name (.pure .nothing))
  | .file path => noting "file" (answerEntity (.file path))
  | .generatedFile => noting "generated_file" (answerEntity (.file ""))
  | .location place => noting "location" (answerEntity (.location place))
  | .assembly name => noting "assembly" (answerEntity (.assembly name))
  | .space id => noting "namespace" (answerEntity (.space id))
  | .namedType id => noting "named_type" (answerEntity (.namedType id))
  | .pointer id => noting "pointer_type" (answerEntity (.pointer id))
  | .method id => noting "method" (answerEntity (.method id))
  | .typeOf id => noting "type" ((m.typeLabel id).bind fun l => .pure (.label l))
  | .symbol id => noting "symbol" ((extractSymbol m scope id).bind fun _ => .pure .nothing)
  | .typeArguments id label =>
    noting "type_arguments" ((typeArgumentFacts m id label).bind fun _ => .pure .nothing)
  | .compilation => noting "compilation" ((extractCompilation m).bind fun l => .pure (.label l))

/-- The steps in order, up to the first that fails. -/
def allOf : List Step → Prog Unit
  | [] => .pure ()
  | s :: rest => s.program.bind fun _ => allOf rest

end

/-- The steps in order, whether they fail or not. -/
def each : List Step → Prog Unit
  | [] => .pure ()
  | s :: rest => .catch (s.program m scope) fun _ => each rest

mutual

/-- The number of steps in a step, itself included. -/
def size : Step → Nat
  | .create _ _ factory body =>
    1 + sizeAll factory + (match body with | some steps => sizeAll steps | none => 0)
  | .guard _ steps => 1 + sizeAll steps
  | .later steps => 1 + sizeAll steps
  | .attempt _ _ steps => 1 + sizeAll steps
  | _ => 1

def sizeAll : List Step → Nat
  | [] => 0
  | s :: rest => s.size + sizeAll rest

end

/-- Run a script. Every step queues itself at most twice, beside what the model gives rise to. -/
def run (x : Extractor) (steps : List Step) : Context :=
  ((World.ofModel m scope).run (m.drainBudget + 2 * sizeAll steps) (each m scope steps)
    { extractor := x }).context

end Step

end TrapFacts
