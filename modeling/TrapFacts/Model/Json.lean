import TrapFacts.Model.Basic
import TrapFacts.Json.Parser
import TrapFacts.Json.Plain
import TrapFacts.Json.Printer
import TrapFacts.Json.Schema

/-!
The JSON form of a model, read and written.
-/

namespace TrapFacts

open Json (Decoder u32? list? record? slot? required defaulted optional)

def SymbolId.ofJson? (j : Json) : Option SymbolId :=
  (u32? j).map SymbolId.mk

def TreeId.ofJson? (j : Json) : Option TreeId :=
  (u32? j).map TreeId.mk

def SymbolId.toJson (id : SymbolId) : Json :=
  Json.ofNat id.index

def TreeId.toJson (id : TreeId) : Json :=
  Json.ofNat id.index

def SymbolKind.ofJson? (j : Json) : Option SymbolKind :=
  j.word?.bind SymbolKind.ofName?

def SymbolKind.toJson (k : SymbolKind) : Json :=
  Json.ofString k.name

namespace Declaration

def fieldNames : List String :=
  ["tree", "start_line", "start_column", "end_line", "end_column"]

/-- How many more brackets may be open inside a location, of 127 in all: five are open already. -/
def room : Nat :=
  122

/-- A location is an object. What it holds besides its own fields is ignored but must be plain. -/
def ofJson? : Decoder Declaration
  | .object fields => do
    guard (fields.all fun f => f.1.isSome)
    guard (fields.all fun f => fieldNames.contains (f.1.getD "") || f.2.isPlain room)
    let tree ← slot? fields "tree" >>= required TreeId.ofJson?
    let startLine ← slot? fields "start_line" >>= required u32?
    let startColumn ← slot? fields "start_column" >>= required u32?
    let endLine ← slot? fields "end_line" >>= required u32?
    let endColumn ← slot? fields "end_column" >>= required u32?
    some { tree, span := { startLine, startColumn, endLine, endColumn } }
  | _ => none

/-- The span's fields stand beside the tree. -/
def toJson (d : Declaration) : Json :=
  Json.ofFields [
    ("tree", d.tree.toJson),
    ("start_line", Json.ofNat d.span.startLine),
    ("start_column", Json.ofNat d.span.startColumn),
    ("end_line", Json.ofNat d.span.endLine),
    ("end_column", Json.ofNat d.span.endColumn)]

end Declaration

namespace Parameter

def fieldNames : List String :=
  ["name", "type"]

def ofJson? (j : Json) : Option Parameter := do
  match ← record? fieldNames j with
  | [name, type] =>
    some { name := ← required Json.text? name, type := ← required SymbolId.ofJson? type }
  | _ => none

def toJson (p : Parameter) : Json :=
  Json.ofFields [("name", Json.ofString p.name), ("type", p.type.toJson)]

end Parameter

namespace Symbol

def fieldNames : List String :=
  ["name", "kind", "containing_namespace", "containing_type", "containing_assembly", "locations",
    "original_definition", "type_arguments", "members", "pointed_at", "return_type", "parameters",
    "associated_symbol"]

def ofJson? (j : Json) : Option Symbol := do
  match ← record? fieldNames j with
  | [name, kind, containingNamespace, containingType, containingAssembly, locations,
      genericDefinition, typeArguments, members, pointedAt, returnType, parameters,
      associatedSymbol] =>
    some {
      name := ← required Json.text? name
      kind := ← required SymbolKind.ofJson? kind
      containingNamespace := ← optional SymbolId.ofJson? containingNamespace
      containingType := ← optional SymbolId.ofJson? containingType
      containingAssembly := ← optional Json.text? containingAssembly
      locations := ← defaulted [] (list? Declaration.ofJson?) locations
      genericDefinition := ← optional SymbolId.ofJson? genericDefinition
      typeArguments := ← defaulted [] (list? SymbolId.ofJson?) typeArguments
      members := ← defaulted [] (list? SymbolId.ofJson?) members
      pointedAt := ← optional SymbolId.ofJson? pointedAt
      returnType := ← optional SymbolId.ofJson? returnType
      parameters := ← defaulted [] (list? Parameter.ofJson?) parameters
      associatedSymbol := ← optional SymbolId.ofJson? associatedSymbol }
  | _ => none

def toJson (s : Symbol) : Json :=
  Json.ofFields [
    ("name", Json.ofString s.name),
    ("kind", s.kind.toJson),
    ("containing_namespace", Json.ofOption SymbolId.toJson s.containingNamespace),
    ("containing_type", Json.ofOption SymbolId.toJson s.containingType),
    ("containing_assembly", Json.ofOption Json.ofString s.containingAssembly),
    ("locations", Json.ofList Declaration.toJson s.locations),
    ("original_definition", Json.ofOption SymbolId.toJson s.genericDefinition),
    ("type_arguments", Json.ofList SymbolId.toJson s.typeArguments),
    ("members", Json.ofList SymbolId.toJson s.members),
    ("pointed_at", Json.ofOption SymbolId.toJson s.pointedAt),
    ("return_type", Json.ofOption SymbolId.toJson s.returnType),
    ("parameters", Json.ofList Parameter.toJson s.parameters),
    ("associated_symbol", Json.ofOption SymbolId.toJson s.associatedSymbol)]

end Symbol

namespace SyntaxTree

def fieldNames : List String :=
  ["path", "lines", "members"]

def ofJson? (j : Json) : Option SyntaxTree := do
  match ← record? fieldNames j with
  | [path, lines, members] =>
    some {
      path := ← required Json.text? path
      lines := ← defaulted 0 u32? lines
      members := ← defaulted [] (list? SymbolId.ofJson?) members }
  | _ => none

def toJson (t : SyntaxTree) : Json :=
  Json.ofFields [
    ("path", Json.ofString t.path),
    ("lines", Json.ofNat t.lines),
    ("members", Json.ofList SymbolId.toJson t.members)]

end SyntaxTree

namespace AssemblyInfo

def fieldNames : List String :=
  ["name", "path"]

def ofJson? (j : Json) : Option AssemblyInfo := do
  match ← record? fieldNames j with
  | [name, path] =>
    some { name := ← required Json.text? name, path := ← required Json.text? path }
  | _ => none

def toJson (a : AssemblyInfo) : Json :=
  Json.ofFields [("name", Json.ofString a.name), ("path", Json.ofString a.path)]

end AssemblyInfo

namespace CompilationInfo

def fieldNames : List String :=
  ["cwd", "args", "references"]

def ofJson? (j : Json) : Option CompilationInfo := do
  match ← record? fieldNames j with
  | [workingDirectory, args, references] =>
    some {
      workingDirectory := ← defaulted "" Json.text? workingDirectory
      args := ← defaulted [] (list? Json.text?) args
      references := ← defaulted [] (list? Json.text?) references }
  | _ => none

def toJson (c : CompilationInfo) : Json :=
  Json.ofFields [
    ("cwd", Json.ofString c.workingDirectory),
    ("args", Json.ofList Json.ofString c.args),
    ("references", Json.ofList Json.ofString c.references)]

end CompilationInfo

namespace Model

def fieldNames : List String :=
  ["compilation", "assemblies", "trees", "symbols"]

def ofJson? (j : Json) : Option Model := do
  match ← record? fieldNames j with
  | [compilation, assemblies, trees, symbols] =>
    some {
      compilation := ← defaulted {} CompilationInfo.ofJson? compilation
      assemblies := ← defaulted [] (list? AssemblyInfo.ofJson?) assemblies
      trees := ← defaulted [] (list? SyntaxTree.ofJson?) trees
      symbols := ← defaulted [] (list? Symbol.ofJson?) symbols }
  | _ => none

def toJson (m : Model) : Json :=
  Json.ofFields [
    ("compilation", m.compilation.toJson),
    ("assemblies", Json.ofList AssemblyInfo.toJson m.assemblies),
    ("trees", Json.ofList SyntaxTree.toJson m.trees),
    ("symbols", Json.ofList Symbol.toJson m.symbols)]

/-- The model that a text describes. -/
def parse (text : String) : Except Failure Model :=
  match Json.parse? text >>= ofJson? with
  | some m => .ok m
  | none => .error .invalidModel

/-- The text of a model, every field written out. -/
def print (m : Model) : String :=
  m.toJson.render

end Model

end TrapFacts
