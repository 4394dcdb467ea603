import TrapFacts.Model.Json
import TrapFacts.Proofs.Json.Forms
import TrapFacts.Proofs.Json.Reading

/-! The texts that describe a model, and what is read from them. -/

namespace TrapFacts

open Json (Writes Exactly Reads)

variable {ok : Json → Prop} {j : Json}

namespace Json

/-- Unknown fields of any value. -/
def anything (_ : Json) : Prop :=
  True

/-- What 32 bits can hold. -/
abbrev Fits (n : Nat) : Prop :=
  n < 0x100000000

theorem reads_text (s : String) : Reads text? (Exactly ofString) s :=
  .exactly rfl

theorem reads_number {n : Nat} (h : Fits n) : Reads u32? (Exactly ofNat) n :=
  .exactly (by simp [u32?, ofNat, nat?, h])

theorem reads_symbol {id : SymbolId} (h : Fits id.index) :
    Reads SymbolId.ofJson? (Exactly SymbolId.toJson) id :=
  .exactly (by simp [SymbolId.ofJson?, SymbolId.toJson, reads_number h _ rfl])

theorem reads_tree {id : TreeId} (h : Fits id.index) :
    Reads TreeId.ofJson? (Exactly TreeId.toJson) id :=
  .exactly (by simp [TreeId.ofJson?, TreeId.toJson, reads_number h _ rfl])

theorem reads_kind (k : SymbolKind) : Reads SymbolKind.ofJson? (Exactly SymbolKind.toJson) k :=
  .exactly (by cases k <;> rfl)

end Json

open Json (Fits)

namespace Declaration

structure Sized (d : Declaration) : Prop where
  tree : Fits d.tree.index
  startLine : Fits d.span.startLine
  startColumn : Fits d.span.startColumn
  endLine : Fits d.span.endLine
  endColumn : Fits d.span.endColumn

/-- The span's fields stand beside the tree. -/
def record (d : Declaration) : List Json.Field :=
  [.required "tree" (Exactly TreeId.toJson) d.tree,
    .required "start_line" (Exactly Json.ofNat) d.span.startLine,
    .required "start_column" (Exactly Json.ofNat) d.span.startColumn,
    .required "end_line" (Exactly Json.ofNat) d.span.endLine,
    .required "end_column" (Exactly Json.ofNat) d.span.endColumn]

/-- The objects that describe a location, with unknown fields whose values are `ok`. -/
def Spells (ok : Json → Prop) (d : Declaration) : Json → Prop :=
  Writes ok d.record

variable {d : Declaration}

theorem reads (hd : d.Sized) : Reads ofJson? (Spells fun v => v.isPlain room = true) d := by
  intro v hv
  obtain ⟨fields, rfl, hfound⟩ := hv.found (show fieldNames.Nodup by decide)
  have hnames : fields.all (fun f => f.1.isSome) = true := by
    rw [List.all_eq_true]
    intro f hf
    obtain ⟨name, hname, -⟩ := hfound.names f hf
    simp [hname]
  have hplain : fields.all (fun f =>
      fieldNames.contains (f.1.getD "") || f.2.isPlain room) = true := by
    rw [List.all_eq_true]
    intro f hf
    obtain ⟨name, hname, hknown | hok⟩ := hfound.names f hf
    · have hmem : name ∈ fieldNames := hknown
      simp [hname, hmem]
    · simp [hok]
  -- A location is looked up field by field, not as a record: its span has no object of its own.
  have hslots := hfound.slots
  simp only [record, List.forall_mem_cons] at hslots
  obtain ⟨⟨_, htree, tree⟩, ⟨_, hstartLine, startLine⟩, ⟨_, hstartColumn, startColumn⟩,
    ⟨_, hendLine, endLine⟩, ⟨_, hendColumn, endColumn⟩, -⟩ := hslots
  simp only [Json.Field.required] at htree hstartLine hstartColumn hendLine hendColumn
  rw [ofJson?, guard, if_pos hnames, guard, if_pos hplain]
  simp [htree, hstartLine, hstartColumn, hendLine, hendColumn,
    tree.required (Json.reads_tree hd.tree),
    startLine.required (Json.reads_number hd.startLine),
    startColumn.required (Json.reads_number hd.startColumn),
    endLine.required (Json.reads_number hd.endLine),
    endColumn.required (Json.reads_number hd.endColumn)]

theorem spells_toJson (d : Declaration) : d.Spells ok d.toJson :=
  Json.writes_ofFields
    [(_, d.tree.toJson), (_, Json.ofNat d.span.startLine), (_, Json.ofNat d.span.startColumn),
      (_, Json.ofNat d.span.endLine), (_, Json.ofNat d.span.endColumn)]
    (by simp [Exactly])

end Declaration

namespace Parameter

structure Sized (p : Parameter) : Prop where
  type : Fits p.type.index

def record (p : Parameter) : List Json.Field :=
  [.required "name" (Exactly Json.ofString) p.name,
    .required "type" (Exactly SymbolId.toJson) p.type]

def Spells (p : Parameter) : Json → Prop :=
  Writes Json.anything p.record

theorem reads {p : Parameter} (hp : p.Sized) : Reads ofJson? Spells p := by
  refine .record record rfl (show fieldNames.Nodup by decide) (fun v => rfl) ?_
  rintro _ (_ | ⟨name, _ | ⟨type, ⟨⟩⟩⟩)
  simp [name.required (Json.reads_text p.name), type.required (Json.reads_symbol hp.type)]

theorem spells_toJson (p : Parameter) : p.Spells p.toJson :=
  Json.writes_ofFields [(_, Json.ofString p.name), (_, p.type.toJson)]
    (by simp [Exactly])

end Parameter

namespace Symbol

structure Sized (s : Symbol) : Prop where
  containingNamespace : ∀ id ∈ s.containingNamespace, Fits id.index
  containingType : ∀ id ∈ s.containingType, Fits id.index
  locations : ∀ d ∈ s.locations, d.Sized
  genericDefinition : ∀ id ∈ s.genericDefinition, Fits id.index
  typeArguments : ∀ id ∈ s.typeArguments, Fits id.index
  members : ∀ id ∈ s.members, Fits id.index
  pointedAt : ∀ id ∈ s.pointedAt, Fits id.index
  returnType : ∀ id ∈ s.returnType, Fits id.index
  parameters : ∀ p ∈ s.parameters, p.Sized
  associatedSymbol : ∀ id ∈ s.associatedSymbol, Fits id.index

/-- Everything but the name and the kind may be left out where it is empty. -/
def record (ok : Json → Prop) (s : Symbol) : List Json.Field :=
  [.required "name" (Exactly Json.ofString) s.name,
    .required "kind" (Exactly SymbolKind.toJson) s.kind,
    .optional "containing_namespace" (Exactly SymbolId.toJson) s.containingNamespace,
    .optional "containing_type" (Exactly SymbolId.toJson) s.containingType,
    .optional "containing_assembly" (Exactly Json.ofString) s.containingAssembly,
    .list "locations" (Declaration.Spells ok) s.locations,
    .optional "original_definition" (Exactly SymbolId.toJson) s.genericDefinition,
    .list "type_arguments" (Exactly SymbolId.toJson) s.typeArguments,
    .list "members" (Exactly SymbolId.toJson) s.members,
    .optional "pointed_at" (Exactly SymbolId.toJson) s.pointedAt,
    .optional "return_type" (Exactly SymbolId.toJson) s.returnType,
    .list "parameters" Parameter.Spells s.parameters,
    .optional "associated_symbol" (Exactly SymbolId.toJson) s.associatedSymbol]

def Spells (ok : Json → Prop) (s : Symbol) : Json → Prop :=
  Writes Json.anything (s.record ok)

/-- Symbols whose numbers fit are read from each of their spellings. -/
theorem reads {s : Symbol} (hs : s.Sized) :
    Reads ofJson? (Spells fun v => v.isPlain Declaration.room = true) s := by
  refine .record (record _) rfl (show fieldNames.Nodup by decide) (fun v => rfl) ?_
  rintro _ (_ | ⟨name, _ | ⟨kind, _ | ⟨containingNamespace, _ | ⟨containingType,
    _ | ⟨containingAssembly, _ | ⟨locations, _ | ⟨genericDefinition, _ | ⟨typeArguments,
    _ | ⟨members, _ | ⟨pointedAt, _ | ⟨returnType, _ | ⟨parameters,
    _ | ⟨associatedSymbol, ⟨⟩⟩⟩⟩⟩⟩⟩⟩⟩⟩⟩⟩⟩⟩)
  have hid : ∀ {id : Option SymbolId}, (∀ x ∈ id, Fits x.index) →
      ∀ x ∈ id, Reads SymbolId.ofJson? (Exactly SymbolId.toJson) x :=
    fun h x hx => Json.reads_symbol (h x hx)
  dsimp only
  rw [name.required (Json.reads_text s.name), kind.required (Json.reads_kind s.kind),
    containingNamespace.optional rfl (hid hs.containingNamespace),
    containingType.optional rfl (hid hs.containingType),
    containingAssembly.optional rfl fun x _ => Json.reads_text x,
    locations.list fun d hd => Declaration.reads (hs.locations d hd),
    genericDefinition.optional rfl (hid hs.genericDefinition),
    typeArguments.list fun id h => Json.reads_symbol (hs.typeArguments id h),
    members.list fun id h => Json.reads_symbol (hs.members id h),
    pointedAt.optional rfl (hid hs.pointedAt),
    returnType.optional rfl (hid hs.returnType),
    parameters.list fun p hp => Parameter.reads (hs.parameters p hp),
    associatedSymbol.optional rfl (hid hs.associatedSymbol)]
  rfl

theorem spells_toJson (s : Symbol) : s.Spells ok s.toJson := by
  have hid := Json.writesOption_exactly SymbolId.toJson
  have hids := Json.writesList_exactly SymbolId.toJson
  exact Json.writes_ofFields
    [(_, Json.ofString s.name), (_, s.kind.toJson),
      (_, Json.ofOption SymbolId.toJson s.containingNamespace),
      (_, Json.ofOption SymbolId.toJson s.containingType),
      (_, Json.ofOption Json.ofString s.containingAssembly),
      (_, Json.ofList Declaration.toJson s.locations),
      (_, Json.ofOption SymbolId.toJson s.genericDefinition),
      (_, Json.ofList SymbolId.toJson s.typeArguments),
      (_, Json.ofList SymbolId.toJson s.members),
      (_, Json.ofOption SymbolId.toJson s.pointedAt),
      (_, Json.ofOption SymbolId.toJson s.returnType),
      (_, Json.ofList Parameter.toJson s.parameters),
      (_, Json.ofOption SymbolId.toJson s.associatedSymbol)]
    (by
      simp only [List.forall_mem_cons]
      exact ⟨rfl, rfl, hid _, hid _, Json.writesOption_exactly Json.ofString _,
        Json.writesList_ofList Declaration.spells_toJson _, hid _, hids _, hids _, hid _, hid _,
        Json.writesList_ofList Parameter.spells_toJson _, hid _, List.forall_mem_nil _⟩)

end Symbol

namespace SyntaxTree

structure Sized (t : SyntaxTree) : Prop where
  lines : Fits t.lines
  members : ∀ id ∈ t.members, Fits id.index

def record (t : SyntaxTree) : List Json.Field :=
  [.required "path" (Exactly Json.ofString) t.path,
    .defaulted "lines" (Exactly Json.ofNat) 0 t.lines,
    .list "members" (Exactly SymbolId.toJson) t.members]

def Spells (t : SyntaxTree) : Json → Prop :=
  Writes Json.anything t.record

theorem reads {t : SyntaxTree} (ht : t.Sized) : Reads ofJson? Spells t := by
  refine .record record rfl (show fieldNames.Nodup by decide) (fun v => rfl) ?_
  rintro _ (_ | ⟨path, _ | ⟨lines, _ | ⟨members, ⟨⟩⟩⟩⟩)
  simp [path.required (Json.reads_text t.path), lines.defaulted (Json.reads_number ht.lines),
    members.list fun id h => Json.reads_symbol (ht.members id h)]

theorem spells_toJson (t : SyntaxTree) : t.Spells t.toJson :=
  Json.writes_ofFields
    [(_, Json.ofString t.path), (_, Json.ofNat t.lines),
      (_, Json.ofList SymbolId.toJson t.members)]
    (by
      simp only [List.forall_mem_cons]
      exact ⟨rfl, rfl, Json.writesList_exactly _ _, List.forall_mem_nil _⟩)

end SyntaxTree

namespace AssemblyInfo

def record (a : AssemblyInfo) : List Json.Field :=
  [.required "name" (Exactly Json.ofString) a.name,
    .required "path" (Exactly Json.ofString) a.path]

def Spells (a : AssemblyInfo) : Json → Prop :=
  Writes Json.anything a.record

theorem reads (a : AssemblyInfo) : Reads ofJson? Spells a := by
  refine .record record rfl (show fieldNames.Nodup by decide) (fun v => rfl) ?_
  rintro _ (_ | ⟨name, _ | ⟨path, ⟨⟩⟩⟩)
  simp [name.required (Json.reads_text a.name), path.required (Json.reads_text a.path)]

theorem spells_toJson (a : AssemblyInfo) : a.Spells a.toJson :=
  Json.writes_ofFields [(_, Json.ofString a.name), (_, Json.ofString a.path)] (by simp [Exactly])

end AssemblyInfo

namespace CompilationInfo

def record (c : CompilationInfo) : List Json.Field :=
  [.defaulted "cwd" (Exactly Json.ofString) "" c.workingDirectory,
    .list "args" (Exactly Json.ofString) c.args,
    .list "references" (Exactly Json.ofString) c.references]

def Spells (c : CompilationInfo) : Json → Prop :=
  Writes Json.anything c.record

theorem reads (c : CompilationInfo) : Reads ofJson? Spells c := by
  refine .record record rfl (show fieldNames.Nodup by decide) (fun v => rfl) ?_
  rintro _ (_ | ⟨workingDirectory, _ | ⟨args, _ | ⟨references, ⟨⟩⟩⟩⟩)
  simp [workingDirectory.defaulted (Json.reads_text c.workingDirectory),
    args.list fun s _ => Json.reads_text s, references.list fun s _ => Json.reads_text s]

theorem spells_toJson (c : CompilationInfo) : c.Spells c.toJson :=
  Json.writes_ofFields
    [(_, Json.ofString c.workingDirectory), (_, Json.ofList Json.ofString c.args),
      (_, Json.ofList Json.ofString c.references)]
    (by
      simp only [List.forall_mem_cons]
      exact ⟨rfl, Json.writesList_exactly _ _, Json.writesList_exactly _ _,
        List.forall_mem_nil _⟩)

end CompilationInfo

namespace Model

structure Sized (m : Model) : Prop where
  trees : ∀ t ∈ m.trees, t.Sized
  symbols : ∀ s ∈ m.symbols, s.Sized

def record (ok : Json → Prop) (m : Model) : List Json.Field :=
  [.defaulted "compilation" CompilationInfo.Spells {} m.compilation,
    .list "assemblies" AssemblyInfo.Spells m.assemblies,
    .list "trees" SyntaxTree.Spells m.trees,
    .list "symbols" (Symbol.Spells ok) m.symbols]

/-- The objects that describe a model: fields in any order, defaults written or left out, and
unknown fields of any value, except that their values inside a location are `ok`. -/
def Spells (ok : Json → Prop) (m : Model) : Json → Prop :=
  Writes Json.anything (m.record ok)

variable {m : Model}

/-- Models are read from each of their spellings, if all their numbers fit. -/
theorem reads (hm : m.Sized) :
    Reads ofJson? (Spells fun v => v.isPlain Declaration.room = true) m := by
  refine .record (record _) rfl (show fieldNames.Nodup by decide) (fun v => rfl) ?_
  rintro _ (_ | ⟨compilation, _ | ⟨assemblies, _ | ⟨trees, _ | ⟨symbols, ⟨⟩⟩⟩⟩⟩)
  simp [compilation.defaulted m.compilation.reads,
    assemblies.list fun a _ => a.reads, trees.list fun t ht => SyntaxTree.reads (hm.trees t ht),
    symbols.list fun s hs => Symbol.reads (hm.symbols s hs)]

/-- What a model is printed as is one of its spellings. -/
theorem spells_toJson (m : Model) : m.Spells ok m.toJson :=
  Json.writes_ofFields
    [(_, m.compilation.toJson), (_, Json.ofList AssemblyInfo.toJson m.assemblies),
      (_, Json.ofList SyntaxTree.toJson m.trees), (_, Json.ofList Symbol.toJson m.symbols)]
    (by
      simp only [List.forall_mem_cons]
      exact ⟨m.compilation.spells_toJson, Json.writesList_ofList AssemblyInfo.spells_toJson _,
        Json.writesList_ofList SyntaxTree.spells_toJson _,
        Json.writesList_ofList Symbol.spells_toJson _, List.forall_mem_nil _⟩)

/-- The text of a model is that of an object that describes it, and the model is read back from it
and from the text of every other such object. -/
theorem parse_forms (m : Model) (hm : m.Sized) :
    (∃ j, Json.parse? m.print = some j ∧ m.Spells (fun _ => False) j) ∧ parse m.print = .ok m ∧
      ∀ j, m.Spells (fun v => v.isPlain Declaration.room = true) j →
        parse j.render = .ok m ∧ ∀ text, Json.parse? text = some j → parse text = .ok m := by
  have hparse : ∀ j, m.Spells (fun v => v.isPlain Declaration.room = true) j →
      ∀ text, Json.parse? text = some j → parse text = .ok m := by
    intro j hj text htext
    simp [parse, htext, reads hm j hj]
  have hprint : Json.parse? m.print = some m.toJson := m.toJson.parse?_render
  refine ⟨⟨_, hprint, m.spells_toJson⟩, hparse _ m.spells_toJson _ hprint, fun j hj => ?_⟩
  exact ⟨hparse j hj _ j.parse?_render, hparse j hj⟩

/-- One class with one location. -/
def located : Model where
  symbols := [{ name := "a", kind := .classType, locations := [⟨⟨0⟩, ⟨1, 2, 3, 4⟩⟩] }]

/-- An object without what is empty, and with an unknown field inside the location and one beside
the locations. -/
def locatedForm (inside beside : Json) : Json :=
  .ofFields [("symbols", .array [.ofFields [
    ("name", .ofString "a"), ("kind", .ofString "class"), ("note", beside),
    ("locations", .array [.ofFields [
      ("tree", .ofNat 0), ("start_line", .ofNat 1), ("start_column", .ofNat 2),
      ("end_line", .ofNat 3), ("end_column", .ofNat 4), ("z", inside)]])]])]

theorem sized_located : located.Sized where
  trees := by simp [located]
  symbols := by
    intro s hs
    obtain rfl := List.mem_singleton.mp hs
    constructor <;> simp
    constructor <;> decide

theorem located_spells (inside beside : Json) (h : ok inside) :
    located.Spells ok (locatedForm inside beside) := by
  have hlocation : Declaration.Spells ok ⟨⟨0⟩, ⟨1, 2, 3, 4⟩⟩ (.ofFields [
      ("tree", .ofNat 0), ("start_line", .ofNat 1), ("start_column", .ofNat 2),
      ("end_line", .ofNat 3), ("end_column", .ofNat 4), ("z", inside)]) :=
    ⟨_, .refl _, .field rfl <| .field rfl <| .field rfl <| .field rfl <| .field rfl <|
      .extra (show "z" ∉ Declaration.fieldNames by decide) h .done⟩
  have hsymbol : Symbol.Spells ok
      { name := "a", kind := .classType, locations := [⟨⟨0⟩, ⟨1, 2, 3, 4⟩⟩] } (.ofFields [
      ("name", .ofString "a"), ("kind", .ofString "class"), ("note", beside),
      ("locations", .array [.ofFields [
        ("tree", .ofNat 0), ("start_line", .ofNat 1), ("start_column", .ofNat 2),
        ("end_line", .ofNat 3), ("end_column", .ofNat 4), ("z", inside)]])]) :=
    ⟨_, .refl _, .field rfl <| .field rfl <|
      .extra (show "note" ∉ Symbol.fieldNames by decide) trivial <|
      .omitted rfl <| .omitted rfl <| .omitted rfl <| .field (.cons hlocation .nil) <|
      .omitted rfl <| .omitted rfl <| .omitted rfl <| .omitted rfl <| .omitted rfl <|
      .omitted rfl <| .omitted rfl .done⟩
  exact ⟨_, .refl _, .omitted rfl <| .omitted rfl <| .omitted rfl <|
    .field (.cons hsymbol .nil) .done⟩

/-- No double holds it. -/
def huge : Json :=
  .number (.decimal false 1 400)

theorem parse_forms_located :
    located.Sized ∧ located.Spells (fun v => v.isPlain Declaration.room = true)
        (locatedForm .null huge) ∧
      parse located.print = .ok located ∧ parse (locatedForm .null huge).render = .ok located := by
  have hforms := parse_forms located sized_located
  have hspells : located.Spells (fun v => v.isPlain Declaration.room = true)
      (locatedForm .null huge) := located_spells .null huge rfl
  exact ⟨sized_located, hspells, hforms.2.1, (hforms.2.2 _ hspells).1⟩

/-- A field that a location does not know is read as a value nevertheless. -/
theorem parse_located_huge :
    located.Sized ∧ located.Spells Json.anything (locatedForm huge .null) ∧
      parse (locatedForm huge .null).render = .error .invalidModel := by
  refine ⟨sized_located, located_spells huge .null trivial, ?_⟩
  have hread : ofJson? (locatedForm huge .null) = none := by decide +kernel
  simp [parse, Json.parse?_render, hread]

end Model

end TrapFacts
