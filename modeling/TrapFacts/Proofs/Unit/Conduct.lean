import TrapFacts.Proofs.Engine.Permissions
import TrapFacts.Proofs.Unit.Standing

/-! What the programs of a unit make, and how they fail. -/

namespace TrapFacts

variable {m : Model} {scope : Scope} {unit : TrapUnit} {room bonus n : Nat} {inside : Bool}
  {recipe : Recipe} {id : SymbolId} {en : Entity} {l : Label} {α β : Type}

/-- A failure that a model can give rise to. None of them reads like the end of a unit, nor like a
complaint about a missing guard. -/
def Failure.Plain : Failure → Prop
  | .internal text _ _ => text.toList.head? ≠ some 'A' ∧ text.toList.head? ≠ some 'T'
  | .unknownSymbol _ => True
  | .unknownTree _ => True
  | _ => False

/-- A message that tells of the end of a unit, or of the limit. -/
def Message.Final (message : Message) : Prop :=
  (∃ name, message.text = "Aborted extraction of " ++ name) ∨
    ∃ max, message.cause = some (Failure.recursionLimit max).message

theorem head?_append {s : String} {c : Char} (h : s.toList.head? = some c) (t : String) :
    (s ++ t).toList.head? = some c := by
  rw [String.toList_append, List.head?_append, h]
  rfl

/-- The messages that tell of an end begin in a way that no other message does. -/
theorem Message.not_final {message : Message} (ht : message.text.toList.head? ≠ some 'A')
    (hc : ∀ cause, message.cause = some cause → cause.toList.head? ≠ some 'm') :
    ¬ message.Final := by
  intro hfinal
  unfold Message.Final at hfinal
  cases hfinal with
  | inl h =>
    obtain ⟨name, htext⟩ := h
    have hhead : "Aborted extraction of ".toList.head? = some 'A' := by decide
    exact ht (htext ▸ head?_append hhead name)
  | inr h =>
    obtain ⟨max, hcause⟩ := h
    have hhead : "maximum nesting depth of ".toList.head? = some 'm' := by decide
    exact hc _ hcause (head?_append (head?_append hhead _) _)

/-- A report of a failure that a model can give rise to tells of no end. -/
theorem Model.failureMessage_not_final (m : Model) {e : Failure} (he : e.Plain)
    (node : Option NodeId) (symbol : Option SymbolId) :
    ¬ (m.failureMessage e node symbol).Final := by
  have hattributed : ∀ (symbol : Option SymbolId) (message : Message), ¬ message.Final →
      ¬ (m.attributed symbol message).Final := by
    intro symbol message h
    cases symbol with
    | none => exact h
    | some id => exact h
  apply hattributed
  cases e with
  | internal text _ _ => exact Message.not_final he.1 (by simp [Message.error])
  | unknownSymbol | unknownTree =>
    refine Message.not_final (by simp [Message.error]) fun cause hc => ?_
    have hhead : "unknown ".toList.head? = some 'u' := by decide
    rw [← Option.some.inj hc]
    exact fun h => absurd ((head?_append hhead _).symm.trans h) (by decide)
  | recursionLimit | io | invalidModel | invalidConfig => exact he.elim

namespace Model

/-- One symbol refers to another one: the entity of the one is made after that of the other. -/
def Links (m : Model) (a b : SymbolId) : Prop :=
  ∃ s, m.symbol a = .ok s ∧ (s.containingType = some b ∨ s.containingNamespace = some b ∨
    s.constructedFrom? a = some b ∨ b ∈ s.typeArguments ∨ s.pointedAt = some b ∨
    s.returnType = some b ∨ ∃ p ∈ s.parameters, p.type = b)

/-- Which entities are made for another one's sake, before it. -/
def Needs (m : Model) : Recipe → Recipe → Prop
  | .file _, _ => False
  | .location none, needed => needed = .file ""
  | .location (some place), needed => ∃ tree, m.tree place.tree = .ok tree ∧
      needed = .file tree.path
  | .assembly _, needed => ∃ path, needed = .file path
  | .space id, needed => ∃ b, m.Links id b ∧ needed = .space b
  | .namedType id, needed | .pointer id, needed | .method id, needed =>
      ∃ b, m.Links id b ∧ (needed = .space b ∨ m.typeRecipe? b = some needed)

/-- Which entities descriptions make: places, types and methods. -/
def Offers (m : Model) (recipe : Recipe) : Prop :=
  (∃ place, recipe = .location place) ∨ (∃ id, m.typeRecipe? id = some recipe) ∨
    ∃ id s, m.symbol id = .ok s ∧ recipe = .method id

/-- Which files a unit makes entities of: those of the model's trees, and no others unless it is
an assembly's. -/
def Files (m : Model) (scope : Scope) (path : String) : Prop :=
  scope.isAssembly = true ∨ path = "" ∨ ∃ tree ∈ m.trees, tree.path = path

end Model

def Recipe.behavior : Recipe → Behavior
  | .file _ | .assembly _ | .space _ => .noScope
  | .location _ | .pointer _ => .optionalScope
  | .namedType _ | .method _ => .pushesScope

/-- Whether the descriptions of the entities of a recipe may make others. -/
def Recipe.IsDeep (scope : Scope) : Recipe → Prop
  | .namedType _ | .method _ => True
  | .assembly _ => scope.isAssembly = true
  | _ => False

/-- Only what opens a guard, and the assembly of its own unit, goes deep. -/
theorem Recipe.IsDeep.pushes_or_assembly (h : recipe.IsDeep scope) :
    recipe.behavior = .pushesScope ∨ scope.isAssembly = true ∧ ∃ name, recipe = .assembly name := by
  cases recipe with
  | namedType | method => exact .inl rfl
  | assembly name => exact .inr ⟨h, name, rfl⟩
  | _ => exact h.elim

def Entity.IsDeep (scope : Scope) : Entity → Prop
  | .namedType _ | .method _ => True
  | .assembly _ _ _ => scope.isAssembly = true
  | _ => False

theorem Entity.IsDeep.behavior (h : en.IsDeep scope) :
    en.behavior = .pushesScope ∨ en.behavior = .noScope ∧ scope.isAssembly = true := by
  cases en with
  | namedType | method => exact .inl rfl
  | assembly => exact .inr ⟨rfl, h⟩
  | _ => exact h.elim

/-- Which entities a unit makes on its own account. -/
def TrapUnit.Starts (m : Model) : TrapUnit → Recipe → Prop
  | .source tree, recipe => (∃ t, m.tree tree = .ok t ∧ recipe = .file t.path) ∨
      m.Offers recipe ∨ ∃ id s, m.symbol id = .ok s ∧ recipe = .space id
  | .assembly name, recipe => recipe = .assembly name
  | .compilation, recipe => ∃ path, recipe = .file path

/-- What a unit can make: entities of its files, and assemblies where the trap is that of one. -/
def Model.Has (m : Model) (scope : Scope) : Recipe → Prop
  | .file path => m.Files scope path
  | .assembly _ => scope.isAssembly = true
  | _ => True

/-- Permissions that are enough for a unit. -/
structure Permits (m : Model) (scope : Scope) (unit : TrapUnit) (room bonus : Nat)
    (may : Bool → Nat → Recipe → Prop) (limits : Nat → Prop) : Prop where
  grows : ∀ {inside n k recipe}, n ≤ k → may inside n recipe → may inside k recipe
  spare : ∀ {inside made recipe}, may inside (bonus * made) recipe → limits made
  files : ∀ {inside n path}, may inside n (.file path) → m.Files scope path
  needs : ∀ {inside n recipe needed}, may inside (n + 1) recipe → m.Needs recipe needed →
    may inside n needed
  /-- What a description makes that runs at once, in its own guard if it has one. -/
  offers : ∀ {n recipe offered}, may false (n + 1) recipe → recipe.IsDeep scope →
    m.Offers offered → may (!scope.isAssembly) (n + bonus * recipe.slot.objects) offered
  place : ∀ {n recipe place}, may false (n + 1) recipe → recipe.behavior = .pushesScope →
    may false (n + bonus * recipe.slot.objects) (.location place)
  /-- What a description makes that was queued. -/
  queued : ∀ {offered}, m.Offers offered → may (!scope.isAssembly) room offered
  queuedPlace : ∀ {place}, may false room (.location place)
  starts : ∀ {recipe}, unit.Starts m recipe → may false room recipe

/-- What a unit's programs may do, with permissions that are enough. -/
def Model.permissions (m : Model) (scope : Scope) (room bonus : Nat)
    (may : Bool → Nat → Recipe → Prop)
    (limits : Nat → Prop) : Permissions (.ofModel m scope) where
  room := room
  bonus := bonus
  may := may
  fails := Failure.Plain
  sends message := ¬ message.Final
  makes _ en := en.behavior ≠ .needsScope ∧
    ∀ path, en = .file path → ∃ raw, path = slashed raw ∧ m.Files scope raw
  limits := limits

namespace Model

section

variable {may : Recipe → Prop}

theorem plain_symbol {e : Failure} (h : m.symbol id = .error e) : e.Plain := by
  unfold symbol at h
  split at h
  · cases h
  · cases h
    trivial

theorem plain_tree {tree : TreeId} {e : Failure} (h : m.tree tree = .error e) : e.Plain := by
  unfold Model.tree at h
  split at h
  · cases h
  · cases h
    trivial

theorem plain_defines {e : Failure} (h : scope.defines m id = .error e) : e.Plain := by
  unfold Scope.defines at h
  split at h
  · next he =>
    cases h
    exact plain_symbol he
  · cases h

theorem files_of_tree {tree : TreeId} {t : SyntaxTree} (h : m.tree tree = .ok t) :
    m.Files scope t.path := by
  unfold Model.tree at h
  split at h
  · next hget =>
    cases h
    exact .inr (.inr ⟨_, List.mem_of_getElem? hget, rfl⟩)
  · cases h

theorem typeRecipe?_cases (h : m.typeRecipe? id = some recipe) :
    recipe = .pointer id ∨ recipe = .namedType id := by
  unfold typeRecipe? at h
  split at h
  · split at h
    · exact .inl (Option.some.inj h).symm
    · split at h
      · exact .inr (Option.some.inj h).symm
      · cases h
  · cases h

theorem has_of_typeRecipe? (h : m.typeRecipe? id = some recipe) : m.Has scope recipe := by
  rcases typeRecipe?_cases h with rfl | rfl <;> trivial

theorem has_of_offers (h : m.Offers recipe) : m.Has scope recipe := by
  rcases h with ⟨place, rfl⟩ | ⟨id, hr⟩ | ⟨id, s, -, rfl⟩
  · trivial
  · exact has_of_typeRecipe? hr
  · trivial

theorem has_of_starts {x : Extractor} (hs : unit.scope x m = .ok scope)
    (h : unit.Starts m recipe) : m.Has scope recipe := by
  cases unit with
  | source tree =>
    rcases h with ⟨t, ht, rfl⟩ | ho | ⟨id, s, -, rfl⟩
    · exact files_of_tree ht
    · exact has_of_offers ho
    · trivial
  | assembly name =>
    obtain rfl := h
    cases hs
    rfl
  | compilation =>
    obtain ⟨path, rfl⟩ := h
    refine .inl ?_
    simp only [TrapUnit.scope] at hs
    split at hs <;> cases hs <;> rfl

theorem Has.needs {needed : Recipe} (h : m.Has scope recipe) (hn : m.Needs recipe needed) :
    m.Has scope needed := by
  cases recipe with
  | file path => exact hn.elim
  | location place =>
    cases place with
    | none =>
      obtain rfl := hn
      exact .inr (.inl rfl)
    | some place =>
      obtain ⟨tree, ht, rfl⟩ := hn
      exact files_of_tree ht
  | assembly name =>
    obtain ⟨path, rfl⟩ := hn
    exact .inl h
  | space id =>
    obtain ⟨b, -, rfl⟩ := hn
    trivial
  | namedType | pointer | method =>
    obtain ⟨b, -, rfl | hr⟩ := hn
    · trivial
    · exact has_of_typeRecipe? hr

theorem typeRecipe?_eq {s : Symbol} (h : m.symbol id = .ok s) : m.typeRecipe? id =
    if s.kind = .pointer then some (.pointer id)
    else if s.kind.isType then some (.namedType id)
    else none := by
  simp only [typeRecipe?, h]

/-- To name a type takes permission for the type alone. -/
theorem typeLabel_keeps (h : ∀ recipe, m.typeRecipe? id = some recipe → may recipe) :
    (m.typeLabel id).Keeps may Failure.Plain fun _ => True := by
  refine .read (fun e => plain_symbol) fun s hs => ?_
  rw [typeRecipe?_eq hs] at h
  split
  · next hp => exact ⟨h _ (if_pos hp), fun _ => trivial⟩
  · next hp =>
    split
    · next ht => exact ⟨h _ (by rw [if_neg hp, if_pos ht]), fun _ => trivial⟩
    · simp [Failure.internalAt, Prog.Keeps, Failure.Plain]

theorem typeLabel?_keeps {symbol : Option SymbolId}
    (h : ∀ id recipe, symbol = some id → m.typeRecipe? id = some recipe → may recipe) :
    (m.typeLabel? symbol).Keeps may Failure.Plain fun _ => True := by
  cases symbol with
  | none => trivial
  | some id => exact (typeLabel_keeps (h id · rfl)).bind fun _ _ => trivial

theorem spaceLabel?_keeps {symbol : Option SymbolId}
    (h : ∀ id, symbol = some id → may (.space id)) :
    (spaceLabel? symbol).Keeps may Failure.Plain fun _ => True := by
  cases symbol with
  | none => trivial
  | some id => exact ⟨h id rfl, fun _ => trivial⟩

theorem typeArgumentFacts_keeps (h : ∀ recipe, m.Offers recipe → may recipe) (id : SymbolId)
    (l : Label) : (typeArgumentFacts m id l).Keeps may Failure.Plain fun _ => True := by
  refine .read (fun e => plain_symbol) fun s hs => ?_
  split
  · intro new
    cases new with
    | false => trivial
    | true =>
      refine .each fun (argument, index) _ => ?_
      have htype : (m.typeLabel argument).Keeps may Failure.Plain fun _ => True :=
        typeLabel_keeps fun recipe hr => h recipe (.inr (.inl ⟨argument, hr⟩))
      exact htype.bind fun _ _ => trivial
  · trivial

theorem locationFacts_keeps (h : ∀ recipe, m.Offers recipe → may recipe) (relation : String)
    (l : Label) (places : List Declaration) :
    (locationFacts relation l places).Keeps may Failure.Plain fun _ => True :=
  .each fun place _ => ⟨h _ (.inl ⟨some place, rfl⟩), fun _ => trivial⟩

theorem relatedFact_keeps (relation : String) (l : Label) (other : Option Label) :
    (relatedFact relation l other).Keeps may Failure.Plain fun _ => True := by
  cases other <;> trivial

theorem extractMember_keeps (h : ∀ recipe, m.Offers recipe → may recipe) (member : SymbolId) :
    (extractMember m member).Keeps may Failure.Plain fun _ => True := by
  refine .read (fun e => plain_symbol) fun s hs => ?_
  split
  · have htype : (m.typeLabel member).Keeps may Failure.Plain fun _ => True :=
      typeLabel_keeps fun recipe hr => h recipe (.inr (.inl ⟨member, hr⟩))
    exact htype.bind fun _ _ => trivial
  · split
    · exact ⟨h _ (.inr (.inr ⟨member, s, hs, rfl⟩)), fun _ => trivial⟩
    · refine ⟨?_, trivial⟩
      simp [Failure.Plain]

theorem declaredTypeFacts_keeps (h : ∀ recipe, m.Offers recipe → may recipe) (id : SymbolId)
    (l : Label) : (declaredTypeFacts m scope id l).Keeps may Failure.Plain fun _ => True := by
  refine .read (fun e => plain_defines) fun defined _ => ?_
  split
  · refine .read (fun e => plain_symbol) fun s hs => ?_
    refine (locationFacts_keeps h "type_location" l s.locations).bind fun _ _ => ?_
    exact .each fun member _ => ⟨extractMember_keeps h member, trivial⟩
  · trivial

/-- The description of a type makes only what is offered. -/
theorem namedTypeFacts_keeps (h : ∀ recipe, m.Offers recipe → may recipe) (t : NamedType)
    (l : Label) : (namedTypeFacts m scope t l).Keeps may Failure.Plain fun _ => True := by
  refine (relatedFact_keeps "parent_namespace" l t.space).bind fun _ _ => ?_
  refine (relatedFact_keeps "nested_types" l t.container).bind fun _ _ => ?_
  split
  · trivial
  · split
    · exact typeArgumentFacts_keeps h _ l
    · exact declaredTypeFacts_keeps h _ l

theorem methodLocationFacts_keeps (h : ∀ recipe, m.Offers recipe → may recipe) (f : Method)
    (places : List Declaration) (l : Label) :
    (methodLocationFacts m scope f places l).Keeps may Failure.Plain fun _ => True := by
  refine .read (fun e => plain_defines) fun defined _ => ?_
  split
  · exact locationFacts_keeps h _ l places
  · trivial

/-- The description of a method makes only what is offered. -/
theorem methodFacts_keeps (h : ∀ recipe, m.Offers recipe → may recipe) (f : Method) (l : Label) :
    (methodFacts m scope f l).Keeps may Failure.Plain fun _ => True := by
  refine (relatedFact_keeps "returns" l f.returnType).bind fun _ _ => ?_
  refine .read (fun e => plain_symbol) fun s hs => ?_
  have hparameters : (parameterFacts s.parameters f.parameters l).Keeps may Failure.Plain
      fun _ => True := .each fun _ _ _ => trivial
  refine hparameters.bind fun _ _ => ?_
  refine (typeArgumentFacts_keeps h f.declaringSymbol f.declaring).bind fun _ _ => ?_
  split
  · split
    · refine ⟨?_, trivial⟩
      simp [Failure.Plain]
    · exact methodLocationFacts_keeps h f s.locations l
  · exact methodLocationFacts_keeps h f s.locations l

theorem fileFacts_keeps {fails : Failure → Prop} (path : String) (l : Label) :
    (fileFacts m scope path l).Keeps may fails fun _ => True := by
  have hfile : (Prog.fact "files" [.label l, .text path]).Keeps may fails fun _ => True := trivial
  refine hfile.bind fun _ _ => ?_
  split
  · split <;> trivial
  · trivial

/-- In the trap of an assembly, its types are made for its own description. -/
theorem assemblyFacts_keeps
    (h : scope.isAssembly = true → ∀ recipe, m.Offers recipe → may recipe) (name : String)
    (file l : Label) :
    (assemblyFacts m scope name file l).Keeps may Failure.Plain fun _ => True := by
  have hassembly : (Prog.fact "assemblies" [.label l, .label file, .text name]).Keeps may
      Failure.Plain fun _ => True := trivial
  refine hassembly.bind fun _ _ => ?_
  split
  · next ho =>
    have hs : scope.isAssembly = true := by
      cases scope with
      | source => cases ho
      | assembly => rfl
    refine .each fun id _ => .read (fun e => plain_symbol) fun s _ => ?_
    split
    · have htype : (m.typeLabel id).Keeps may Failure.Plain fun _ => True :=
        typeLabel_keeps fun recipe hr => h hs recipe (.inr (.inl ⟨id, hr⟩))
      exact ⟨htype.bind fun _ _ => trivial, trivial⟩
    · trivial
  · trivial

/-- Descriptions that go deep make what is offered, and others make nothing. -/
theorem facts_keeps (h : en.IsDeep scope → ∀ recipe, m.Offers recipe → may recipe) (l : Label) :
    (facts m scope en l).Keeps may Failure.Plain fun _ => True := by
  cases en with
  | file path => exact fileFacts_keeps path l
  | location file span => trivial
  | assembly name path file => exact assemblyFacts_keeps h name file l
  | space id name parent => cases parent <;> trivial
  | namedType t => exact namedTypeFacts_keeps (h trivial) t l
  | pointer id pointee => trivial
  | method f => exact methodFacts_keeps (h trivial) f l
  | custom c => trivial

end

section

variable {may : Bool → Nat → Recipe → Prop} {limits : Nat → Prop}
  (hp : Permits m scope unit room bonus may limits)

include hp

/-- What a recipe makes is described within its permissions, now or from the queue. -/
theorem admits (hm : may inside (n + 1) recipe) (hb : en.behavior = recipe.behavior)
    (hdeep : en.IsDeep scope ↔ recipe.IsDeep scope)
    (hf : ∀ path, en = .file path → ∃ raw, path = slashed raw ∧ m.Files scope raw) :
    (m.permissions scope room bonus may limits).Admits recipe.slot inside
      (n + bonus * recipe.slot.objects) en (facts m scope en) := by
  -- Where the description may make something, a guard is open unless the trap has none.
  have hcovers : en.IsDeep scope →
      (World.ofModel m scope).covers false en = !scope.isAssembly := by
    intro hd
    rcases hd.behavior with hb | ⟨hb, ha⟩
    · simp [World.covers, World.ofModel, hb]
    · simp [World.covers, World.ofModel, hb, ha]
  have hfree : en.behavior ≠ .needsScope := by
    rw [hb]
    cases recipe <;> simp [Recipe.behavior]
  refine ⟨⟨hfree, hf⟩, fun l => ?_⟩
  split
  · refine ⟨fun _ => hp.queuedPlace, facts_keeps (fun hd offered ho => ?_) l⟩
    rw [hcovers hd]
    exact hp.queued ho
  · next hnow =>
    have hoff : en.behavior = .pushesScope ∨ en.behavior = .noScope → inside = false := by
      intro hbehavior
      by_contra hin
      exact hnow (World.plan_deferred.2 ⟨by simpa using hin, hbehavior.symm⟩)
    refine ⟨fun hpushes => ?_, facts_keeps (fun hd offered ho => ?_) l⟩
    · obtain rfl := hoff (.inl hpushes)
      exact hp.place hm (hb ▸ hpushes)
    · obtain rfl := hoff (hd.behavior.imp id And.left)
      rw [hcovers hd]
      exact hp.offers hm (hdeep.1 hd) ho

/-- A recipe of no file makes what is described within its permissions. -/
theorem admits_made (hm : may inside (n + 1) recipe) (hb : en.behavior = recipe.behavior)
    (hdeep : en.IsDeep scope ↔ recipe.IsDeep scope) (hf : ∀ path, en ≠ .file path) :
    (m.permissions scope room bonus may limits).Admits recipe.slot inside
      (n + bonus * recipe.slot.objects) en (facts m scope en) :=
  admits hp hm hb hdeep fun path hen => absurd hen (hf path)

theorem typeLabel_needed (hm : may inside (n + 1) recipe)
    (h : ∀ needed, m.typeRecipe? id = some needed → m.Needs recipe needed) :
    (m.typeLabel id).Keeps (may inside n) Failure.Plain fun _ => True :=
  typeLabel_keeps fun needed hr => hp.needs hm (h needed hr)

theorem typeLabel?_needed {symbol : Option SymbolId} (hm : may inside (n + 1) recipe)
    (h : ∀ b, symbol = some b → ∀ needed, m.typeRecipe? b = some needed →
      m.Needs recipe needed) :
    (m.typeLabel? symbol).Keeps (may inside n) Failure.Plain fun _ => True :=
  typeLabel?_keeps fun b needed hb hr => hp.needs hm (h b hb needed hr)

theorem namedType_keeps (hm : may inside (n + 1) (.namedType id)) :
    (m.factory (.namedType id)).Keeps (may inside n) Failure.Plain fun en =>
      (m.permissions scope room bonus may limits).Admits (Recipe.namedType id).slot inside
        (n + bonus * (Recipe.namedType id).slot.objects) en (facts m scope en) := by
  refine .read (fun e => plain_symbol) fun s hs => ?_
  have hlinked : ∀ {b}, m.Links id b → ∀ needed, m.typeRecipe? b = some needed →
      m.Needs (.namedType id) needed := fun hl needed hr => ⟨_, hl, .inr hr⟩
  refine (typeLabel?_needed hp hm fun b hb => hlinked ⟨s, hs, by simp [hb]⟩).bind
    fun container _ => ?_
  have hspace : (spaceLabel? (if container.isNone then s.containingNamespace else none)).Keeps
      (may inside n) Failure.Plain fun _ => True := by
    refine spaceLabel?_keeps fun b hb => hp.needs hm ⟨b, ⟨s, hs, ?_⟩, .inl rfl⟩
    split at hb
    · exact .inr (.inl hb)
    · cases hb
  refine hspace.bind fun _ _ => ?_
  refine (typeLabel?_needed hp hm fun b hb => hlinked ⟨s, hs, by simp [hb]⟩).bind
    fun definition _ => ?_
  have harguments : (Prog.collect (if definition.isSome then s.typeArguments else [])
      m.typeLabel).Keeps (may inside n) Failure.Plain fun _ => True := by
    refine .collect fun a ha => typeLabel_needed hp hm (hlinked ⟨s, hs, ?_⟩)
    split at ha
    · simp [ha]
    · cases ha
  exact harguments.bind fun _ _ => admits_made hp hm rfl .rfl (by simp)

theorem method_keeps (hm : may inside (n + 1) (.method id)) :
    (m.factory (.method id)).Keeps (may inside n) Failure.Plain fun en =>
      (m.permissions scope room bonus may limits).Admits (Recipe.method id).slot inside
        (n + bonus * (Recipe.method id).slot.objects) en (facts m scope en) := by
  refine .read (fun e => plain_symbol) fun s hs => ?_
  have hlinked : ∀ {b}, m.Links id b → ∀ needed, m.typeRecipe? b = some needed →
      m.Needs (.method id) needed := fun hl needed hr => ⟨_, hl, .inr hr⟩
  split
  · simp [Failure.internalAt, Prog.Keeps, Failure.Plain]
  · next owner howner =>
    refine (typeLabel_needed hp hm (hlinked ⟨s, hs, by simp [howner]⟩)).bind fun _ _ => ?_
    refine (typeLabel?_needed hp hm fun b hb => hlinked ⟨s, hs, by simp [hb]⟩).bind fun _ _ => ?_
    have hparameters : (Prog.collect s.parameters fun p => m.typeLabel p.type).Keeps
        (may inside n) Failure.Plain fun _ => True := by
      refine .collect fun p hparameter => typeLabel_needed hp hm (hlinked ⟨s, hs, ?_⟩)
      have htype : ∃ q ∈ s.parameters, q.type = p.type := ⟨p, hparameter, rfl⟩
      simp [htype]
    exact hparameters.bind fun _ _ => admits_made hp hm rfl .rfl (by simp)

/-- A factory makes only what is needed for its entity, one level deeper. -/
theorem factory_keeps (hm : may inside (n + 1) recipe) :
    (m.factory recipe).Keeps (may inside n) Failure.Plain fun en =>
      (m.permissions scope room bonus may limits).Admits recipe.slot inside
        (n + bonus * recipe.slot.objects) en (facts m scope en) := by
  cases recipe with
  | file path =>
    refine admits hp hm rfl .rfl fun _ hen => ?_
    exact ⟨path, (Entity.file.inj hen).symm, hp.files hm⟩
  | location place =>
    cases place with
    | none => exact ⟨hp.needs hm rfl, fun _ => admits_made hp hm rfl .rfl (by simp)⟩
    | some place =>
      refine .read (fun e => plain_tree) fun tree ht => ?_
      exact ⟨hp.needs hm ⟨tree, ht, rfl⟩, fun _ => admits_made hp hm rfl .rfl (by simp)⟩
  | assembly name =>
    exact fun file => ⟨hp.needs hm ⟨_, rfl⟩, fun _ => admits_made hp hm rfl .rfl (by simp)⟩
  | space id =>
    refine .read (fun e => plain_symbol) fun s hs => ?_
    have hspace : (spaceLabel? s.containingNamespace).Keeps (may inside n) Failure.Plain
        fun _ => True :=
      spaceLabel?_keeps fun b hb => hp.needs hm ⟨b, ⟨s, hs, by simp [hb]⟩, rfl⟩
    exact hspace.bind fun _ _ => admits_made hp hm rfl .rfl (by simp)
  | namedType id => exact namedType_keeps hp hm
  | pointer id =>
    refine .read (fun e => plain_symbol) fun s hs => ?_
    split
    · simp [Failure.internalAt, Prog.Keeps, Failure.Plain]
    · next pointee hpointee =>
      have hpointed : (m.typeLabel pointee).Keeps (may inside n) Failure.Plain fun _ => True :=
        typeLabel_needed hp hm fun _ hr => ⟨pointee, ⟨s, hs, by simp [hpointee]⟩, .inr hr⟩
      exact hpointed.bind fun _ _ => admits_made hp hm rfl .rfl (by simp)
  | method id => exact method_keeps hp hm

/-- With permissions that are enough, a unit keeps to its permissions. -/
theorem permissions_hold : (m.permissions scope room bonus may limits).Holds where
  minor := by
    intro e he
    cases e <;> simp_all [permissions, Failure.Plain, Failure.isFatal]
  grows := hp.grows
  spare := hp.spare
  factory hm := factory_keeps hp hm
  report he node symbol := m.failureMessage_not_final he node symbol
  collision key := Message.not_final (by simp [Message.warning]) (by simp [Message.warning])
  free h := h.1

omit hp in
theorem visitSymbol_keeps
    (h : ∀ recipe, (m.Offers recipe ∨ ∃ id s, m.symbol id = .ok s ∧ recipe = .space id) →
      may inside n recipe) (depth : Nat) (id : SymbolId) :
    (visitSymbol m scope depth id).Keeps (may inside n) Failure.Plain fun _ => True := by
  induction depth generalizing id with
  | zero => trivial
  | succ depth ih =>
    refine .read (fun e => plain_symbol) fun s hs => ?_
    split
    · refine ⟨h _ (.inr ⟨id, s, hs, rfl⟩), fun _ => ?_⟩
      refine .each fun member _ => .read (fun e => plain_defines) fun defined _ => ?_
      split
      · exact ⟨ih member, trivial⟩
      · trivial
    · split
      · have htype : (m.typeLabel id).Keeps (may inside n) Failure.Plain fun _ => True :=
          typeLabel_keeps fun recipe hr => h recipe (.inl (.inr (.inl ⟨id, hr⟩)))
        exact htype.bind fun _ _ => trivial
      · split
        · exact ⟨h _ (.inl (.inr (.inr ⟨id, s, hs, rfl⟩))), fun _ => trivial⟩
        · refine ⟨?_, trivial⟩
          simp [Failure.Plain]

/-- The program of a unit makes what its tree or its assembly offers. -/
theorem root_keeps : (unit.root m scope).Keeps (may false room) Failure.Plain fun _ => True := by
  cases unit with
  | source tree =>
    refine .read (fun e => plain_tree) fun t ht => ?_
    refine ⟨hp.starts (.inl ⟨t, ht, rfl⟩), fun _ => .each fun member _ => ?_⟩
    exact ⟨visitSymbol_keeps (fun recipe hr => hp.starts (.inr hr)) _ member, trivial⟩
  | assembly name => exact ⟨hp.starts rfl, fun _ => trivial⟩
  | compilation =>
    have hfiles : ∀ relation l paths, (compiledFileFacts relation l paths).Keeps (may false room)
        Failure.Plain fun _ => True :=
      fun relation l paths => .each fun indexed _ => ⟨hp.starts ⟨indexed.1, rfl⟩, fun _ => trivial⟩
    have hextract : (extractCompilation m).Keeps (may false room) Failure.Plain fun _ => True := by
      intro l
      have hargs : (Prog.each m.compilation.args.zipIdx fun indexed => Prog.fact "compilation_args"
          [.label l, .index indexed.2, .text indexed.1]).Keeps (may false room) Failure.Plain
          fun _ => True := .each fun _ _ => trivial
      refine hargs.bind fun _ _ => ?_
      refine (hfiles _ l _).bind fun _ _ => ?_
      exact (hfiles _ l _).bind fun _ _ => trivial
    exact hextract.bind fun _ _ => trivial

/-- How a unit ends: by its permissions, unless more waits than there is a budget for. -/
theorem runIn_ends (x : Extractor) (budget : Nat) (hx : x.config.maxRecursionDepth = room) :
    let ps := m.permissions scope room bonus may limits
    let r := unit.runIn m scope x budget
    ps.Ends (fun _ => True) { extractor := x } r ∨ ps.GivesUp budget { extractor := x } r :=
  Permissions.run_ends (permissions_hold hp) budget (Permissions.kept_fresh x) hx rfl
    (root_keeps hp)

end

end Model

/-- What a unit has it may make, however deep. -/
theorem TrapUnit.permits_all {x : Extractor} (hs : unit.scope x m = .ok scope) (room : Nat) :
    Permits m scope unit room 0 (fun _ _ => m.Has scope) (fun _ => True) where
  grows _ h := h
  spare _ := trivial
  files h := h
  needs h hn := h.needs hn
  offers _ _ ho := Model.has_of_offers ho
  place _ _ := trivial
  queued ho := Model.has_of_offers ho
  queuedPlace := trivial
  starts h := Model.has_of_starts hs h

end TrapFacts
