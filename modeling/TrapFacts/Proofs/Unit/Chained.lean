import TrapFacts.Proofs.Engine.Limit
import TrapFacts.Proofs.Unit.Aborted
import TrapFacts.Proofs.Unit.Shallow

/-! In the trap of an assembly descriptions nest as deep as members lead from one type to another,
so no limit is high enough for all chains of them. -/

namespace TrapFacts

variable {m : Model} {scope : Scope} {x : Extractor} {cx : Context} {i room methods : Nat}
  {drain : Nat → Context → Reply Unit} {en : Entity} {early early' : Slot → Prop} {path : String}

/-- What it takes to make the place of what is not in the source: a place and its file. Besides
these, only what came earlier is known. -/
def Model.placing (m : Model) (scope : Scope) (early : Slot → Prop) : Permissions (.ofModel m scope)
    where
  room := 0
  bonus := 0
  may _ _ recipe := recipe = .location none ∨ ∃ path, recipe = .file path
  fails _ := False
  sends _ := True
  makes slot en := en.behavior ≠ .needsScope ∧
    (slot = .value ∧ (en.ending? = some "le" ∨ en.ending? = some ",0") ∨ early slot)
  limits _ := True

namespace Model

/-- The permissions hold: besides its file, a place needs nothing to be made before. -/
theorem placing_holds (m : Model) (scope : Scope) (early : Slot → Prop) :
    (m.placing scope early).Holds where
  minor h := h.elim
  grows _ h := h
  spare _ := trivial
  report h := h.elim
  collision _ := trivial
  free h := h.1
  factory := by
    rintro inside credit recipe (rfl | ⟨path, rfl⟩)
    · refine ⟨.inr ⟨"", rfl⟩, fun c => ⟨⟨by simp [Entity.behavior], .inl ⟨rfl, .inr rfl⟩⟩, ?_⟩⟩
      intro l
      rw [if_neg (by simp [Entity.behavior, Behavior.plan])]
      exact ⟨by simp [Entity.behavior], trivial⟩
    · refine ⟨⟨by simp [Entity.behavior], .inl ⟨rfl, .inl rfl⟩⟩, fun l => ?_⟩
      have hdescribes : ∀ inside k, (m.placing scope early).Describes inside k
          (.file (slashed path)) (facts m scope (.file (slashed path)) l) := fun _ _ =>
        ⟨by simp [Entity.behavior], fileFacts_keeps _ l⟩
      split <;> exact hdescribes _ _

variable (h : (m.placing scope early).Kept cx)

include h

theorem kept_mono (hle : ∀ slot, early slot → early' slot) : (m.placing scope early').Kept cx where
  events e he := by
    have hallows := h.events e he
    cases e with
    | created slot c => exact ⟨hallows.1, hallows.2.imp_right (hle slot)⟩
    | _ => exact hallows
  queue a ha := by
    obtain ⟨en, l, body, hwork, hd⟩ := h.queue a ha
    exact ⟨en, l, body, hwork, hd.place, hd.body⟩
  bare := h.bare
  same hs := by
    obtain ⟨made, ⟨hfree, hmade⟩, hrender⟩ := h.same hs
    exact ⟨made, ⟨hfree, hmade.imp_right (hle _)⟩, hrender⟩

/-- What is not early is in no cache. -/
theorem unknown_object {type : EntityType} {source : Source}
    (hnew : ¬ early (.object type source)) : cx.known? (.object type source) = none := by
  cases hknown : cx.known? (.object type source) with
  | none => rfl
  | some c =>
    have hsame : cx.same? (.object type source) (.file "") = some c := hknown
    obtain ⟨made, ⟨-, ⟨hvalue, -⟩ | hearly⟩, -⟩ := h.same hsame
    · cases hvalue
    · exact absurd hearly hnew

omit h in
theorem unknown_assembly {name file : String} {f : Label}
    (h : (m.placing scope fun _ => False).Kept cx) :
    cx.same? .value (.assembly name file f) = none := by
  cases hsame : cx.same? .value (.assembly name file f) with
  | none => rfl
  | some c =>
    obtain ⟨made, ⟨-, ⟨-, hending⟩ | hearly⟩, hrender⟩ := h.same hsame
    · rcases hending with hending | hending
      all_goals exact absurd (Entity.ending_eq (hrender rfl) hending rfl) (by decide)
    · exact hearly.elim

end Model

/-- The slots of the first symbols, and of all that is told apart by its key. -/
def Chain.before (n : Nat) : Slot → Prop
  | .value => True
  | .object _ source => ∃ id, source = .symbol id ∧ id.index < n

/-- Classes of an assembly, each but the last with a method that returns the next one. -/
def chain (methods : Nat) : Model where
  assemblies := [{ name := "a", path := "a.dll" }]
  symbols := (List.range (2 * methods + 1)).map fun k =>
    if k % 2 = 0 then
      { name := "C" ++ toString k, kind := .classType, containingAssembly := some "a"
        members := if k < 2 * methods then [⟨k + 1⟩] else [] }
    else
      { name := "f", kind := .method, containingAssembly := some "a"
        containingType := some ⟨k - 1⟩, returnType := some ⟨k + 1⟩ }

namespace Chain

theorem symbol_class (hi : i ≤ methods) : (chain methods).symbol ⟨2 * i⟩ = .ok
    { name := "C" ++ toString (2 * i), kind := .classType, containingAssembly := some "a"
      members := if i < methods then [⟨2 * i + 1⟩] else [] } := by
  have hin : 2 * i < 2 * methods + 1 := by omega
  simp [Model.symbol, chain, List.getElem?_range hin]

theorem symbol_method (hi : i < methods) : (chain methods).symbol ⟨2 * i + 1⟩ = .ok
    { name := "f", kind := .method, containingAssembly := some "a"
      containingType := some ⟨2 * i⟩, returnType := some ⟨2 * i + 2⟩ } := by
  have hin : 2 * i + 1 < 2 * methods + 1 := by omega
  have hodd : (2 * i + 1) % 2 = 1 := by omega
  simp [Model.symbol, chain, List.getElem?_range hin, hodd]

def classEntity (i : Nat) : Entity :=
  .namedType {
    symbol := ⟨2 * i⟩, kind := .classType, name := "C" ++ toString (2 * i), space := none
    container := none, definition := none, arguments := [], location := none }

theorem factory_class (hi : i ≤ methods) :
    (chain methods).factory (.namedType ⟨2 * i⟩) = .pure (classEntity i) := by
  simp only [Model.factory, Model.makeNamedType, symbol_class hi]
  rfl

/-- To name a class of the chain is to make it. -/
theorem typeLabel_class (hi : i ≤ methods) : (chain methods).typeLabel ⟨2 * i⟩ =
    (Prog.entity (.namedType ⟨2 * i⟩)).bind fun c => .pure c.label := by
  simp only [Model.typeLabel, symbol_class hi]
  rfl

/-- A method is made after its class and what it returns. -/
theorem factory_method (hi : i < methods) : ∃ next : Created → Created → Prog Entity,
    (chain methods).factory (.method ⟨2 * i + 1⟩) =
      (Prog.entity (.namedType ⟨2 * i⟩)).bind fun owner =>
        (Prog.entity (.namedType ⟨2 * (i + 1)⟩)).bind (next owner) := by
  let made (declaring returned : Label) : Entity := .method {
    symbol := ⟨2 * i + 1⟩, kind := .method, name := "f", declaringSymbol := ⟨2 * i⟩, declaring
    returnType := some returned, parameters := [], location := none }
  have hreturn : (chain methods).typeLabel ⟨2 * i + 2⟩ = _ := typeLabel_class hi
  refine ⟨fun owner returned => .pure (made owner.label returned.label), ?_⟩
  simp only [Model.factory, Model.makeMethod, symbol_method hi]
  change ((chain methods).typeLabel ⟨2 * i⟩).bind (fun declaring =>
    (((chain methods).typeLabel ⟨2 * i + 2⟩).bind fun returned => .pure (some returned)).bind _) = _
  rw [typeLabel_class (Nat.le_of_lt hi), hreturn]
  rfl

/-- The description of a class makes its method. -/
theorem facts_class (path : String) (hi : i < methods) (l : Label) : ∃ t,
    facts (chain methods) (.assembly "a" path) (classEntity i) l =
      .emit t (.attempt none (some ⟨2 * i + 1⟩)
        ((Prog.entity (.method ⟨2 * i + 1⟩)).bind fun _ => .pure ()) (.pure ())) := by
  have hdefines : (Scope.assembly "a" path).defines (chain methods) ⟨2 * i⟩ = .ok true := by
    simp [Scope.defines, Scope.owns, symbol_class (Nat.le_of_lt hi)]
  have hmember : extractMember (chain methods) ⟨2 * i + 1⟩ =
      (Prog.entity (.method ⟨2 * i + 1⟩)).bind fun _ => .pure () := by
    simp only [extractMember, symbol_method hi]
    rfl
  refine ⟨⟨"types", [.label l, .index 1, .text ("C" ++ toString (2 * i))]⟩, ?_⟩
  simp only [facts, classEntity, namedTypeFacts, declaredTypeFacts, hdefines,
    symbol_class (Nat.le_of_lt hi), if_pos hi, ← hmember]
  rfl

/-- The description of the assembly makes the first class. -/
theorem facts_assembly (methods : Nat) (file path : String) (f l : Label) : ∃ t rest,
    facts (chain methods) (.assembly "a" path) (.assembly "a" file f) l =
      .emit t (.attempt none (some ⟨2 * 0⟩)
        ((Prog.entity (.namedType ⟨2 * 0⟩)).bind fun _ => .pure ()) rest) := by
  obtain ⟨others, hsymbols⟩ :
      ∃ others, (chain methods).assemblySymbols "a" = ⟨2 * 0⟩ :: others := by
    simp [Model.assemblySymbols, chain, List.range_succ_eq_map]
  have htype : (chain methods).typeLabel ⟨2 * 0⟩ = _ := typeLabel_class (Nat.zero_le methods)
  have hsymbol := symbol_class (Nat.zero_le methods)
  refine ⟨⟨"assemblies", [.label l, .label f, .text "a"]⟩, ?_⟩
  simp only [facts, assemblyFacts, ownsAssembly, hsymbols, Prog.each, hsymbol, htype]
  exact ⟨_, rfl⟩

/-- What the trap of the assembly is extracted against. -/
abbrev world (methods : Nat) (path : String) : World :=
  .ofModel (chain methods) (.assembly "a" path)

/-- Of the symbols none but the first ones have entities so far, and there is so much room left. -/
structure Reached (methods : Nat) (path : String) (n room : Nat) (cx : Context) : Prop where
  kept : ((chain methods).placing (.assembly "a" path) (before n)).Kept cx
  room : cx.room = room

namespace Reached

variable {n n' : Nat} {type : EntityType} {slot : Slot} (h : Reached methods path n room cx)

include h

theorem unknown (hle : n ≤ n') : cx.known? (.object type (.symbol ⟨n'⟩)) = none := by
  refine Model.unknown_object h.kept ?_
  rintro ⟨id, hid, hlt⟩
  obtain rfl := Source.symbol.inj hid
  exact absurd hlt (Nat.not_lt.2 hle)

theorem mono (hle : n ≤ n') : Reached methods path n' room cx := by
  refine ⟨Model.kept_mono h.kept fun slot hslot => ?_, h.room⟩
  cases slot with
  | value => trivial
  | object =>
    obtain ⟨id, hid, hlt⟩ := hslot
    exact ⟨id, hid, Nat.lt_of_lt_of_le hlt hle⟩

end Reached

/-- One level deeper there is one less to spend on the rest of the chain. -/
theorem Reached.enter {n : Nat} (h : Reached methods path n (room + 1) cx) (slot : Slot) :
    Reached methods path n room (cx.enter slot) :=
  ⟨h.kept.enter slot, room_enter h.room⟩

/-- What follows the place of what is not in the source meets the limit, or the place does. -/
theorem place_meets {n : Nat} {next : Created → Context → Reply Unit}
    (h : Reached methods path n room cx)
    (hnext : ∀ c cx₁, Reached methods path n room cx₁ → Frame cx cx₁ → (next c cx₁).MeetsLimit) :
    (((world methods path).runWithin drain room Created (.entity (.location none)) cx).andThen
      next).MeetsLimit := by
  have hholds := Model.placing_holds (chain methods) (.assembly "a" path) (before n)
  have hplace : (Prog.entity (.location none)).Keeps
      (((chain methods).placing (.assembly "a" path) (before n)).Grants cx) (fun _ => False)
      fun _ => True := ⟨.inl rfl, fun _ => trivial⟩
  have hends := (Permissions.runWithin_binds hholds drain room).ends hplace h.room h.kept
  exact hends.meets (fun _ he => he) fun c cx₁ hk hf _ => hnext c cx₁ ⟨hk, hf.room.trans h.room⟩ hf

section

variable (hi : i < methods) (hmethod : ∀ {cx c}, Reached methods path (2 * i + 1) room cx →
  cx.known? (Recipe.namedType ⟨2 * i⟩).slot = some c →
  (world methods path).TooDeep drain room (.method ⟨2 * i + 1⟩) cx)

include hi hmethod

/-- The description of a class meets the limit if its method does. -/
theorem describe_meets {c : Created} (h : Reached methods path (2 * i + 1) room cx)
    (hknown : cx.known? (Recipe.namedType ⟨2 * i⟩).slot = some c) (l : Label) :
    ((world methods path).describe (fun α p cx => (world methods path).runWithin drain room α p cx)
      (classEntity i) l (facts (chain methods) (.assembly "a" path) (classEntity i) l)
      cx).MeetsLimit := by
  have ⟨t, hbody⟩ := facts_class path hi l
  rw [hbody]
  apply World.describe_meets
  rw [World.runWithin_emit]
  apply World.attempt_meets
  apply World.bind_meets
  exact hmethod ⟨(h.kept.populating _ l).deed (.emit _ t) rfl, h.room⟩ hknown

/-- A class takes too many levels if its method does, which is made while the class is described. -/
theorem class_tooDeep (h : Reached methods path (2 * i) (room + 1) cx) :
    (world methods path).TooDeep drain (room + 1) (.namedType ⟨2 * i⟩) cx := by
  let slot : Slot := (Recipe.namedType ⟨2 * i⟩).slot
  let cx₁ := cx.enter slot
  let cx₂ := (cx₁.introduce slot (classEntity i)).2
  have hholds := Model.placing_holds (chain methods) (.assembly "a" path) (before (2 * i + 1))
  have hnew : cx₁.same? slot (classEntity i) = none := h.unknown (Nat.le_refl (2 * i))
  have hfree : (classEntity i).behavior ≠ .needsScope := by simp [classEntity, Entity.behavior]
  have h₁ : Reached methods path (2 * i + 1) room cx₁ := (h.enter slot).mono (Nat.le_succ _)
  have hmade : (world methods path).runWithin drain room Entity
      ((chain methods).factory (.namedType ⟨2 * i⟩)) cx₁ = ⟨.done (classEntity i), cx₁⟩ := by
    rw [factory_class (Nat.le_of_lt hi)]
    cases room <;> rfl
  have h₂ : Reached methods path (2 * i + 1) room cx₂ :=
    ⟨h₁.kept.introduce hholds ⟨hfree, .inr ⟨⟨2 * i⟩, rfl, Nat.lt_succ_self _⟩⟩,
      (Frame.introduce hnew).room.trans h₁.room⟩
  obtain ⟨c, hknown⟩ : ∃ c, cx₂.same? slot (classEntity i) = some c := by
    rw [Context.same?_introduce, if_pos ⟨rfl, fun _ => rfl⟩]
    exact ⟨_, rfl⟩
  refine World.tooDeep_succ hnew ?_
  change (((world methods path).runWithin drain room Entity
    ((chain methods).factory (.namedType ⟨2 * i⟩)) cx₁).andThen _).MeetsLimit
  rw [hmade]
  refine World.settle_meets hnew rfl (h₁.kept.bare rfl) hfree (World.populate_meets rfl rfl ?_)
  exact place_meets h₂ fun _ _ h₃ hf => describe_meets hi hmethod h₃ (hf.same hknown) _

end

/-- A method takes too many levels if the class that it returns does: its own class is known. -/
theorem method_tooDeep {c : Created} (hi : i < methods)
    (h : Reached methods path (2 * i + 1) (room + 1) cx)
    (hknown : cx.known? (Recipe.namedType ⟨2 * i⟩).slot = some c)
    (hclass : ∀ {cx}, Reached methods path (2 * (i + 1)) room cx →
      (world methods path).TooDeep drain room (.namedType ⟨2 * (i + 1)⟩) cx) :
    (world methods path).TooDeep drain (room + 1) (.method ⟨2 * i + 1⟩) cx := by
  let slot : Slot := (Recipe.method ⟨2 * i + 1⟩).slot
  have ⟨next, hfactory⟩ := factory_method hi
  have h₁ := (h.enter slot).mono (Nat.le_succ (2 * i + 1))
  refine World.tooDeep_succ (h.unknown (Nat.le_refl _)) (Reply.MeetsLimit.andThen ?_)
  change ((world methods path).runWithin drain room Entity
    ((chain methods).factory (.method ⟨2 * i + 1⟩)) (cx.enter slot)).MeetsLimit
  rw [hfactory]
  have howner : (world methods path).runWithin drain room Created (.entity (.namedType ⟨2 * i⟩))
      (cx.enter slot) = ⟨.done c, (cx.enter slot).log (.served _ c)⟩ :=
    World.runWithin_known hknown
  refine World.bind_meets_next howner (World.bind_meets (hclass ⟨?_, h₁.room⟩))
  exact h₁.kept.log trivial

/-- Where a chain goes on for longer than there is room, a class takes too many levels. -/
theorem tooDeep (drain : Nat → Context → Reply Unit) (hroom : 2 * i + room ≤ 2 * methods)
    (h : Reached methods path (2 * i) room cx) :
    (world methods path).TooDeep drain room (.namedType ⟨2 * i⟩) cx := by
  -- Two levels lead from a class to the next one.
  induction room using Nat.twoStepInduction generalizing i cx with
  | zero => exact World.tooDeep_zero (h.unknown (Nat.le_refl _))
  | one =>
    refine class_tooDeep (by omega) (fun h₁ _ => ?_) h
    exact World.tooDeep_zero (h₁.unknown (Nat.le_refl _))
  | more room ih _ =>
    have hi : i < methods := by omega
    refine class_tooDeep hi (fun h₁ hknown => ?_) h
    exact method_tooDeep hi h₁ hknown fun h₂ => ih (by omega) h₂

/-- The description of the assembly meets the limit with its first class. -/
theorem describe_assembly_meets (hroom : room ≤ 2 * methods) (file : String) (f l : Label)
    (h : Reached methods path 0 room cx) :
    ((world methods path).describe (fun α p cx => (world methods path).runWithin drain room α p cx)
      (.assembly "a" file f) l
      (facts (chain methods) (.assembly "a" path) (.assembly "a" file f) l) cx).MeetsLimit := by
  have ⟨t, rest, hbody⟩ := facts_assembly methods file path f l
  rw [hbody]
  apply World.describe_meets
  rw [World.runWithin_emit]
  apply World.attempt_meets
  apply World.bind_meets
  refine tooDeep drain (by omega) ⟨?_, h.room⟩
  exact (h.kept.populating _ l).deed (.emit _ t) rfl

/-- An assembly with a chain of that many methods is too deep for that much room. -/
theorem assembly_tooDeep (hroom : room ≤ 2 * methods) (h : Reached methods path 0 (room + 1) cx)
    (hnone : ((chain methods).placing (.assembly "a" path) fun _ => False).Kept cx) :
    (world methods path).TooDeep drain (room + 1) (.assembly "a") cx := by
  let cx₁ := cx.enter .value
  have hholds := Model.placing_holds (chain methods) (.assembly "a" path)
  have h₁ : Reached methods path 0 room cx₁ := h.enter .value
  have hfactory : ((chain methods).factory (.assembly "a")).Keeps
      (((chain methods).placing (.assembly "a" path) fun _ => False).Grants cx₁) (fun _ => False)
      fun en => ∃ file f, en = .assembly "a" file f :=
    fun _ => ⟨.inr ⟨_, rfl⟩, fun _ => ⟨_, _, rfl⟩⟩
  have hends := (Permissions.runWithin_binds (hholds fun _ => False) drain room).ends hfactory
    h₁.room (hnone.enter .value)
  refine World.tooDeep_succ rfl (hends.meets (fun _ he => he) ?_)
  rintro _ cx₂ hk hf ⟨file, f, rfl⟩
  have hnew : cx₂.same? .value (.assembly "a" file f) = none := Model.unknown_assembly hk
  have hfree : (Entity.assembly "a" file f).behavior ≠ .needsScope := by simp [Entity.behavior]
  refine World.settle_meets hnew rfl (hk.bare rfl) hfree ?_
  refine World.populate_meets_plain (by simp [Entity.behavior]) ?_
  refine describe_assembly_meets hroom file f _ ⟨?_, ?_⟩
  · exact (Model.kept_mono hk fun _ h => h.elim).introduce (hholds _) ⟨hfree, .inr trivial⟩
  · exact (Frame.introduce hnew).room.trans (hf.room.trans h₁.room)

/-- Only methods refer to others, and only to classes. -/
theorem odd_of_links {a b : SymbolId} (h : (chain methods).Links a b) :
    a.index % 2 = 1 ∧ ¬ b.index % 2 = 1 := by
  obtain ⟨k⟩ := a
  obtain ⟨s, hs, hl⟩ := h
  have hin : k < 2 * methods + 1 := by
    simpa [chain] using (Model.index_of_symbol hs).1
  obtain ⟨i, rfl | rfl⟩ : ∃ i, k = 2 * i ∨ k = 2 * i + 1 := ⟨k / 2, by omega⟩
  · obtain rfl := Except.ok.inj ((symbol_class (by omega)).symm.trans hs)
    simp [Symbol.constructedFrom?] at hl
  · obtain rfl := Except.ok.inj ((symbol_method (by omega)).symm.trans hs)
    obtain rfl | rfl : b = ⟨2 * i⟩ ∨ b = ⟨2 * i + 2⟩ := by
      simpa [Symbol.constructedFrom?, eq_comm] using hl
    all_goals
      dsimp only
      omega

end Chain

namespace TrapUnit

/-- The trap of a chain is aborted if the limit is not higher than the chain is long. -/
theorem extract_chain (hlimit : x.config.maxRecursionDepth ≤ 2 * methods + 1) :
    ∃ e y reason, (assembly "a").extract x (chain methods) = .ok (e, y) ∧
      e.status = .aborted reason := by
  let path := assemblyPath x (chain methods) "a"
  have hs : (assembly "a").scope x (chain methods) = .ok (.assembly "a" path) := rfl
  have hentity : ∀ drain, (Chain.world methods path).TooDeep drain x.config.maxRecursionDepth
      (.assembly "a") { extractor := x } := by
    intro drain
    cases hroom : x.config.maxRecursionDepth with
    | zero => exact World.tooDeep_zero rfl
    | succ room =>
      have hk : ∀ early, ((chain methods).placing (.assembly "a" path) early).Kept
          { extractor := x } := fun _ => Permissions.kept_fresh x
      exact Chain.assembly_tooDeep (by omega) ⟨hk _, hroom⟩ (hk _)
  have hrun : ((assembly "a").runIn (chain methods) (.assembly "a" path) x
      (chain methods).drainBudget).MeetsLimit :=
    World.bind_meets (World.bind_meets (hentity _))
  obtain ⟨max, hmet⟩ := hrun
  exact ⟨_, _, _, extract_finish hs _, congrArg Prod.fst (conclude_limit hmet)⟩

/-- However many levels are spared beyond two for each symbol of a path, there is an assembly that
they are not enough for. -/
theorem not_exists_spare : ¬ ∃ spare, ∀ (m : Model) (x : Extractor) (name : String) (longest : Nat),
    (∀ path, m.IsPath path → path.length ≤ longest) →
      2 * longest + spare ≤ x.config.maxRecursionDepth →
        ∃ e y, (assembly name).extract x m = .ok (e, y) ∧ e.status = .extracted := by
  rintro ⟨spare, hspare⟩
  let x : Extractor := { config := { maxRecursionDepth := 2 * 2 + spare } }
  have hlimit : x.config.maxRecursionDepth ≤ 2 * (4 + spare) + 1 := by
    change 2 * 2 + spare ≤ _
    omega
  obtain ⟨e, y, he, hextracted⟩ := hspare (chain (4 + spare)) x "a" 2
    (fun _ h => h.length_le_two fun _ _ => Chain.odd_of_links) (Nat.le_refl _)
  obtain ⟨e', y', reason, he', haborted⟩ := extract_chain hlimit
  obtain ⟨rfl, -⟩ := Prod.mk.inj (Except.ok.inj (he.symm.trans he'))
  cases hextracted.symm.trans haborted

end TrapUnit

end TrapFacts
