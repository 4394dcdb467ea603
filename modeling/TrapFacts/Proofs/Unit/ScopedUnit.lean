import TrapFacts.Proofs.Engine.Run
import TrapFacts.Proofs.Unit.Closed
import TrapFacts.Proofs.Unit.Standing

/-! What the programs of a unit are bound to: which entities they make, where they state what. -/

namespace TrapFacts

variable {m : Model} {scope : Scope} {o : List Due} {b : Bool} {cx cx' : Context} {e : Event}
  {slot : Slot} {en : Entity} {l : Label} {recipe : Recipe}

/-- A unit of a model in its scope, and symbols that it shall keep to. -/
structure ScopedUnit where
  model : Model
  scope : Scope
  unit : TrapUnit
  within : SymbolId → Prop

namespace Context

/-- A label that was given to a new entity. -/
def Introduced (cx : Context) (en : Entity) (l : Label) : Prop :=
  ∃ slot, .created slot ⟨l, en⟩ ∈ cx.events

theorem Introduced.mono (h : cx.Introduced en l) (he : cx.events <+: cx'.events) :
    cx'.Introduced en l := by
  obtain ⟨slot, hc⟩ := h
  exact ⟨slot, he.subset hc⟩

theorem introduced_introduce (cx : Context) (slot : Slot) (en : Entity) :
    (cx.introduce slot en).2.Introduced en cx.nextLabel :=
  ⟨slot, by simp⟩

end Context

/-- What else a trap says of an entity, apart from the row that describes it. -/
def Entity.relations : Entity → List String
  | .file _ => ["numlines"]
  | .space _ _ _ => ["parent_namespace"]
  | .namedType _ => ["parent_namespace", "nested_types", "constructed_from", "type_location"]
  | .pointer _ _ => ["pointer_referent_type"]
  | .method _ => ["returns", "accessors", "method_location"]
  | _ => []

/-- Relations whose rows may stand anywhere. -/
def looseRelations : List String :=
  ["type_arguments", "compilation_args", "compilation_compiling_files",
    "compilation_referencing_files"]

namespace ScopedUnit

variable (u : ScopedUnit)

/-- Which entities the unit may make. -/
def Within : Recipe → Prop
  | .namedType id => u.within id ∧ ∃ s, u.model.IsNamedType id s
  | .pointer id => u.within id ∧ ∃ s, u.model.IsPointer id s
  | .method id => u.within id ∧ ∃ s, u.model.IsMethod id s
  | .space id => u.model.IsSpace id
  | .assembly name => u.unit = .assembly name
  | _ => True

/-- Which guard is open where an entity is described: none, or its own, which names its place. -/
def Posted (en : Entity) (l : Label) (cx : Context) : Prop :=
  u.scope.isAssembly = false →
    (en.behavior = .noScope → cx.guards = []) ∧
    (en.behavior = .pushesScope → ∃ place, cx.guards = [.label l (.ofLabel place)] ∧
      u.model.PlaceAt cx en.reportingLocation? place)

/-- A fact about an entity is stated where the entity is described. -/
def Apt (t : Tuple) (cx : Context) : Prop :=
  t.relation ∈ looseRelations ∨ ∃ en l rest, cx.Introduced en l ∧ t.args = .label l :: rest ∧
    t.relation ∈ en.relations ∧ u.Posted en l cx

/-- What the programs of the unit do on their own account. -/
inductive Stating : Context → Context → Prop
  | fact (cx : Context) {t : Tuple} : t.relation ∉ describing →
      (∀ l ∈ t.args.filterMap Value.label?, cx.Citable l) → u.Apt t cx →
      Stating cx (cx.write (.tuple t))
  | compilation (cx : Context) {args : List Value} :
      (∀ l ∈ args.filterMap Value.label?, cx.Keyed l) →
      Stating cx ((cx.allocate.write (.fresh cx.nextLabel)).write
        (.tuple ⟨"compilations", .label cx.nextLabel :: args⟩))
  /-- A parameter, stated where its method is described. -/
  | parameter (cx : Context) {args : List Value} {f : Method} {l : Label} :
      (∀ l ∈ args.filterMap Value.label?, cx.Keyed l) → args.getLast? = some (.label l) →
      cx.Introduced (.method f) l → u.Posted (.method f) l cx →
      Stating cx ((cx.allocate.write (.fresh cx.nextLabel)).write
        (.tuple ⟨"params", .label cx.nextLabel :: args⟩))
  | missingType (cx : Context) {t : NamedType} {l : Label} : cx.Introduced (.namedType t) l →
      t.kind = .error → Stating cx (cx.missingType (u.model.displayName t.symbol))
  /-- Type arguments are opened by their type, or by a method of it. -/
  | openGenerics (cx : Context) {label : Label} : (∃ t, cx.Introduced (.namedType t) label) ∨
      (∃ f l, .populating (.method f) l ∈ cx.events ∧ f.declaring = label) →
      Stating cx (cx.openGenerics label)

/-- What a description has reached when it ends, if nothing went wrong. The type arguments of a
method's type are left to whoever opened them before. -/
def Finished : Entity → Context → Context → Prop
  | .namedType t, _, cx' => t.kind ≠ .error → t.definition = none →
      u.scope.defines u.model t.symbol = .ok true → ∀ s, u.model.symbol t.symbol = .ok s →
      ∀ member ∈ s.members, u.model.Extractable member → cx'.Reached member
  | .method f, cx, cx' => ∀ s, u.model.symbol f.declaringSymbol = .ok s →
      (s.constructedFrom? f.declaringSymbol).isSome = true → f.declaring ∈ cx'.generics ∧
        (f.declaring ∉ cx.generics → ∀ a ∈ s.typeArguments, cx'.Reached a)
  | .assembly name _ _, _, cx' => ownsAssembly u.scope name = true →
      ∀ id ∈ u.model.assemblySymbols name, ∀ s, u.model.symbol id = .ok s →
      isTopLevelType s id = true → cx'.Reached id
  | _, _, _ => True

/-- How the programs of the unit behave, in detail. -/
def manner : Manner where
  deed := u.Stating
  opening en l cx cx' := Opening en l cx cx' ∧ u.Posted en l cx
  closing en _ cx cx' := u.Finished en cx cx' ∨ cx'.Erred
  entity slot en cx := (u.model.Fits en ∧ ∀ l ∈ en.labels, cx.Keyed l) ∧
    ∃ recipe, slot = Recipe.slot recipe ∧ u.Within recipe ∧ recipe.Yields u.model en cx
  body en l p := u.model.Fits en ∧ p = facts u.model u.scope en l
  place en := u.model.strayTree? en = none
  site en l cx := u.model.PlaceAt cx en.reportingLocation? l
  guard _ := False
  excuse en message := ∃ tree, u.model.strayTree? en = some tree ∧
    message = u.model.failureMessage (.unknownTree tree) none en.symbol?
  catches := False
  deeds h := by
    cases h with
    | fact => exact .single (.emit _ _)
    | compilation | parameter => exact .tail (.single (.fresh _)) (.emit _ _)
    | missingType => exact .single (.missingType _ _)
    | openGenerics => exact .single (.openGenerics _ _)
  openings h := by
    obtain ⟨⟨relation, args, _, _, rfl⟩, _⟩ := h
    exact .single (.emit _ _)

abbrev world : World :=
  .ofModel u.model u.scope

variable {u}

theorem frame_opening (h : u.manner.opening en l (cx.populating en l) cx') : Frame cx cx' :=
  (Frame.populating cx en l).trans
    (Trail.of_deeds (w := u.world) (m := .free) (u.manner.openings h)).frame

theorem Stating.ownStep (h : u.Stating cx cx') : OwnStep cx cx' := by
  cases h with
  | fact hr hk => exact .fact cx hr hk
  | compilation hk => exact .fresh cx (.inl rfl) hk
  | parameter hk => exact .fresh cx (.inr rfl) hk
  | missingType => exact .missingType _ _
  | openGenerics => exact .openGenerics _ _

/-- The manner of a unit is one of those that the model allows. -/
theorem refines (u : ScopedUnit) : u.manner.Refines (.ofModel u.model u.scope) where
  deed h := .single h.ownStep
  opening h := ⟨_, h.1, .refl⟩
  closing _ := trivial
  entity h := h.1
  body h := h
  place h := h
  site _ := trivial
  guard h := h
  excuse h := h
  catches h := h

/-- Every entity was made by a recipe of the unit, and what waits are descriptions of such. -/
structure Founded (u : ScopedUnit) (cx : Context) : Prop where
  created : ∀ slot en l, .created slot ⟨l, en⟩ ∈ cx.events →
    ∃ recipe, slot = Recipe.slot recipe ∧ u.Within recipe ∧ recipe.Yields u.model en cx
  dues : ∀ d ∈ cx.dues, cx.Introduced d.1 d.2

theorem founded_fresh (u : ScopedUnit) (x : Extractor) : u.Founded { extractor := x } where
  created := by simp [Context.events, Context.moments]
  dues := by simp [Context.dues]

namespace Founded

/-- A change of the queue. -/
theorem requeue (h : u.Founded cx) (he : cx'.events = cx.events)
    (hd : ∀ d ∈ cx'.dues, cx.Introduced d.1 d.2) : u.Founded cx' where
  created slot en l hm := by
    obtain ⟨recipe, hs, hw, hy⟩ := h.created slot en l (he ▸ hm)
    exact ⟨recipe, hs, hw, Recipe.lasting_yields _ _ _ hy (he ▸ List.prefix_rfl)⟩
  dues d hm := (hd d hm).mono (he ▸ List.prefix_rfl)

theorem still (h : u.Founded cx) (he : cx'.events = cx.events) (hd : cx'.dues = cx.dues) :
    u.Founded cx' :=
  h.requeue he fun d hm => h.dues d (hd ▸ hm)

/-- One more event, which creates no entity. -/
theorem event (h : u.Founded cx) (he : cx'.events = cx.events ++ [e]) (hd : cx'.dues = cx.dues)
    (hn : ∀ slot c, e ≠ .created slot c) : u.Founded cx' where
  created slot en l hm := by
    rw [he, List.mem_append, List.mem_singleton] at hm
    rcases hm with hm | hm
    · obtain ⟨recipe, hs, hw, hy⟩ := h.created slot en l hm
      exact ⟨recipe, hs, hw, Recipe.lasting_yields _ _ _ hy ⟨_, he.symm⟩⟩
    · exact absurd hm.symm (hn slot _)
  dues d hm := (h.dues d (hd ▸ hm)).mono ⟨_, he.symm⟩

theorem log (h : u.Founded cx) (hn : ∀ slot c, e ≠ .created slot c) : u.Founded (cx.log e) :=
  h.event (cx.events_log e) rfl hn

theorem send (h : u.Founded cx) (message : Message) (about : Option Concern) :
    u.Founded (cx.send message about) :=
  h.event (cx.events_send message about) rfl (by simp)

theorem openGuard (h : u.Founded cx) (key : Key) : u.Founded (cx.openGuard key) :=
  h.event (cx.events_openGuard key) rfl (by simp)

theorem closeGuard (h : u.Founded cx) : u.Founded cx.closeGuard :=
  h.event cx.events_closeGuard rfl (by simp)

theorem write (h : u.Founded cx) (r : Record) : u.Founded (cx.write r) :=
  h.event (cx.events_write r) rfl (by simp)

theorem stating (h : u.Founded cx) (hs : u.Stating cx cx') : u.Founded cx' := by
  cases hs with
  | fact => exact h.write _
  | compilation | parameter =>
    have hfresh : u.Founded (cx.allocate.write (.fresh cx.nextLabel)) :=
      h.event (cx.allocate.events_write _) rfl (by simp)
    exact hfresh.write _
  | missingType => exact h.event (cx.events_missingType _) rfl (by simp)
  | openGenerics => exact h.still (cx.events_openGenerics _) rfl

/-- A description begins, and opens with its row. -/
theorem opening (h : u.Founded cx) (ho : u.manner.opening en l (cx.populating en l) cx') :
    u.Founded cx' := by
  obtain ⟨⟨_, _, _, _, rfl⟩, _⟩ := ho
  exact (h.event (cx.events_populating en l) rfl (by simp)).write _

theorem introduce (h : u.Founded cx) (hs : cx.same? slot en = none)
    (he : u.manner.entity slot en cx) : u.Founded (cx.introduce slot en).2 where
  created slot' en' l hm := by
    have hmono := (Frame.introduce hs).events
    rcases Context.mem_events_introduce hm with hm | ⟨message, hm⟩ | hm | hm
    · obtain ⟨recipe, hslot, hw, hy⟩ := h.created slot' en' l hm
      exact ⟨recipe, hslot, hw, Recipe.lasting_yields _ _ _ hy hmono⟩
    · cases hm
    · cases hm
    · cases hm
      obtain ⟨-, recipe, hslot, hw, hy⟩ := he
      exact ⟨recipe, hslot, hw, Recipe.lasting_yields _ _ _ hy hmono⟩
  dues d hm := by
    rw [Context.dues, Context.queue_introduce] at hm
    exact (h.dues d hm).mono (Frame.introduce hs).events

theorem deferred {body : Prog Unit} (h : u.Founded cx) (hi : cx.Introduced en l) :
    u.Founded (cx.enqueue (.population en l body)) := by
  let entry : Pending := { number := cx.deferred, work := .population en l body }
  let waiting : Context := { cx with queue := cx.queue ++ [entry] }
  have hwaiting : u.Founded waiting := by
    refine h.requeue rfl fun d hm => ?_
    rw [Context.dues, List.flatMap_append, List.mem_append] at hm
    rcases hm with hm | hm
    · exact h.dues d hm
    · obtain rfl : d = (en, l) := by simpa [entry, Work.dues] using hm
      exact hi
  exact hwaiting.event (cx.events_enqueue _) rfl (by simp)

/-- Work off the queue is about entities that were introduced. -/
theorem take {a : Pending} {rest : List Pending} (h : u.Founded cx) (hq : cx.queue = a :: rest) :
    u.Founded (cx.take a rest) ∧ ∀ d ∈ a.work.dues, (cx.take a rest).Introduced d.1 d.2 := by
  have hdues : cx.dues = a.work.dues ++ (cx.take a rest).dues := by
    simp [Context.dues, hq, Context.take, Context.log]
  have hmono : cx.events <+: (cx.take a rest).events := ⟨_, (cx.events_take a rest).symm⟩
  let taken : Context := { cx with queue := rest }
  have htaken : u.Founded taken :=
    h.requeue rfl fun d hm => h.dues d (hdues ▸ List.mem_append_right _ hm)
  exact ⟨htaken.event (cx.events_take a rest) rfl (by simp), fun d hm =>
    (h.dues d (hdues ▸ List.mem_append_left _ hm)).mono hmono⟩

end Founded

end ScopedUnit

variable {u : ScopedUnit}

theorem Created.introduced_of_dues {d : Due} (hd : d ∈ (cx.introduce slot en).1.dues) :
    (cx.introduce slot en).2.Introduced d.1 d.2 := by
  unfold Created.dues at hd
  split at hd
  · obtain rfl := List.mem_singleton.1 hd
    exact cx.introduced_introduce slot en
  · cases hd

/-- The trails of a unit make entities by its recipes alone. -/
theorem Trail.founded (h : Trail u.world u.manner o b cx cx') (hf : u.Founded cx)
    (ho : ∀ d ∈ o, cx.Introduced d.1 d.2) : u.Founded cx' := by
  induction h with
  | refl => exact hf
  | trans h _ ih ih' =>
    exact ih' (ih hf fun d hd => ho d (List.mem_append_left _ hd)) fun d hd =>
      (ho d (List.mem_append_right _ hd)).mono h.frame.events
  | stop _ _ ih => exact ih hf (by simp)
  | caught hc => exact hc.elim
  | deed h => exact hf.stating h
  | sent | complaint | excused | reported => exact hf.send _ _
  | limit | served => exact hf.log (by simp)
  | guarded _ hg => exact hg.elim
  | nested _ _ _ ih =>
    have hinner := ih (hf.event (Context.events_enter _ _) rfl (by simp)) (by simp)
    exact hinner.still (Context.events_leave _) rfl
  | introduced hs he _ ih => exact ih (hf.introduce hs he) fun _ => Created.introduced_of_dues
  | deferred => exact hf.deferred (ho _ (List.mem_singleton_self _))
  | described _ _ hopen _ _ ih => exact ih (hf.opening hopen) (by simp)
  | describedGuarded _ _ _ _ _ hopen _ _ ih =>
    exact (ih ((hf.openGuard _).opening hopen) (by simp)).closeGuard
  | taken hq _ ih =>
    obtain ⟨htaken, hdues⟩ := hf.take hq
    exact ih (htaken.log (by simp)) fun d hd => (hdues d hd).mono (Frame.log _ _).events
  | takenGuarded _ _ hg => exact hg.elim

theorem Trail.coarse (h : Trail u.world u.manner o b cx cx') :
    Trail (.ofModel u.model u.scope) (.ofModel u.model u.scope) o b cx cx' :=
  h.relax u.refines

end TrapFacts
