import TrapFacts.Proofs.Unit.Sources

/-! Descriptions open with their rows, and reach what belongs to their entities. -/

namespace TrapFacts

variable {α β : Type} {u : ScopedUnit} {cx cx' : Context} {en : Entity} {l : Label} {id : SymbolId}
  {fails : Failure → Prop}

/-- A program that opens no type arguments. -/
def Prog.Reserved (w : World) (p : Prog α) : Prop :=
  ∀ deeper drain cx, (w.eval deeper drain p cx).context.generics = cx.generics

namespace Prog.Reserved

variable {w : World}

theorem bind {p : Prog α} {f : α → Prog β} (hp : p.Reserved w) (hf : ∀ a, (f a).Reserved w) :
    (p.bind f).Reserved w := by
  intro deeper drain cx
  have hfirst := hp deeper drain cx
  rw [World.eval_bind]
  generalize w.eval deeper drain p cx = r at hfirst
  obtain ⟨o, cx₁⟩ := r
  cases o with
  | done a => exact (hf a deeper drain cx₁).trans hfirst
  | failed | exhausted => exact hfirst

theorem fact (relation : String) (args : List Value) : (Prog.fact relation args).Reserved w :=
  fun _ _ _ => rfl

theorem each {items : List β} {body : β → Prog Unit} (h : ∀ a, (body a).Reserved w) :
    (Prog.each items body).Reserved w := by
  induction items with
  | nil => exact fun _ _ _ => rfl
  | cons a rest ih => exact (h a).bind fun _ => ih

theorem relatedFact (relation : String) (label : Label) (other : Option Label) :
    (TrapFacts.relatedFact relation label other).Reserved w := by
  cases other with
  | none => exact fun _ _ _ => rfl
  | some => exact fact _ _

theorem parameterFacts (parameters : List Parameter) (types : List Label) (label : Label) :
    (TrapFacts.parameterFacts parameters types label).Reserved w :=
  each fun _ _ _ _ => rfl

end Prog.Reserved

/-- A program that opens no type arguments leaves them as they were. -/
theorem ScopedUnit.Obeys.bind_reserved {p : Prog α} {f : α → Prog β} {good : α → Context → Prop}
    {good' : β → Context → Prop} (hp : u.Obeys p cx good fails) (hr : p.Reserved u.world)
    (hf : ∀ a cx₁, Frame cx cx₁ → cx₁.generics = cx.generics → good a cx₁ →
      u.Obeys (f a) cx₁ good' fails) : u.Obeys (p.bind f) cx good' fails :=
  (hp.also (P := fun cx₁ => cx₁.generics = cx.generics) fun deeper drain => hr deeper drain cx).bind
    fun a cx₁ hframe ha => hf a cx₁ hframe ha.1 ha.2

theorem Entity.relations_not_describing {relation : String} (h : relation ∈ en.relations) :
    relation ∉ describing := by
  cases en <;> simp [Entity.relations, describing] at h ⊢ <;> aesop

namespace ScopedUnit

/-- What was posted stays so. -/
theorem Posted.mono (h : u.Posted en l cx) (hf : Frame cx cx') : u.Posted en l cx' := by
  intro ha
  obtain ⟨hn, hp⟩ := h ha
  refine ⟨fun hb => hf.guards.trans (hn hb), fun hb => ?_⟩
  obtain ⟨place, hg, hplace⟩ := hp hb
  exact ⟨place, hf.guards.trans hg, hplace.mono hf.events⟩

/-- An entity whose description is at work. -/
structure Describing (u : ScopedUnit) (en : Entity) (l : Label) (cx : Context) : Prop where
  subject : u.Subject en l cx
  posted : u.Posted en l cx
  begun : .populating en l ∈ cx.events

namespace Describing

theorem mono (h : u.Describing en l cx) (hf : Frame cx cx') : u.Describing en l cx' :=
  ⟨h.subject.mono hf.events, h.posted.mono hf, hf.events.subset h.begun⟩

/-- Who is described has a key. -/
theorem keyed (h : u.Describing en l cx) : cx.Keyed l :=
  h.subject.proper.keyed

theorem knows {l' : Label} (h : u.Describing en l cx) (hl : l' ∈ en.labels) : cx.Keyed l' :=
  h.subject.proper.labels l' hl

/-- What else is said of an entity, while it is described. -/
theorem fact {relation : String} {args : List Value} (h : u.Describing en l cx)
    (hr : relation ∈ en.relations) (hk : ∀ l' ∈ args.filterMap Value.label?, cx.Keyed l') :
    u.Obeys (Prog.fact relation (.label l :: args)) cx (fun _ _ => True) fails := by
  refine .fact (Entity.relations_not_describing hr) ?_
    (.inr ⟨en, l, args, h.subject.introduced, rfl, hr, h.posted⟩)
  intro l' hl'
  rcases List.mem_cons.1 hl' with rfl | hl'
  · exact .inl h.keyed
  · exact .inl (hk l' hl')

theorem relatedFact {relation : String} {other : Option Label} (h : u.Describing en l cx)
    (hr : relation ∈ en.relations) (ho : ∀ l' ∈ other.toList, l' ∈ en.labels) :
    u.Obeys (relatedFact relation l other) cx (fun _ _ => True) fails := by
  cases other with
  | none => exact .nothing
  | some other => exact h.fact hr fun l' hl' => h.knows (ho l' (by simpa [Value.label?] using hl'))

/-- The places of an entity are made, and its label is related to each. -/
theorem locationFacts {relation : String} (h : u.Describing en l cx)
    (hr : relation ∈ en.relations) (places : List Declaration) :
    u.ObeysFreely (locationFacts relation l places) cx := by
  refine (Obeys.each (P := fun _ _ => True) (fun _ _ _ _ _ => trivial)
    fun place _ cx₁ hf => ?_).mono
    (fun _ _ _ => trivial) fun _ hf => hf
  refine (Obeys.entity (.location (some place)) trivial fun _ _ => trivial).bind
    fun c cx₂ hf' hc => Obeys.assuming fun hl => ?_
  refine (h.mono (hf.trans hf')).fact hr fun l' hl' => ?_
  obtain rfl : l' = c.label := by simpa [Value.label?] using hl'
  exact hl.served _ c hc.1

theorem parameterFacts {f : Method} {types : List Label} (h : u.Describing (.method f) l cx)
    (parameters : List Parameter) (ht : ∀ l ∈ types, cx.Keyed l) :
    u.ObeysFreely (parameterFacts parameters types l) cx := by
  refine (Obeys.each (P := fun _ _ => True) (fun _ _ _ _ _ => trivial) ?_).mono
    (fun _ _ _ => trivial) fun _ hf => hf
  rintro ⟨⟨parameter, type⟩, index⟩ hm cx₁ hf
  have hd := h.mono hf
  have htype : type ∈ types := (List.of_mem_zip (List.fst_mem_of_mem_zipIdx hm)).2
  refine .parameter (fun l' hl' => ?_) rfl hd.subject.introduced hd.posted
  obtain rfl | rfl : type = l' ∨ l = l' := by simpa [Value.label?, Value.index] using hl'
  · exact (ht _ htype).mono hf.events
  · exact hd.keyed

theorem methodLocationFacts {f : Method} (h : u.Describing (.method f) l cx)
    (places : List Declaration) :
    u.ObeysFreely (methodLocationFacts u.model u.scope f places l) cx := by
  refine Obeys.read (fun _ _ => trivial) fun defined _ => ?_
  split
  · exact h.locationFacts (by simp [Entity.relations]) places
  · exact .nothing

end Describing

/-- The arguments of a constructed type are reached by whoever opens them. -/
theorem typeArgumentFacts_obeys (hl : cx.Keyed l)
    (ho : (∃ t, cx.Introduced (.namedType t) l) ∨
      (∃ f fl, .populating (.method f) fl ∈ cx.events ∧ f.declaring = l))
    (hin : ∀ s, u.model.symbol id = .ok s → (s.constructedFrom? id).isSome = true →
      ∀ a ∈ s.typeArguments, u.within a) :
    u.Obeys (typeArgumentFacts u.model id l) cx (fun _ cx' => ∀ s, u.model.symbol id = .ok s →
      (s.constructedFrom? id).isSome = true → l ∈ cx'.generics ∧
        (l ∉ cx.generics → ∀ a ∈ s.typeArguments, cx'.Reached a)) fun _ => True := by
  refine Obeys.read (fun _ _ => trivial) fun s hs => ?_
  split
  · next hd =>
    refine Obeys.openGenerics ho fun fresh cx₁ hf hopen hold => ?_
    cases fresh with
    | false =>
      refine .pure fun s' hs' _ => ⟨hopen, fun hn => ?_⟩
      exact absurd (hold rfl) hn
    | true =>
      have hargs : u.Obeys (Prog.each s.typeArguments.zipIdx fun a => do
          let argument ← u.model.typeLabel a.1
          Prog.fact "type_arguments" [.label argument, .index a.2, .label l]) cx₁
          (fun _ cx' => ∀ a ∈ s.typeArguments.zipIdx, cx'.Reached a.1) fun _ => True := by
        refine .each (fun a => Context.lasting_reached a.1) fun a ha cx₂ hf₂ => ?_
        have hmem := List.fst_mem_of_mem_zipIdx ha
        refine (typeLabel_obeys (hin s hs hd a.1 hmem)).bind fun al cx₃ hf₃ hal =>
          Obeys.assuming fun hlabelled => ?_
        refine (Obeys.fact (by simp [describing]) ?_ (.inl (by simp [looseRelations]))).framed.mono
          (fun _ _ h => Context.lasting_reached _ hal.reached h.1.events) fun _ hf => hf
        intro l' hl'
        obtain rfl | rfl : l' = al ∨ l = l' := by simpa [Value.label?, Value.index] using hl'
        · exact .inl (hlabelled.typeAt hal)
        · exact .inl (hl.mono (hf.trans (hf₂.trans hf₃)).events)
      refine hargs.framed.mono (fun _ cx' h s' hs' _ => ⟨h.1.generics hopen, fun _ a ha => ?_⟩)
        fun _ hf => hf
      obtain rfl : s = s' := Except.ok.inj (hs.symm.trans hs')
      obtain ⟨i, hi, rfl⟩ := List.mem_iff_getElem.1 ha
      exact h.2 (s.typeArguments[i], i) (List.mk_mem_zipIdx_iff_getElem?.2 (by simp [hi]))
  · next hd =>
    refine .pure fun s' hs' hd' => absurd ?_ hd
    obtain rfl : s = s' := Except.ok.inj (hs.symm.trans hs')
    exact hd'

/-- A method within reach can be made. -/
theorem method_obeys {s : Symbol} (hid : u.within id) (hm : u.model.IsMethod id s) :
    u.Obeys (Prog.entity (.method id)) cx (fun _ cx' => cx'.Reached id) fun _ => True :=
  (Obeys.entity (.method id) ⟨hid, s, hm⟩ fun _ _ => trivial).mono
    (fun c _ hc => ⟨.method, c, hc.1⟩) fun _ hf => hf

/-- A member that is a type or a method is reached, unless that fails. -/
theorem extractMember_obeys {member : SymbolId}
    (hin : u.model.Extractable member → u.within member) :
    u.Obeys (extractMember u.model member) cx
      (fun _ cx' => u.model.Extractable member → cx'.Reached member) fun _ => True := by
  refine Obeys.read (fun _ _ => trivial) fun s hs => ?_
  split
  · next ht =>
    refine (typeLabel_obeys (hin ⟨s, hs, .inl ht⟩)).bind fun l cx₂ _ hl => ?_
    exact .pure fun _ => hl.reached
  · next ht =>
    split
    · next hm =>
      refine (method_obeys (hin ⟨s, hs, .inr hm⟩) ⟨hs, hm⟩).bind fun _ cx₂ _ hr => ?_
      exact .pure fun _ => hr
    · next hm =>
      refine .modelError (fun _ => trivial) (.pure ?_)
      rintro ⟨s', hs', hk⟩
      obtain rfl : s = s' := Except.ok.inj (hs.symm.trans hs')
      simp [ht, hm] at hk

/-- The members of a type that is declared in the unit are extracted one by one. -/
theorem declaredTypeFacts_obeys {t : NamedType} (h : u.Describing (.namedType t) l cx)
    (hin : u.scope.defines u.model t.symbol = .ok true → ∀ s, u.model.symbol t.symbol = .ok s →
      ∀ member ∈ s.members, u.model.Extractable member → u.within member) :
    u.Obeys (declaredTypeFacts u.model u.scope t.symbol l) cx
      (fun _ cx' => u.Finished (.namedType t) cx cx' ∨ cx'.Erred) fun _ => True := by
  refine Obeys.read (fun _ _ => trivial) fun defined hdefined => ?_
  split
  · next hd =>
    rw [hd] at hdefined
    refine Obeys.read (fun _ _ => trivial) fun s hs => ?_
    refine (h.locationFacts (by simp [Entity.relations]) s.locations).bind fun _ cx₁ hf _ => ?_
    have hmembers : u.Obeys (Prog.each s.members fun member =>
        .attempt none (some member) (extractMember u.model member) (.pure ())) cx₁
        (fun _ cx' => ∀ member ∈ s.members,
          (u.model.Extractable member → cx'.Reached member) ∨ cx'.Erred) fun _ => True := by
      refine .each (fun member _ _ h he => h.imp (fun h hm => ?_) (·.mono he))
        fun member hm cx₂ _ => .attempt (extractMember_obeys (hin hdefined s hs member hm))
      exact Context.lasting_reached member (h hm) he
    refine hmembers.mono (fun _ cx' hall => ?_) fun _ hf => hf
    by_cases herr : cx'.Erred
    · exact .inr herr
    · refine .inl fun _ _ _ s' hs' member hm => ?_
      obtain rfl : s = s' := Except.ok.inj (hs.symm.trans hs')
      exact (hall member hm).resolve_right herr
  · next hd =>
    refine .pure (.inl fun _ _ hdefined' => absurd ?_ hd)
    exact Except.ok.inj (hdefined.symm.trans hdefined')

/-- What follows the row of an entity in its description. -/
def Concludes (u : ScopedUnit) (recipe : Recipe) (en : Entity) (l : Label) (p : Prog Unit) : Prop :=
  ∀ cx, u.Describing en l cx → recipe.Yields u.model en cx →
    u.Obeys p cx (fun _ cx' => u.Finished en cx cx' ∨ cx'.Erred) fun _ => True

/-- A program that opens with the row of an entity. -/
def Describes (u : ScopedUnit) (recipe : Recipe) (en : Entity) (l : Label) (body : Prog Unit) :
    Prop :=
  ∃ relation args p, body = .emit ⟨relation, .label l :: args⟩ p ∧ en.relation? = some relation ∧
    (∀ l ∈ args.filterMap Value.label?, l ∈ en.labels) ∧ u.Concludes recipe en l p

theorem fileFacts_describes (path file : String) (l : Label) :
    u.Describes (.file path) (.file file) l (fileFacts u.model u.scope file l) := by
  refine ⟨_, _, _, rfl, rfl, by simp [Value.label?], fun cx hd _ => ?_⟩
  refine Obeys.skip ?_
  split
  · split
    · refine (hd.fact (by simp [Entity.relations]) ?_).mono (fun _ _ _ => .inl trivial)
        fun _ hf => hf
      simp [Value.label?, Value.index]
    · exact .pure (.inl trivial)
  · exact .pure (.inl trivial)

theorem placeFacts_describes (place : Option Declaration) (f l : Label) (span : Option Span) :
    u.Describes (.location place) (.location f span) l (placeFacts f span l) := by
  refine ⟨_, _, _, rfl, rfl, ?_, fun cx _ _ => .pure (.inl trivial)⟩
  intro l hl
  simp [Value.label?, Value.index, Span.numbers] at hl
  simp [Entity.labels, hl]

theorem spaceFacts_describes (id symbol : SymbolId) (name : String) (parent : Option Label)
    (l : Label) :
    u.Describes (.space id) (.space symbol name parent) l (spaceFacts name parent l) := by
  refine ⟨_, _, _, rfl, rfl, by simp [Value.label?], fun cx hd _ => ?_⟩
  refine Obeys.skip ?_
  cases parent with
  | none => exact .pure (.inl trivial)
  | some parent =>
    refine (hd.fact (by simp [Entity.relations]) fun l' hl' => ?_).mono
      (fun _ _ _ => .inl trivial) fun _ hf => hf
    exact hd.knows (by simpa [Value.label?, Entity.labels] using hl')

theorem pointerFacts_describes (id symbol : SymbolId) (pointee l : Label) :
    u.Describes (.pointer id) (.pointer symbol pointee) l
      (pointerFacts u.model symbol pointee l) := by
  refine ⟨_, _, _, rfl, rfl, by simp [Value.label?, Value.index], fun cx hd _ => ?_⟩
  refine Obeys.skip ?_
  refine (hd.fact (by simp [Entity.relations]) fun l' hl' => ?_).mono
    (fun _ _ _ => .inl trivial) fun _ hf => hf
  exact hd.knows (by simpa [Value.label?, Entity.labels] using hl')

variable (hc : u.Closed)

include hc

/-- An assembly reaches its top-level types. -/
theorem assemblyFacts_describes {name : String} (path : String) (f l : Label)
    (hw : u.Within (.assembly name)) :
    u.Describes (.assembly name) (.assembly name path f) l
      (assemblyFacts u.model u.scope name f l) := by
  refine ⟨_, _, _, rfl, rfl, by simp [Value.label?, Entity.labels], fun cx _ _ => ?_⟩
  refine Obeys.skip ?_
  split
  · have htypes : u.Obeys (Prog.each (u.model.assemblySymbols name) fun id => do
        let s ← Prog.ofExcept (u.model.symbol id)
        if isTopLevelType s id then
          .attempt none (some id) (do let _ ← u.model.typeLabel id) (.pure ())) cx
        (fun _ cx' => ∀ id ∈ u.model.assemblySymbols name,
          (∀ s, u.model.symbol id = .ok s → isTopLevelType s id = true → cx'.Reached id) ∨
            cx'.Erred) fun _ => True := by
      refine .each (fun id _ _ h he => h.imp (fun h s hs ht => ?_) (·.mono he))
        fun id hid cx₁ _ => ?_
      · exact Context.lasting_reached id (h s hs ht) he
      refine Obeys.read (fun _ _ => trivial) fun s hs => ?_
      split
      · next ht =>
        have hin : u.within id := by
          refine hc.roots id ?_
          rw [show u.unit = .assembly name from hw]
          exact (TrapUnit.root_assembly hs).2 ⟨hid, ht⟩
        refine .attempt ((typeLabel_obeys hin).bind fun _ _ _ hl => .pure ?_)
        exact fun _ _ _ => hl.reached
      · next ht =>
        refine .pure (.inl fun s' hs' ht' => absurd ?_ ht)
        obtain rfl : s = s' := Except.ok.inj (hs.symm.trans hs')
        exact ht'
    refine htypes.mono (fun _ cx' hall => ?_) fun _ hf => hf
    by_cases herr : cx'.Erred
    · exact .inr herr
    · exact .inl fun _ id hid => (hall id hid).resolve_right herr
  · next ho => exact .pure (.inl fun ho' => absurd ho' ho)

/-- What is stated about a type begins with its own row. -/
theorem namedTypeFacts_describes {id : SymbolId} (t : NamedType) (l : Label)
    (hw : u.Within (.namedType id)) :
    u.Describes (.namedType id) (.namedType t) l (namedTypeFacts u.model u.scope t l) := by
  refine ⟨_, _, _, rfl, rfl, by simp [Value.label?, Value.index], fun cx hd hy => ?_⟩
  obtain ⟨s, t', hs, ht, heq⟩ := hy
  obtain rfl := Entity.namedType.inj heq
  obtain ⟨hid, s', hn⟩ := hw
  obtain rfl : s = s' := Except.ok.inj (hs.symm.trans hn.1)
  obtain rfl := ht.symbol
  refine Obeys.skip ?_
  refine (hd.relatedFact (by simp [Entity.relations]) ?_).bind fun _ cx₁ hf₁ _ => ?_
  · simp +contextual [Entity.labels]
  have hd₁ := hd.mono hf₁
  refine (hd₁.relatedFact (by simp [Entity.relations]) ?_).bind fun _ cx₂ hf₂ _ => ?_
  · simp +contextual [Entity.labels]
  have hd₂ := hd₁.mono hf₂
  split
  · next he =>
    refine .missingType hd₂.subject.introduced he fun _ _ => .pure (.inl fun hne => ?_)
    exact absurd he hne
  · next he =>
    split
    · next definition hdef =>
      have hconstructed : ∀ s', u.model.symbol t.symbol = .ok s' →
          (s'.constructedFrom? t.symbol).isSome = true → ∀ a ∈ s'.typeArguments, u.within a := by
        intro s' hs' hsome
        obtain rfl : s = s' := Except.ok.inj (hs.symm.trans hs')
        exact hc.arguments t.symbol s hid hn hsome
      refine (hd₂.fact (by simp [Entity.relations]) ?_).bind fun _ cx₃ hf₃ _ => ?_
      · intro l' hl'
        obtain rfl : l' = definition := by simpa [Value.label?] using hl'
        exact hd₂.knows (by simp [Entity.labels, hdef])
      have hd₃ := hd₂.mono hf₃
      refine (typeArgumentFacts_obeys hd₃.keyed (.inl ⟨t, hd₃.subject.introduced⟩)
        hconstructed).mono (fun _ _ _ => .inl fun _ hnone => ?_) fun _ hf => hf
      rw [hdef] at hnone
      cases hnone
    · next hdef =>
      have hnone : s.constructedFrom? t.symbol = none := by
        have hrel := ht.definition
        rw [hdef] at hrel
        generalize s.constructedFrom? t.symbol = d at hrel
        cases hrel
        rfl
      refine declaredTypeFacts_obeys hd₂ fun hdefined s' hs' => ?_
      obtain rfl : s = s' := Except.ok.inj (hs.symm.trans hs')
      exact hc.members t.symbol s hid hn (ht.kind ▸ he) hnone hdefined

/-- The type arguments that a method's type has are reached by the first method to open them. -/
theorem methodFacts_describes {id : SymbolId} (f : Method) (l : Label)
    (hw : u.Within (.method id)) :
    u.Describes (.method id) (.method f) l (methodFacts u.model u.scope f l) := by
  refine ⟨_, _, _, rfl, rfl, by simp [Value.label?, Entity.labels], fun cx hd hy => ?_⟩
  obtain ⟨s, f', hs, hf, heq⟩ := hy
  obtain rfl := Entity.method.inj heq
  obtain ⟨hid, s', hm⟩ := hw
  obtain rfl : s = s' := Except.ok.inj (hs.symm.trans hm.1)
  obtain rfl := hf.symbol
  refine Obeys.skip ?_
  refine (hd.relatedFact (by simp [Entity.relations]) ?_).bind_reserved (.relatedFact _ _ _)
    fun _ cx₁ hf₁ hg₁ _ => ?_
  · simp +contextual [Entity.labels]
  have hd₁ := hd.mono hf₁
  refine Obeys.read (fun _ _ => trivial) fun s' hs' => ?_
  obtain rfl : s = s' := Except.ok.inj (hs.symm.trans hs')
  refine (hd₁.parameterFacts s.parameters fun _ hl => ?_).bind_reserved (.parameterFacts _ _ _)
    fun _ cx₂ hf₂ hg₂ _ => ?_
  · exact hd₁.knows (by simp [Entity.labels, hl])
  have hd₂ := hd₁.mono hf₂
  refine (typeArgumentFacts_obeys (hd₂.knows (by simp [Entity.labels]))
    (.inr ⟨f, l, hd₂.begun, rfl⟩) fun t ht =>
      hc.ownerArguments f.symbol s _ t hid hm hf.declaringSymbol ht).bind
    fun _ cx₃ hf₃ hopened => ?_
  have hd₃ := hd₂.mono hf₃
  rw [hg₂, hg₁] at hopened
  have hfinished : ∀ cx', Frame cx₃ cx' → u.Finished (.method f) cx cx' := by
    intro cx' hf' t ht hconstructed
    obtain ⟨hopen, hreached⟩ := hopened t ht hconstructed
    exact ⟨hf'.generics hopen,
      fun hn a ha => Context.lasting_reached a (hreached hn a ha) hf'.events⟩
  split
  · split
    · exact .modelError (fun _ => trivial) (.pure (.inl (hfinished _ (.refl _))))
    · refine (hd₃.fact (by simp [Entity.relations]) (by simp [Value.label?])).bind
        fun _ cx₄ hf₄ _ => ?_
      exact ((hd₃.mono hf₄).methodLocationFacts s.locations).framed.mono
        (fun _ _ h => .inl (hfinished _ (hf₄.trans h.1))) fun _ hf => hf
  · exact (hd₃.methodLocationFacts s.locations).framed.mono
      (fun _ _ h => .inl (hfinished _ h.1)) fun _ hf => hf

/-- What a trap says of an entity opens with its row. -/
theorem facts_describes {recipe : Recipe} (hw : u.Within recipe)
    (hy : recipe.Yields u.model en cx) (l : Label) :
    u.Describes recipe en l (facts u.model u.scope en l) := by
  cases recipe with
  | file path =>
    obtain rfl := hy
    exact fileFacts_describes path _ l
  | location place =>
    cases place with
    | none =>
      obtain ⟨f, _, rfl⟩ := hy
      exact placeFacts_describes none f l none
    | some place =>
      obtain ⟨_, f, _, _, rfl⟩ := hy
      exact placeFacts_describes (some place) f l (some place.span)
  | assembly name =>
    obtain ⟨path, f, _, rfl⟩ := hy
    exact assemblyFacts_describes hc path f l hw
  | space id =>
    obtain ⟨s, parent, _, _, rfl⟩ := hy
    exact spaceFacts_describes id id s.name parent l
  | namedType id =>
    obtain ⟨_, t, _, _, rfl⟩ := hy
    exact namedTypeFacts_describes hc t l hw
  | pointer id =>
    obtain ⟨_, _, pointee, _, _, _, rfl⟩ := hy
    exact pointerFacts_describes id id pointee l
  | method id =>
    obtain ⟨_, f, _, _, rfl⟩ := hy
    exact methodFacts_describes hc f l hw

end ScopedUnit

end TrapFacts
