import TrapFacts.Proofs.Unit.Exact
import TrapFacts.Proofs.Unit.ContextInvariant

/-! The arguments of a constructed type: stated once, in order and without a break, by the type or
by a method of it. -/

namespace TrapFacts

variable {m : Model} {scope : Scope} {x : Extractor} {unit : TrapUnit} {budget : Nat}
  {cx cx₁ cx' : Context} {es : List Event} {en : Entity} {l : Label} {slot : Slot} {id : SymbolId}
  {t : NamedType} {w : World} {deeper : Option Runner} {drain : Context → Reply Unit}

/-- The facts about the arguments of a label, in order. -/
def argumentTuples (l : Label) (arguments : List Label) (start : Nat := 0) : List Tuple :=
  (arguments.zipIdx start).map fun (argument, index) =>
    ⟨"type_arguments", [.label argument, .index index, .label l]⟩

/-- Whether a fact is about an argument of the label. -/
def Tuple.Argues (t : Tuple) (l : Label) : Prop :=
  t.relation = "type_arguments" ∧ t.args.getLast? = some (.label l)

theorem argues_argumentTuples {arguments : List Label} {start : Nat} {t : Tuple}
    (h : t ∈ argumentTuples l arguments start) : t.Argues l := by
  obtain ⟨⟨_, _⟩, -, rfl⟩ := List.mem_map.1 h
  exact ⟨rfl, rfl⟩

/-- An argument is that of one label. -/
theorem Tuple.Argues.unique {t : Tuple} {l' : Label} (h : t.Argues l) (h' : t.Argues l') :
    l = l' := by
  cases h.2.symm.trans h'.2
  rfl

namespace Context

/-- The facts about the arguments of a label are stated once, in order, and nothing happens in
between but that labels are looked up: nothing fails and nothing is made. -/
def Lists (cx : Context) (l : Label) (arguments : List Label) : Prop :=
  ∃ before block after, cx.events = before ++ block ++ after ∧
    block.filterMap Event.record? = (argumentTuples l arguments).map .tuple ∧
    (∀ e ∈ block, (∃ slot c, e = .served slot c) ∨ ∃ r, e = .wrote r) ∧
    ∀ e ∈ before ++ after, ∀ t, e.fact? = some t → ¬ t.Argues l

/-- Events that state no argument of the label. -/
theorem Lists.more {arguments : List Label} (h : cx.Lists l arguments)
    (he : cx'.events = cx.events ++ es) (hf : ∀ e ∈ es, ∀ t, e.fact? = some t → ¬ t.Argues l) :
    cx'.Lists l arguments := by
  obtain ⟨before, block, after, hevents, hrows, hblock, hapart⟩ := h
  refine ⟨before, block, after ++ es, ?_, hrows, hblock, fun e hm => ?_⟩
  · rw [he, hevents, List.append_assoc]
  · rw [← List.append_assoc, List.mem_append] at hm
    exact hm.elim (hapart e) (hf e)

/-- The facts about the arguments of a label, in order. -/
def argumentsOf (cx : Context) (l : Label) : List Tuple :=
  (cx.stated "type_arguments").filter fun t => t.args.getLast? = some (.label l)

theorem argumentsOf_eq_nil (h : ∀ e ∈ cx.events, ∀ t, e.fact? = some t → ¬ t.Argues l) :
    cx.argumentsOf l = [] := by
  refine List.filter_eq_nil_iff.2 fun t ht => ?_
  obtain ⟨e, hm, hf, hr⟩ := mem_stated.1 ht
  simpa using fun hl => h e hm t hf ⟨hr, hl⟩

theorem Lists.argumentsOf {arguments : List Label} (h : cx.Lists l arguments) :
    cx.argumentsOf l = argumentTuples l arguments := by
  obtain ⟨before, block, after, he, hrows, -, hapart⟩ := h
  have hnone : ∀ es : List Event, (∀ e ∈ es, ∀ t, e.fact? = some t → ¬ t.Argues l) →
      (es.filterMap Event.fact?).filter
        (fun t => t.relation = "type_arguments" ∧ t.args.getLast? = some (.label l)) = [] := by
    intro es hes
    refine List.filter_eq_nil_iff.2 fun t ht => ?_
    obtain ⟨e, hm, hf⟩ := List.mem_filterMap.1 ht
    simpa [Tuple.Argues] using hes e hm t hf
  have hblock : block.filterMap Event.fact? = argumentTuples l arguments := by
    change block.filterMap (fun e => e.record?.bind Record.fact?) = _
    rw [← List.filterMap_filterMap, hrows, List.filterMap_map]
    exact List.filterMap_some
  have hall : ∀ t ∈ argumentTuples l arguments,
      t.relation = "type_arguments" ∧ t.args.getLast? = some (.label l) :=
    fun _ => argues_argumentTuples
  have hfilter : cx.argumentsOf l = (cx.events.filterMap Event.fact?).filter
      fun t => t.relation = "type_arguments" ∧ t.args.getLast? = some (.label l) := by
    rw [Context.argumentsOf, stated_eq, List.filter_filter]
    refine List.filter_congr fun t _ => ?_
    rw [← Bool.decide_and, decide_eq_decide, and_comm]
  rw [hfilter, he, List.filterMap_append, List.filterMap_append, List.filter_append,
    List.filter_append, hnone before fun e hm => hapart e (List.mem_append_left _ hm),
    hnone after fun e hm => hapart e (List.mem_append_right _ hm), hblock,
    List.filter_eq_self.2 fun t ht => decide_eq_true (hall t ht), List.nil_append, List.append_nil]

/-- Arguments that are listed stand side by side in the trap. -/
theorem Lists.contiguous {arguments : List Label} (h : cx.Lists l arguments) :
    (argumentTuples l arguments).map .tuple <:+: cx.trap := by
  obtain ⟨before, block, after, he, hrows, -, -⟩ := h
  refine ⟨before.filterMap Event.record?, after.filterMap Event.record?, ?_⟩
  rw [trap_eq, he, List.filterMap_append, List.filterMap_append, hrows]

/-- More happened, but nothing was queued and no description began. -/
structure Idles (cx cx' : Context) : Prop where
  frame : Frame cx cx'
  queue : cx'.queue = cx.queue
  begun : ∀ en l, .populating en l ∈ cx'.events → .populating en l ∈ cx.events

theorem Idles.refl (cx : Context) : cx.Idles cx :=
  ⟨.refl cx, rfl, fun _ _ => id⟩

theorem Idles.trans (h : cx.Idles cx₁) (h' : cx₁.Idles cx') : cx.Idles cx' :=
  ⟨h.frame.trans h'.frame, h'.queue.trans h.queue, fun en l hm => h.begun en l (h'.begun en l hm)⟩

theorem Idles.openGenerics (cx : Context) (l : Label) : cx.Idles (cx.openGenerics l) :=
  ⟨.deed (.openGenerics cx l), rfl, fun _ _ hm => by simpa using hm⟩

/-- Facts are stated, and nothing else is done but to look labels up. -/
structure Recites (cx cx' : Context) (rows : List Tuple) : Prop where
  frame : Frame cx cx'
  same : cx'.same? = cx.same?
  generics : cx'.generics = cx.generics
  queue : cx'.queue = cx.queue
  events : ∃ es, cx'.events = cx.events ++ es ∧
    es.filterMap Event.record? = rows.map .tuple ∧
    ∀ e ∈ es, (∃ slot c, e = .served slot c ∧ cx.same? slot c.entity = some c) ∨
      ∃ t ∈ rows, e = .wrote (.tuple t)

namespace Recites

theorem refl (cx : Context) : cx.Recites cx [] :=
  ⟨.refl cx, rfl, rfl, rfl, [], by simp⟩

theorem served {c : Created} (h : cx.same? slot c.entity = some c) :
    cx.Recites (cx.log (.served slot c)) [] :=
  ⟨.log _ _, rfl, rfl, rfl, [.served slot c], cx.events_log _, rfl, by simpa using h⟩

theorem write (cx : Context) (t : Tuple) : cx.Recites (cx.write (.tuple t)) [t] :=
  ⟨.deed (.emit _ _), rfl, rfl, rfl, [.wrote (.tuple t)], cx.events_write _, rfl, by simp⟩

theorem trans {rows rows' : List Tuple} (h : cx.Recites cx₁ rows) (h' : cx₁.Recites cx' rows') :
    cx.Recites cx' (rows ++ rows') := by
  obtain ⟨es, he, hr, hes⟩ := h.events
  obtain ⟨es', he', hr', hes'⟩ := h'.events
  refine ⟨h.frame.trans h'.frame, h'.same.trans h.same, h'.generics.trans h.generics,
    h'.queue.trans h.queue, es ++ es', by rw [he', he, List.append_assoc], ?_, fun e hm => ?_⟩
  · rw [List.filterMap_append, hr, hr', List.map_append]
  · rcases List.mem_append.1 hm with hm | hm
    · exact (hes e hm).imp_right fun ⟨t, ht, he⟩ => ⟨t, List.mem_append_left _ ht, he⟩
    · have hcited := hes' e hm
      rw [h.same] at hcited
      exact hcited.imp_right fun ⟨t, ht, he⟩ => ⟨t, List.mem_append_right _ ht, he⟩

theorem idles {rows : List Tuple} (h : cx.Recites cx' rows) : cx.Idles cx' := by
  obtain ⟨es, he, -, hes⟩ := h.events
  refine ⟨h.frame, h.queue, fun en l hm => ?_⟩
  rw [he, List.mem_append] at hm
  refine hm.resolve_right fun hm => ?_
  rcases hes _ hm with ⟨_, _, heq, -⟩ | ⟨_, -, heq⟩ <;> cases heq

theorem related (w : World) (deeper : Option Runner) (drain : Context → Reply Unit)
    (cx : Context) (relation : String) (l : Label) (other : Option Label) : ∃ cx',
      cx.Recites cx' (relatedTuples relation l other) ∧
      w.eval deeper drain (relatedFact relation l other) cx = ⟨.done (), cx'⟩ := by
  cases other with
  | none => exact ⟨cx, .refl cx, rfl⟩
  | some other => exact ⟨_, .write cx _, rfl⟩

end Recites

end Context

namespace Model

/-- What was served is in the caches, which have nothing but what was made from the model. -/
structure Cached (m : Model) (cx : Context) : Prop where
  served : ∀ slot c, .served slot c ∈ cx.events → cx.same? slot c.entity = some c
  known : ∀ type source en c, cx.same? (.object type source) en = some c →
    .created (.object type source) c ∈ cx.events
  made : ∀ slot en l, .created slot ⟨l, en⟩ ∈ cx.events →
    ∃ recipe, slot = Recipe.slot recipe ∧ recipe.Yields m en cx

namespace Cached

theorem fresh (m : Model) (x : Extractor) : m.Cached { extractor := x } where
  served := by simp [Context.events, Context.moments]
  known := by simp [Context.same?, Context.known?]
  made := by simp [Context.events, Context.moments]

/-- Events that create nothing, and serve what is in the caches. -/
theorem more (h : m.Cached cx) (he : cx'.events = cx.events ++ es) (hs : cx'.same? = cx.same?)
    (hc : ∀ slot c, .created slot c ∉ es)
    (hv : ∀ slot c, .served slot c ∈ es → cx.same? slot c.entity = some c) : m.Cached cx' where
  served slot c hm := by
    rw [hs]
    rw [he, List.mem_append] at hm
    exact hm.elim (h.served slot c) (hv slot c)
  known type source en c hk := he ▸ List.mem_append_left _ (h.known type source en c (hs ▸ hk))
  made slot en l hm := by
    rw [he, List.mem_append] at hm
    obtain ⟨recipe, hslot, hy⟩ := h.made slot en l (hm.resolve_right (hc _ _))
    exact ⟨recipe, hslot, Recipe.lasting_yields _ _ _ hy ⟨es, he.symm⟩⟩

theorem introduce {recipe : Recipe} (h : m.Cached cx) (hn : cx.same? recipe.slot en = none)
    (hy : recipe.Yields m en cx) : m.Cached (cx.introduce recipe.slot en).2 where
  served slot c hm := by
    rcases Context.mem_events_introduce hm with hm | ⟨_, hm⟩ | hm | hm
    · exact (Frame.introduce hn).same (h.served slot c hm)
    all_goals cases hm
  known type source en' c hk := by
    rw [Context.same?_introduce] at hk
    split at hk
    · next heq =>
      have hobject : recipe.slot ≠ .value := by simp [heq.1]
      rw [← heq.1, ← Option.some.inj hk, if_neg hobject]
      simp
    · exact (Frame.introduce hn).events.subset (h.known type source en' c hk)
  made slot en' l hm := by
    have hmono := (Frame.introduce hn).events
    rcases Context.mem_events_introduce hm with hm | ⟨_, hm⟩ | hm | hm
    · obtain ⟨recipe', hslot, hy'⟩ := h.made slot en' l hm
      exact ⟨recipe', hslot, Recipe.lasting_yields _ _ _ hy' hmono⟩
    · cases hm
    · cases hm
    · cases hm
      exact ⟨recipe, rfl, Recipe.lasting_yields _ _ _ hy hmono⟩

theorem openGenerics (h : m.Cached cx) (l : Label) : m.Cached (cx.openGenerics l) := by
  have hstill : (cx.openGenerics l).events = cx.events ++ [] := by simp
  exact h.more hstill rfl (by simp) (by simp)

theorem recited {rows : List Tuple} (h : m.Cached cx) (hr : cx.Recites cx' rows) :
    m.Cached cx' := by
  obtain ⟨es, he, -, hes⟩ := hr.events
  refine h.more he hr.same (fun _ _ hm => ?_) fun slot c hm => ?_
  · rcases hes _ hm with ⟨_, _, heq, -⟩ | ⟨_, -, heq⟩ <;> cases heq
  · rcases hes _ hm with ⟨_, _, heq, hs⟩ | ⟨_, -, heq⟩
    · cases heq
      exact hs
    · cases heq

/-- A named type was made as the model has it. -/
theorem namedType (h : m.Cached cx) (hc : .created slot ⟨l, .namedType t⟩ ∈ cx.events) :
    ∃ s, m.symbol t.symbol = .ok s ∧ NamedType.Stands m cx t.symbol t s := by
  obtain ⟨recipe, -, hy⟩ := h.made _ _ _ hc
  obtain ⟨id, s, -, hs, hstands⟩ := hy.of_namedType
  obtain rfl := hstands.symbol
  exact ⟨s, hs, hstands⟩

end Cached

theorem typeLabel_of_typeRecipe? {recipe : Recipe} (h : m.typeRecipe? id = some recipe) :
    m.typeLabel id = (Prog.entity recipe).bind fun c => .pure c.label := by
  obtain ⟨s, hs⟩ := symbol_of_typeRecipe? h
  rw [typeRecipe?_eq hs] at h
  unfold typeLabel
  rw [hs]
  change (if s.kind = .pointer then _ else _) = _
  split at h
  · next hk =>
    cases h
    rw [if_pos hk]
    rfl
  · next hk =>
    rw [if_neg hk]
    split at h
    · next ht =>
      cases h
      rw [if_pos ht]
      rfl
    · cases h

/-- The label of a type that was served is looked up. -/
theorem Cached.eval_typeLabel (h : m.Cached cx) (ht : m.TypeAt cx id l) (scope : Scope)
    (deeper : Option Runner) (drain : Context → Reply Unit) : ∃ cx', cx.Recites cx' [] ∧
      (World.ofModel m scope).eval deeper drain (m.typeLabel id) cx = ⟨.done l, cx'⟩ := by
  obtain ⟨recipe, hr, c, hc, rfl⟩ := ht
  have hsame := h.served _ _ hc
  refine ⟨_, .served hsame, ?_⟩
  obtain ⟨type, hslot⟩ := typeRecipe?_slot hr
  have hk : cx.known? recipe.slot = some c := by
    rw [hslot] at hsame ⊢
    exact hsame
  have hobtained : (World.ofModel m scope).obtain? deeper recipe.slot (m.factory recipe)
      (facts m scope) cx = ⟨.done c, cx.log (.served recipe.slot c)⟩ := by
    unfold World.obtain?
    rw [hk]
  rw [typeLabel_of_typeRecipe? hr]
  change (World.obtain? _ deeper recipe.slot (m.factory recipe) (facts m scope) cx).andThen _ = _
  rw [hobtained]
  rfl

/-- The arguments of a type that was made are looked up and stated. -/
theorem Cached.eval_arguments {arguments : List SymbolId} {ls : List Label} (h : m.Cached cx)
    (ha : List.Forall₂ (m.TypeAt cx) arguments ls) (scope : Scope) (deeper : Option Runner)
    (drain : Context → Reply Unit) (l : Label) (start : Nat) : ∃ cx',
      cx.Recites cx' (argumentTuples l ls start) ∧
      (World.ofModel m scope).eval deeper drain
        (Prog.each (arguments.zipIdx start) fun (argument, index) =>
          (m.typeLabel argument).bind fun argument =>
            Prog.fact "type_arguments" [.label argument, .index index, .label l]) cx =
        ⟨.done (), cx'⟩ := by
  induction arguments generalizing cx ls start with
  | nil =>
    cases ha
    exact ⟨cx, .refl cx, rfl⟩
  | cons a arguments ih =>
    cases ha with
    | @cons _ la _ ls hla ha =>
      let row : Tuple := ⟨"type_arguments", [.label la, .index start, .label l]⟩
      obtain ⟨cx₁, hfound, heval⟩ := h.eval_typeLabel hla scope deeper drain
      have hknown : cx.Recites (cx₁.write (.tuple row)) [row] := hfound.trans (.write cx₁ row)
      obtain ⟨cx₂, hrest, hloop⟩ := ih (h.recited hknown)
        (ha.imp fun _ _ ht => ht.mono hknown.frame.events) (start + 1)
      refine ⟨cx₂, hknown.trans hrest, ?_⟩
      rw [List.zipIdx_cons, Prog.each, World.eval_bind, World.eval_bind, heval]
      exact hloop

/-- A label of a constructed type that is a pointer. -/
def Pointed (m : Model) (cx : Context) (l : Label) : Prop :=
  ∃ id s en, .created (.object .pointer (.symbol id)) ⟨l, en⟩ ∈ cx.events ∧ m.symbol id = .ok s ∧
    (s.constructedFrom? id).isSome = true

theorem Pointed.mono (h : m.Pointed cx l) (he : cx.events <+: cx'.events) : m.Pointed cx' l := by
  obtain ⟨id, s, en, hc, hs⟩ := h
  exact ⟨id, s, en, he.subset hc, hs⟩

/-- The arguments that are stated are those of labels that were opened, and the labels that were
opened are those of constructed types. A named type has its arguments stated at once. -/
structure Listed (m : Model) (cx : Context) : Prop extends m.Cached cx where
  opened : ∀ l ∈ cx.generics, m.Pointed cx l ∨
    ∃ slot t, .created slot ⟨l, .namedType t⟩ ∈ cx.events ∧
    t.definition.isSome = true ∧ cx.Lists l t.arguments
  stated : ∀ e ∈ cx.events, ∀ t, e.fact? = some t → t.relation = "type_arguments" →
    ∃ l ∈ cx.generics, t.Argues l

namespace Listed

theorem fresh (m : Model) (x : Extractor) : m.Listed { extractor := x } where
  toCached := .fresh m x
  opened := by simp
  stated := by simp [Context.events, Context.moments]

/-- Events that state arguments of one label at most, one that is open and not a named type's. -/
theorem more (h : m.Listed cx) (he : cx'.events = cx.events ++ es)
    (hg : cx'.generics = cx.generics) (hc : m.Cached cx')
    (hf : ∀ e ∈ es, ∀ t, e.fact? = some t → t.relation = "type_arguments" →
      ∃ l ∈ cx.generics, t.Argues l ∧ m.Pointed cx l) : m.Listed cx' where
  toCached := hc
  opened l hl := by
    have hmono : cx.events <+: cx'.events := ⟨es, he.symm⟩
    rw [hg] at hl
    rcases h.opened l hl with hp | ⟨slot, t, hcreated, hd, hlists⟩
    · exact .inl (hp.mono hmono)
    · by_cases hp : m.Pointed cx l
      · exact .inl (hp.mono hmono)
      · refine .inr ⟨slot, t, hmono.subset hcreated, hd, hlists.more he fun e hm t ht ha => hp ?_⟩
        obtain ⟨l', -, ha', hp'⟩ := hf e hm t ht ha.1
        rwa [ha.unique ha']
  stated e hm t ht hr := by
    rw [he, List.mem_append] at hm
    rw [hg]
    rcases hm with hm | hm
    · exact h.stated e hm t ht hr
    · obtain ⟨l, hl, ha, -⟩ := hf e hm t ht hr
      exact ⟨l, hl, ha⟩

/-- Facts that are about other things. -/
theorem recited {rows : List Tuple} (h : m.Listed cx) (hr : cx.Recites cx' rows)
    (hn : ∀ row ∈ rows, row.relation ≠ "type_arguments") : m.Listed cx' := by
  obtain ⟨es, he, -, hes⟩ := hr.events
  refine h.more he hr.generics (h.toCached.recited hr) fun e hm row hrow hrelation => ?_
  rcases hes e hm with ⟨_, _, rfl, -⟩ | ⟨_, ht, rfl⟩
  · cases hrow
  · cases hrow
    exact absurd hrelation (hn row ht)

theorem populating (h : m.Listed cx) (en : Entity) (l : Label) :
    m.Listed (cx.populating en l) := by
  have hcached : m.Cached (cx.populating en l) :=
    h.toCached.more (cx.events_populating en l) rfl (by simp) (by simp)
  refine h.more (cx.events_populating en l) rfl hcached fun e hm t ht _ => ?_
  obtain rfl := List.mem_singleton.1 hm
  cases ht

/-- A label is open again, or is that of a pointer. -/
theorem openGenerics (h : m.Listed cx) (hl : l ∈ cx.generics ∨ m.Pointed cx l) :
    m.Listed (cx.openGenerics l) where
  toCached := h.toCached.openGenerics l
  opened l' hl' := by
    rcases Std.HashSet.mem_insert.1 hl' with heq | hl'
    · obtain rfl : l = l' := LawfulBEq.eq_of_beq heq
      exact hl.elim (h.opened l) .inl
    · exact h.opened l' hl'
  stated e hm t ht hr := by
    obtain ⟨l', hl', ha⟩ := h.stated e hm t ht hr
    exact ⟨l', Std.HashSet.mem_insert.2 (.inr hl'), ha⟩

/-- The arguments of a named type are stated. -/
theorem recite (h : m.Listed cx) (hn : l ∉ cx.generics)
    (hc : .created slot ⟨l, .namedType t⟩ ∈ cx.events) (hd : t.definition.isSome = true)
    (hr : (cx.openGenerics l).Recites cx' (argumentTuples l t.arguments)) : m.Listed cx' := by
  obtain ⟨es, he, hrows, hes⟩ := hr.events
  rw [Context.events_openGenerics] at he
  have hmono : cx.events <+: cx'.events := ⟨es, he.symm⟩
  have hfact : ∀ e ∈ es, ∀ row, e.fact? = some row → row.Argues l := by
    intro e hm row hrow
    rcases hes e hm with ⟨_, _, rfl, -⟩ | ⟨_, ht, rfl⟩
    · cases hrow
    · cases hrow
      exact argues_argumentTuples ht
  have hlists : cx'.Lists l t.arguments := by
    refine ⟨cx.events, es, [], by rw [he, List.append_nil], hrows, fun e hm => ?_, ?_⟩
    · exact (hes e hm).imp (fun ⟨slot, c, heq, _⟩ => ⟨slot, c, heq⟩) fun ⟨t, _, heq⟩ => ⟨_, heq⟩
    · intro e hm row hrow ha
      rw [List.append_nil] at hm
      obtain ⟨l', hl', ha'⟩ := h.stated e hm row hrow ha.1
      exact hn (ha.unique ha' ▸ hl')
  refine ⟨?_, fun l' hl' => ?_, fun e hm row hrow hrelation => ?_⟩
  · exact (h.toCached.openGenerics l).recited hr
  · rw [hr.generics] at hl'
    rcases Std.HashSet.mem_insert.1 hl' with heq | hl'
    · obtain rfl : l = l' := LawfulBEq.eq_of_beq heq
      exact .inr ⟨slot, t, hmono.subset hc, hd, hlists⟩
    · refine (h.opened l' hl').imp (·.mono hmono) ?_
      rintro ⟨slot', t', hc', hd', hlists'⟩
      refine ⟨slot', t', hmono.subset hc', hd', hlists'.more he fun e hm row hrow ha => hn ?_⟩
      rwa [(hfact e hm row hrow).unique ha]
  · rw [hr.generics]
    rw [he, List.mem_append] at hm
    rcases hm with hm | hm
    · obtain ⟨l', hl', ha⟩ := h.stated e hm row hrow hrelation
      exact ⟨l', Std.HashSet.mem_insert.2 (.inr hl'), ha⟩
    · exact ⟨l, Std.HashSet.mem_insert_self, hfact e hm row hrow⟩

/-- The facts about the arguments of a named type that was made: whoever comes first states them,
without a break. -/
theorem eval_typeArgumentFacts (h : m.Listed cx)
    (hc : .created slot ⟨l, .namedType t⟩ ∈ cx.events) (scope : Scope) (deeper : Option Runner)
    (drain : Context → Reply Unit) : ∃ cx',
      (World.ofModel m scope).eval deeper drain (typeArgumentFacts m t.symbol l) cx =
        ⟨.done (), cx'⟩ ∧
      m.Listed cx' ∧ (t.definition.isSome = true → l ∈ cx'.generics) ∧
      cx.Idles cx' := by
  obtain ⟨s, hs, hstands⟩ := h.toCached.namedType hc
  have hconstructed := hstands.definition.isSome_eq
  have hbody : typeArgumentFacts m t.symbol l =
      if (s.constructedFrom? t.symbol).isSome then
        .openGenerics l fun new => if new then
          Prog.each s.typeArguments.zipIdx fun (argument, index) =>
            (m.typeLabel argument).bind fun argument =>
              Prog.fact "type_arguments" [.label argument, .index index, .label l]
        else .pure ()
      else .pure () := by
    unfold typeArgumentFacts
    rw [hs]
    rfl
  rw [hbody, hconstructed]
  cases hd : t.definition.isSome with
  | false => exact ⟨cx, rfl, h, by simp, .refl cx⟩
  | true =>
    rw [if_pos rfl]
    by_cases hl : l ∈ cx.generics
    · have hknown : cx.generics.contains l = true := Std.HashSet.contains_iff_mem.2 hl
      refine ⟨cx.openGenerics l, ?_, h.openGenerics (.inl hl), ?_, .openGenerics cx l⟩
      · change World.eval _ _ _ (if (!cx.generics.contains l) then _ else _) _ = _
        rw [hknown]
        rfl
      · exact fun _ => Std.HashSet.mem_insert_self
    · have hnew : cx.generics.contains l = false := by simpa using hl
      have hstarted := hstands.arguments
      rw [if_pos hd] at hstarted
      have hopened := (Context.Idles.openGenerics cx l).frame.events
      obtain ⟨cx', hr, heval⟩ := (h.toCached.openGenerics l).eval_arguments
        (hstarted.imp fun _ _ ht => ht.mono hopened) scope deeper drain l 0
      refine ⟨cx', ?_, h.recite hl hc hd hr, fun _ => ?_,
        .trans (.openGenerics cx l) hr.idles⟩
      · change World.eval _ _ _ (if (!cx.generics.contains l) then _ else _) _ = _
        rw [hnew]
        exact heval
      · rw [hr.generics]
        exact Std.HashSet.mem_insert_self

end Listed

/-- Where a constructed type that was resolved is described, its arguments are stated. -/
structure Spelled (m : Model) (cx : Context) : Prop extends m.Listed cx where
  described : ∀ t l, .populating (.namedType t) l ∈ cx.events → t.kind ≠ .error →
    t.definition.isSome = true → l ∈ cx.generics

namespace Spelled

theorem fresh (m : Model) (x : Extractor) : m.Spelled { extractor := x } where
  toListed := .fresh m x
  described := by simp [Context.events, Context.moments]

/-- Events that state no arguments and begin no description. -/
theorem more (h : m.Spelled cx) (he : cx'.events = cx.events ++ es)
    (hg : cx'.generics = cx.generics) (hc : m.Cached cx')
    (hf : ∀ e ∈ es, ∀ t, e.fact? = some t → t.relation ≠ "type_arguments")
    (hd : ∀ e ∈ es, e.described? = none) : m.Spelled cx' where
  toListed := h.toListed.more he hg hc fun e hm t ht hr => absurd hr (hf e hm t ht)
  described t l hm hk hdefined := by
    rw [he, List.mem_append] at hm
    rw [hg]
    rcases hm with hm | hm
    · exact h.described t l hm hk hdefined
    · cases hd _ hm

theorem act {relations : List String} {a : Act} (h : m.Spelled cx) (ha : a.Among relations)
    (hn : "type_arguments" ∉ relations) : m.Spelled (a.perform cx) := by
  have hlog : ∀ e, (a.perform cx).events = cx.events ++ [e] → (a.perform cx).same? = cx.same? →
      (a.perform cx).generics = cx.generics → (∀ slot c, e ≠ .created slot c) →
      (∀ slot c, e ≠ .served slot c) → (∀ t, e.fact? = some t → t.relation ≠ "type_arguments") →
      e.described? = none → m.Spelled (a.perform cx) := by
    intro e he hs hg hc hv hf hd
    refine h.more he hg (h.toCached.more he hs ?_ ?_) ?_ ?_
    · exact fun slot c hm => hc slot c (List.mem_singleton.1 hm).symm
    · exact fun slot c hm => absurd (List.mem_singleton.1 hm).symm (hv slot c)
    · exact fun e' hm => List.mem_singleton.1 hm ▸ hf
    · exact fun e' hm => List.mem_singleton.1 hm ▸ hd
  cases a with
  | opens => exact absurd ha hn
  | states fact =>
    refine hlog _ (cx.events_write _) rfl rfl (by simp) (by simp) ?_ rfl
    rintro _ ⟨⟩ heq
    exact hn (heq ▸ ha)
  | labels =>
    exact hlog _ (cx.allocate.events_write _) rfl rfl (by simp) (by simp)
      (by simp [Event.fact?, Event.record?, Record.fact?]) rfl
  | misses =>
    exact hlog _ (cx.events_missingType _) rfl rfl (by simp) (by simp)
      (by simp [Event.fact?, Event.record?]) rfl

/-- The engine states no arguments on its own account. -/
theorem engineKeeps (m : Model) : m.EngineKeeps m.Spelled where
  step h hs := by
    obtain ⟨es, he, hplain⟩ := hs.events
    refine h.more he hs.generics (h.toCached.more he hs.same (fun slot c hm => ?_)
      fun slot c hm => hplain _ hm) (fun e hm t ht => ?_) fun e hm => (hplain e hm).described?
    · exact hplain _ hm
    · rw [(hplain e hm).fact?] at ht
      cases ht
  introduce h hn hy := by
    obtain ⟨es, he, hf, hd⟩ := Context.facts_introduce _ _ _
    refine h.more he (Context.generics_introduce _ _ _) (h.toCached.introduce hn hy)
      (fun e hm t ht => ?_) hd
    rw [hf e hm] at ht
    cases ht

theorem permits {relations : List String} (hn : "type_arguments" ∉ relations) :
    (m.invariant m.Spelled).Permits cx (Act.Among relations) :=
  fun _ _ _ ha h => h.act ha hn

/-- Nothing that begins a description, and no labels are closed. -/
theorem idle (h : m.Spelled cx) (hl : m.Listed cx') (hi : cx.Idles cx') : m.Spelled cx' :=
  ⟨hl, fun t l hm hk hd => hi.frame.generics (h.described t l (hi.begun _ _ hm) hk hd)⟩

/-- The arguments of a pointer, whose making may take time. -/
theorem pointerArguments (scope : Scope) (hp : ∀ s, m.symbol id = .ok s →
    (s.constructedFrom? id).isSome = true → m.Pointed cx l) :
    UnitKeeps m scope m.Spelled (typeArgumentFacts m id l) cx fun _ _ => True := by
  let may : Act → Prop := fun a => ∃ row, a = .states row ∧ row.Argues l
  refine .read fun s hs => ?_
  split
  · next hd =>
    have hpointed := hp s hs hd
    have hopens : m.Spelled cx → m.Spelled (cx.openGenerics l) := fun h =>
      h.idle (h.toListed.openGenerics (.inr hpointed)) (.openGenerics cx l)
    refine .openGenerics hopens fun new => ?_
    cases new with
    | false => exact .pure trivial
    | true =>
      have hmay : (m.invariant m.Spelled).Permits (cx.openGenerics l) may := by
        rintro _ cx₁ hf ⟨row, rfl, ha⟩ h
        have hopen : l ∈ cx₁.generics := hf.generics Std.HashSet.mem_insert_self
        have hmono : cx.events <+: cx₁.events := ((Act.opens l).frame cx).events.trans hf.events
        have hcached : m.Cached (cx₁.write (.tuple row)) :=
          h.toCached.more (cx₁.events_write _) rfl (by simp) (by simp)
        refine h.idle (h.toListed.more (cx₁.events_write _) rfl hcached fun e hm t ht _ => ?_)
          (Context.Recites.write cx₁ row).idles
        obtain rfl := List.mem_singleton.1 hm
        cases ht
        exact ⟨l, hopen, ha, hpointed.mono hmono⟩
      refine .acts ((engineKeeps m).engineKeeps scope) (.each fun _ _ => ?_) hmay
      exact (Prog.Acts.of_gathers (typeLabel_gathers _)).bind fun _ => ⟨⟨_, rfl, rfl, rfl⟩, trivial⟩
  · exact .pure trivial

/-- The facts about the arguments of a type that was reached, whoever states them. -/
theorem typeArgumentFacts (scope : Scope) (ht : m.TypeAt cx id l) :
    UnitKeeps m scope m.Spelled (typeArgumentFacts m id l) cx fun _ _ => True := by
  obtain ⟨recipe, hr, ⟨_, en⟩, hserved, rfl⟩ := ht
  intro deeper drain hdeeper hs
  have hcx : m.Spelled cx := hs.holds
  rcases typeRecipe?_cases hr with rfl | rfl
  · have hc := hcx.known _ _ _ _ (hcx.served _ _ hserved)
    refine pointerArguments scope (fun s hsym hd => ?_) deeper drain hdeeper hs
    exact ⟨id, s, en, hc, hsym, hd⟩
  · have hc := hcx.known _ _ _ _ (hcx.served _ _ hserved)
    obtain ⟨recipe, hslot, hy⟩ := hcx.made _ _ _ hc
    obtain rfl : recipe = .namedType id := Recipe.eq_of_slot hslot.symm rfl
    obtain ⟨s, t, hsym, hstands, rfl⟩ := hy
    obtain rfl := hstands.symbol
    obtain ⟨cx', heval, hlisted, -, hidle⟩ :=
      hcx.toListed.eval_typeArgumentFacts hc scope deeper drain
    rw [heval]
    refine ⟨⟨⟨hcx.idle hlisted hidle, ?_⟩, hidle.frame⟩, fun _ _ => trivial⟩
    exact hs.waits.along hidle.frame.events hidle.queue

/-- A description begins, of an entity that has no arguments to tell. -/
theorem populating (h : m.Spelled cx) (hn : ∀ t, en = .namedType t → t.kind ≠ .error →
    t.definition.isSome = true → l ∈ cx.generics) : m.Spelled (cx.populating en l) where
  toListed := h.toListed.populating en l
  described t l' hm hk hd := by
    rw [Context.events_populating, List.mem_append, List.mem_singleton] at hm
    rcases hm with hm | hm
    · exact h.described t l' hm hk hd
    · cases hm
      exact hn t rfl hk hd

/-- Before its arguments, a constructed type tells what it is and belongs to, and its definition. -/
theorem eval_constructed {definition : Label} (hk : t.kind ≠ .error)
    (hd : t.definition = some definition) (scope : Scope) (deeper : Option Runner)
    (drain : Context → Reply Unit) (start : Context) : ∃ named rows, start.Recites named rows ∧
      (∀ row ∈ rows, row.relation ≠ "type_arguments") ∧
      let w : World := .ofModel m scope
      w.eval deeper drain (facts m scope (.namedType t) l) start =
        w.eval deeper drain (TrapFacts.typeArgumentFacts m t.symbol l) named := by
  have hbody : facts m scope (.namedType t) l =
      (Prog.fact "types" [.label l, .index (t.kind.typeNumber?.getD 0), .text t.name]).bind fun _ =>
        (relatedFact "parent_namespace" l t.space).bind fun _ =>
          (relatedFact "nested_types" l t.container).bind fun _ =>
            (Prog.fact "constructed_from" [.label l, .label definition]).bind fun _ =>
              TrapFacts.typeArgumentFacts m t.symbol l := by
    simp only [facts, namedTypeFacts, if_neg hk, hd]
    rfl
  let typed := start.write
    (.tuple ⟨"types", [.label l, .index (t.kind.typeNumber?.getD 0), .text t.name]⟩)
  obtain ⟨placed, hplaced, hspace⟩ := Context.Recites.related (.ofModel m scope) deeper drain
    typed "parent_namespace" l t.space
  obtain ⟨nested, hnested, hcontainer⟩ := Context.Recites.related (.ofModel m scope) deeper drain
    placed "nested_types" l t.container
  refine ⟨_, _, (((Context.Recites.write start _).trans hplaced).trans hnested).trans
    (.write nested ⟨"constructed_from", [.label l, .label definition]⟩), fun row hrow => ?_, ?_⟩
  · simp only [List.mem_append, List.mem_singleton, relatedTuples, List.mem_map] at hrow
    rcases hrow with ((rfl | ⟨_, -, rfl⟩) | ⟨_, -, rfl⟩) | rfl <;> simp [Tuple.relating]
  · intro w
    rw [hbody, World.eval_bind]
    change World.eval _ _ _ _ typed = _
    rw [World.eval_bind, hspace]
    change World.eval _ _ _ _ placed = _
    rw [World.eval_bind, hcontainer]
    rfl

/-- A constructed type states its arguments, or has them stated already. -/
theorem constructed (h : m.Spelled cx) (hc : .created slot ⟨l, .namedType t⟩ ∈ cx.events)
    (hk : t.kind ≠ .error) (hd : t.definition.isSome = true) (scope : Scope)
    (deeper : Option Runner) (drain : Context → Reply Unit) :
    let cx' := ((World.ofModel m scope).eval deeper drain (facts m scope (.namedType t) l)
      (cx.populating (.namedType t) l)).context
    m.Spelled cx' ∧ Frame cx cx' ∧ cx'.queue = cx.queue := by
  let start := cx.populating (.namedType t) l
  have hstart : Frame cx start := .populating _ _ _
  obtain ⟨definition, hdefinition⟩ := Option.isSome_iff_exists.1 hd
  obtain ⟨named, rows, hknown, hrows, hhead⟩ :=
    eval_constructed (l := l) hk hdefinition scope deeper drain start
  have hlisted : m.Listed named := (h.toListed.populating _ l).recited hknown hrows
  obtain ⟨cx', heval, hdone, hopen, hidle⟩ := hlisted.eval_typeArgumentFacts
    ((hstart.events.trans hknown.frame.events).subset hc) scope deeper drain
  have hidles := hknown.idles.trans hidle
  intro cx''
  obtain rfl : cx'' = cx' := congrArg Reply.context (hhead.trans heval)
  refine ⟨⟨hdone, fun t' l' hm hk' hd' => ?_⟩, hstart.trans hidles.frame, hidles.queue⟩
  have hbegun := hidles.begun _ _ hm
  rw [Context.events_populating, List.mem_append, List.mem_singleton] at hbegun
  rcases hbegun with hold | hnew
  · exact hidles.frame.generics (h.described t' l' hold hk' hd')
  · cases hnew
    exact hopen hd

theorem method {f : Method} {scope : Scope} (hl : m.TypeAt cx f.declaringSymbol f.declaring) :
    UnitKeeps m scope m.Spelled (facts m scope (.method f) l) cx fun _ _ => True := by
  have hu := (engineKeeps m).engineKeeps scope
  let own : List String := ["methods", "returns", "params", "accessors", "method_location"]
  have hown : ∀ cx : Context, (m.invariant m.Spelled).Permits cx (Act.Among own) :=
    fun _ => permits (by simp [own])
  refine ContextInvariant.ProgKeeps.bind (.acts hu (.fact _ (by simp [own])) (hown _))
    fun _ cx₁ hf₁ _ => ?_
  refine ContextInvariant.ProgKeeps.bind (.acts hu (relatedFact_acts (by simp [own]) l _) (hown _))
    fun _ cx₂ hf₂ _ => .read fun s _ => ?_
  refine ContextInvariant.ProgKeeps.bind
    (.acts hu (parameterFacts_acts (by simp [own]) _ _ l) (hown _)) fun _ cx₃ hf₃ _ => ?_
  have hf := (hf₁.trans hf₂).trans hf₃
  refine (typeArgumentFacts scope (hl.mono hf.events)).bind fun _ cx₄ _ _ => ?_
  exact .acts hu (accessorFacts_acts (by simp [own]) (by simp [own]) f s l) (hown _)

/-- Descriptions keep that the arguments of a constructed type are stated with it. -/
theorem descriptionsKeep (m : Model) (scope : Scope) : m.DescriptionsKeep scope m.Spelled where
  toEngineKeeps := engineKeeps m
  body := by
    intro deeper drain en l cx hdeeper hcx hc
    have hspelled : m.Spelled cx := hcx.holds
    obtain ⟨slot, hc⟩ := hc
    have hplain : "type_arguments" ∉ en.factRelations → (∀ t, en ≠ .namedType t) →
        (m.invariant m.Spelled).Kept (facts m scope) cx
          ((World.ofModel m scope).eval deeper drain (facts m scope en l)
            (cx.populating en l)).context := fun hn hother =>
      (engineKeeps m).body hdeeper hcx (hspelled.populating fun t ht => absurd ht (hother t))
        (facts_acts en l) (permits hn)
    cases en with
    | namedType t =>
      by_cases hargued : t.kind ≠ .error ∧ t.definition.isSome = true
      · obtain ⟨hk, hd⟩ := hargued
        obtain ⟨hdone, hframe, hqueue⟩ := hspelled.constructed hc hk hd scope deeper drain
        exact ⟨⟨hdone, hcx.waits.along hframe.events hqueue⟩, hframe⟩
      · have hbegin : m.Spelled (cx.populating (.namedType t) l) :=
          hspelled.populating fun t' ht hk hd => by
            cases ht
            exact absurd ⟨hk, hd⟩ hargued
        refine (engineKeeps m).body hdeeper hcx hbegin
          (namedTypeFacts_acts (fun _ => id) (fun hk hd => absurd ⟨hk, hd⟩ hargued) l)
          (permits (by simp))
    | method f =>
      obtain ⟨recipe, -, hy⟩ := hspelled.made _ _ _ hc
      obtain ⟨id, s, -, -, hstands⟩ := hy.of_method
      have hl := hstands.declaring.mono (Frame.populating cx (.method f) l).events
      exact (method hl).body hdeeper hcx (hspelled.populating (by simp))
    | _ => exact hplain (by simp [Entity.factRelations]) (by simp)

end Spelled

end Model

/-- Declarations that lie in trees of the model are never stray. -/
theorem Model.Sited.strayTree? (h : m.Sited) (en : Entity) : m.strayTree? en = none := by
  have hfirst : ∀ id, (m.firstDeclaration? id).bind m.missingTree? = none := by
    intro id
    cases hs : m.symbol id with
    | error => simp [Model.firstDeclaration?, hs]
    | ok s =>
      rw [Model.firstDeclaration?_eq hs, Option.bind_eq_none_iff]
      exact fun place hp => h.missingTree? hs (List.mem_of_mem_head? hp)
  cases en with
  | namedType | method => exact hfirst _
  | _ => rfl

/-- The arguments of a constructed type: those of its key, stated once, in order and without a
break. Nothing is made while they are stated, and nothing fails. -/
def Model.ArgumentsExact (m : Model) (cx : Context) (id : SymbolId) (s : Symbol) (l : Label) :
    Prop :=
  ∃ definition arguments,
    Option.Rel (m.TypeAt cx) (s.constructedFrom? id) (some definition) ∧
    List.Forall₂ (m.TypeAt cx) s.typeArguments arguments ∧
    .define l (.label definition (.text "<"
      (Key.join "," (arguments.map Key.ofLabel) ++ .literal ">;type"))) ∈ cx.trap ∧
    cx.argumentsOf l = argumentTuples l arguments ∧
    (argumentTuples l arguments).map .tuple <:+: cx.trap ∧ cx.Lists l arguments

namespace Model.Listed

variable {s : Symbol} (h : m.Listed cx)

include h

/-- A label that was not opened has no arguments. -/
theorem unopened (hl : l ∉ cx.generics) : cx.argumentsOf l = [] := by
  refine Context.argumentsOf_eq_nil fun e hm row hf ha => ?_
  obtain ⟨l', hl', ha'⟩ := h.stated e hm row hf ha.1
  exact hl (ha.unique ha' ▸ hl')

/-- A constructed type that was opened has just the arguments of its symbol. -/
theorem opened_exact (ho : Orderly cx) (hc : .created slot ⟨l, .namedType t⟩ ∈ cx.events)
    (hstands : NamedType.Stands m cx id t s) (hd : t.definition.isSome = true)
    (hl : l ∈ cx.generics) : m.ArgumentsExact cx id s l := by
  obtain ⟨definition, hdefinition⟩ := Option.isSome_iff_exists.1 hd
  have harguments := hstands.arguments
  rw [if_pos hd] at harguments
  have hlists : cx.Lists l t.arguments := by
    rcases h.opened l hl with ⟨id', s', en', hc', -⟩ | ⟨slot', t', hc', -, hlists⟩
    · have hslot := (ho.created_unique hc hc' rfl).1
      obtain ⟨recipe, rfl, hy⟩ := h.made _ _ _ hc
      obtain ⟨id, s, rfl, -, -⟩ := hy.of_namedType
      cases hslot
    · have hsame := (ho.created_unique hc hc' rfl).2
      cases hsame
      exact hlists
  have hkey : (Entity.namedType t).key = .label definition (.text "<"
      (Key.join "," (t.arguments.map Key.ofLabel) ++ .literal ">;type")) := by
    simp [Entity.key, NamedType.key, hdefinition]
  refine ⟨definition, t.arguments, hdefinition ▸ hstands.definition, harguments, ?_,
    hlists.argumentsOf, hlists.contiguous, hlists⟩
  rw [← hkey, Context.trap_eq]
  exact List.mem_filterMap.2 ⟨_, (ho.created _ _ hc).2, rfl⟩

/-- Arguments are stated of constructed types alone. -/
theorem constructed {row : Tuple} (hrow : row ∈ cx.stated "type_arguments") : ∃ id s l,
    cx.Labels id l ∧ m.symbol id = .ok s ∧ (s.constructedFrom? id).isSome = true ∧
      row ∈ cx.argumentsOf l := by
  obtain ⟨e, hm, hf, hr⟩ := Context.mem_stated.1 hrow
  obtain ⟨l, hl, ha⟩ := h.stated e hm row hf hr
  have hof : row ∈ cx.argumentsOf l := List.mem_filter.2 ⟨hrow, decide_eq_true ha.2⟩
  rcases h.opened l hl with ⟨id, s, en, hc, hs, hd⟩ | ⟨slot, t, hc, hd, -⟩
  · exact ⟨id, s, l, ⟨_, en, hc⟩, hs, hd, hof⟩
  · obtain ⟨recipe, rfl, hy⟩ := h.made _ _ _ hc
    obtain ⟨id, s, rfl, hs, hstands⟩ := hy.of_namedType
    exact ⟨id, s, l, ⟨_, _, hc⟩, hs, hstands.definition.isSome_eq.trans hd, hof⟩

/-- A type that is not constructed has no arguments. -/
theorem unconstructed (ho : Orderly cx) (hl : cx.Labels id l) (hs : m.symbol id = .ok s)
    (hd : s.constructedFrom? id = none) : cx.argumentsOf l = [] := by
  refine List.eq_nil_iff_forall_not_mem.2 fun row hrow => ?_
  obtain ⟨hstated, hlast⟩ := List.mem_filter.1 hrow
  obtain ⟨id', s', l', ⟨type', en', hc'⟩, hs', hd', hrow'⟩ := h.constructed hstated
  have hsame := (of_decide_eq_true hlast).symm.trans
    (of_decide_eq_true (List.mem_filter.1 hrow').2)
  cases hsame
  obtain ⟨type, en, hc⟩ := hl
  cases (ho.created_unique hc hc' rfl).1
  obtain rfl : s = s' := Except.ok.inj (hs.symm.trans hs')
  simp [hd] at hd'

end Model.Listed

namespace TrapUnit

/-- In a unit that was extracted a constructed type that was resolved has the arguments of its key
stated. Those of a type that was not resolved may be stated, or none are. No other label has any. -/
theorem finish_arguments_exact (hscope : unit.scope x m = .ok scope) (hsited : m.Sited)
    (hend : unit.finish m scope x budget = (.extracted, cx)) :
    (∀ id s l, cx.Labels id l → m.IsNamedType id s → (s.constructedFrom? id).isSome = true →
      m.ArgumentsExact cx id s l ∨ s.kind = .error ∧ cx.argumentsOf l = []) ∧
    (∀ row ∈ cx.stated "type_arguments", ∃ id s l, cx.Labels id l ∧ m.symbol id = .ok s ∧
      (s.constructedFrom? id).isSome = true ∧ row ∈ cx.argumentsOf l) ∧
    ∀ id s l, cx.Labels id l → m.symbol id = .ok s → s.constructedFrom? id = none →
      cx.argumentsOf l = [] := by
  have hover := finish_over hscope hend
  have ho := hover.sound.orderly
  have hqueue : cx.queue = [] := by
    have hran := finish_ran hscope hend
    have hq := runIn_queue unit m scope x budget (by rw [hran]; rfl)
    rwa [hran] at hq
  have hspelled : m.Spelled cx := by
    have hholds := finish_holds (Model.Spelled.descriptionsKeep m scope) unit
      (Model.Spelled.permits (by simp [factRelations])) (.fresh m x) budget
    rwa [hend] at hholds
  refine ⟨fun id s l hl hs hd => ?_, fun row => hspelled.toListed.constructed,
    fun id s l hl hs hd => hspelled.toListed.unconstructed ho hl hs hd⟩
  obtain ⟨type, en, hc⟩ := hl
  obtain ⟨rfl, t, rfl, hstands⟩ := hover.founded.namedType_of_created hc hs
  have hdefined : t.definition.isSome = true := hstands.definition.isSome_eq ▸ hd
  by_cases hopen : l ∈ cx.generics
  · exact .inl (hspelled.toListed.opened_exact ho hc hstands hdefined hopen)
  · refine .inr ⟨?_, hspelled.toListed.unopened hopen⟩
    by_contra hk
    have hplaced : ¬ ∃ tree, m.strayTree? (.namedType t) = some tree ∧
        .sent (m.strayReport tree (.namedType t)) (some (.failure l)) ∈ cx.events := by
      rw [hsited.strayTree?]
      rintro ⟨tree, htree, -⟩
      cases htree
    have hbegun := (hover.histories.ended hqueue hc).resolve_right hplaced
    exact hopen (hspelled.described t l hbegun (hstands.kind ▸ hk) hdefined)

section

-- Evaluation compares keys by their literals, not byte by byte.
attribute [local irreducible] String.decEq

/-- A method of a generic class with two arguments. -/
theorem finish_arguments_exact_pair :
    let m : Model := {
      trees := [{ path := "a.cs", members := [⟨0⟩] }]
      symbols := [
        { name := "f", kind := .method, containingType := some ⟨1⟩ },
        { name := "C", kind := .classType, genericDefinition := some ⟨2⟩,
          typeArguments := [⟨3⟩, ⟨2⟩] },
        { name := "C", kind := .classType },
        { name := "D", kind := .struct }] }
    let scope : Scope := .source ⟨0⟩ "a.cs"
    let cx := ((source ⟨0⟩).finish m scope {} m.drainBudget).2
    (source ⟨0⟩).scope {} m = .ok scope ∧ m.Sited ∧
      (source ⟨0⟩).finish m scope {} m.drainBudget = (.extracted, cx) ∧
      cx.Labels ⟨1⟩ ⟨6⟩ ∧ ∃ s, m.symbol ⟨1⟩ = .ok s ∧ m.ArgumentsExact cx ⟨1⟩ s ⟨6⟩ := by
  intro m scope cx
  have hscope : (source ⟨0⟩).scope {} m = .ok scope := rfl
  have hsited : m.Sited := by simp [Model.Sited, m]
  have hstatus : ((source ⟨0⟩).finish m scope {} m.drainBudget).1 = .extracted := by cbv
  have hend : (source ⟨0⟩).finish m scope {} m.drainBudget = (.extracted, cx) :=
    Prod.ext hstatus rfl
  have hlabel : ((source ⟨0⟩).finish m scope {} m.drainBudget).2.events.any
      (Event.labels ⟨1⟩ ⟨6⟩) = true := by cbv
  have hl : cx.Labels ⟨1⟩ ⟨6⟩ := Context.labels_of_any hlabel
  have hnamed : m.IsNamedType ⟨1⟩ _ := ⟨rfl, rfl, by decide⟩
  have hexact := (finish_arguments_exact hscope hsited hend).1 ⟨1⟩ _ ⟨6⟩ hl hnamed rfl
  refine ⟨hscope, hsited, hend, hl, _, rfl, hexact.resolve_right ?_⟩
  rintro ⟨hk, -⟩
  cases hk

end

end TrapUnit

end TrapFacts
