import TrapFacts.Proofs.Unit.Descriptions

/-! What a unit starts from is reached. -/

namespace TrapFacts

variable {u : ScopedUnit} {cx cx' : Context} {l : Label} {id : SymbolId} {fails : Failure → Prop}

/-- What is visited from a symbol in less than so many steps. -/
def Model.VisitsWithin (m : Model) (scope : Scope) : Nat → SymbolId → SymbolId → Prop
  | 0, _, _ => False
  | depth + 1, a, b => a = b ∨ ∃ c, m.Visits scope a c ∧ m.VisitsWithin scope depth c b

def TrapUnit.Exists (m : Model) : TrapUnit → Prop
  | .source tree => ∃ t, m.tree tree = .ok t
  | _ => True

namespace ScopedUnit

/-- What a visit reaches from a symbol in less than so many steps, unless something went wrong. -/
def Visited (u : ScopedUnit) (depth : Nat) (id : SymbolId) (cx : Context) : Prop :=
  (∀ b, u.model.VisitsWithin u.scope depth id b → u.model.Extractable b → cx.Reached b) ∨ cx.Erred

theorem lasting_visited (u : ScopedUnit) (depth : Nat) (id : SymbolId) :
    Lasting (u.Visited depth id) :=
  fun _ _ h he => h.imp (fun h b hb hx => Context.lasting_reached b (h b hb hx) he) (·.mono he)

theorem visits_member {m : Model} {scope : Scope} {s : Symbol} {b : SymbolId}
    (hs : m.symbol id = .ok s) (h : m.Visits scope id b) : s.kind = .space ∧ b ∈ s.members := by
  obtain ⟨⟨s', hs', hk, hb⟩, _⟩ := h
  obtain rfl : s = s' := Except.ok.inj (hs.symm.trans hs')
  exact ⟨hk, hb⟩

/-- A visit goes from a namespace only, so from another symbol it reaches that symbol alone. -/
theorem visited_self {s : Symbol} (depth : Nat) (hs : u.model.symbol id = .ok s)
    (hk : s.kind ≠ .space) (hr : u.model.Extractable id → cx.Reached id) :
    u.Visited (depth + 1) id cx := by
  refine .inl fun b hb hx => ?_
  rcases hb with rfl | ⟨c, hc, _⟩
  · exact hr hx
  · exact absurd (visits_member hs hc).1 hk

theorem visited_space {s : Symbol} (depth : Nat) (hs : u.model.symbol id = .ok s)
    (hk : s.kind = .space)
    (hall : ∀ member ∈ s.members, u.model.Visits u.scope id member → u.Visited depth member cx) :
    u.Visited (depth + 1) id cx := by
  by_cases herr : cx.Erred
  · exact .inr herr
  · refine .inl fun b hb hx => ?_
    rcases hb with rfl | ⟨c, hc, hb⟩
    · obtain ⟨s', hs', ht⟩ := hx
      obtain rfl : s = s' := Except.ok.inj (hs.symm.trans hs')
      simp [hk, SymbolKind.isType, SymbolKind.typeNumber?, SymbolKind.isMethod] at ht
    · exact (hall c (visits_member hs hc).2 hc).resolve_right herr b hb hx

/-- The members of a namespace are visited where each visit does what it is to do. -/
theorem members_obey {s : Symbol} {depth : Nat} (hs : u.model.symbol id = .ok s)
    (hk : s.kind = .space)
    (hvisit : ∀ member cx, u.model.Visits u.scope id member →
      u.Obeys (visitSymbol u.model u.scope depth member) cx (fun _ => u.Visited depth member)
        fun _ => True) :
    u.Obeys (Prog.each s.members fun member => do
        if ← Prog.ofExcept (u.scope.defines u.model member) then
          .attempt none (some member) (visitSymbol u.model u.scope depth member) (.pure ())) cx
      (fun _ cx' => ∀ member ∈ s.members,
        u.model.Visits u.scope id member → u.Visited depth member cx') fun _ => True := by
  refine .each (fun member _ _ h he hv => u.lasting_visited depth member (h hv) he)
    fun member hm cx₁ _ => Obeys.read (fun _ _ => trivial) fun defined hdefined => ?_
  have hvisits : defined = true → u.model.Visits u.scope id member := by
    rintro rfl
    exact ⟨⟨s, hs, hk, hm⟩, hdefined⟩
  split
  · next hd =>
    refine Obeys.mono (Obeys.attempt (hvisit member _ (hvisits hd))) ?_ fun _ hf => hf
    exact fun _ cx' h _ => h.elim (fun h => h) .inr
  · next hd =>
    refine .pure fun hv => absurd ?_ hd
    exact Except.ok.inj (hdefined.symm.trans hv.2)

/-- A visit reaches all types below a namespace, as far as its depth goes. -/
theorem visitSymbol_obeys (depth : Nat)
    (hin : ∀ b, Relation.ReflTransGen (u.model.Visits u.scope) id b → u.model.Extractable b →
      u.within b) :
    u.Obeys (visitSymbol u.model u.scope depth id) cx (fun _ => u.Visited depth id)
      fun _ => True := by
  induction depth generalizing id cx with
  | zero => exact .pure (.inl fun _ hb => hb.elim)
  | succ depth ih =>
    refine Obeys.read (fun _ _ => trivial) fun s hs => ?_
    split
    · next hk =>
      refine (space_obeys ⟨id, s, hs, .inl ⟨rfl, hk⟩⟩).bind fun _ cx₁ _ _ => ?_
      exact (members_obey hs hk fun member cx hv => ih fun b hb => hin b (.head hv hb)).mono
        (fun _ _ hall => visited_space depth hs hk hall) fun _ hf => hf
    · next hk =>
      split
      · next ht =>
        refine (typeLabel_obeys (hin id .refl ⟨s, hs, .inl ht⟩)).bind fun _ _ _ hl => ?_
        exact .pure (visited_self depth hs hk fun _ => hl.reached)
      · next ht =>
        split
        · next hm =>
          refine (method_obeys (hin id .refl ⟨s, hs, .inr hm⟩) ⟨hs, hm⟩).bind fun _ _ _ hr => ?_
          exact .pure (visited_self depth hs hk fun _ => hr)
        · next hm =>
          refine .modelError (fun _ => trivial) (.pure (visited_self depth hs hk ?_))
          rintro ⟨s', hs', hx⟩
          obtain rfl : s = s' := Except.ok.inj (hs.symm.trans hs')
          simp [ht, hm] at hx

theorem compiledFileFacts_obeys {relation : String} (hr : relation ∈ looseRelations)
    (hl : cx.Citable l) (paths : List String) :
    u.Obeys (compiledFileFacts relation l paths) cx (fun _ _ => True) fails := by
  refine (Obeys.each (P := fun _ _ => True) (fun _ _ _ _ _ => trivial) ?_).mono
    (fun _ _ _ => trivial) fun _ hf => hf
  rintro ⟨path, index⟩ _ cx₁ hf
  refine (file_obeys path).bind fun file cx₂ hf₂ hfile => Obeys.assuming fun hlabelled => ?_
  refine .fact ?_ (fun l' hl' => ?_) (.inl hr)
  · revert hr
    simp only [looseRelations, describing, List.mem_cons, List.not_mem_nil, or_false]
    rintro (rfl | rfl | rfl | rfl) <;> decide
  · obtain rfl | rfl : l' = l ∨ file.label = l' := by simpa [Value.label?, Value.index] using hl'
    · exact hl.mono (hf.trans hf₂).events
    · exact .inl (hlabelled.handed hfile)

theorem extractCompilation_obeys :
    u.Obeys (extractCompilation u.model) cx (fun _ _ => True) fails := by
  refine Obeys.compilation (by simp [Value.label?]) fun label cx₁ hf₁ hl => ?_
  refine Obeys.skip ?_
  have hargs : u.Obeys (Prog.each u.model.compilation.args.zipIdx fun a =>
      Prog.fact "compilation_args" [.label label, .index a.2, .text a.1]) cx₁
      (fun _ cx' => ∀ a ∈ u.model.compilation.args.zipIdx, True) fails := by
    refine .each (P := fun _ _ => True) (fun _ _ _ _ _ => trivial) fun a _ cx₂ hf₂ => ?_
    refine .fact (by simp [describing]) (fun l' hl' => ?_) (.inl (by simp [looseRelations]))
    obtain rfl : l' = label := by simpa [Value.label?, Value.index] using hl'
    exact hl.mono hf₂.events
  refine hargs.bind fun _ cx₂ hf₂ _ => ?_
  have hl₂ := hl.mono hf₂.events
  refine (compiledFileFacts_obeys (by simp [looseRelations]) hl₂ _).bind fun _ cx₃ hf₃ _ => ?_
  have hl₃ := hl₂.mono hf₃.events
  refine (compiledFileFacts_obeys (by simp [looseRelations]) hl₃ _).bind fun _ _ _ _ => ?_
  exact .pure trivial

/-- What the root of a unit has reached when it ends. -/
def Rooted (u : ScopedUnit) (cx : Context) : Prop :=
  match u.unit with
  | .source tree => ∀ t, u.model.tree tree = .ok t →
      ∀ member ∈ t.members, u.Visited (u.model.symbols.length + 1) member cx
  | .assembly name => ∃ c, u.Returns (.assembly name) c cx
  | .compilation => True

theorem lasting_rooted (u : ScopedUnit) : Lasting u.Rooted := by
  intro cx cx' h he
  unfold Rooted at h ⊢
  split at h
  · exact fun t ht member hm => u.lasting_visited _ member (h t ht member hm) he
  · obtain ⟨c, hs, hy⟩ := h
    exact ⟨c, he.subset hs, fun hv => Recipe.lasting_yields _ _ _ (hy hv) he⟩
  · trivial

/-- What a unit starts from fails only fatally, if the unit exists. -/
theorem root_obeys (hc : u.Closed) :
    u.Obeys (u.unit.root u.model u.scope) cx (fun _ => u.Rooted)
      fun _ => ¬ u.unit.Exists u.model := by
  obtain ⟨m, scope, unit, L⟩ := u
  cases unit with
  | source tree =>
    refine Obeys.read ?_ fun t ht => ?_
    · rintro e he ⟨t, ht⟩
      rw [he] at ht
      cases ht
    · refine (file_obeys t.path).bind fun _ cx₁ _ _ => ?_
      let u : ScopedUnit := ⟨m, scope, .source tree, L⟩
      have hmembers : u.Obeys (Prog.each t.members fun member =>
          .attempt none (some member) (extractSymbol m scope member) (.pure ())) cx₁
          (fun _ cx' => ∀ member ∈ t.members, u.Visited (m.symbols.length + 1) member cx')
          fun _ => ¬ (TrapUnit.source tree).Exists m := by
        refine .each (u.lasting_visited _) fun member hm cx₂ _ => ?_
        refine Obeys.mono (Obeys.attempt (visitSymbol_obeys (u := u) _ fun b hb hx => ?_))
          (fun _ _ h => h.elim (fun h => h) .inr) fun _ hf => hf
        exact hc.roots b ⟨hx, t, ht, member, hm, hb⟩
      refine hmembers.mono (fun _ cx' hall t' ht' => ?_) fun _ hf => hf
      obtain rfl : t = t' := Except.ok.inj (ht.symm.trans ht')
      exact hall
  | assembly name =>
    have hsure : ∀ e, (Recipe.assembly name).Fails m e → ¬ (TrapUnit.assembly name).Exists m :=
      fun _ he => False.elim he
    let u : ScopedUnit := ⟨m, scope, .assembly name, L⟩
    exact (Obeys.entity (u := u) (.assembly name) rfl hsure).bind fun c _ _ hr => .pure ⟨c, hr⟩
  | compilation => exact extractCompilation_obeys.bind fun _ _ _ _ => .pure trivial

end ScopedUnit

end TrapFacts
