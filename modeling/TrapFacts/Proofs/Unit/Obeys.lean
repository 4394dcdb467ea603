import TrapFacts.Proofs.Unit.ScopedUnit

/-! A logic for the programs of a unit: where they may run, what holds afterwards, how they fail. -/

namespace TrapFacts

variable {α β : Type} {u : ScopedUnit} {n : Nat} {cx cx' : Context} {run : Runner} {en : Entity}
  {l : Label} {recipe : Recipe}

/-- How the making of an entity may fail. -/
def Recipe.Fails (m : Model) : Recipe → Failure → Prop
  | .file _, _ => False
  | .assembly _, _ => False
  | .location none, _ => False
  | .location (some place), e =>
    m.missingTree? place = some place.tree ∧ e = .unknownTree place.tree
  | _, _ => True

/-- What a creation returns: the entity of a recipe, as far as it was made for the occasion. -/
def ScopedUnit.Returns (u : ScopedUnit) (recipe : Recipe) (c : Created) (cx : Context) : Prop :=
  .served recipe.slot c ∈ cx.events ∧
    (recipe.slot = .value → recipe.Yields u.model c.entity cx)

namespace ScopedUnit

/-- A context in which a program of the unit may run. -/
structure Ready (u : ScopedUnit) (n : Nat) (cx : Context) : Prop where
  room : cx.room = n
  labelled : Labelled u.model u.scope cx
  founded : u.Founded cx

/-- An entity that is described, or about to be. -/
structure Subject (u : ScopedUnit) (en : Entity) (l : Label) (cx : Context) : Prop where
  proper : Proper u.model cx (en, l)
  introduced : cx.Introduced en l

theorem Subject.mono (h : u.Subject en l cx) (he : cx.events <+: cx'.events) :
    u.Subject en l cx' :=
  ⟨h.proper.mono he, h.introduced.mono he⟩

/-- A way to run factories and descriptions that leads along the trails of the unit, with room for
so many nested creations. -/
structure RunnerFollows (u : ScopedUnit) (n : Nat) (run : Runner) : Prop where
  entity : ∀ recipe cx, u.Within recipe → u.Ready n cx →
    Goes u.world u.manner cx (run Created (.entity recipe) cx) (u.Returns recipe)
      (recipe.Fails u.model)
  factory : ∀ recipe cx, u.Within recipe → u.Ready n cx →
    Goes u.world u.manner cx (run Entity (u.model.factory recipe) cx) (recipe.Yields u.model)
      (recipe.Fails u.model)
  opens : ∀ en l cx, u.Ready n cx → u.Subject en l cx → u.Posted en l cx →
    World.Opens u.world u.manner run en l (facts u.model u.scope en l) cx

namespace Ready

theorem along (h : u.Ready n cx) (ht : Trail u.world u.manner [] false cx cx') :
    u.Ready n cx' where
  room := ht.frame.room.trans h.room
  labelled := ht.coarse.labelled h.labelled (by simp)
  founded := ht.founded h.founded (by simp)

/-- One level deeper there is one less to spend. -/
theorem enter {slot : Slot} (h : u.Ready (n + 1) cx) : u.Ready n (cx.enter slot) where
  room := room_enter h.room
  labelled := h.labelled.quiet (cx.events_enter _) rfl rfl rfl (by simp)
  founded := h.founded.event (cx.events_enter _) rfl (by simp)

/-- The guard of an entity is made of its label and its place. -/
theorem openOwn {place : Label} (h : u.Ready n cx) (hs : u.Subject en l cx)
    (hp : u.model.PlaceAt cx en.reportingLocation? place) :
    u.Ready n (cx.openGuard (.label l (.ofLabel place))) where
  room := h.room
  labelled := by
    obtain ⟨_, _, hh⟩ := hp
    exact h.labelled.openOwn hs.proper.keyed hh
  founded := h.founded.openGuard _

/-- A new entity is the subject of its description. -/
theorem introduce {slot : Slot} (h : u.Ready n cx) (hs : cx.same? slot en = none)
    (he : u.manner.entity slot en cx) :
    u.Ready n (cx.introduce slot en).2 ∧ u.Subject en cx.nextLabel (cx.introduce slot en).2 := by
  obtain ⟨⟨hfits, hlabels⟩, -⟩ := id he
  refine ⟨⟨?_, h.labelled.introduce hs hfits hlabels, h.founded.introduce hs he⟩, ?_⟩
  · rw [(Frame.introduce hs).room, h.room]
  · refine ⟨⟨hfits, fun l hl => (hlabels l hl).mono (Frame.introduce hs).events, en.key, ?_⟩,
      cx.introduced_introduce slot en⟩
    simp [Context.trap_introduce]

end Ready

end ScopedUnit

theorem not_pushesScope {m : Model} (h : m.Fits en) (hb : en.behavior ≠ .pushesScope) :
    m.strayTree? en = none := by
  cases en with
  | namedType | method => exact absurd rfl hb
  | _ => rfl

theorem strayTree?_eq {m : Model} (h : m.Fits en) (hb : en.behavior = .pushesScope) :
    m.strayTree? en = en.reportingLocation?.bind m.missingTree? := by
  cases en with
  | namedType t => exact congrArg (·.bind m.missingTree?) h.symm
  | method f => exact congrArg (·.bind m.missingTree?) h.symm
  | custom => cases h
  | _ => cases hb

namespace ScopedUnit.RunnerFollows

variable (h : u.RunnerFollows n run)

include h

theorem places (hr : u.Ready n cx) (hf : u.model.Fits en) :
    World.Places u.world u.manner run en cx := by
  refine (h.entity (.location en.reportingLocation?) cx trivial hr).mono ?_ ?_
  · rintro c cx' ⟨hs, hy⟩
    refine ⟨hs, fun hb => ⟨?_, c.entity, hy rfl, hs⟩⟩
    exact (strayTree?_eq hf hb).trans (Recipe.Yields.missingTree? (hy rfl))
  · intro e he hb
    cases hr : en.reportingLocation? with
    | none =>
      rw [hr] at he
      exact he.elim
    | some place =>
      rw [hr] at he
      obtain ⟨hm, rfl⟩ := he
      refine ⟨place.tree, ?_, rfl⟩
      rw [strayTree?_eq hf hb, hr]
      exact hm

/-- Entities that want to be outside of guards, or in their own alone, are described when no
guard is open. -/
theorem describable (hf : u.model.Fits en) :
    World.Describable u.world u.manner run en l (facts u.model u.scope en l) fun cx =>
      u.Ready n cx ∧ u.Subject en l cx ∧
        (en.behavior = .noScope ∨ en.behavior = .pushesScope → cx.guards = []) where
  trail := by
    rintro cx cx' ⟨hr, hs, hg⟩ ht
    exact ⟨hr.along ht, hs.mono ht.frame.events, fun hb => ht.frame.guards.trans (hg hb)⟩
  free := not_pushesScope hf
  places hcx := h.places hcx.1 hf
  plain := by
    rintro cx hb ⟨hr, hs, hg⟩
    refine h.opens en l cx hr hs fun ha => ⟨fun hn => hg (.inl hn), fun hp => ?_⟩
    rcases hb with hb | hb
    · exact absurd hp hb
    · exact absurd (hb.symm.trans ha) (by simp)
  guarded := by
    rintro cx place hb ha ⟨hr, hs, hg⟩ hp
    refine h.opens en l _ (hr.openOwn hs hp) (hs.mono (by simp)) fun _ =>
      ⟨fun hn => absurd (hn.symm.trans hb) (by simp), fun _ => ⟨place, ?_, hp.mono (by simp)⟩⟩
    exact congrArg (_ :: ·) (hg (.inr hb))

/-- A subject is described, or its failure reported, where no guard is open. -/
theorem tries (hr : u.Ready n cx) (hs : u.Subject en l cx) (hg : cx.guards = []) :
    World.Tries u.world u.manner en l cx
      (u.world.populate run en l (facts u.model u.scope en l) cx) :=
  World.populate_tries (h.describable hs.proper.fits) ⟨hr, hs, fun _ => hg⟩

/-- A subject is described now or later. -/
theorem schedule (hr : u.Ready n cx) (hs : u.Subject en l cx) :
    Spends u.world u.manner (en, l) cx
      (u.world.schedule run en l (facts u.model u.scope en l) cx) := by
  refine World.schedule_spends (h.describable hs.proper.fits) (fun hd => ⟨hr, hs, fun hb => ?_⟩)
    ⟨hs.proper.fits, rfl⟩
  by_contra hg
  have hopen : (!cx.guards.isEmpty) = true := by simpa using hg
  exact Bool.false_ne_true (hd.symm.trans (World.plan_deferred.2 ⟨hopen, hb⟩))

/-- What is within reach can be made. -/
theorem makes (hw : u.Within recipe) (hr : u.Ready (n + 1) cx) :
    World.Makes u.world u.manner run recipe.slot (u.model.factory recipe)
      (facts u.model u.scope) (recipe.Yields u.model) (recipe.Fails u.model) cx := by
  refine ⟨h.factory recipe _ hw hr.enter, fun en cx₁ ht hy hs => ?_⟩
  have hr₁ := hr.enter.along ht
  have he : u.manner.entity recipe.slot en cx₁ :=
    ⟨⟨hy.fits, hr₁.labelled.yields hy⟩, recipe, rfl, hw, hy⟩
  obtain ⟨hr₂, hsubject⟩ := hr₁.introduce hs he
  exact ⟨he, fun _ => h.schedule hr₂ hsubject⟩

end ScopedUnit.RunnerFollows

namespace ScopedUnit

/-- What a program of the unit runs against: the room, and who runs what it nests. -/
structure Nesting (u : ScopedUnit) (n : Nat) (deeper : Option Runner) : Prop where
  levels : deeper.isSome ↔ 0 < n
  follows : ∀ run, deeper = some run → u.RunnerFollows (n - 1) run

theorem Nesting.obtains {deeper : Option Runner} (h : u.Nesting n deeper) (recipe : Recipe)
    (hw : u.Within recipe) (hr : u.Ready n cx) :
    Goes u.world u.manner cx
      (u.world.obtain? deeper recipe.slot (u.model.factory recipe) (facts u.model u.scope) cx)
      (u.Returns recipe) (recipe.Fails u.model) := by
  refine World.obtain?_goes (recipe.lasting_yields u.model ·) (hr.room ▸ h.levels)
    fun run hrun _ => ?_
  have hn : n - 1 + 1 = n := Nat.sub_add_cancel (h.levels.1 (by simp [hrun]))
  exact (h.follows run hrun).makes hw (by rwa [hn])

/-- From a context, a program goes a trail of the unit. What it returns satisfies `good` where it
ends, and it fails as `fails` says. -/
def Obeys (u : ScopedUnit) (p : Prog α) (cx : Context) (good : α → Context → Prop)
    (fails : Failure → Prop) : Prop :=
  ∀ n deeper drain, u.Nesting n deeper → u.Ready n cx →
    Goes u.world u.manner cx (u.world.eval deeper drain p cx) good fails

/-- A program of which it does not matter what it leaves true or how it fails. -/
abbrev ObeysFreely (u : ScopedUnit) (p : Prog Unit) (cx : Context) : Prop :=
  u.Obeys p cx (fun _ _ => True) fun _ => True

variable {p : Prog α} {good : α → Context → Prop} {good' : β → Context → Prop}
  {fails : Failure → Prop}

namespace Obeys

theorem pure {a : α} (h : good a cx) : u.Obeys (.pure a) cx good fails :=
  fun _ _ _ _ _ => .of_done h

theorem nothing : u.Obeys (.pure ()) cx (fun _ _ => True) fails :=
  pure trivial

/-- What is known of the context may be used. -/
theorem assuming (h : Labelled u.model u.scope cx → u.Obeys p cx good fails) :
    u.Obeys p cx good fails :=
  fun n deeper drain hfoot hr => h hr.labelled n deeper drain hfoot hr

theorem fail {e : Failure} (h : fails e) : u.Obeys (.fail e) cx good fails :=
  fun _ _ _ _ _ => .of_failed fun _ => h

theorem skip {a : β} {f : β → Prog α} (h : u.Obeys (f a) cx good fails) :
    u.Obeys ((Prog.pure a).bind f) cx good fails :=
  h

/-- What comes first leaves a context from which the rest obeys. -/
theorem bind {f : α → Prog β} (hp : u.Obeys p cx good fails)
    (hf : ∀ a cx₁, Frame cx cx₁ → good a cx₁ → u.Obeys (f a) cx₁ good' fails) :
    u.Obeys (p.bind f) cx good' fails := by
  intro n deeper drain hfoot hr
  rw [World.eval_bind]
  exact (hp n deeper drain hfoot hr).andThen fun a cx₁ ht ha =>
    hf a cx₁ ht.frame ha n deeper drain hfoot (hr.along ht)

theorem mono {good' : α → Context → Prop} {fails' : Failure → Prop} (h : u.Obeys p cx good fails)
    (hg : ∀ a cx', good a cx' → good' a cx') (hf : ∀ e, fails e → fails' e) :
    u.Obeys p cx good' fails' :=
  fun n deeper drain hfoot hr => (h n deeper drain hfoot hr).mono hg hf

/-- What the model says is looked up on the way. -/
theorem read {r : Except Failure β} {f : β → Prog α} (hf : ∀ e, r = .error e → fails e)
    (h : ∀ b, r = .ok b → u.Obeys (f b) cx good fails) :
    u.Obeys ((Prog.ofExcept r).bind f) cx good fails := by
  cases r with
  | ok b => exact h b rfl
  | error e => exact fail (hf e rfl)

theorem deed {cx₁ : Context} (hd : u.Stating cx cx₁) (hp : u.Obeys p cx₁ good fails)
    {q : Prog α} (hq : ∀ deeper drain,
      u.world.eval deeper drain q cx = u.world.eval deeper drain p cx₁) :
    u.Obeys q cx good fails := by
  intro n deeper drain hfoot hr
  have ht : Trail u.world u.manner [] false cx cx₁ := .deed hd
  rw [hq]
  exact .after ht (hp n deeper drain hfoot (hr.along ht))

theorem fact {relation : String} {args : List Value} (hr : relation ∉ describing)
    (hk : ∀ l ∈ args.filterMap Value.label?, cx.Citable l) (ha : u.Apt ⟨relation, args⟩ cx) :
    u.Obeys (Prog.fact relation args) cx (fun _ _ => True) fails :=
  deed (.fact cx hr hk ha) nothing fun _ _ => rfl

/-- A label without a key, together with the row that describes it. -/
theorem compilation {args : List Value} {k : Label → Prog α}
    (hk : ∀ l ∈ args.filterMap Value.label?, cx.Keyed l)
    (hp : ∀ l cx₁, Frame cx cx₁ → cx₁.Citable l → u.Obeys (k l) cx₁ good fails) :
    u.Obeys (.fresh fun l => .emit ⟨"compilations", .label l :: args⟩ (k l)) cx good fails := by
  let cx₁ := (cx.allocate.write (.fresh cx.nextLabel)).write
    (.tuple ⟨"compilations", .label cx.nextLabel :: args⟩)
  have hd : u.Stating cx cx₁ := .compilation cx hk
  have hframe : Frame cx cx₁ := (Frame.deed (.fresh cx)).trans (.deed (.emit _ _))
  refine deed hd (hp cx.nextLabel cx₁ hframe (.inr ⟨⟨.fresh cx.nextLabel, ?_, rfl⟩, args, ?_⟩))
    fun _ _ => rfl
  · simp [cx₁, Context.trap_eq, Event.record?]
  · simp [cx₁, Context.trap_eq, Event.record?]

theorem parameter {args : List Value} {f : Method}
    (hk : ∀ l ∈ args.filterMap Value.label?, cx.Keyed l) (hlast : args.getLast? = some (.label l))
    (hi : cx.Introduced (.method f) l) (hposted : u.Posted (.method f) l cx) :
    u.Obeys (Prog.freshLabel.bind fun own => Prog.fact "params" (.label own :: args)) cx
      (fun _ _ => True) fails :=
  deed (.parameter cx hk hlast hi hposted) nothing fun _ _ => rfl

theorem assemblyFile {name : String} {k : Option String → Prog α}
    (hk : ∀ file, u.Obeys (k file) cx good fails) :
    u.Obeys (.assemblyFile name k) cx good fails :=
  fun n deeper drain hfoot hr => hk _ n deeper drain hfoot hr

theorem modelError {symbol : Option SymbolId} {text : String} (hf : ∀ e, fails e)
    (hp : u.Obeys p cx good fails) : u.Obeys (.modelError symbol text p) cx good fails := by
  intro n deeper drain hfoot hr
  unfold World.eval
  split
  · exact hp n deeper drain hfoot hr
  · exact .of_failed fun _ => hf _

theorem missingType {t : NamedType} (hi : cx.Introduced (.namedType t) l) (hk : t.kind = .error)
    (hp : ∀ cx₁, Frame cx cx₁ → u.Obeys p cx₁ good fails) :
    u.Obeys (.missingType (u.model.displayName t.symbol) p) cx good fails :=
  deed (.missingType cx hi hk) (hp _ (.deed (.missingType cx _))) fun _ _ => rfl

/-- Whoever opens type arguments learns whether they were opened before. -/
theorem openGenerics {k : Bool → Prog α} (ho : (∃ t, cx.Introduced (.namedType t) l) ∨
      (∃ f fl, .populating (.method f) fl ∈ cx.events ∧ f.declaring = l))
    (hk : ∀ fresh cx₁, Frame cx cx₁ → l ∈ cx₁.generics → (fresh = false → l ∈ cx.generics) →
      u.Obeys (k fresh) cx₁ good fails) :
    u.Obeys (.openGenerics l k) cx good fails := by
  refine deed (.openGenerics cx ho) (hk (!cx.generics.contains l) _ (.deed (.openGenerics cx l))
    ?_ fun hf => ?_) fun _ _ => rfl
  · exact Std.HashSet.mem_insert_self
  · exact Std.HashSet.contains_iff_mem.1 (by simpa using hf)

/-- Whatever goes wrong in an attempt is reported. -/
theorem attempt {node : Option NodeId} {symbol : Option SymbolId} {body : Prog Unit}
    {P : Context → Prop} (hb : u.Obeys body cx (fun _ => P) fun _ => True) :
    u.Obeys (.attempt node symbol body (.pure ())) cx (fun _ cx' => P cx' ∨ cx'.Erred) fails := by
  intro n deeper drain hfoot hr
  have hrecovered := World.recover_goes node symbol (hb n deeper drain hfoot hr)
  exact (hrecovered.mono (fun _ _ h => h) (by simp)).andThen fun _ _ _ h => .of_done h

/-- The entity of a recipe. -/
theorem entity (recipe : Recipe) (hw : u.Within recipe)
    (hf : ∀ e, recipe.Fails u.model e → fails e) :
    u.Obeys (Prog.entity recipe) cx (u.Returns recipe) fails := by
  intro n deeper drain hfoot hr
  have hobtain := hfoot.obtains recipe hw hr
  exact (hobtain.mono (fun _ _ h => h) hf).andThen fun c _ _ hc => .of_done hc

/-- What ran is framed. -/
theorem framed (h : u.Obeys p cx good fails) :
    u.Obeys p cx (fun a cx' => Frame cx cx' ∧ good a cx') fails := by
  intro n deeper drain hfoot hr
  have hgoes := h n deeper drain hfoot hr
  exact ⟨hgoes.trail, fun a ha => ⟨hgoes.trail.frame, hgoes.result a ha⟩, hgoes.failure⟩

/-- What becomes of the context by evaluation alone. -/
theorem also {P : Context → Prop} (h : u.Obeys p cx good fails)
    (hP : ∀ deeper drain, P (u.world.eval deeper drain p cx).context) :
    u.Obeys p cx (fun a cx' => P cx' ∧ good a cx') fails := by
  intro n deeper drain hfoot hr
  have hgoes := h n deeper drain hfoot hr
  exact ⟨hgoes.trail, fun a ha => ⟨hP deeper drain, hgoes.result a ha⟩, hgoes.failure⟩

/-- Items may be dealt with in turn, and what was reached for one lasts. -/
theorem each {items : List β} {body : β → Prog Unit} {P : β → Context → Prop}
    (hlast : ∀ a, Lasting (P a))
    (h : ∀ a ∈ items, ∀ cx₁, Frame cx cx₁ → u.Obeys (body a) cx₁ (fun _ => P a) fails) :
    u.Obeys (Prog.each items body) cx (fun _ cx' => ∀ a ∈ items, P a cx') fails := by
  induction items generalizing cx with
  | nil => exact pure (by simp)
  | cons a rest ih =>
    refine (h a (by simp) cx (.refl cx)).bind fun _ cx₁ hf ha => ?_
    have hrest := ih fun a ha cx₂ hf' => h a (by simp [ha]) cx₂ (hf.trans hf')
    refine hrest.framed.mono (fun _ cx' hall => ?_) fun _ hf => hf
    exact List.forall_mem_cons.2 ⟨hlast a ha hall.1.events, hall.2⟩

theorem collect {items : List β} {body : β → Prog α} {P : β → α → Context → Prop}
    (hlast : ∀ a b, Lasting (P a b))
    (h : ∀ a ∈ items, ∀ cx₁, Frame cx cx₁ → u.Obeys (body a) cx₁ (P a) fails) :
    u.Obeys (Prog.collect items body) cx
      (fun bs cx' => List.Forall₂ (fun a b => P a b cx') items bs) fails := by
  induction items generalizing cx with
  | nil => exact pure .nil
  | cons a rest ih =>
    refine (h a (by simp) cx (.refl cx)).bind fun b cx₁ hf hb => ?_
    have hrest := ih fun a ha cx₂ hf' => h a (by simp [ha]) cx₂ (hf.trans hf')
    refine hrest.framed.bind fun bs cx₂ _ hbs => pure ?_
    exact .cons (hlast a b hb hbs.1.events) hbs.2

end Obeys

end ScopedUnit

end TrapFacts
