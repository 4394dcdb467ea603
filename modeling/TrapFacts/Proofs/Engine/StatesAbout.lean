import TrapFacts.Proofs.Engine.RunnerShows

/-! A logic for what a description says of its own label. -/

namespace TrapFacts

variable {α β : Type} {w : World} {desc : Entity → Label → Prog Unit} {P : DescriptionSpec}
  {cx cx₁ : Context} {l : Label} {p : Prog α} {good : α → Context → Prop}
  {bad : Failure → Context → Prop}

/-- From a context, a program states facts about one label alone. What it returns satisfies `good`
where it ends, and a failure that is not fatal `bad`. -/
def StatesAbout (w : World) (desc : Entity → Label → Prog Unit) (P : DescriptionSpec) (l : Label)
    (p : Prog α)
    (cx : Context) (good : α → Context → Prop) (bad : Failure → Context → Prop) : Prop :=
  ∀ deeper drain, (∀ run, deeper = some run → RunnerShows w desc P run) → cx.FactsBehind →
    l.number ≤ cx.labels → (w.eval deeper drain p cx).Adds desc P (· = l) cx ∧
      (∀ a, (w.eval deeper drain p cx).outcome = .done a →
        good a (w.eval deeper drain p cx).context) ∧
      ∀ e, (w.eval deeper drain p cx).outcome = .failed e → e.isFatal = false →
        bad e (w.eval deeper drain p cx).context

namespace StatesAbout

theorem pure {a : α} (h : good a cx) : StatesAbout w desc P l (.pure a) cx good bad :=
  fun _ _ _ hs _ => ⟨.refl hs, by rintro _ ⟨⟩; exact h, by rintro _ ⟨⟩⟩

theorem fail {e : Failure} (h : bad e cx) : StatesAbout w desc P l (.fail e) cx good bad :=
  fun _ _ _ hs _ => ⟨.refl hs, by rintro _ ⟨⟩, by rintro _ ⟨⟩ _; exact h⟩

theorem mono {good' : α → Context → Prop} {bad' : Failure → Context → Prop}
    (h : StatesAbout w desc P l p cx good bad) (hg : ∀ a cx', good a cx' → good' a cx')
    (hb : ∀ e cx', bad e cx' → bad' e cx') : StatesAbout w desc P l p cx good' bad' := by
  intro deeper drain hdeeper hs hl
  obtain ⟨hadds, hgood, hbad⟩ := h deeper drain hdeeper hs hl
  exact ⟨hadds, fun a ha => hg a _ (hgood a ha), fun e he hn => hb e _ (hbad e he hn)⟩

/-- What happened before is not undone. -/
theorem framed (h : StatesAbout w desc P l p cx good bad) :
    StatesAbout w desc P l p cx (fun a cx' => cx.events <+: cx'.events ∧ good a cx') bad := by
  intro deeper drain hdeeper hs hl
  obtain ⟨hadds, hgood, hbad⟩ := h deeper drain hdeeper hs hl
  exact ⟨hadds, fun a ha => ⟨hadds.events, hgood a ha⟩, hbad⟩

/-- What is stated first, and then what is stated after. -/
theorem bind {f : α → Prog β} {good' : β → Context → Prop}
    (h : StatesAbout w desc P l p cx good bad)
    (hf : ∀ a cx₁, cx.events <+: cx₁.events → good a cx₁ →
      StatesAbout w desc P l (f a) cx₁ good' bad) :
    StatesAbout w desc P l (p.bind f) cx good' bad := by
  intro deeper drain hdeeper hs hl
  obtain ⟨hadds, hgood, hbad⟩ := h deeper drain hdeeper hs hl
  rw [World.eval_bind]
  generalize w.eval deeper drain p cx = r at hadds hgood hbad
  obtain ⟨o, cx₁⟩ := r
  cases o with
  | failed e => exact ⟨hadds, by rintro _ ⟨⟩, by rintro _ ⟨⟩ hn; exact hbad e rfl hn⟩
  | exhausted => exact ⟨hadds, by rintro _ ⟨⟩, by rintro _ ⟨⟩⟩
  | done a =>
    obtain ⟨hrest, hgood', hbad'⟩ := hf a cx₁ hadds.events (hgood a rfl) deeper drain hdeeper
      hadds.factsBehind (Nat.le_trans hl hadds.labels)
    refine ⟨Adds.trans ?_ hadds hrest, hgood', hbad'⟩
    rintro _ rfl
    exact hl

theorem read {r : Except Failure β} {f : β → Prog α} (he : ∀ e, r = .error e → bad e cx)
    (h : ∀ b, r = .ok b → StatesAbout w desc P l (f b) cx good bad) :
    StatesAbout w desc P l ((Prog.ofExcept r).bind f) cx good bad := by
  cases r with
  | ok b => exact h b rfl
  | error e => exact fail (he e rfl)

/-- A fact about the label. -/
theorem fact {t : Tuple} {p : Prog α} (ht : ∀ l', t.Concerns l' ↔ l' = l)
    (h : (cx.write (.tuple t)).factsAbout l = cx.factsAbout l ++ [t] →
      StatesAbout w desc P l p (cx.write (.tuple t)) good bad) :
    StatesAbout w desc P l (.emit t p) cx good bad := by
  intro deeper drain hdeeper hs hl
  have hm : ∀ l', l' = l → l'.number ≤ cx.labels := by
    rintro _ rfl
    exact hl
  have hfact : Adds desc P (· = l) false cx (cx.write (.tuple t)) := by
    refine .event hs hm (cx.events_write _) (Nat.le_refl _) rfl (by simp) ?_
    rintro _ ⟨⟩ l' hl'
    exact (ht l').1 hl'
  obtain ⟨hrest, hends⟩ :=
    h (Context.factsAbout_fact ((ht l).2 rfl)) deeper drain hdeeper hfact.factsBehind hl
  exact ⟨hfact.trans hm hrest, hends⟩

theorem missingType {name : String} {p : Prog α}
    (h : (cx.missingType name).factsAbout l = cx.factsAbout l →
      StatesAbout w desc P l p (cx.missingType name) good bad) :
    StatesAbout w desc P l (.missingType name p) cx good bad := by
  intro deeper drain hdeeper hs hl
  have hquiet : Adds desc P (fun _ => False) false cx (cx.missingType name) :=
    .quiet hs (cx.events_missingType name) rfl rfl (by simp) rfl
  obtain ⟨hrest, hends⟩ :=
    h (hquiet.kept l hl not_false) deeper drain hdeeper hquiet.factsBehind hl
  refine ⟨(hquiet.mono (by simp)).trans ?_ hrest, hends⟩
  rintro _ rfl
  exact hl

theorem modelError {symbol : Option SymbolId} {text : String} {p : Prog α}
    (hb : ∀ e, bad e cx) (h : StatesAbout w desc P l p cx good bad) :
    StatesAbout w desc P l (.modelError symbol text p) cx good bad := by
  intro deeper drain hdeeper hs hl
  unfold World.eval
  split
  · exact h deeper drain hdeeper hs hl
  · exact ⟨.refl hs, by rintro _ ⟨⟩, fun e _ _ => hb e⟩

/-- A fact about a parameter of the label, under a label of the parameter's own. -/
theorem parameter {args : List Value} {k : Label → Prog α}
    (hlast : args.getLast? = some (.label l))
    (h : ∀ own cx₁, cx.events <+: cx₁.events →
      cx₁.factsAbout l = cx.factsAbout l ++ [⟨"params", .label own :: args⟩] →
      StatesAbout w desc P l (k own) cx₁ good bad) :
    StatesAbout w desc P l (.fresh fun own => .emit ⟨"params", .label own :: args⟩ (k own)) cx good
      bad := by
  intro deeper drain hdeeper hs hl
  let fresh := cx.allocate.write (.fresh cx.nextLabel)
  let stated := fresh.write (.tuple ⟨"params", .label cx.nextLabel :: args⟩)
  have hlast' : (Value.label cx.nextLabel :: args).getLast? = some (.label l) := by
    rw [List.getLast?_cons, hlast]
    rfl
  have hquiet : Adds desc P (fun _ => False) false cx fresh :=
    .event hs (by simp) (cx.allocate.events_write _) (Nat.le_succ _) rfl (by simp) (by rintro _ ⟨⟩)
  have hknown : Adds desc P (· = l) false cx stated := by
    refine Adds.fresh (.event hquiet.factsBehind ?_ (fresh.events_write _) (Nat.le_refl _) rfl
      (by simp) ?_)
    · rintro _ (rfl | rfl)
      · exact Nat.le_refl _
      · exact Nat.le_succ_of_le hl
    · rintro _ ⟨⟩ l' ⟨-, hfirst | ⟨-, hlast''⟩⟩
      · cases hfirst
        exact .inl rfl
      · cases hlast'.symm.trans hlast''
        exact .inr rfl
  have hfacts : stated.factsAbout l =
      cx.factsAbout l ++ [⟨"params", .label cx.nextLabel :: args⟩] := by
    rw [Context.factsAbout_fact ⟨by simp, .inr ⟨rfl, hlast'⟩⟩, hquiet.kept l hl not_false]
  obtain ⟨hrest, hends⟩ := h cx.nextLabel stated hknown.events hfacts deeper drain hdeeper
    hknown.factsBehind (Nat.le_trans hl hknown.labels)
  refine ⟨hknown.trans ?_ hrest, hends⟩
  rintro _ rfl
  exact hl

variable (hw : w.StatesOwn desc)

include hw

/-- What says nothing leaves what was said. -/
theorem factless (hp : p.Factless) :
    StatesAbout w desc P l p cx
      (fun _ cx' => cx.events <+: cx'.events ∧ cx'.factsAbout l = cx.factsAbout l)
      fun _ cx' => cx.events <+: cx'.events ∧ cx'.factsAbout l = cx.factsAbout l := by
  intro deeper drain hdeeper hs hl
  have hadds : (w.eval deeper drain p cx).Adds desc P (fun _ => False) cx :=
    World.eval_adds hw hdeeper hp hs (by simp)
  have hfacts := hadds.kept l hl not_false
  exact ⟨hadds.mono (by simp), fun _ _ => ⟨hadds.events, hfacts⟩,
    fun _ _ _ => ⟨hadds.events, hfacts⟩⟩

/-- The making of an entity leaves what was said. -/
theorem entity (recipe : Recipe) :
    StatesAbout w desc P l (.entity recipe) cx
      (fun c cx' => P.Returns w recipe c cx' ∧ cx'.factsAbout l = cx.factsAbout l)
      fun e cx' => P.fails recipe e ∧ cx'.factsAbout l = cx.factsAbout l := by
  intro deeper drain hdeeper hs hl
  obtain ⟨hadds, hgood, hbad⟩ :=
    factless (P := P) hw (p := .entity recipe) (fun _ => trivial) deeper drain hdeeper hs hl
  have hcomes : (w.eval deeper drain (.entity recipe) cx).Comes (P.Returns w recipe)
      (P.fails recipe) := World.eval_comes hw hdeeper hs
  exact ⟨hadds, fun c hc => ⟨hcomes.result c hc, (hgood c hc).2⟩,
    fun e he hn => ⟨hcomes.failure e he hn, (hbad e he hn).2⟩⟩

end StatesAbout

end TrapFacts
