import Mathlib
import TrapFacts.Proofs.Unit.ContextInvariant
import TrapFacts.Proofs.Unit.WellFormed

/-! How long a unit says its own file is. -/

theorem List.flatMap_of_unique {α β : Type} {items : List α} {a : α} {f : α → List β}
    (hn : items.Nodup) (ha : a ∈ items) (h : ∀ b ∈ items, b ≠ a → f b = []) :
    items.flatMap f = f a := by
  obtain ⟨before, after, rfl⟩ := List.append_of_mem ha
  have hnot : a ∉ before ∧ a ∉ after := by
    rw [List.nodup_append, List.nodup_cons] at hn
    exact ⟨fun hb => hn.2.2 a hb a List.mem_cons_self rfl, hn.2.1.1⟩
  have hbefore : before.flatMap f = [] := List.flatMap_eq_nil_iff.2 fun b hb =>
    h b (List.mem_append_left _ hb) (by rintro rfl; exact hnot.1 hb)
  have hafter : after.flatMap f = [] := List.flatMap_eq_nil_iff.2 fun b hb =>
    h b (List.mem_append_right _ (List.mem_cons_of_mem a hb)) (by rintro rfl; exact hnot.2 hb)
  rw [List.flatMap_append, List.flatMap_cons, hbefore, hafter]
  simp

namespace TrapFacts

variable {m : Model} {scope : Scope} {x : Extractor} {cx cx' : Context} {en : Entity} {l : Label}
  {tree : TreeId} {t : SyntaxTree}

theorem not_mem_slashed (path : String) : '\\' ∉ (slashed path).toList := by
  rw [slashed, String.toList_map, List.mem_map]
  rintro ⟨c, -, hc⟩
  split at hc
  · cases hc
  · next hne => exact hne hc

/-- A path without backslashes is the same with slashes. -/
theorem slashed_of_not_mem {path : String} (h : '\\' ∉ path.toList) : slashed path = path := by
  rw [← String.toList_inj, slashed, String.toList_map]
  refine (List.map_congr_left fun c hc => ?_).trans (List.map_id _)
  exact if_neg (by rintro rfl; exact h hc)

namespace Model

/-- The length of an entity: that of the first tree of its path, if it is the unit's own file. -/
def measure (m : Model) (scope : Scope) : Due → List Tuple
  | (.file path, l) =>
    if !path.isEmpty && scope.ownsFile path then
      (m.trees.find? (·.path == path)).toList.map fun tree =>
        ⟨"numlines", [.label l, .index tree.lines]⟩
    else []
  | _ => []

/-- A source unit measures the file of its own path alone. -/
theorem eq_of_measure {path : String} {d : Due} (h : m.measure (.source tree path) d ≠ []) :
    d.1 = .file path := by
  obtain ⟨en, l⟩ := d
  cases en with
  | file path' =>
    simp only [measure] at h
    split at h
    · next hown =>
      have hown : path = path' := beq_iff_eq.1 (Bool.and_eq_true_iff.1 hown).2
      rw [hown]
    · exact absurd rfl h
  | _ => exact absurd rfl h

/-- By the path of a tree it is found, or one before it. -/
theorem exists_find?_of_tree (ht : m.tree tree = .ok t) :
    ∃ first, m.trees.find? (·.path == t.path) = some first := by
  refine Option.isSome_iff_exists.1 (List.find?_isSome.2 ⟨t, ?_, by simp⟩)
  unfold Model.tree at ht
  split at ht
  · next hget => exact Except.ok.inj ht ▸ List.mem_of_getElem? hget
  · cases ht

/-- The lengths in the trap are those of the entities that were described. -/
def Measured (m : Model) (scope : Scope) (cx : Context) : Prop :=
  cx.stated "numlines" = cx.described.flatMap (m.measure scope)

/-- Events that begin no description, and measure nothing. -/
theorem Measured.more {es : List Event} (h : m.Measured scope cx)
    (he : cx'.events = cx.events ++ es)
    (hf : ∀ e ∈ es, ∀ t, e.fact? = some t → t.relation ≠ "numlines")
    (hd : ∀ e ∈ es, e.described? = none) : m.Measured scope cx' := by
  have hdescribed : cx'.described = cx.described := by
    rw [Context.described, he, List.filterMap_append, List.filterMap_eq_nil_iff.2 hd,
      List.append_nil, Context.described]
  unfold Measured
  rw [Context.stated_apart he hf, hdescribed]
  exact h

/-- A description begins, and all that it says of lengths is said at once. -/
theorem Measured.describes {es : List Event} (h : m.Measured scope cx)
    (he : cx'.events = cx.events ++ .populating en l :: es)
    (hf : (es.filterMap Event.fact?).filter (fun t => t.relation = "numlines") =
      m.measure scope (en, l))
    (hd : ∀ e ∈ es, e.described? = none) : m.Measured scope cx' := by
  have hdescribed : cx'.described = cx.described ++ [(en, l)] := by
    rw [Context.described, he, List.filterMap_append, List.filterMap_cons,
      List.filterMap_eq_nil_iff.2 hd, Context.described]
    rfl
  unfold Measured
  rw [Context.stated_append he, hdescribed, List.flatMap_append, List.flatMap_singleton, ← hf, h]
  rfl

theorem Measured.act {relations : List String} {a : Act} (h : m.Measured scope cx)
    (ha : a.Among relations) (hn : "numlines" ∉ relations) : m.Measured scope (a.perform cx) := by
  cases a with
  | opens l =>
    have hstill : (cx.openGenerics l).events = cx.events ++ [] := by simp
    exact h.more hstill (by simp) (by simp)
  | states fact =>
    refine h.more (cx.events_write _) ?_ (by simp [Event.described?])
    rintro _ he _ hf
    obtain rfl := List.mem_singleton.1 he
    cases hf
    exact fun heq => hn (heq ▸ ha)
  | labels =>
    exact h.more (cx.allocate.events_write _) (by simp [Event.fact?, Event.record?, Record.fact?])
      (by simp [Event.described?])
  | misses =>
    exact h.more (cx.events_missingType _) (by simp [Event.fact?, Event.record?])
      (by simp [Event.described?])

theorem measured_engineKeeps (m : Model) (scope : Scope) : m.EngineKeeps (m.Measured scope) where
  step h hs := by
    obtain ⟨es, he, hplain⟩ := hs.events
    refine h.more he (fun e hm t ht => ?_) fun e hm => (hplain e hm).described?
    rw [(hplain e hm).fact?] at ht
    cases ht
  introduce h _ _ := by
    obtain ⟨es, he, hf, hd⟩ := Context.facts_introduce _ _ _
    exact h.more he (fun e hm t ht => by rw [hf e hm] at ht; cases ht) hd

/-- A file is described without a break. -/
theorem Measured.file (h : m.Measured scope cx) (deeper : Option Runner)
    (drain : Context → Reply Unit) (path : String) (l : Label) :
    let cx' := ((World.ofModel m scope).eval deeper drain (facts m scope (.file path) l)
      (cx.populating (.file path) l)).context
    m.Measured scope cx' ∧ Frame cx cx' ∧ cx'.queue = cx.queue := by
  let named := (cx.populating (.file path) l).write (.tuple ⟨"files", [.label l, .text path]⟩)
  have hframe : Frame cx named := (Frame.populating _ _ _).trans (.deed (.emit _ _))
  have hnamed : named.events = cx.events ++ .populating (.file path) l ::
      [.wrote (.tuple ⟨"files", [.label l, .text path]⟩)] := by simp [named]
  intro cx'
  have hcx' : cx' = ((World.ofModel m scope).eval deeper drain
      (if !path.isEmpty && scope.ownsFile path then
        (m.trees.find? (·.path == path)).elim (.pure ()) fun tree =>
          Prog.fact "numlines" [.label l, .index tree.lines]
      else .pure () : Prog Unit) named).context := by
    simp only [cx', facts, fileFacts]
    cases m.trees.find? (·.path == path) <;> rfl
  have hmeasure : m.measure scope (.file path, l) =
      if !path.isEmpty && scope.ownsFile path then
        (m.trees.find? (·.path == path)).toList.map fun tree =>
          ⟨"numlines", [.label l, .index tree.lines]⟩
      else [] := rfl
  have hnothing : m.measure scope (.file path, l) = [] → m.Measured scope named := fun hnone =>
    h.describes hnamed (by rw [hnone]; rfl) (by simp [Event.described?])
  rw [hcx']
  split
  · next hown =>
    rw [if_pos hown] at hmeasure
    cases hfind : m.trees.find? (·.path == path) with
    | none =>
      rw [hfind] at hmeasure
      exact ⟨hnothing hmeasure, hframe, rfl⟩
    | some tree =>
      rw [hfind] at hmeasure
      let counted := named.write (.tuple ⟨"numlines", [.label l, .index tree.lines]⟩)
      have hcounted : counted.events = cx.events ++ .populating (.file path) l ::
          [.wrote (.tuple ⟨"files", [.label l, .text path]⟩),
            .wrote (.tuple ⟨"numlines", [.label l, .index tree.lines]⟩)] := by
        simp [counted, hnamed]
      have hdone : m.Measured scope counted :=
        h.describes hcounted (by rw [hmeasure]; rfl) (by simp [Event.described?])
      exact ⟨hdone, hframe.trans (.deed (.emit _ _)), rfl⟩
  · next hown =>
    rw [if_neg hown] at hmeasure
    exact ⟨hnothing hmeasure, hframe, rfl⟩

/-- The description of a file states its length, and no other states one. -/
theorem measured_descriptionsKeep (m : Model) (scope : Scope) : m.DescriptionsKeep scope
    (m.Measured scope) where
  toEngineKeeps := measured_engineKeeps m scope
  body := by
    intro deeper drain en l cx hdeeper hcx _
    have hother : ("numlines" ∉ en.factRelations) → m.measure scope (en, l) = [] →
        (m.invariant (m.Measured scope)).Kept (facts m scope) cx
          ((World.ofModel m scope).eval deeper drain (facts m scope en l)
            (cx.populating en l)).context := by
      intro hn hnone
      refine (measured_engineKeeps m scope).body hdeeper hcx ?_ (facts_acts en l)
        fun a cx₁ _ ha h => h.act ha hn
      exact Measured.describes hcx.holds (cx.events_populating en l) hnone.symm (by simp)
    cases en with
    | file path =>
      obtain ⟨hmeasured, hframe, hqueue⟩ := Measured.file hcx.holds deeper drain path l
      exact ⟨⟨hmeasured, hcx.waits.along hframe.events hqueue⟩, hframe⟩
    | _ => exact hother (by simp [Entity.factRelations]) rfl

end Model

/-- A description that is not put off begins. -/
theorem FreeRunner.describe_begins {w : World} {n : Nat} {run : Runner} {body : Prog Unit}
    (h : FreeRunner w n run) (hr : cx.room = n) :
    .populating en l ∈ (w.describe run en l body cx).context.events := by
  have hran : Event.populating en l ∈ (run Unit body (cx.populating en l)).context.events :=
    (h.trail body (cx.populating en l) hr).frame.events.subset (by simp)
  unfold World.describe
  generalize run Unit body (cx.populating en l) = r at hran
  obtain ⟨o, cx₁⟩ := r
  cases o with
  | done | exhausted => exact hran
  | failed e =>
    simp only [World.recover]
    split
    · exact hran
    · simp [hran]

theorem mem_described {d : Due} : d ∈ cx.described ↔ .populating d.1 d.2 ∈ cx.events := by
  rw [Context.described, List.mem_filterMap]
  refine ⟨?_, fun h => ⟨_, h, rfl⟩⟩
  rintro ⟨e, he, hd⟩
  cases e with
  | populating => cases hd; exact he
  | _ => cases hd

namespace Sound

variable (h : Sound [] cx)

include h

theorem introduced_of_described (hd : (en, l) ∈ cx.described) : cx.Introduced en l :=
  h.accounted.created _ (List.mem_append_right _ hd)

theorem nodup_described : cx.described.Nodup := by
  refine List.Nodup.of_map Prod.snd (h.accounted.once.sublist ?_)
  exact (List.sublist_append_right _ _).map _

end Sound

namespace ScopedUnit.Founded

variable {u : ScopedUnit} {path : String} (h : u.Founded cx) (hs : Sound [] cx)

include h hs

/-- A file that was described has no object, and no backslash in its path. -/
theorem described_file (hd : (.file path, l) ∈ cx.described) :
    .created .value ⟨l, .file path⟩ ∈ cx.events ∧ ∃ raw, path = slashed raw := by
  obtain ⟨slot, hc⟩ := hs.introduced_of_described hd
  obtain ⟨recipe, rfl, -, hy⟩ := h.created _ _ _ hc
  obtain ⟨raw, rfl, hraw⟩ := hy.of_file
  exact ⟨hc, raw, hraw⟩

/-- A file is described under one label. -/
theorem described_unique {l' : Label} (hd : (.file path, l) ∈ cx.described)
    (hd' : (.file path, l') ∈ cx.described) : l = l' := by
  have hsame := (hs.orderly.created _ _ (h.described_file hs hd).1).1
  have hsame' := (hs.orderly.created _ _ (h.described_file hs hd').1).1
  cases hsame.symm.trans hsame'
  rfl

end ScopedUnit.Founded

namespace TrapUnit

theorem program_source (ht : m.tree tree = .ok t) :
    (source tree).program m scope = (Prog.entity (.file t.path)).bind fun _ =>
      (Prog.each t.members fun member =>
        .attempt none (some member) (extractSymbol m scope member) (.pure ())).bind fun _ =>
          .drain (.pure ()) := by
  change ((Prog.ofExcept (m.tree tree)).bind _).bind _ = _
  rw [ht]
  rfl

/-- A file that is made before all else is described at once. -/
theorem entity_populating (m : Model) (scope : Scope) (x : Extractor) (path : String)
    {n : Nat} (hn : x.config.maxRecursionDepth = n + 1) (budget : Nat) :
    let w : World := .ofModel m scope
    ∃ f, .populating (.file (slashed path)) f ∈
      (w.runWithin (fun room cx => w.drainWithin budget room cx) (n + 1) Created
        (.entity (.file path)) { extractor := x }).context.events := by
  intro w
  let fresh : Context := { extractor := x }
  let drain := fun room cx => w.drainWithin budget room cx
  have hfree := runWithin_free (w := w) (drainWithin_free budget) n
  let run : Runner := fun α p cx => w.runWithin drain n α p cx
  let en : Entity := .file (slashed path)
  let l := (fresh.enter .value).nextLabel
  have hnone : (fresh.enter .value).same? .value en = none := by
    change ({ extractor := x } : Context).same? .value en = none
    simp [Context.same?]
  have hbegun : .populating en l ∈ (w.schedule run en l (facts m scope en l)
      ((fresh.enter .value).introduce .value en).2).context.events := by
    have hannounce : w.announce .value en (fresh.enter .value) =
        ((fresh.enter .value).introduce .value en).2 := rfl
    have hpopulate : ∀ cx, w.populate run en l (facts m scope en l) cx =
        w.describe run en l (facts m scope en l) cx := fun _ => if_neg Bool.false_ne_true
    have hnow : (en.behavior.plan (!(fresh.enter .value).guards.isEmpty)).deferred = false := rfl
    rw [World.schedule_introduce, if_neg (by simp [hnow]), hannounce, hpopulate,
      World.recover_of_contained _ _ _ World.describe_contained]
    exact hfree.describe_begins ((Frame.introduce hnone).room.trans (room_enter hn))
  have hobtained : .populating en l ∈ (w.obtain? (some run) .value (m.factory (.file path))
      (facts m scope) fresh).context.events := by
    rw [World.obtain?_new rfl (by cases n <;> rfl) hnone rfl]
    generalize w.schedule run en _ _ _ = r at hbegun
    obtain ⟨o, cx₁⟩ := r
    cases o with
    | done => simpa [Reply.andThen] using hbegun
    | failed | exhausted => exact hbegun
  refine ⟨l, ?_⟩
  change _ ∈ ((w.obtain? (some run) .value (m.factory (.file path)) (facts m scope)
    fresh).andThen fun c cx => ⟨.done c, cx⟩).context.events
  generalize w.obtain? _ _ _ _ fresh = r at hobtained
  obtain ⟨o, cx₁⟩ := r
  cases o <;> exact hobtained

/-- A source unit describes its own file. -/
theorem runIn_populating (scope : Scope) (ht : m.tree tree = .ok t)
    (hdepth : 1 ≤ x.config.maxRecursionDepth) (budget : Nat) :
    ∃ f, .populating (.file (slashed t.path)) f ∈
      ((source tree).runIn m scope x budget).context.events := by
  let w : World := .ofModel m scope
  let fresh : Context := { extractor := x }
  let drain := fun room cx => w.drainWithin budget room cx
  obtain ⟨n, hn⟩ : ∃ n, x.config.maxRecursionDepth = n + 1 := ⟨_, (Nat.sub_add_cancel hdepth).symm⟩
  have hroom : fresh.room = n + 1 := hn
  have hfree := runWithin_free (w := w) (drainWithin_free budget) (n + 1)
  have htrail := hfree.trail (.entity (.file t.path)) fresh hroom
  obtain ⟨f, hentity⟩ := entity_populating m scope x t.path hn budget
  refine ⟨f, ?_⟩
  change _ ∈ (w.runWithin drain fresh.room Unit ((source tree).program m scope)
    fresh).context.events
  rw [hroom, program_source ht, World.runWithin_bind]
  generalize w.runWithin drain (n + 1) Created (.entity (.file t.path)) fresh = r at hentity htrail
  obtain ⟨o, cx₁⟩ := r
  cases o with
  | done c =>
    exact (hfree.trail _ cx₁ (htrail.frame.room.trans hroom)).frame.events.subset hentity
  | failed | exhausted => exact hentity

/-- A source unit tells one length, under the label of its own file: that of the first tree of the
same path. If there is a backslash in the path, though, it tells none. -/
theorem finish_measured (ht : m.tree tree = .ok t) (hpath : t.path ≠ "")
    (hdepth : 1 ≤ x.config.maxRecursionDepth) (budget : Nat) :
    let cx := ((source tree).finish m (.source tree t.path) x budget).2
    ∃ f first, cx.Introduced (.file (slashed t.path)) f ∧
      m.trees.find? (·.path == t.path) = some first ∧
      cx.stated "numlines" =
        if '\\' ∈ t.path.toList then [] else [⟨"numlines", [.label f, .index first.lines]⟩] := by
  intro cx
  let scope : Scope := .source tree t.path
  have hsound := finish_sound (source tree) m scope x budget
  have hfounded := finish_founded (source tree) m scope x budget
  have hmeasured : m.Measured scope cx := by
    refine finish_holds (Model.measured_descriptionsKeep m scope) (source tree) ?_ ?_ budget
    · exact fun a cx₁ _ ha h => Model.Measured.act h ha (by simp [factRelations])
    · simp [Model.Measured, Context.stated, Context.trap, Context.described, Context.events,
        Context.moments]
  obtain ⟨f, hf⟩ := runIn_populating scope ht hdepth budget
  have hf : (Entity.file (slashed t.path), f) ∈ cx.described := by
    refine mem_described.2 ((conclude_steps m _ _).grows.subset ?_)
    exact hf
  obtain ⟨first, hfirst⟩ := Model.exists_find?_of_tree ht
  refine ⟨f, first, hsound.introduced_of_described hf, hfirst, ?_⟩
  rw [hmeasured]
  split
  · next hback =>
    refine List.flatMap_eq_nil_iff.2 fun d hd => ?_
    by_contra hne
    obtain ⟨en, l⟩ := d
    obtain rfl : en = .file t.path := Model.eq_of_measure hne
    obtain ⟨-, raw, hraw⟩ := hfounded.described_file hsound hd
    exact not_mem_slashed raw (hraw ▸ hback)
  · next hback =>
    rw [slashed_of_not_mem hback] at hf
    rw [List.flatMap_of_unique hsound.nodup_described hf fun d hd hne => ?_]
    · simp only [Model.measure, hfirst]
      rw [if_pos (by simp [scope, Scope.ownsFile, Scope.path, hpath])]
      rfl
    · by_contra hmeasure
      obtain ⟨en, l⟩ := d
      obtain rfl : en = .file t.path := Model.eq_of_measure hmeasure
      exact hne (by rw [hfounded.described_unique hsound hd hf])

/-- The second of two files. -/
theorem finish_measured_second :
    let m : Model := { trees := [{ path := "a.cs", lines := 3 }, { path := "b.cs", lines := 12 }] }
    let cx := ((source ⟨1⟩).finish m (.source ⟨1⟩ "b.cs") {} m.drainBudget).2
    m.tree ⟨1⟩ = .ok { path := "b.cs", lines := 12 } ∧ "b.cs" ≠ "" ∧
      1 ≤ ({} : Extractor).config.maxRecursionDepth ∧ ∃ f, cx.Introduced (.file "b.cs") f ∧
        cx.stated "numlines" = [⟨"numlines", [.label f, .index 12]⟩] := by
  intro m cx
  have ht : m.tree ⟨1⟩ = .ok { path := "b.cs", lines := 12 } := rfl
  have hpath : "b.cs" ≠ "" := by decide
  have hdepth : 1 ≤ ({} : Extractor).config.maxRecursionDepth := by decide
  obtain ⟨f, first, hf, hfirst, hrows⟩ := finish_measured ht hpath hdepth m.drainBudget
  have hfound : m.trees.find? (·.path == "b.cs") = some { path := "b.cs", lines := 12 } := by decide
  obtain rfl : first = { path := "b.cs", lines := 12 } := Option.some.inj (hfirst.symm.trans hfound)
  rw [if_neg (by decide)] at hrows
  have hslashed : slashed "b.cs" = "b.cs" := slashed_of_not_mem (by decide)
  exact ⟨ht, hpath, hdepth, f, hslashed ▸ hf, hrows⟩

section

-- Evaluation compares keys by their literals, not byte by byte.
attribute [local irreducible] String.decEq

/-- A path with a backslash, and one that two trees have. -/
theorem finish_mismeasured :
    (let m : Model := { trees := [{ path := "src\\a.cs", lines := 12 }] }
    let cx := ((source ⟨0⟩).finish m (.source ⟨0⟩ "src\\a.cs") {} m.drainBudget).2
    m.tree ⟨0⟩ = .ok { path := "src\\a.cs", lines := 12 } ∧
      1 ≤ ({} : Extractor).config.maxRecursionDepth ∧
      ¬ ∃ f, cx.stated "numlines" = [⟨"numlines", [.label f, .index 12]⟩]) ∧
    (let m : Model := { trees := [{ path := "a.cs", lines := 1 }, { path := "a.cs", lines := 2 }] }
    let cx := ((source ⟨1⟩).finish m (.source ⟨1⟩ "a.cs") {} m.drainBudget).2
    m.tree ⟨1⟩ = .ok { path := "a.cs", lines := 2 } ∧
      ¬ ∃ f, cx.stated "numlines" = [⟨"numlines", [.label f, .index 2]⟩]) := by
  constructor
  · intro m cx
    have hrows : ((source ⟨0⟩).finish m (.source ⟨0⟩ "src\\a.cs") {} m.drainBudget).2.stated
        "numlines" = [] := by cbv
    refine ⟨rfl, by decide, ?_⟩
    rintro ⟨f, hf⟩
    cases hrows.symm.trans hf
  · intro m cx
    have hrows : ((source ⟨1⟩).finish m (.source ⟨1⟩ "a.cs") {} m.drainBudget).2.stated
        "numlines" = [⟨"numlines", [.label ⟨1⟩, .index 1]⟩] := by cbv
    refine ⟨rfl, ?_⟩
    rintro ⟨f, hf⟩
    cases hrows.symm.trans hf

end

end TrapUnit

end TrapFacts
