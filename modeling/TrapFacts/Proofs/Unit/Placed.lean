import TrapFacts.Proofs.Engine.Identity
import TrapFacts.Proofs.Unit.Placement

/-! Guards and rows stand where they belong, in the trap of every unit. -/

namespace TrapFacts

variable {u : ScopedUnit} {m : Model} {scope : Scope} {x : Extractor} {unit : TrapUnit}
  {cx : Context}
  {en : Entity} {l : Label} {id : SymbolId} {key : Key} {t : Tuple}
  {before after : List Record} {r : Record}

/-- A record gives a label to a key, up to the spelling of the key. -/
def Defines (trap : List Record) (l : Label) (key : Key) : Prop :=
  ∃ k, .define l k ∈ trap ∧ k.render = key.render

/-- A label of the place of a declaration, or of what was generated. -/
def Model.Located (m : Model) (trap : List Record) : Option Declaration → Label → Prop
  | none, l => ∃ f, Defines trap f (Entity.file "").key ∧
      Defines trap l (Entity.location f none).key
  | some place, l => ∃ tree f, m.tree place.tree = .ok tree ∧
      Defines trap f (Entity.file (slashed tree.path)).key ∧
      Defines trap l (Entity.location f (some place.span)).key

/-- A trap in which guards and rows stand where they belong. -/
structure Placed (m : Model) (cx : Context) : Prop where
  /-- Guards do not nest. -/
  single : ∀ before after, cx.trap = before ++ after → (openKeys [] before).length ≤ 1
  /-- A guard is that of a named type or a method. It names the first place of its declaration. -/
  pushed : ∀ key, .push key ∈ cx.trap → ∃ en l id place, cx.Introduced en l ∧
    en.guarded? = some id ∧ key = .label l (.ofLabel place) ∧
    m.Located cx.trap (m.firstDeclaration? id) place
  /-- None has two guards. -/
  once : (cx.trap.filterMap Record.pushed?).Nodup
  /-- A row is about an entity that the trap gives a label to, or may stand anywhere. -/
  about : ∀ t, .tuple t ∈ cx.trap → t.relation ∈ "compilations" :: looseRelations ∨
    ∃ en l, cx.Introduced en l ∧ t.about? = some l ∧ t.relation ∈ en.rows
  /-- Rows about a named type or a method stand in its own guard. -/
  inside : ∀ before t after, cx.trap = before ++ .tuple t :: after → ∀ en l id,
    cx.Introduced en l → en.guarded? = some id → t.about? = some l → t.relation ∈ en.rows →
    ∃ place, openKeys [] before = [.label l (.ofLabel place)]
  /-- Rows about files and namespaces stand outside of all guards. -/
  outside : ∀ before t after, cx.trap = before ++ .tuple t :: after →
    t.relation ∈ ["files", "numlines", "namespaces"] ∨ t.relation = "parent_namespace" ∧
      (∃ id name parent l, cx.Introduced (.space id name parent) l ∧ t.about? = some l) →
    openKeys [] before = []

/-- Where a record was written. -/
theorem written_split {ms : List Moment} (h : written ms = before ++ r :: after) :
    ∃ past now later, ms = past ++ now :: later ∧ now.event = .wrote r ∧ written past = before := by
  obtain ⟨past, rest, rfl, hpast, hrest⟩ := List.filterMap_eq_append_iff.1 h
  obtain ⟨quiet, now, later, rfl, hquiet, hnow, -⟩ := List.filterMap_eq_cons_iff.1 hrest
  refine ⟨past ++ quiet, now, later, (List.append_assoc ..).symm, ?_, ?_⟩
  · cases he : now.event with
    | wrote r' => rw [he] at hnow; exact congrArg Event.wrote (Option.some.inj hnow)
    | _ => rw [he] at hnow; cases hnow
  · rw [written_append, written, written, hpast, List.filterMap_eq_nil_iff.2 hquiet,
      List.append_nil]

theorem Entity.behavior_of_guarded? (h : en.guarded? = some id) : en.behavior = .pushesScope := by
  cases en <;> simp_all [Entity.guarded?, Entity.behavior]

/-- What was handed out without an object is defined. -/
theorem Orderly.defines (h : Orderly cx) (hh : cx.Handed en l) : Defines cx.trap l en.key := by
  obtain ⟨made, hcreated, hrender⟩ := h.same .value en ⟨l, en⟩ (h.served _ _ hh)
  refine ⟨made.key, ?_, hrender rfl⟩
  rw [Context.trap_eq]
  exact List.mem_filterMap.2 ⟨_, (h.created _ _ hcreated).2, rfl⟩

/-- A place that was made has its location in the trap. -/
theorem Orderly.located {place : Option Declaration} (h : Orderly cx)
    (hp : m.PlaceAt cx place l) : m.Located cx.trap place l := by
  obtain ⟨en, hy, hh⟩ := hp
  cases place with
  | none =>
    obtain ⟨f, hf, rfl⟩ := hy
    have hempty : slashed "" = "" := by simp [slashed]
    exact ⟨f, hempty ▸ h.defines hf, h.defines hh⟩
  | some place =>
    obtain ⟨tree, f, ht, hf, rfl⟩ := hy
    exact ⟨tree, f, ht, h.defines hf, h.defines hh⟩

theorem ScopedUnit.Bears.introduced (h : ScopedUnit.Bears cx en l) (hs : Sound [] cx) :
    cx.Introduced en l := by
  refine h.elim id fun hpop => hs.accounted.created (en, l) ?_
  exact List.mem_append_right _ (List.mem_filterMap.2 ⟨_, hpop, rfl⟩)

theorem Orderly.introduced_unique {en' : Entity} (h : Orderly cx) (hi : cx.Introduced en l)
    (hi' : cx.Introduced en' l) : en = en' := by
  obtain ⟨slot, hc⟩ := hi
  obtain ⟨slot', hc'⟩ := hi'
  exact congrArg Created.entity (h.created_unique hc hc' rfl).2

theorem Event.described_of_guarded? {e : Event} (h : e.guarded? = some l) :
    ∃ en, e.described? = some (en, l) := by
  cases e with
  | populating en l' =>
    simp only [Event.guarded?, Option.ite_none_right_eq_some, Option.some.injEq] at h
    exact ⟨en, by rw [← h.2]; rfl⟩
  | _ => cases h

/-- No guard is opened twice for one label. -/
theorem Accounted.guarded_once {owed : List Due} (h : Accounted owed cx) :
    (cx.events.filterMap Event.guarded?).Nodup := by
  have honce : (cx.described.map Prod.snd).Nodup := by
    have h := h.once
    rw [account, List.map_append] at h
    exact (List.nodup_append.1 h).2.1
  have hpairs := List.pairwise_filterMap.1 (List.pairwise_map.1 honce)
  refine List.pairwise_filterMap.2 (hpairs.imp fun hne l hl l' hl' => ?_)
  obtain ⟨en, hd⟩ := Event.described_of_guarded? hl
  obtain ⟨en', hd'⟩ := Event.described_of_guarded? hl'
  exact hne (en, l) hd (en', l') hd'

namespace ScopedUnit

/-- What is true of a source file's context when its run ends. -/
structure Settled (u : ScopedUnit) (cx : Context) : Prop where
  sound : Sound [] cx
  founded : u.Founded cx
  placing : u.Placing cx
  steps : ∃ limit, InStep limit [] cx.moments

namespace Settled

variable (h : u.Settled cx)

include h

/-- What was stated when a record was written, and under which guards. -/
theorem fitting (hr : cx.trap = before ++ r :: after) :
    (openKeys [] (before ++ [r])).length ≤ 1 ∧
      u.Fitting (.wrote r) (openKeys [] (before ++ [r])) cx := by
  obtain ⟨limit, hsteps⟩ := h.steps
  have hwrote : written cx.moments = before ++ r :: after := by
    rw [← hr, Context.trap_eq, Context.events, List.filterMap_map]
    rfl
  obtain ⟨past, now, later, hsplit, hnow, hpast⟩ := written_split hwrote
  have hmoment := h.placing.moments now (by simp [hsplit])
  rw [hsplit] at hsteps
  have hwritten : written (past ++ [now]) = before ++ [r] := by
    rw [written_append, hpast]
    simp [written, hnow, Event.record?]
  rwa [hnow, hsteps.now.2, hwritten] at hmoment

theorem row (hr : cx.trap = before ++ .tuple t :: after) : RowAt t (openKeys [] before) cx := by
  have hrow := (h.fitting hr).2
  rwa [openKeys_append, openKeys_plain rfl] at hrow

theorem guarded? (hi : cx.Introduced en l) (hb : en.behavior = .pushesScope) :
    ∃ id, en.guarded? = some id ∧ en.reportingLocation? = u.model.firstDeclaration? id := by
  obtain ⟨slot, hc⟩ := hi
  obtain ⟨recipe, -, -, hy⟩ := h.founded.created _ _ _ hc
  have hfits := hy.fits
  cases en with
  | namedType t => exact ⟨t.symbol, rfl, hfits⟩
  | method f => exact ⟨f.symbol, rfl, hfits⟩
  | custom => exact hfits.elim
  | _ => cases hb

/-- What a run settled is placed where it belongs. -/
theorem placed : Placed u.model cx where
  single before after hsplit := by
    rcases List.eq_nil_or_concat before with rfl | ⟨past, r, rfl⟩
    · exact Nat.zero_le 1
    · rw [List.concat_eq_append] at hsplit ⊢
      rw [List.append_assoc] at hsplit
      exact (h.fitting hsplit).1
  pushed key hk := by
    obtain ⟨before, after, hsplit⟩ := List.append_of_mem hk
    obtain ⟨en, l, place, hbears, hb, hkey, hplace⟩ := (h.fitting hsplit).2
    have hi := hbears.introduced h.sound
    obtain ⟨id, hid, hfirst⟩ := h.guarded? hi hb
    exact ⟨en, l, id, place, hi, hid, hkey, h.sound.orderly.located (hfirst ▸ hplace)⟩
  once := by
    rw [Context.trap_eq, List.filterMap_filterMap]
    exact h.placing.paired ▸ h.sound.accounted.guarded_once
  about t ht := by
    obtain ⟨before, after, hsplit⟩ := List.append_of_mem ht
    refine (h.row hsplit).imp id ?_
    rintro ⟨en, l, hbears, hl, hr, -⟩
    exact ⟨en, l, hbears.introduced h.sound, hl, hr⟩
  inside before t after hsplit en l id hi hid hl hr := by
    rcases h.row hsplit with hloose | ⟨en', l', hbears, hl', -, -, hguard⟩
    -- No row that may stand anywhere is about a type or a method.
    · revert hr hloose
      cases en <;> simp_all [Entity.guarded?, Entity.rows, looseRelations] <;> aesop
    · obtain rfl : l = l' := Option.some.inj (hl.symm.trans hl')
      obtain rfl := h.sound.orderly.introduced_unique hi (hbears.introduced h.sound)
      exact hguard (Entity.behavior_of_guarded? hid)
  outside before t after hsplit hr := by
    rcases h.row hsplit with hloose | ⟨en', l', hbears, hl', hr', hguard, -⟩
    · simp [looseRelations] at hloose
      aesop
    · apply hguard
      rcases hr with hr | ⟨hr, id, name, parent, l, hi, hl⟩
      · cases en' <;> simp_all [Entity.rows, Entity.behavior] <;> aesop
      · obtain rfl : l = l' := Option.some.inj (hl.symm.trans hl')
        obtain rfl := h.sound.orderly.introduced_unique hi (hbears.introduced h.sound)
        rfl

end Settled

end ScopedUnit

namespace TrapUnit

/-- A unit keeps its guards in step with its trap. -/
theorem finish_steady (unit : TrapUnit) (m : Model) (scope : Scope) (x : Extractor) (budget : Nat) :
    ∃ limit during, Steady (.ofModel m scope) limit { extractor := x }
      (unit.finish m scope x budget).2 during := by
  let fresh : Context := { extractor := x }
  have ht := (runIn_goes unit m scope x budget).trail.free
  obtain ⟨-, -, during, hs⟩ := conclude_keeps (P := fun cx => cx.depth = 0 ∧ cx.guards = [] ∧
    ∃ during, Steady (.ofModel m scope) fresh.maxDepth fresh cx during) m (unit.name m)
    ⟨ht.frame.depth, ht.frame.guards, ht.steady (Nat.zero_le _) (Nat.le_refl _)⟩
    fun cx message ⟨hd, hg, during, hs⟩ => ⟨hd, hg, _, hs.trans (.of_moment
      (Context.moments_log _ _) (Nat.le_trans (Nat.le_of_eq hd) (Nat.zero_le _)) rfl rfl) hg⟩
  exact ⟨_, during, hs⟩

/-- At the end of a source unit all is settled. -/
theorem finish_settled (unit : TrapUnit) (m : Model) (scope : Scope) (x : Extractor) (budget : Nat)
    (ha : scope.isAssembly = false) :
    ScopedUnit.Settled ⟨m, scope, unit, fun _ => True⟩ (unit.finish m scope x budget).2 := by
  let u : ScopedUnit := ⟨m, scope, unit, fun _ => True⟩
  let fresh : Context := { extractor := x }
  have ht := (u.runIn_goes (closed_univ m scope unit) x budget).trail
  have hplacing : u.Placing fresh := ⟨by simp [fresh, Context.moments], rfl⟩
  obtain ⟨-, hplacing⟩ := conclude_keeps (P := fun cx => cx.guards = [] ∧ u.Placing cx) m
    (unit.name m) ⟨ht.frame.guards, ht.placing ha hplacing (Nat.zero_le _)⟩
    fun cx message h =>
      ⟨h.1, h.2.event (Context.moments_log _ _) (by simp [h.1]) trivial ⟨rfl, rfl⟩⟩
  obtain ⟨limit, during, hs⟩ := finish_steady unit m scope x budget
  exact {
    sound := finish_sound unit m scope x budget
    founded := finish_founded unit m scope x budget
    placing := hplacing
    steps := ⟨limit, by rw [hs.moments]; exact hs.inStep⟩ }

/-- In the trap of a source file guards do not nest, and each is that of a type or a method, which
holds what is said of it. Other traps have no guards. -/
theorem finish_placed (h : unit.scope x m = .ok scope) (budget : Nat) :
    match unit with
    | .source _ => Placed m (unit.finish m scope x budget).2
    | _ => ∀ r ∈ (unit.finish m scope x budget).2.trap, r.isGuard = false := by
  have hassembly : scope.isAssembly = true →
      ∀ r ∈ (unit.finish m scope x budget).2.trap, r.isGuard = false := by
    intro ha r hr
    obtain ⟨limit, during, hs⟩ := finish_steady unit m scope x budget
    rw [Context.trap_eq, Context.events, List.filterMap_map, hs.moments] at hr
    obtain ⟨now, hnow, hrecord⟩ := List.mem_filterMap.1 hr
    have hquiet := hs.quiet ha now hnow
    simp only [Function.comp_apply] at hrecord
    simpa [Moment.Quiet, Event.isGuard, hrecord] using hquiet
  cases unit with
  | source tree =>
    simp only [TrapUnit.scope] at h
    split at h
    · cases h
      exact (finish_settled (.source tree) m _ x budget rfl).placed
    · cases h
  | assembly name =>
    cases h
    exact hassembly rfl
  | compilation =>
    simp only [TrapUnit.scope] at h
    split at h <;> cases h <;> exact hassembly rfl

/-- A file that declares a class with a method. -/
theorem finish_placed_class :
    let m : Model := {
      trees := [{ path := "a.cs", members := [⟨0⟩] }]
      symbols := [
        { name := "C", kind := .classType, locations := [⟨⟨0⟩, ⟨1, 1, 4, 2⟩⟩], members := [⟨1⟩] },
        { name := "f", kind := .method, containingType := some ⟨0⟩,
          locations := [⟨⟨0⟩, ⟨2, 3, 3, 4⟩⟩] }] }
    let scope : Scope := .source ⟨0⟩ "a.cs"
    (source ⟨0⟩).scope {} m = .ok scope ∧
      Placed m ((source ⟨0⟩).finish m scope {} m.drainBudget).2 := by
  intro m scope
  have hscope : (source ⟨0⟩).scope {} m = .ok scope := rfl
  exact ⟨hscope, finish_placed hscope m.drainBudget⟩

end TrapUnit

end TrapFacts
