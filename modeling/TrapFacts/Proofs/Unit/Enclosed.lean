import Mathlib
import TrapFacts.Proofs.Unit.Complaints
import TrapFacts.Proofs.Unit.Standing

/-! Descriptions begin in the guards that the behavior of their entities asks for. -/

namespace TrapFacts

variable {α β : Type} {w : World} {m : Model} {scope : Scope} {cx cx' : Context} {en : Entity}
  {c : Created} {run : Runner} {drain : Nat → Context → Reply Unit} {room : Nat}

/-- A sequence is done when both its parts are. -/
theorem Reply.andThen_eq_done {r : Reply α} {next : α → Context → Reply β} {b : β}
    (h : r.andThen next = ⟨.done b, cx'⟩) :
    ∃ a cx, r = ⟨.done a, cx⟩ ∧ next a cx = ⟨.done b, cx'⟩ := by
  obtain ⟨o, cx⟩ := r
  cases o with
  | done a => exact ⟨a, cx, rfl, h⟩
  | failed | exhausted => cases h

namespace World

/-- Without an object, what is settled on is the entity that was made. -/
theorem settle_value {body : Entity → Label → Prog Unit}
    (h : w.settle run .value body en cx = ⟨.done c, cx'⟩) : c.entity = en := by
  unfold settle at h
  split at h
  · next c' hs =>
    cases h
    obtain ⟨l, _, rfl⟩ := Option.map_eq_some_iff.1 hs
    rfl
  · dsimp only at h
    split at h
    · obtain ⟨_, _, _, hdone⟩ := Reply.andThen_eq_done h
      cases hdone
      rfl
    · cases h
      rfl

/-- Without an object, an entity is made whenever it is asked for. -/
theorem obtain?_value {deeper : Option Runner} {factory : Prog Entity}
    {body : Entity → Label → Prog Unit} (hrun : ∀ run, deeper = some run → Walks w .any run)
    (h : w.obtain? deeper .value factory body cx = ⟨.done c, cx'⟩) :
    cx'.Handed c.entity c.label ∧ ∃ run cx₁, deeper = some run ∧
      run Entity factory (cx.enter .value) = ⟨.done c.entity, cx₁⟩ ∧ cx₁.events <+: cx'.events := by
  cases deeper with
  | none => cases h
  | some run =>
    obtain ⟨c', cx₂, hbuild, hserved⟩ := Reply.andThen_eq_done h
    cases hserved
    cases hmade : (run Entity factory (cx.enter .value)).andThen (w.settle run .value body) with
      | mk o cx₃ => ?_
    simp only [build, hmade] at hbuild
    cases hbuild
    obtain ⟨en, cx₁, hfactory, hsettle⟩ := Reply.andThen_eq_done hmade
    have hsettled : Course w .any none cx₁ (w.settle run .value body en cx₁).context :=
      settle_course (hrun run rfl)
    rw [hsettle] at hsettled
    refine ⟨by simp [Context.Handed], run, cx₁, rfl, ?_, hsettled.passage.events.trans ?_⟩
    · rw [hfactory, settle_value hsettle]
    · exact ⟨_, (cx₃.leave.events_log _).symm⟩

theorem runWithin_pure {a b : α} (h : w.runWithin drain room α (.pure a) cx = ⟨.done b, cx'⟩) :
    b = a ∧ cx' = cx := by
  cases room <;> (cases h; exact ⟨rfl, rfl⟩)

theorem runWithin_ofExcept {a : α} {result : Except Failure α}
    (h : w.runWithin drain room α (.ofExcept result) cx = ⟨.done a, cx'⟩) :
    result = .ok a ∧ cx' = cx := by
  cases result with
  | ok a' =>
    obtain ⟨rfl, rfl⟩ := runWithin_pure h
    exact ⟨rfl, rfl⟩
  | error e => cases room <;> cases h

section

variable (hdrain : ∀ room cx, Course (.ofModel m scope) .any none cx (drain room cx).context)

include hdrain

/-- An entity that is told by its key is made one level deeper. -/
theorem runWithin_entity {recipe : Recipe} (hslot : recipe.slot = .value)
    (h : (ofModel m scope).runWithin drain room Created (.entity recipe) cx = ⟨.done c, cx'⟩) :
    cx'.Handed c.entity c.label ∧ ∃ room' cx₁,
      (ofModel m scope).runWithin drain room' Entity (m.factory recipe) (cx.enter .value) =
        ⟨.done c.entity, cx₁⟩ ∧ cx₁.events <+: cx'.events := by
  have hwalks := runWithin_walks (locates_any (ofModel m scope)) hdrain
  cases room with
  | zero =>
    obtain ⟨_, _, hmade, hdone⟩ := Reply.andThen_eq_done h
    cases hdone
    rw [show ((ofModel m scope).catalog recipe).slot = .value from hslot] at hmade
    cases hmade
  | succ room =>
    obtain ⟨_, _, hmade, hdone⟩ := Reply.andThen_eq_done h
    cases hdone
    rw [show ((ofModel m scope).catalog recipe).slot = .value from hslot] at hmade
    obtain ⟨hhanded, run, cx₁, hrun, hfactory, he⟩ :=
      obtain?_value (by rintro _ ⟨⟩; exact hwalks room) hmade
    cases hrun
    exact ⟨hhanded, room, cx₁, hfactory, he⟩

/-- A file that was asked for is there under its label. -/
theorem runWithin_file {path : String}
    (h : (ofModel m scope).runWithin drain room Created (.entity (.file path)) cx =
      ⟨.done c, cx'⟩) : cx'.FileAt path c.label := by
  obtain ⟨hhanded, room', cx₁, hfactory, _⟩ := runWithin_entity hdrain rfl h
  obtain ⟨hmade, _⟩ := runWithin_pure hfactory
  rwa [hmade] at hhanded

/-- A location that was asked for is that of the declaration. -/
theorem makeLocation_yields {place : Option Declaration}
    (h : (ofModel m scope).runWithin drain room Entity (m.makeLocation place) cx =
      ⟨.done en, cx'⟩) : (Recipe.location place).Yields m en cx' := by
  cases place with
  | none =>
    rw [show m.makeLocation none = (Prog.entity (.file "")).bind fun c =>
      .pure (.location c.label none) from rfl, runWithin_bind] at h
    obtain ⟨c, cx₁, hfile, hmade⟩ := Reply.andThen_eq_done h
    obtain ⟨rfl, rfl⟩ := runWithin_pure hmade
    exact ⟨c.label, runWithin_file hdrain hfile, rfl⟩
  | some place =>
    rw [show m.makeLocation (some place) = (Prog.ofExcept (m.tree place.tree)).bind fun tree =>
      (Prog.entity (.file tree.path)).bind fun c =>
        .pure (.location c.label (some place.span)) from rfl, runWithin_bind] at h
    obtain ⟨tree, cx₁, hread, hmade⟩ := Reply.andThen_eq_done h
    obtain ⟨htree, rfl⟩ := runWithin_ofExcept hread
    rw [runWithin_bind] at hmade
    obtain ⟨c, cx₂, hfile, hmade⟩ := Reply.andThen_eq_done hmade
    obtain ⟨rfl, rfl⟩ := runWithin_pure hmade
    exact ⟨tree, c.label, htree, runWithin_file hdrain hfile, rfl⟩

end

/-- What stands for a place is a location that was made for it. -/
theorem locates_placeAt (m : Model) (scope : Scope) : (ofModel m scope).Locates m.PlaceAt := by
  intro drain hdrain room place cx cx' c h
  obtain ⟨hhanded, room', cx₁, hfactory, he⟩ := runWithin_entity hdrain rfl h
  have hyields : (Recipe.location place).Yields m c.entity cx₁ :=
    makeLocation_yields hdrain hfactory
  exact ⟨c.entity, Recipe.lasting_yields m _ _ hyields he, hhanded⟩

end World

/-- A journal in which descriptions begin in the guards that their entities ask for. A missing guard
is complained about at once, and there is one complaint for each entity that misses a guard and
there are no others. Reports are told apart from complaints, each is about a description that
failed. -/
structure Enclosed (m : Model) (scope : Scope) (cx : Context) : Prop where
  begins : ∀ past now later en l, cx.moments = past ++ now :: later →
    now.event = .populating en l → Begins (.ofModel m scope) m.PlaceAt cx past now en l
  complains : ∀ past now later slot c, cx.moments = past ++ now :: later →
    now.event = .created slot c → c.entity.MissesGuard now.guards →
    [.sent (m.complaint c.entity) (some (.missingGuard c.label))] <+: later.map Moment.event
  complaints : cx.events.filterMap Event.complaint? = cx.moments.filterMap (Moment.complaint? m)
  reports : ∀ past now later message l, cx.moments = past ++ now :: later →
    now.event = .sent message (some (.failure l)) →
    ∃ en e, Reports (.ofModel m scope) past message en l e

theorem Model.lasts_placeAt (m : Model) : Site.Lasts m.PlaceAt :=
  fun _ _ _ _ h he => h.mono he

/-- Whatever programs create, guard and queue, as long as nothing leaves the queue inside a guard,
every description begins in the guards that its entity asks for, and complaints are made about the
entities that miss a guard and no others. If the program does not use the text of a complaint
itself, they are all the messages of that text, whatever the journal says that they are about. -/
theorem run_enclosed (m : Model) (scope : Scope) (budget : Nat) (p : Prog α) (x : Extractor)
    (hbare : ((World.ofModel m scope).run budget p { extractor := x }).context.DrainsBare) :
    let cx := ((World.ofModel m scope).run budget p { extractor := x }).context
    Enclosed m scope cx ∧ (p.NeverComplains →
      cx.sent.filter (·.text = Model.complaintText) =
        (cx.moments.filterMap (Moment.complaint? m)).map Prod.snd) := by
  have hcourse := World.run_course (World.locates_placeAt m scope) budget p { extractor := x }
  have hdisposed := hcourse.disposed m.lasts_placeAt (run_clear hbare) (.fresh x) (by simp)
  refine ⟨⟨fun past now later en l hsplit he => ?_, fun past now later slot c hsplit he => ?_,
    hdisposed.complete, fun past now later message l hsplit he => ?_⟩, fun hp => ?_⟩
  case refine_4 =>
    have hmarked := World.run_marked (World.ofModel_neverComplains m scope) budget hp (.fresh x)
    exact Context.sent_complaints hmarked.context hdisposed.complete
  all_goals
    have hnow := hdisposed.lawful past now later hsplit
    unfold Lawful at hnow
    rw [he] at hnow
    exact hnow

theorem Context.drainsBare_of_all
    (h : (cx.moments.all fun now => now.event.taken?.isNone || now.guards.isEmpty) = true) :
    cx.DrainsBare := by
  intro now hnow number he
  have hall := List.all_eq_true.1 h now hnow
  rw [he] at hall
  simpa [Event.taken?] using hall

section

-- Evaluation compares keys by their literals, not byte by byte.
attribute [local irreducible] String.decEq

/-- A guard in which an entity with a guard of its own is created, one that needs a guard, and one
that must not have any; outside of it, one more that needs a guard, which is complained about. -/
theorem run_enclosed_guard :
    let en (name : String) (behavior : Behavior) : Prog Entity :=
      .pure (.custom { key := .literal name, behavior })
    let body (_ : Entity) (_ : Label) : Prog Unit := .pure ()
    let p : Prog Unit :=
      .guarded (.literal "g")
        (.create .value (en "a" .pushesScope) body fun _ =>
          .create .value (en "b" .needsScope) body fun _ =>
            .create .value (en "c" .noScope) body fun _ => .pure ())
        (.create .value (en "d" .needsScope) body fun _ => .drain (.pure ()))
    let cx := ((World.ofModel {} (.source ⟨0⟩ "a.cs")).run 2 p { extractor := {} }).context
    cx.DrainsBare ∧ p.NeverComplains ∧ Enclosed {} (.source ⟨0⟩ "a.cs") cx ∧
      cx.sent.filter (·.text = Model.complaintText) = [.error Model.complaintText] := by
  intro en body p cx
  have hbare : ((World.ofModel {} (.source ⟨0⟩ "a.cs")).run 2 p
      { extractor := {} }).context.DrainsBare :=
    Context.drainsBare_of_all (by cbv)
  have hp : p.NeverComplains := by simp [p, en, body, Prog.NeverComplains]
  obtain ⟨henclosed, hsent⟩ := run_enclosed {} (.source ⟨0⟩ "a.cs") 2 p {} hbare
  refine ⟨hbare, hp, henclosed, (hsent hp).trans ?_⟩
  cbv

/-- An entity that needs a guard but no description: nobody tells that the guard is missing. -/
theorem run_unreported :
    let en : Entity :=
      .custom { key := .literal "k", behavior := .needsScope, needsPopulation := false }
    let p : Prog Created := .create .value (.pure en) (fun _ _ => .pure ()) .pure
    let cx := ((World.ofModel {} (.source ⟨0⟩ "a.cs")).run 0 p { extractor := {} }).context
    cx.DrainsBare ∧ (∃ now ∈ cx.moments, now.Creates en ⟨1⟩ ∧ now.guards = []) ∧ cx.sent = [] := by
  intro en p cx
  have hmoments : ((World.ofModel {} (.source ⟨0⟩ "a.cs")).run 0 p
      { extractor := {} }).context.moments = [
      ⟨.making .value, 1, [], 0, 0⟩,
      ⟨.wrote (.define ⟨1⟩ (.literal "k")), 1, [], 0, 0⟩,
      ⟨.created .value ⟨⟨1⟩, en⟩, 1, [], 0, 0⟩,
      ⟨.served .value ⟨⟨1⟩, en⟩, 0, [], 0, 0⟩] := by
    cbv
  refine ⟨fun now hnow number he => ?_,
    ⟨⟨.created .value ⟨⟨1⟩, en⟩, 1, [], 0, 0⟩, ?_, ⟨.value, rfl⟩, rfl⟩, ?_⟩
  · rw [hmoments] at hnow
    simp only [List.mem_cons, List.not_mem_nil, or_false] at hnow
    rcases hnow with rfl | rfl | rfl | rfl <;> rfl
  · rw [hmoments]
    simp
  · rw [Context.sent_eq, Context.events, hmoments]
    rfl

end

end TrapFacts
