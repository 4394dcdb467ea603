import TrapFacts.Proofs.Unit.Run

/-! Descriptions that end have reached what belongs to their entities. -/

namespace TrapFacts

variable {u : ScopedUnit} {o A : List Due} {b : Bool} {cx cx₁ cx' : Context} {en : Entity}
  {l p : Label} {slot : Slot}

/-- More happened, and no type arguments were closed. -/
structure Context.Extends (cx' cx : Context) : Prop where
  events : cx.events <+: cx'.events
  generics : ∀ l ∈ cx.generics, l ∈ cx'.generics

theorem Frame.extends (h : Frame cx cx') : cx'.Extends cx :=
  ⟨h.events, fun _ hl => h.generics hl⟩

theorem Context.Extends.of_event {e : Event} (he : cx'.events = cx.events ++ [e])
    (hg : cx'.generics = cx.generics) : cx'.Extends cx :=
  ⟨⟨_, he.symm⟩, fun _ hl => hg ▸ hl⟩

namespace ScopedUnit

variable (u)

/-- A description of the entity that ended, whenever it began, has reached what belongs to it. -/
def Reaches (en : Entity) (cx : Context) : Prop :=
  ∃ start, u.Finished en start cx

/-- Type arguments were opened by the type itself, which was made with them, or are reached. -/
def Argued (l : Label) (cx : Context) : Prop :=
  (∃ t, cx.Introduced (.namedType t) l) ∨ ∃ id, u.model.TypeAt cx id l ∧
    ∀ s, u.model.symbol id = .ok s → (s.constructedFrom? id).isSome = true →
      ∀ a ∈ s.typeArguments, cx.Reached a

/-- Unless something went wrong, all descriptions that began have reached what belongs to them, but
for those that are still under way. -/
structure Underway (A : List Due) (cx : Context) : Prop where
  begun : ∀ en l, .populating en l ∈ cx.events → cx.Introduced en l
  ended : ∀ en l, .populating en l ∈ cx.events → (en, l) ∈ A ∨ u.Reaches en cx ∨ cx.Erred
  opened : ∀ l ∈ cx.generics,
    (∃ f fl, (.method f, fl) ∈ A ∧ f.declaring = l) ∨ u.Argued l cx ∨ cx.Erred

variable {u}

theorem underway_fresh (u : ScopedUnit) (x : Extractor) : u.Underway [] { extractor := x } where
  begun := by simp [Context.events, Context.moments]
  ended := by simp [Context.events, Context.moments]
  opened := by simp

theorem Finished.mono (h : u.Finished en cx cx₁) (hf : cx'.Extends cx₁) : u.Finished en cx cx' := by
  cases en with
  | namedType t =>
    exact fun hk hd ho s hs member hm hx =>
      Context.lasting_reached member (h hk hd ho s hs member hm hx) hf.events
  | method f =>
    intro s hs hc
    obtain ⟨hg, hr⟩ := h s hs hc
    exact ⟨hf.generics _ hg, fun hn a ha => Context.lasting_reached a (hr hn a ha) hf.events⟩
  | assembly name path file =>
    exact fun ho id hid s hs ht => Context.lasting_reached id (h ho id hid s hs ht) hf.events
  | _ => trivial

theorem Reaches.mono (h : u.Reaches en cx) (hf : cx'.Extends cx) : u.Reaches en cx' := by
  obtain ⟨start, h⟩ := h
  exact ⟨start, h.mono hf⟩

theorem lasting_argued (u : ScopedUnit) (l : Label) : Lasting (u.Argued l) := by
  rintro cx cx' (⟨t, hi⟩ | ⟨id, ht, hr⟩) he
  · exact .inl ⟨t, hi.mono he⟩
  · exact .inr ⟨id, ht.mono he, fun s hs hc a ha => Context.lasting_reached a (hr s hs hc a ha) he⟩

/-- A method was made with a label that stands for its type. -/
theorem Founded.declaring {f : Method} (h : u.Founded cx) (hi : cx.Introduced (.method f) l) :
    u.model.TypeAt cx f.declaringSymbol f.declaring := by
  obtain ⟨slot, hc⟩ := hi
  obtain ⟨recipe, -, -, hy⟩ := h.created _ _ _ hc
  obtain ⟨id, s, -, -, hf⟩ := hy.of_method
  exact hf.declaring

namespace Underway

/-- Nothing begins, and no type arguments are opened. -/
theorem quiet (h : u.Underway A cx) (hf : cx'.Extends cx)
    (he : ∀ en l, .populating en l ∈ cx'.events → .populating en l ∈ cx.events)
    (hg : ∀ l ∈ cx'.generics, l ∈ cx.generics) : u.Underway A cx' where
  begun en l hm := (h.begun en l (he en l hm)).mono hf.events
  ended en l hm :=
    (h.ended en l (he en l hm)).imp_right (Or.imp (·.mono hf) (·.mono hf.events))
  opened l hl :=
    (h.opened l (hg l hl)).imp_right
      (Or.imp (u.lasting_argued l · hf.events) (·.mono hf.events))

/-- One more event, which begins no description. -/
theorem event {e : Event} (h : u.Underway A cx) (he : cx'.events = cx.events ++ [e])
    (hg : cx'.generics = cx.generics) (hn : ∀ en l, e ≠ .populating en l) : u.Underway A cx' := by
  refine h.quiet (.of_event he hg) (fun en l hm => ?_) (by simp [hg])
  rw [he, List.mem_append, List.mem_singleton] at hm
  exact hm.resolve_right fun heq => hn en l heq.symm

/-- Type arguments are opened by their type, or by a method that is under way. -/
theorem openGenerics (h : u.Underway A cx) (hf : u.Founded cx)
    (ho : (∃ t, cx.Introduced (.namedType t) l) ∨
      (∃ f fl, .populating (.method f) fl ∈ cx.events ∧ f.declaring = l)) :
    u.Underway A (cx.openGenerics l) := by
  have hframe := (Frame.deed (.openGenerics cx l)).extends
  refine ⟨fun en l hm => (h.begun en l hm).mono hframe.events,
    fun en l hm => (h.ended en l hm).imp_right (Or.imp (·.mono hframe) (·.mono hframe.events)),
    fun l' hl' => ?_⟩
  have hold : l' ∈ cx.generics → _ := fun hg =>
    (h.opened l' hg).imp_right (Or.imp (u.lasting_argued l' · hframe.events) (·.mono hframe.events))
  by_cases hg : l' ∈ cx.generics
  · exact hold hg
  · obtain rfl : l = l' := (Std.HashSet.mem_insert.1 hl').elim LawfulBEq.eq_of_beq (absurd · hg)
    rcases ho with ⟨t, ht⟩ | ⟨f, fl, hpop, rfl⟩
    · exact .inr (.inl (.inl ⟨t, ht.mono hframe.events⟩))
    · rcases h.ended _ _ hpop with hA | hr | herr
      · exact .inl ⟨f, fl, hA, rfl⟩
      · refine .inr (.inl (.inr ⟨f.declaringSymbol, ?_, fun s hs hc => ?_⟩))
        · exact (hf.declaring (h.begun _ _ hpop)).mono hframe.events
        -- The description that opens them has not ended, for then they were open before.
        · obtain ⟨start, hr⟩ := hr
          exact absurd (hr s hs hc).1 hg
      · exact .inr (.inr (herr.mono hframe.events))

/-- What a program states leaves descriptions under way or ended, as they are. -/
theorem stating (h : u.Underway A cx) (hf : u.Founded cx) (hs : u.Stating cx cx') :
    u.Underway A cx' := by
  cases hs with
  | fact => exact h.event (cx.events_write _) rfl (by simp)
  | compilation | parameter =>
    have hfresh : u.Underway A (cx.allocate.write (.fresh cx.nextLabel)) :=
      h.event (cx.allocate.events_write _) rfl (by simp)
    exact hfresh.event (Context.events_write _ _) rfl (by simp)
  | missingType => exact h.event (Context.events_log _ _) rfl (by simp)
  | openGenerics ho => exact h.openGenerics hf ho

theorem introduce (h : u.Underway A cx) (hs : cx.same? slot en = none) :
    u.Underway A (cx.introduce slot en).2 := by
  refine h.quiet (Frame.introduce hs).extends (fun en' l hm => ?_) fun l hl => ?_
  · rcases Context.mem_events_introduce hm with hm | ⟨message, hm⟩ | hm | hm
    · exact hm
    all_goals cases hm
  · rwa [Context.generics_introduce] at hl

/-- A description begins: it is under way. -/
theorem opening (h : u.Underway A cx) (hi : cx.Introduced en l)
    (ho : u.manner.opening en l (cx.populating en l) cx') : u.Underway ((en, l) :: A) cx' := by
  obtain ⟨⟨relation, args, _, _, rfl⟩, -⟩ := ho
  have hframe := (Frame.populating cx en l).extends
  refine event ⟨fun en' l' hm => ?_, fun en' l' hm => ?_, fun l' hl' => ?_⟩
    (Context.events_write _ _) rfl (by simp)
  · rw [Context.events_populating, List.mem_append, List.mem_singleton] at hm
    rcases hm with hm | hm
    · exact (h.begun en' l' hm).mono hframe.events
    · cases hm
      exact hi.mono hframe.events
  · rw [Context.events_populating, List.mem_append, List.mem_singleton] at hm
    rcases hm with hm | hm
    · exact (h.ended en' l' hm).imp (List.mem_cons_of_mem _)
        (Or.imp (·.mono hframe) (·.mono hframe.events))
    · cases hm
      exact .inl List.mem_cons_self
  · refine (h.opened l' hl').imp ?_
      (Or.imp (u.lasting_argued l' · hframe.events) (·.mono hframe.events))
    rintro ⟨f, fl, hA, hf⟩
    exact ⟨f, fl, List.mem_cons_of_mem _ hA, hf⟩

/-- A description ends. What a method opened while it was described, it has reached; what it found
open is left to whoever opened it. -/
theorem closing (h : u.Underway A cx) (h' : u.Underway ((en, l) :: A) cx') (hframe : cx'.Extends cx)
    (hf : u.Founded cx') (hi : cx.Introduced en l) (hc : u.manner.closing en l cx cx') :
    u.Underway A cx' where
  begun := h'.begun
  ended en' l' hm := by
    rcases h'.ended en' l' hm with hA | hr
    · rcases List.mem_cons.1 hA with heq | hA
      · cases heq
        exact .inr (hc.imp_left fun hfinished => ⟨cx, hfinished⟩)
      · exact .inl hA
    · exact .inr hr
  opened l' hl' := by
    by_cases hold : l' ∈ cx.generics
    · exact (h.opened l' hold).imp_right
        (Or.imp (u.lasting_argued l' · hframe.events) (·.mono hframe.events))
    · rcases h'.opened l' hl' with ⟨f, fl, hA, rfl⟩ | hr
      · rcases List.mem_cons.1 hA with heq | hA
        · cases heq
          refine .inr (hc.imp_left fun hfinished => .inr ⟨_, hf.declaring (hi.mono hframe.events),
            fun s hs hd => ?_⟩)
          exact (hfinished s hs hd).2 hold
        · exact .inl ⟨f, fl, hA, rfl⟩
      · exact .inr hr

end Underway

end ScopedUnit

/-- Along the trails of a unit, whatever began and ended has reached what belongs to it. -/
theorem Trail.underway (h : Trail u.world u.manner o b cx cx') (hb : b = false) (hf : u.Founded cx)
    (ho : ∀ d ∈ o, cx.Introduced d.1 d.2) (hu : u.Underway A cx) : u.Underway A cx' := by
  induction h generalizing A with
  | refl => exact hu
  | trans h _ ih ih' =>
    have hfirst : ∀ d ∈ _, _ := fun d hd => ho d (List.mem_append_left _ hd)
    refine ih' hb (h.founded hf hfirst) (fun d hd => ?_) (ih rfl hf hfirst hu)
    exact (ho d (List.mem_append_right _ hd)).mono h.frame.events
  | stop | limit => cases hb
  | caught hc => exact hc.elim
  | deed h => exact hu.stating hf h
  | sent | complaint | excused | reported | served | deferred =>
    exact hu.event (Context.events_log _ _) rfl (by simp)
  | guarded _ hg => exact hg.elim
  | nested _ _ _ ih =>
    have hinner := ih hb (hf.event (Context.events_enter _ _) rfl (by simp)) (by simp)
      (hu.event (Context.events_enter _ _) rfl (by simp))
    exact hinner.quiet ⟨List.prefix_rfl, fun _ hl => hl⟩ (fun _ _ hm => hm) fun _ hl => hl
  | introduced hs he _ ih =>
    exact ih hb (hf.introduce hs he) (fun _ => Created.introduced_of_dues) (hu.introduce hs)
  | described _ _ hopen h hc ih =>
    have hi := ho _ (List.mem_singleton_self _)
    have hopened := hf.opening hopen
    have hinner := ih hb hopened (by simp) (hu.opening hi hopen)
    exact hu.closing hinner ((ScopedUnit.frame_opening hopen).trans h.frame).extends
      (h.founded hopened (by simp)) hi (hc hb)
  | @describedGuarded l cx₁ _ cx' cx en place _ _ _ _ _ hopen h hc ih =>
    let opened := cx.openGuard (.label l (.ofLabel place.label))
    have hi : opened.Introduced en l := (ho _ (List.mem_singleton_self _)).mono (by simp [opened])
    have hguard : u.Underway A opened := hu.event (Context.events_openGuard _ _) rfl (by simp)
    have hopened := (hf.openGuard _).opening hopen
    have hinner := ih hb hopened (by simp) (hguard.opening hi hopen)
    have hclosed := hguard.closing hinner ((ScopedUnit.frame_opening hopen).trans h.frame).extends
      (h.founded hopened (by simp)) hi (hc hb)
    exact hclosed.event (Context.events_closeGuard _) rfl (by simp)
  | taken hq _ ih =>
    obtain ⟨htaken, hdues⟩ := hf.take hq
    refine ih hb (htaken.log (by simp)) (fun d hd => (hdues d hd).mono (Frame.log _ _).events) ?_
    exact (hu.event (Context.events_take _ _ _) rfl (by simp)).event (Context.events_log _ _) rfl
      (by simp)
  | takenGuarded _ _ hg => exact hg.elim

end TrapFacts
