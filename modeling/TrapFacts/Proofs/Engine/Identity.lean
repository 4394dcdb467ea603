import Mathlib.Data.List.Pairwise
import TrapFacts.Proofs.Engine.Sound

/-! Entities keep their labels. -/

namespace TrapFacts

variable {α : Type} {cx : Context} {owed : List Due}

/-- A history in which each entity has a label of its own, is defined once, and is described at
most once after that. -/
structure Stable (events : List Event) : Prop where
  /-- One object, one label. -/
  object : ∀ type source c c', .served (.object type source) c ∈ events →
    .served (.object type source) c' ∈ events → c.label = c'.label
  /-- Without an object, one label for each rendered key. -/
  value : ∀ c c', .served .value c ∈ events → .served .value c' ∈ events →
    (c.label = c'.label ↔ c.entity.key.render = c'.entity.key.render)
  /-- Different objects share no label, nor does an object share one with a key. -/
  apart : ∀ slot slot' c c', slot ≠ slot' → .served slot c ∈ events →
    .served slot' c' ∈ events → c.label ≠ c'.label
  /-- What is handed out was created before. -/
  created : ∀ before slot c after, events = before ++ .served slot c :: after →
    ∃ en, .created slot ⟨c.label, en⟩ ∈ before
  /-- A created entity's label is introduced by one record, which defines it for that entity's
  key. -/
  defined : ∀ slot c, .created slot c ∈ events →
    (events.filterMap Event.record?).filter (·.introduced? = some c.label) =
      [.define c.label c.entity.key]
  /-- When a description begins, its entity is created and defined, and not yet described. -/
  described : ∀ before en l after, events = before ++ .populating en l :: after →
    (∃ slot, .created slot ⟨l, en⟩ ∈ before) ∧ .wrote (.define l en.key) ∈ before ∧
      ∀ en', .populating en' l ∉ before
  /-- When a factory begins, there is no entity of its object. -/
  made : ∀ before type source after, events = before ++ .making (.object type source) :: after →
    ∀ c, .created (.object type source) c ∉ before

theorem Context.value_of_same? {en : Entity} {c : Created} (h : cx.same? .value en = some c) :
    cx.values[en.key.render]? = some c.label := by
  obtain ⟨l, hl, rfl⟩ := Option.map_eq_some_iff.1 h
  exact hl

theorem filter_eq_singleton {α : Type} {l : List α} {R : α → α → Prop} {p : α → Bool} {a : α}
    (h : l.Pairwise R) (ha : a ∈ l) (hp : p a = true)
    (hR : ∀ b c, p b = true → p c = true → ¬ R b c) : l.filter p = [a] := by
  have hmem : a ∈ l.filter p := List.mem_filter.2 ⟨ha, hp⟩
  have hpair := h.filter p
  have hall : ∀ b ∈ l.filter p, p b = true := fun b hb => (List.mem_filter.1 hb).2
  match l.filter p, hmem, hpair, hall with
  | [b], hmem, _, _ => rw [List.mem_singleton.1 hmem]
  | b :: c :: _, _, hpair, hall =>
    have hbc := (List.pairwise_cons.1 hpair).1 c (by simp)
    exact absurd hbc (hR b c (hall b (by simp)) (hall c (by simp)))

namespace Orderly

variable {before after : List Event} {e e' : Event}

theorem allows_of_before (h : Orderly cx) (hsplit : cx.events = before ++ e :: after)
    (he : e' ∈ before) : e'.Allows e := by
  have ho := h.order
  rw [hsplit, List.pairwise_append] at ho
  exact ho.2.2 e' he e (by simp)

/-- What an event does not allow to follow came before it. -/
theorem before_of_not_allows (h : Orderly cx) (hsplit : cx.events = before ++ e :: after)
    (he : e' ∈ cx.events) (hne : e' ≠ e) (hn : ¬ e.Allows e') : e' ∈ before := by
  have ho := h.order
  rw [hsplit, List.pairwise_append, List.pairwise_cons] at ho
  rw [hsplit, List.mem_append, List.mem_cons] at he
  rcases he with he | rfl | he
  · exact he
  · exact absurd rfl hne
  · exact absurd (ho.2.1.1 e' he) hn

/-- A label belongs to one creation. -/
theorem created_unique {slot slot' : Slot} {c c' : Created} (h : Orderly cx)
    (hc : .created slot c ∈ cx.events) (hc' : .created slot' c' ∈ cx.events)
    (hl : c.label = c'.label) : slot = slot' ∧ c = c' := by
  by_contra hne
  have heq : Event.created slot c ≠ .created slot' c' := by
    rintro ⟨⟩
    exact hne ⟨rfl, rfl⟩
  have hboth : cx.events.Pairwise fun e e' => e.Allows e' ∨ e'.Allows e := h.order.imp .inl
  have hsymm : Std.Symm fun e e' : Event => e.Allows e' ∨ e'.Allows e := ⟨fun _ _ => .symm⟩
  rcases hboth.forall hc hc' heq with ha | ha
  · obtain ⟨_, hr⟩ := ha (congrArg some hl)
    cases hr
  · obtain ⟨_, hr⟩ := ha (congrArg some hl.symm)
    cases hr

/-- No label is introduced twice. -/
theorem introduced_once (h : Orderly cx) :
    (cx.events.filterMap Event.record?).Pairwise
      fun r r' => r'.introduced? = none ∨ r.introduced? ≠ r'.introduced? := by
  refine h.order.filterMap _ fun e e' ha r hr r' hr' => ?_
  cases e with
  | wrote =>
    cases e' with
    | wrote =>
      cases hr
      cases hr'
      exact ha
    | _ => cases hr'
  | _ => cases hr

end Orderly

/-- A sound history serves the same label for the same object, and no other. -/
theorem Sound.stable (h : Sound owed cx) : Stable cx.events where
  object type source c c' hc hc' := by
    have hs : cx.known? (.object type source) = some c := h.orderly.served _ c hc
    have hs' : cx.known? (.object type source) = some c' := h.orderly.served _ c' hc'
    rw [Option.some.inj (hs.symm.trans hs')]
  value c c' hc hc' := by
    have hs := h.orderly.served _ c hc
    have hs' := h.orderly.served _ c' hc'
    refine ⟨fun hl => ?_, fun hr => ?_⟩
    · obtain ⟨made, hm, hk⟩ := h.orderly.same _ _ _ hs
      obtain ⟨made', hm', hk'⟩ := h.orderly.same _ _ _ hs'
      obtain ⟨_, heq⟩ := h.orderly.created_unique hm hm' hl
      have hmade : made = made' := congrArg Created.entity heq
      rw [← hk rfl, ← hk' rfl, hmade]
    · have hv := Context.value_of_same? hs
      rw [hr, Context.value_of_same? hs'] at hv
      exact (Option.some.inj hv).symm
  apart slot slot' c c' hne hc hc' hl := by
    obtain ⟨made, hm, _⟩ := h.orderly.same _ _ _ (h.orderly.served _ c hc)
    obtain ⟨made', hm', _⟩ := h.orderly.same _ _ _ (h.orderly.served _ c' hc')
    exact hne (h.orderly.created_unique hm hm' hl).1
  created before slot c after hsplit := by
    obtain ⟨made, hm, _⟩ := h.orderly.same _ _ _ (h.orderly.served slot c (by simp [hsplit]))
    refine ⟨made, h.orderly.before_of_not_allows hsplit hm (by simp) fun ha => ?_⟩
    obtain ⟨_, hr⟩ := ha rfl
    cases hr
  defined slot c hc := by
    refine filter_eq_singleton h.orderly.introduced_once ?_ (by simp [Record.introduced?]) ?_
    · exact List.mem_filterMap.2 ⟨_, (h.orderly.created slot c hc).2, rfl⟩
    · intro r r' hr hr' hR
      simp only [decide_eq_true_eq] at hr hr'
      simp [hr, hr'] at hR
  described before en l after hsplit := by
    have hdue : (en, l) ∈ account owed cx :=
      List.mem_append_right _ (List.mem_filterMap.2 ⟨.populating en l, by simp [hsplit], rfl⟩)
    obtain ⟨slot, hc⟩ := h.accounted.created _ hdue
    have hd := (h.orderly.created _ _ hc).2
    refine ⟨⟨slot, h.orderly.before_of_not_allows hsplit hc (by simp) fun ha => ?_⟩,
      h.orderly.before_of_not_allows hsplit hd (by simp) fun ha => ?_, fun en' hm => ?_⟩
    · obtain ⟨_, hr⟩ := ha rfl
      cases hr
    · rcases ha with ha | ha
      · cases ha
      · exact ha rfl
    · exact h.orderly.allows_of_before hsplit hm en' rfl
  made before type source after hsplit c hm :=
    h.orderly.allows_of_before hsplit hm c rfl

/-- However a program nests, fails and queues, entities keep their labels. -/
theorem run_stable (w : World) (budget : Nat) (p : Prog α) (x : Extractor) :
    Stable (w.run budget p { extractor := x }).context.events := by
  have hfresh : Sound [] { extractor := x } := ⟨orderly_fresh x, accounted_fresh x⟩
  exact (Trail.sound (run_free budget p _) hfresh).stable

end TrapFacts
