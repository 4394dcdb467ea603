import TrapFacts.Proofs.Engine.Complaints
import TrapFacts.Proofs.Engine.Scoping
import TrapFacts.Proofs.Unit.Conduct

/-! The programs of a model leave complaints about missing guards to the engine, so that they can be
counted by their text. -/

namespace TrapFacts

variable {m : Model} {cx : Context}

theorem Failure.Plain.not_complains {e : Failure} (h : e.Plain) : ¬ e.Complains := by
  rintro ⟨symbol, node, rfl⟩
  exact h.2 (by decide)

/-- A program that keeps to its permissions sends nothing itself, so it complains only as it may
fail. -/
theorem Prog.Keeps.neverComplains {α : Type} {p : Prog α} {may : Recipe → Prop}
    {fails : Failure → Prop} {good : α → Prop} (h : p.Keeps may fails good)
    (hf : ∀ e, fails e → ¬ e.Complains) : p.NeverComplains := by
  induction p with
  | pure => trivial
  | fail e => exact hf e h
  | emit _ _ ih | missingType _ _ ih | setAssemblyFile _ _ _ ih | note _ _ ih => exact ih h
  | fresh _ ih | define _ _ ih | assemblyFile _ _ ih | openGenerics _ _ ih | snapshot _ ih =>
    exact fun a => ih a (h a)
  | modelError symbol text _ ih =>
    exact ⟨fun ht => hf _ h.1 ⟨symbol, none, by rw [ht]⟩, ih h.2⟩
  | attempt _ _ _ _ ihb ihk => exact ⟨ihb h.1, ihk h.2⟩
  | summon _ _ ih => exact fun c => ih c (h.2 c)
  | send | guarded | «catch» | later | drain | create => exact h.elim

/-- No factory fails with the engine's complaint. -/
theorem Model.factory_neverComplains (recipe : Recipe) : (m.factory recipe).NeverComplains := by
  let scope := Scope.assembly "" (assemblyPath {} m "")
  let ps := m.permissions scope 0 0 (fun _ _ => m.Has scope) fun _ => True
  have hs : (TrapUnit.assembly "").scope {} m = .ok scope := rfl
  have hholds : ps.Holds := permissions_hold (TrapUnit.permits_all hs 0)
  have hfactory : ps.may false (0 + 1) recipe → (m.factory recipe).NeverComplains :=
    fun hmay => (hholds.factory hmay).neverComplains fun _ => Failure.Plain.not_complains
  cases recipe with
  | file => trivial
  | assembly => exact hfactory rfl
  | location | space | namedType | pointer | method => exact hfactory trivial

/-- No description fails with the engine's complaint, or logs it. -/
theorem World.ofModel_neverComplains (m : Model) (scope : Scope) :
    (World.ofModel m scope).NeverComplains where
  factory := Model.factory_neverComplains
  body _ en l :=
    have hkeeps : (facts m scope en l).Keeps (fun _ => True) Failure.Plain fun _ => True :=
      Model.facts_keeps (fun _ _ _ => trivial) l
    hkeeps.neverComplains fun _ => Failure.Plain.not_complains

/-- The messages that read like complaints are the complaints that are due. -/
theorem Context.sent_complaints (h : cx.Marked) (hc : Complete m cx.moments) :
    cx.sent.filter (·.text = Model.complaintText) =
      (cx.moments.filterMap (Moment.complaint? m)).map Prod.snd := by
  have htext : ∀ l message, (l, message) ∈ cx.moments.filterMap (Moment.complaint? m) →
      message.text = Model.complaintText := by
    intro l message hmem
    obtain ⟨now, -, hdue⟩ := List.mem_filterMap.1 hmem
    unfold Moment.complaint? at hdue
    split at hdue
    · split at hdue
      · cases hdue
        exact m.text_complaint _
      · cases hdue
    · cases hdue
  rw [← hc] at htext ⊢
  rw [sent_eq, List.filter_filterMap, List.map_filterMap]
  refine List.filterMap_congr fun e he => ?_
  have hmarked := h.events e he
  unfold Event.complaint?
  split
  · next message l =>
    have hdue : (l, message) ∈ cx.events.filterMap Event.complaint? :=
      List.mem_filterMap.2 ⟨_, he, rfl⟩
    simp [Event.message?, htext l message hdue]
  · next hother =>
    cases e with
    | sent message about =>
      have hm : message.text ≠ Model.complaintText := by
        intro hm
        obtain ⟨l, rfl⟩ := hmarked hm
        exact hother message l rfl
      simp [Event.message?, hm]
    | _ => rfl

end TrapFacts
