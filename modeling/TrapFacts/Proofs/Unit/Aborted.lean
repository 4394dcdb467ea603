import TrapFacts.Proofs.Unit.Backlog
import TrapFacts.Proofs.Unit.Raised

/-! A unit that meets the limit says so once, and does nothing more. -/

namespace TrapFacts

variable {m : Model} {scope : Scope} {unit : TrapUnit} {x : Extractor} {room bonus limit : Nat}
  {name : String} {status : Status} {cx : Context} {may : Bool → Nat → Recipe → Prop}
  {limits : Nat → Prop}

/-- The report of a unit that met the limit. -/
def Message.aborted (name : String) (limit : Nat) : Message :=
  { Message.error ("Aborted extraction of " ++ name) with
    cause := some (Failure.recursionLimit limit).message }

/-- A context in which the limit was met once. The last message tells of it, and no other one does.
All that happened in between is that guards were closed: every label was introduced before. -/
structure Stopped (name : String) (limit : Nat) (cx : Context) : Prop where
  sent : ∃ earlier, cx.sent = earlier ++ [.aborted name limit] ∧
    ∀ message ∈ earlier, ¬ message.Final
  events : ∃ before closing,
    cx.events = before ++ .limitHit :: (closing ++ [.sent (.aborted name limit) none]) ∧
      .limitHit ∉ before ∧ (∀ e ∈ closing, e = .wrote .pop) ∧
      cx.labels = (before.filterMap Event.record?).countP (·.introduced?.isSome)

/-- How a unit ended shows whether it met the limit. -/
structure Diagnosed (name : String) (limit : Nat) (status : Status) (cx : Context) : Prop where
  extracted : status = .extracted ↔ .limitHit ∉ cx.events
  aborted : (∃ reason, status = .aborted reason) ↔ .limitHit ∈ cx.events
  stopped : .limitHit ∈ cx.events → Stopped name limit cx
  factsBehind : status = .extracted → ∀ message ∈ cx.sent, ¬ message.Final

namespace Model

theorem not_final_of_allowed {es : List Event}
    (h : ∀ e ∈ es, (m.permissions scope room bonus may limits).Allows e) :
    ∀ message ∈ es.filterMap Event.message?, ¬ message.Final := by
  intro message hmem
  obtain ⟨e, he, hmessage⟩ := List.mem_filterMap.1 hmem
  cases e with
  | sent _ about =>
    obtain rfl := Option.some.inj hmessage
    exact h _ he
  | _ => cases hmessage

/-- A run that kept to its permissions shows nothing of the limit. -/
theorem diagnosed_of_kept (h : (m.permissions scope room bonus may limits).Kept cx) :
    Diagnosed name limit .extracted cx := by
  have hnone : .limitHit ∉ cx.events := fun hmem => h.events _ hmem
  refine ⟨by simp [hnone], by simp [hnone], fun hmem => absurd hmem hnone, fun _ => ?_⟩
  rw [Context.sent_eq]
  exact not_final_of_allowed h.events

/-- Guards alone were closed since the limit was met, so nothing is left to say but that. -/
theorem stopped_of_met (h : (m.permissions scope room bonus may limits).Met cx)
    (hn : Numbered (cx.send (.aborted name limit) none)) :
    Stopped name limit (cx.send (.aborted name limit) none) := by
  obtain ⟨before, closing, hevents, hbefore, -, hclosing⟩ := h
  have hsplit : (cx.send (.aborted name limit) none).events =
      before ++ .limitHit :: (closing ++ [.sent (.aborted name limit) none]) := by
    rw [Context.events_send, hevents, List.append_assoc, List.cons_append]
  have hquiet : closing.filterMap Event.message? = [] := by
    refine List.filterMap_eq_nil_iff.2 fun e he => ?_
    rw [hclosing e he]
    rfl
  have hunlabelled : (closing.filterMap Event.record?).countP (·.introduced?.isSome) = 0 := by
    refine List.countP_eq_zero.2 fun r hr => ?_
    obtain ⟨e, he, hrecord⟩ := List.mem_filterMap.1 hr
    obtain rfl := hclosing e he
    obtain rfl := Option.some.inj hrecord
    exact Bool.false_ne_true
  constructor
  · refine ⟨before.filterMap Event.message?, ?_, not_final_of_allowed hbefore⟩
    rw [Context.sent_eq, hsplit, List.filterMap_append, List.filterMap_cons_none rfl,
      List.filterMap_append, hquiet]
    rfl
  · refine ⟨before, closing, hsplit, fun hmem => hbefore _ hmem, hclosing, ?_⟩
    have hcount := hn.countP
    rw [Context.trap_eq, hsplit, List.filterMap_append, List.filterMap_cons_none rfl,
      List.filterMap_append, List.countP_append, List.countP_append, hunlabelled] at hcount
    exact hcount

/-- A run that met the limit says so once, at the end. -/
theorem diagnosed_of_met (h : (m.permissions scope room bonus may limits).Met cx)
    (hn : Numbered (cx.send (.aborted name limit) none)) (reason : String) :
    Diagnosed name limit (.aborted reason) (cx.send (.aborted name limit) none) := by
  have hstopped := stopped_of_met h hn
  obtain ⟨before, closing, hevents, -⟩ := hstopped.events
  have hmem : .limitHit ∈ (cx.send (.aborted name limit) none).events := by
    rw [hevents]
    simp
  constructor
  · exact iff_of_false (by simp) (not_not_intro hmem)
  · exact iff_of_true ⟨reason, rfl⟩ hmem
  · exact fun _ => hstopped
  · intro hstatus
    cases hstatus

end Model

namespace TrapUnit

theorem conclude_limit {r : Reply Unit} (h : r.outcome = .failed (.recursionLimit limit)) :
    conclude m name r =
      (.aborted (Failure.recursionLimit limit).message,
        r.context.send (.aborted name limit) none) := by
  obtain ⟨o, cx⟩ := r
  obtain rfl := h
  rfl

/-- A unit is extracted, or aborted where it met the limit. That is reported once, in the last
message, and nothing happens between the two but that guards are closed. -/
theorem finish_diagnosed (hs : unit.scope x m = .ok scope) :
    let r := unit.runIn m scope x m.drainBudget
    let (status, cx) := unit.finish m scope x m.drainBudget
    (r.outcome = .done () ∨ ∃ e, r.outcome = .failed e ∧ e.isFatal = true) ∧
      Diagnosed (unit.name m) x.config.maxRecursionDepth status cx := by
  intro r
  have hnumbered := finish_numbered unit m scope x m.drainBudget
  unfold finish at hnumbered ⊢
  rcases runIn_outcome (permits_all hs _) hs rfl with ⟨hdone, hkept⟩ | ⟨hfailed, hmet⟩
  · rw [conclude_done hdone]
    exact ⟨.inl hdone, Model.diagnosed_of_kept hkept⟩
  · rw [conclude_limit hfailed] at hnumbered ⊢
    exact ⟨.inr ⟨_, hfailed, rfl⟩, Model.diagnosed_of_met hmet hnumbered _⟩

section

attribute [local irreducible] String.decEq

/-- A method that returns a pointer to a pointer to its class, and room for only one of the two. -/
theorem finish_diagnosed_pointer :
    let m : Model := {
      trees := [{ path := "a.cs", members := [⟨0⟩] }]
      symbols := [
        { name := "C", kind := .classType, locations := [⟨⟨0⟩, ⟨1, 1, 4, 2⟩⟩], members := [⟨1⟩] },
        { name := "f", kind := .method, containingType := some ⟨0⟩, returnType := some ⟨3⟩,
          locations := [⟨⟨0⟩, ⟨2, 3, 3, 4⟩⟩] },
        { name := "", kind := .pointer, pointedAt := some ⟨0⟩ },
        { name := "", kind := .pointer, pointedAt := some ⟨2⟩ }] }
    let x : Extractor := { config := { maxRecursionDepth := 3 } }
    let scope : Scope := .source ⟨0⟩ "a.cs"
    let (status, cx) := (source ⟨0⟩).finish m scope x m.drainBudget
    (source ⟨0⟩).scope x m = .ok scope ∧ Diagnosed "a.cs" 3 status cx ∧
      status = .aborted "maximum nesting depth of 3 exceeded" ∧ Stopped "a.cs" 3 cx := by
  intro m x scope
  have hscope : (source ⟨0⟩).scope x m = .ok scope := rfl
  obtain ⟨-, hdiagnosed⟩ := finish_diagnosed hscope
  have houtcome : ((source ⟨0⟩).runIn m scope x m.drainBudget).outcome =
      .failed (.recursionLimit 3) := by cbv
  have hstatus : ((source ⟨0⟩).finish m scope x m.drainBudget).1 =
      .aborted "maximum nesting depth of 3 exceeded" := finish_aborted houtcome rfl
  have hmet := hdiagnosed.aborted.1 ⟨_, hstatus⟩
  exact ⟨hscope, hdiagnosed, hstatus, hdiagnosed.stopped hmet⟩

end

end TrapUnit

end TrapFacts
