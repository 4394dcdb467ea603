import Mathlib
import TrapFacts.Proofs.Unit.Discreet
import TrapFacts.Proofs.Unit.WellFormed

/-! Units do not depend on each other, nor on what becomes of diagnostics. -/

namespace TrapFacts

open Context (Twins)

variable {m m' : Model} {scope : Scope} {x x' y : Extractor} {unit : TrapUnit} {budget : Nat}
  {free : Bool} {cx cx' : Context} {e : Event} {o : List Due} {b : Bool} {name : String}

namespace Event

/-- What an event adds to what units share. -/
def tally (x : Extractor) : Event → Extractor
  | .sent message _ => x.message message
  | .missing name => x.missingType name
  | _ => x

def isError : Event → Bool
  | .sent message _ => message.severity = .error
  | _ => false

end Event

namespace Extractor

theorem mem_insertText {s : String} {ts : List String} :
    name ∈ insertText s ts ↔ name = s ∨ name ∈ ts := by
  induction ts with
  | nil => simp [insertText]
  | cons t ts ih =>
    unfold insertText
    split
    · simp
    · split
      · next h => simp [h]
      · simp only [List.mem_cons, ih]
        exact or_left_comm

/-- Whatever happens, settings and tables stay as they are. -/
theorem tally_keeps (es : List Event) (x : Extractor) :
    (es.foldl Event.tally x).config = x.config ∧
      (es.foldl Event.tally x).assemblyFile? = x.assemblyFile? := by
  induction es generalizing x with
  | nil => exact ⟨rfl, rfl⟩
  | cons e es ih =>
    obtain ⟨hc, hf⟩ := ih (e.tally x)
    rw [List.foldl_cons, hc, hf]
    cases e <;> exact ⟨rfl, rfl⟩

theorem errors_tally (es : List Event) (x : Extractor) :
    (es.foldl Event.tally x).errors = x.errors + es.countP Event.isError := by
  induction es generalizing x with
  | nil => rfl
  | cons e es ih =>
    rw [List.foldl_cons, ih, List.countP_cons]
    cases e with
    | sent message about =>
      simp only [Event.tally, Extractor.message, Event.isError, decide_eq_true_eq]
      split <;> omega
    | _ => rfl

/-- A type is missing after a unit if it was before, or if the unit missed it. -/
theorem mem_missingTypes_tally (es : List Event) (x : Extractor) :
    name ∈ (es.foldl Event.tally x).missingTypes ↔
      name ∈ x.missingTypes ∨ .missing name ∈ es := by
  induction es generalizing x with
  | nil => simp
  | cons e es ih =>
    rw [List.foldl_cons, ih, List.mem_cons]
    cases e with
    | missing other =>
      simp only [Event.tally, missingType, mem_insertText, Event.missing.injEq]
      rw [or_comm (a := name = other), or_assoc]
    | _ => simp [Event.tally, message]

end Extractor

/-- What units share is what the events of a context have made of it. -/
def Tallied (x : Extractor) (cx : Context) : Prop :=
  cx.extractor = cx.events.foldl Event.tally x

namespace Tallied

theorem event (h : Tallied x cx) (he : cx'.events = cx.events ++ [e])
    (hx : cx'.extractor = e.tally cx.extractor) : Tallied x cx' := by
  rw [Tallied, he, List.foldl_append, ← h, hx]
  rfl

theorem still (h : Tallied x cx) (he : cx'.events = cx.events)
    (hx : cx'.extractor = cx.extractor) : Tallied x cx' := by
  rw [Tallied, he, hx]
  exact h

theorem log (h : Tallied x cx) (hx : e.tally cx.extractor = cx.extractor) :
    Tallied x (cx.log e) :=
  h.event (cx.events_log e) hx.symm

theorem send (h : Tallied x cx) (message : Message) (about : Option Concern) :
    Tallied x (cx.send message about) :=
  h.event (cx.events_send message about) rfl

theorem write (h : Tallied x cx) (r : Record) : Tallied x (cx.write r) :=
  h.event (cx.events_write r) rfl

theorem openGuard (h : Tallied x cx) (key : Key) : Tallied x (cx.openGuard key) :=
  h.event (cx.events_openGuard key) rfl

theorem take (h : Tallied x cx) (a : Pending) (rest : List Pending) :
    Tallied x (cx.take a rest) :=
  h.event (cx.events_take a rest) rfl

theorem register (h : Tallied x cx) (rendered : String) : Tallied x (cx.register rendered) := by
  unfold Context.register
  split
  · exact h
  · split
    · exact h.send _ _
    · exact h.still rfl rfl

theorem introduce (h : Tallied x cx) (slot : Slot) (en : Entity) :
    Tallied x (cx.introduce slot en).2 := by
  have hremember : Tallied x (cx.allocate.remember slot ⟨cx.nextLabel, en⟩) := by
    cases slot <;> exact h.still rfl rfl
  exact ((hremember.register en.key.render).write _).log rfl

theorem ownStep (h : Tallied x cx) (ht : OwnStep cx cx') : Tallied x cx' := by
  cases ht with
  | fact => exact h.write _
  | fresh =>
    have hallocate : Tallied x cx.allocate := h.still rfl rfl
    exact (hallocate.write _).write _
  | missingType name => exact h.event (cx.events_missingType name) rfl
  | openGenerics l => exact h.still (cx.events_openGenerics l) rfl

theorem opening {en : Entity} {l : Label} (h : Tallied x cx)
    (ho : Opening en l (cx.populating en l) cx') : Tallied x cx' := by
  obtain ⟨relation, args, _, _, rfl⟩ := ho
  have hpopulating : Tallied x (cx.populating en l) := h.event (cx.events_populating en l) rfl
  exact hpopulating.write _

end Tallied

/-- A unit shares nothing but what its events tell. -/
theorem Trail.tallied (h : Trail (.ofModel m scope) (.ofModel m scope) o b cx cx')
    (ht : Tallied x cx) : Tallied x cx' := by
  induction h with
  | refl => exact ht
  | trans _ _ ih ih' => exact ih' (ih ht)
  | stop _ _ ih => exact ih ht
  | caught hc => exact hc.elim
  | deed h => exact ht.ownStep h
  | sent | complaint | excused | reported => exact ht.send _ _
  | limit | served => exact ht.log rfl
  | guarded _ hg => exact hg.elim
  | nested _ _ _ ih =>
    exact (ih (ht.event (Context.events_enter _ _) rfl)).still (Context.events_leave _) rfl
  | introduced _ _ _ ih => exact ih (ht.introduce _ _)
  | deferred => exact ht.event (Context.events_enqueue _ _) rfl
  | described _ _ ho _ _ ih => exact ih (ht.opening ho)
  | describedGuarded _ _ _ _ _ ho _ _ ih =>
    exact (ih ((ht.openGuard _).opening ho)).event (Context.events_closeGuard _) rfl
  | taken _ _ ih => exact ih ((ht.take _ _).log rfl)
  | takenGuarded _ _ hg => exact hg.elim

namespace TrapUnit

/-- What a unit leaves in its extractor is the tally of its events. -/
theorem finish_tallied (unit : TrapUnit) (m : Model) (scope : Scope) (x : Extractor)
    (budget : Nat) : Tallied x (unit.finish m scope x budget).2 := by
  have ht := (runIn_goes unit m scope x budget).trail
  have hrun : Tallied x (unit.runIn m scope x budget).context := ht.tallied rfl
  exact conclude_keeps m _ hrun fun cx message h => h.send message none

/-- Runs that differ in diagnostics alone are concluded alike. -/
theorem conclude_twins {r r' : Reply Unit} (hm : m.attributed = m'.attributed) (name : String)
    (h : Near free false r r') :
    (conclude m name r).1 = (conclude m' name r').1 ∧
      Twins free (conclude m name r).2 (conclude m' name r').2 := by
  obtain ⟨o, cx⟩ := r
  obtain ⟨o', cx'⟩ := r'
  obtain rfl : o = o' := h.outcome_eq
  cases o with
  | done | exhausted => exact ⟨rfl, h.context⟩
  | failed e =>
    cases he : e.isFatal with
    | true =>
      simp only [conclude, he, if_true]
      exact ⟨trivial, h.context.send _ _⟩
    | false =>
      simp only [conclude, he, Model.failureMessage, hm]
      exact ⟨rfl, h.context.send _ _⟩

/-- Units cannot tell extractors apart that differ in diagnostics alone. -/
theorem finish_twins (unit : TrapUnit) (m : Model) (scope : Scope) (budget : Nat)
    (hd : x.config.maxRecursionDepth = x'.config.maxRecursionDepth)
    (hf : x.assemblyFile? = x'.assemblyFile?) :
    (unit.finish m scope x budget).1 = (unit.finish m scope x' budget).1 ∧
      Twins false (unit.finish m scope x budget).2 (unit.finish m scope x' budget).2 :=
  conclude_twins rfl _ (World.run_near (World.ofModel_discreet m scope).echoes budget
    unit.program_discreet.echoes (.fresh hd hf fun _ => rfl))

theorem scope_congr (unit : TrapUnit) (m : Model) (hf : x.assemblyFile? = x'.assemblyFile?) :
    unit.scope x m = unit.scope x' m := by
  cases unit <;> simp only [scope, assemblyPath, hf]

def result (unit : TrapUnit) (x : Extractor) (m : Model) (budget : Nat) :
    Except Failure Extraction :=
  (unit.extract x m budget).map Prod.fst

/-- What the next unit gets. A unit that has no scope leaves everything as it was. -/
def left (unit : TrapUnit) (x : Extractor) (m : Model) (budget : Nat) : Extractor :=
  ((unit.extract x m budget).map Prod.snd).toOption.getD x

/-- Extract units one after another. -/
def extractEach (m : Model) (budget : Nat) :
    List TrapUnit → Extractor → List (Except Failure Extraction) × Extractor
  | [], x => ([], x)
  | unit :: units, x =>
    let (results, x') := extractEach m budget units (unit.left x m budget)
    (unit.result x m budget :: results, x')

/-- What happens while a unit is extracted. -/
def events (unit : TrapUnit) (x : Extractor) (m : Model) (budget : Nat) : List Event :=
  match unit.scope x m with
  | .error _ => []
  | .ok scope => (unit.finish m scope x budget).2.events

/-- Units that differ in diagnostics alone come to the same. -/
theorem result_eq_of_twins {budget' : Nat} (hs : unit.scope x m = unit.scope x' m')
    (hn : unit.name m = unit.name m')
    (hc : ∀ scope, unit.scope x m = .ok scope →
      (unit.finish m scope x budget).1 = (unit.finish m' scope x' budget').1 ∧
        Twins free (unit.finish m scope x budget).2 (unit.finish m' scope x' budget').2) :
    unit.result x m budget = unit.result x' m' budget' := by
  unfold result extract
  rw [← hs, ← hn]
  cases hscope : unit.scope x m with
  | error => rfl
  | ok scope =>
    obtain ⟨hstatus, hcontext⟩ := hc scope hscope
    have hstats := hcontext.agree Context.stats fun _ => rfl
    have hqueue := hcontext.queue.length_eq
    simp only [Except.map, hstatus, hstats, hqueue, hcontext.trap]

/-- The result of a unit depends on the depth limit and the assembly files alone. -/
theorem result_congr (unit : TrapUnit) (m : Model) (budget : Nat)
    (hd : x.config.maxRecursionDepth = x'.config.maxRecursionDepth)
    (hf : x.assemblyFile? = x'.assemblyFile?) :
    unit.result x m budget = unit.result x' m budget :=
  result_eq_of_twins (unit.scope_congr m hf) rfl fun scope _ =>
    unit.finish_twins m scope budget hd hf

/-- What a unit adds to its extractor does not depend on what was there. -/
theorem left_eq (unit : TrapUnit) (m : Model) (budget : Nat) (hc : y.config = x.config)
    (hf : y.assemblyFile? = x.assemblyFile?) :
    unit.left y m budget = (unit.events x m budget).foldl Event.tally y := by
  unfold left extract events
  rw [unit.scope_congr m hf]
  cases unit.scope x m with
  | error => rfl
  | ok scope =>
    have htally (z : Extractor) : Tallied z (unit.finish m scope z budget).2 :=
      unit.finish_tallied m scope z budget
    have hconfig (z : Extractor) : (unit.finish m scope z budget).2.extractor.config = z.config :=
      htally z ▸ (Extractor.tally_keeps _ z).1
    obtain ⟨-, hcontext⟩ := unit.finish_twins m scope budget
      (congrArg ExtractionConfig.maxRecursionDepth hc) hf
    -- Both extractors have the same settings, so the same is said in both runs.
    have halike : (unit.finish m scope y budget).2.Alike (unit.finish m scope x budget).2 := by
      rw [Context.Alike, hconfig, hconfig, hc]
      exact ⟨rfl, rfl⟩
    have hevents : (unit.finish m scope y budget).2.events =
        (unit.finish m scope x budget).2.events := by
      simp only [Context.events, Context.moments, (hcontext.alike halike).2.1]
    change (unit.finish m scope y budget).2.extractor = _
    rw [htally y, hevents]

/-- Each unit does what it would have done alone, and what they share adds up. -/
theorem extractEach_eq (m : Model) (budget : Nat) (units : List TrapUnit)
    (hc : y.config = x.config) (hf : y.assemblyFile? = x.assemblyFile?) :
    extractEach m budget units y = (units.map (·.result x m budget),
      (units.flatMap (·.events x m budget)).foldl Event.tally y) := by
  induction units generalizing y with
  | nil => rfl
  | cons unit units ih =>
    obtain ⟨hc', hf'⟩ := Extractor.tally_keeps (unit.events x m budget) y
    have hd := congrArg ExtractionConfig.maxRecursionDepth hc
    rw [extractEach, unit.left_eq m budget hc hf, ih (hc'.trans hc) (hf'.trans hf),
      unit.result_congr m budget hd hf, List.flatMap_cons, List.foldl_append, List.map_cons]

/-- What comes out of a unit depends on the recursion depth and the assembly files alone. So units
that share an extractor may be extracted in any order. -/
theorem extract_independent (m : Model) (budget : Nat)
    (hd : x.config.maxRecursionDepth = x'.config.maxRecursionDepth)
    (hf : x.assemblyFile? = x'.assemblyFile?) :
    (∀ unit : TrapUnit, unit.result x m budget = unit.result x' m budget) ∧
      ∀ units units' : List TrapUnit, units.Perm units' →
        (extractEach m budget units x).1 = units.map (·.result x m budget) ∧
        (extractEach m budget units' x).1 = units'.map (·.result x m budget) ∧
        (extractEach m budget units x).2.errors = (extractEach m budget units' x).2.errors ∧
        ∀ name, name ∈ (extractEach m budget units x).2.missingTypes ↔
          name ∈ (extractEach m budget units' x).2.missingTypes := by
  refine ⟨fun unit => unit.result_congr m budget hd hf, fun units units' hp => ?_⟩
  have hevents := hp.flatMap_right (·.events x m budget)
  rw [extractEach_eq m budget units rfl rfl, extractEach_eq m budget units' rfl rfl]
  refine ⟨rfl, rfl, ?_, fun name => ?_⟩
  · simp only [Extractor.errors_tally, hevents.countP_eq]
  · simp only [Extractor.mem_missingTypes_tally, hevents.mem_iff]

section

-- Evaluation compares keys by their literals, not byte by byte.
attribute [local irreducible] String.decEq

/-- An accessor that belongs to nothing, and a type that nobody knows. The accessor is an error to
one extractor and none to the other. -/
theorem extract_independent_accessor :
    let m : Model := {
      trees := [{ path := "a.cs", members := [⟨1⟩] }, { path := "b.cs", members := [⟨2⟩] }]
      symbols := [
        { name := "C", kind := .classType, members := [⟨1⟩] },
        { name := "get_P", kind := .accessor, containingType := some ⟨0⟩,
          locations := [⟨⟨0⟩, 1, 1, 1, 5⟩] },
        { name := "E", kind := .error }] }
    let x : Extractor := {}
    let x' : Extractor := {
      config := { standalone := true, maxErrors := 0, checkLabelCollisions := true }
      errors := 5
      missingTypes := ["Z"] }
    let units : List TrapUnit := [source ⟨0⟩, source ⟨1⟩]
    x.config.maxRecursionDepth = x'.config.maxRecursionDepth ∧
      x.assemblyFile? = x'.assemblyFile? ∧
      (∀ unit : TrapUnit, unit.result x m m.drainBudget = unit.result x' m m.drainBudget) ∧
      (extractEach m m.drainBudget units x).1 = units.map (·.result x m m.drainBudget) ∧
      (extractEach m m.drainBudget units.reverse x).1 =
        units.reverse.map (·.result x m m.drainBudget) ∧
      (extractEach m m.drainBudget units x).2.errors =
        (extractEach m m.drainBudget units.reverse x).2.errors ∧
      (∀ name, name ∈ (extractEach m m.drainBudget units x).2.missingTypes ↔
        name ∈ (extractEach m m.drainBudget units.reverse x).2.missingTypes) ∧
      (extractEach m m.drainBudget units x).2.errors = 1 ∧
      (extractEach m m.drainBudget units x').2.errors = 5 := by
  intro m x x' units
  obtain ⟨hresult, horder⟩ := @extract_independent x x' m m.drainBudget rfl rfl
  obtain ⟨hunits, hreverse, herrors, htypes⟩ := horder units units.reverse units.reverse_perm.symm
  have hstrict : (extractEach m m.drainBudget units x).2.errors = 1 := by cbv
  have hlax : (extractEach m m.drainBudget units x').2.errors = 5 := by cbv
  exact ⟨rfl, rfl, hresult, hunits, hreverse, herrors, htypes, hstrict, hlax⟩

end

end TrapUnit

end TrapFacts
