import TrapFacts.Proofs.Unit.History
import TrapFacts.Proofs.Unit.Run

/-! Every entity of a unit that was extracted is described exactly once. -/

namespace TrapFacts

variable {m : Model} {owed : List Due} {b : Bool} {cx : Context} {es : List Event} {en : Entity}
  {l : Label} {key : Key}

/-- The relation of a row that describes a label. -/
def Record.row? (l : Label) : Record → Option String
  | .tuple t => if t.subject? = some l then some t.relation else none
  | _ => none

/-- The message of a report on the description of a label. -/
def Event.report? (l : Label) : Event → Option Message
  | .sent message about => if about.map Concern.label = some l then some message else none
  | _ => none

namespace Context

/-- The relations of the rows that describe a label. -/
def rows (cx : Context) (l : Label) : List String :=
  cx.trap.filterMap (·.row? l)

def reports (cx : Context) (l : Label) : List Message :=
  cx.events.filterMap (·.report? l)

end Context

/-- An entity has one row, in the relation of its kind. A type or a method whose first place lies
in a tree that the model lacks has none, and one message tells so. -/
def Settled (m : Model) (cx : Context) (en : Entity) (l : Label) : Prop :=
  match m.strayTree? en with
  | none => ∃ relation, en.relation? = some relation ∧ cx.rows l = [relation]
  | some tree => cx.rows l = [] ∧ cx.reports l = [m.strayReport tree en]

/-- No description waits, and every label that the trap introduces is described once. -/
structure DescribedOnce (m : Model) (cx : Context) : Prop where
  queue : cx.queue = []
  entity : ∀ l key, .define l key ∈ cx.trap →
    ∃ slot en, .created slot ⟨l, en⟩ ∈ cx.events ∧ en.key = key ∧ Settled m cx en l
  fresh : ∀ l, .fresh l ∈ cx.trap → cx.rows l = ["compilations"] ∨ cx.rows l = ["params"]

/-- What the end of a unit promises, by the status that it ends with. -/
def Ends (m : Model) : Status × Context → Prop
  | (.extracted, cx) => DescribedOnce m cx
  | (_, cx) => ∀ l, (cx.rows l).length ≤ 1

def Event.row? (l : Label) (e : Event) : Option String :=
  e.record?.bind (·.row? l)

namespace Context

/-- The rows of a label are those of its history. -/
theorem rows_eq (cx : Context) (l : Label) : cx.rows l = (cx.history l).filterMap (·.row? l) := by
  rw [rows, trap_eq, List.filterMap_filterMap, history, List.filterMap_filter]
  refine List.filterMap_congr fun e _ => ?_
  by_cases hs : e.subject? = some l
  · rw [if_pos (by simpa using hs)]
    rfl
  · rw [if_neg (by simpa using hs)]
    cases e with
    | wrote r =>
      cases r with
      | tuple t => exact if_neg hs
      | _ => rfl
    | _ => rfl

/-- So are the messages about it. -/
theorem reports_eq (cx : Context) (l : Label) :
    cx.reports l = (cx.history l).filterMap (·.report? l) := by
  rw [reports, history, List.filterMap_filter]
  refine List.filterMap_congr fun e _ => ?_
  by_cases hs : e.subject? = some l
  · rw [if_pos (by simpa using hs)]
  · rw [if_neg (by simpa using hs)]
    cases e with
    | sent message about => exact if_neg hs
    | _ => rfl

theorem mem_history_of_trap {r : Record} (h : r ∈ cx.trap) (hs : r.subject? = some l) :
    .wrote r ∈ cx.history l := by
  rw [trap_eq] at h
  obtain ⟨e, he, hr⟩ := List.mem_filterMap.1 h
  cases e with
  | wrote r' =>
    cases hr
    exact mem_history he hs
  | _ => cases hr

end Context

theorem row?_row {relation : String} {args : List Value} (h : relation ∈ describing) :
    (rowEvent relation l args).row? l = some relation := by
  simp [rowEvent, Event.row?, Event.record?, Record.row?, Tuple.subject?, h, Value.label?]

namespace History

theorem rows_fresh {relation : String} {args : List Value} (h : relation ∈ describing) :
    [Event.wrote (.fresh l), rowEvent relation l args].filterMap (·.row? l) = [relation] := by
  rw [List.filterMap_cons_none rfl, List.filterMap_cons_some (row?_row h)]
  rfl

theorem rows_described {slot : Slot} {relation : String} (args : List Value)
    (reports : List Message) (h : relation ∈ describing) :
    (beginning slot en l ++ .populating en l :: rowEvent relation l args ::
      reports.map (.sent · (some (.failure l)))).filterMap (·.row? l) = [relation] := by
  have hreports : (reports.map (Event.sent · (some (.failure l)))).filterMap (·.row? l) = [] := by
    rw [List.filterMap_map, List.filterMap_eq_nil_iff]
    intro _ _
    rfl
  rw [List.filterMap_append, List.filterMap_cons_none rfl,
    List.filterMap_cons_some (row?_row h), hreports]
  rfl

/-- A label has at most one row. -/
theorem rows_le (h : History m l es) : (es.filterMap (·.row? l)).length ≤ 1 := by
  cases h with
  | unknown | begun | givenUp => exact Nat.zero_le _
  | fresh hr =>
    rw [rows_fresh (fresh_describing hr)]
    exact Nat.le_refl _
  | described slot args reports _ hrel =>
    rw [rows_described args reports (Entity.relation_describing hrel)]
    exact Nat.le_refl _

end History

namespace Histories

theorem rows_le (h : Histories m b owed cx) (l : Label) : (cx.rows l).length ≤ 1 := by
  rw [cx.rows_eq]
  exact (h.history l).rows_le

theorem rows_fresh (h : Histories m b owed cx) (hf : .fresh l ∈ cx.trap) :
    cx.rows l = ["compilations"] ∨ cx.rows l = ["params"] := by
  have hm := Context.mem_history_of_trap hf rfl
  have hh := h.history l
  rw [cx.rows_eq]
  generalize cx.history l = es at hh hm
  cases hh with
  | fresh hr =>
    rw [History.rows_fresh (fresh_describing hr)]
    simpa using hr
  | unknown | begun | described | givenUp => simp [beginning, rowEvent] at hm

/-- When nothing waits, there is more to every entity than its introduction. -/
theorem not_begun (h : Histories m false [] cx) (hq : cx.queue = []) (slot : Slot) (en : Entity) :
    cx.history l ≠ beginning slot en l := by
  intro heq
  have howed := h.settled rfl slot en l heq
  simp [Context.dues, hq] at howed

/-- When nothing waits, every entity is settled. -/
theorem settled_entity (h : Histories m false [] cx) (hq : cx.queue = [])
    (hd : .define l key ∈ cx.trap) :
    ∃ slot en, .created slot ⟨l, en⟩ ∈ cx.events ∧ en.key = key ∧ Settled m cx en l := by
  have hm := Context.mem_history_of_trap hd rfl
  have hin : ∀ e ∈ cx.history l, e ∈ cx.events := fun e he => (List.mem_filter.1 he).1
  have hbegun : ∀ slot en, cx.history l ≠ beginning slot en l := h.not_begun hq
  have hh := h.history l
  have hrows := cx.rows_eq l
  have hreports := cx.reports_eq l
  generalize cx.history l = es at hm hin hbegun hh hrows hreports
  cases hh with
  | unknown | fresh => simp [rowEvent] at hm
  | begun slot en => exact absurd rfl (hbegun slot en)
  | @described slot en relation args reports hp hrel =>
    have hkey : key = en.key := by simpa [beginning, rowEvent] using hm
    rw [History.rows_described args reports (Entity.relation_describing hrel)] at hrows
    refine ⟨slot, en, hin _ (by simp [beginning]), hkey.symm, ?_⟩
    rw [Settled, hp]
    exact ⟨relation, hrel, hrows⟩
  | @givenUp slot en tree hp =>
    have hkey : key = en.key := by simpa [beginning] using hm
    refine ⟨slot, en, hin _ (by simp [beginning]), hkey.symm, ?_⟩
    rw [Settled, hp]
    refine ⟨hrows, hreports.trans ?_⟩
    simp [beginning, Event.report?, Concern.label]

/-- With the queue empty, each label has the describing row that it should. -/
theorem describedOnce (h : Histories m false [] cx) (hq : cx.queue = []) : DescribedOnce m cx :=
  ⟨hq, fun _ _ hd => h.settled_entity hq hd, fun _ hf => h.rows_fresh hf⟩

end Histories

/-- However a run is concluded, its end keeps its promise. -/
theorem TrapUnit.ends_conclude (name : String) {r : Reply Unit}
    (ht : Histories m r.outcome.stops [] r.context)
    (hq : r.outcome.stops = false → r.context.queue = []) : Ends m (conclude m name r) := by
  obtain ⟨o, cx⟩ := r
  cases o with
  | done => exact ht.describedOnce (hq rfl)
  | exhausted => exact ht.rows_le
  | failed e =>
    cases he : e.isFatal with
    | true =>
      simp only [conclude, he, if_true]
      exact (ht.send _).rows_le
    | false =>
      simp only [Outcome.stops, he] at ht hq
      simp only [conclude, he]
      exact (ht.send _).describedOnce (hq trivial)

namespace TrapUnit

variable (unit : TrapUnit) (m : Model) (scope : Scope) (x : Extractor) (budget : Nat)

/-- A unit that does not exist does nothing. -/
theorem runIn_missing (h : ¬ unit.Exists m) :
    (unit.runIn m scope x budget).context = { extractor := x } := by
  cases unit with
  | source tree =>
    cases ht : m.tree tree with
    | ok t => exact absurd ⟨t, ht⟩ h
    | error e =>
      have hprogram : (source tree).program m scope = .fail e := by
        simp only [program, root, ht]
        rfl
      unfold runIn World.run
      rw [hprogram]
      generalize x.config.maxRecursionDepth - 0 = room
      cases room <;> rfl
  | assembly | compilation => exact absurd trivial h

/-- Unless something was fatal, nothing waits after a run. -/
theorem runIn_queue (h : (unit.runIn m scope x budget).outcome.stops = false) :
    (unit.runIn m scope x budget).context.queue = [] := by
  have hgoes := runIn_goes unit m scope x budget
  cases ho : (unit.runIn m scope x budget).outcome with
  | done => exact hgoes.result _ ho
  | failed e =>
    rw [ho] at h
    have hmissing : ¬ unit.Exists m := hgoes.failure e ho h
    rw [runIn_missing unit m scope x budget hmissing]
  | exhausted =>
    rw [ho] at h
    cases h

/-- The history of each label is accounted for when a unit ends. -/
theorem runIn_histories :
    Histories m (unit.runIn m scope x budget).outcome.stops []
      (unit.runIn m scope x budget).context :=
  (runIn_goes unit m scope x budget).trail.histories (histories_fresh x)

/-- Every entity is described exactly once, whatever the unit, its scope and its config, if the
unit is extracted; if it is aborted, at most once. -/
theorem finish_described : Ends m (unit.finish m scope x budget) := by
  have ht := runIn_histories unit m scope x budget
  have hq := runIn_queue unit m scope x budget
  exact ends_conclude _ ht hq

end TrapUnit

end TrapFacts
