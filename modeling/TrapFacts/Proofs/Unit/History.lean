import Mathlib.Data.List.Perm.Basic
import TrapFacts.Proofs.Unit.Labels

/-! Each label has a history: it is introduced, and what it stands for is described once. -/

namespace TrapFacts

variable {m : Model} {scope : Scope} {o owed owed' : List Due} {b : Bool} {cx cx' : Context}
  {e : Event} {es : List Event} {slot : Slot} {en : Entity} {l l' : Label} {relation : String}
  {args : List Value} {message : Message}

/-- The label that a fact describes. -/
def Tuple.subject? (t : Tuple) : Option Label :=
  if t.relation ∈ describing then t.args.head?.bind Value.label? else none

def Record.subject? : Record → Option Label
  | .define l _ => some l
  | .fresh l => some l
  | .tuple t => t.subject?
  | _ => none

/-- The label that an event introduces, describes or reports on. -/
def Event.subject? : Event → Option Label
  | .wrote r => r.subject?
  | .sent _ about => about.map Concern.label
  | .created _ c => some c.label
  | .populating _ l => some l
  | _ => none

/-- What happened to a label. -/
def Context.history (cx : Context) (l : Label) : List Event :=
  cx.events.filter (·.subject? = some l)

/-- The row that describes a label. -/
def rowEvent (relation : String) (l : Label) (args : List Value) : Event :=
  .wrote (.tuple ⟨relation, .label l :: args⟩)

/-- How the history of an entity's label begins. -/
def beginning (slot : Slot) (en : Entity) (l : Label) : List Event :=
  [.wrote (.define l en.key), .created slot ⟨l, en⟩]

/-- The report that an entity has no place, because the model lacks the tree of its place. -/
def Model.strayReport (m : Model) (tree : TreeId) (en : Entity) : Message :=
  m.attributed en.symbol?
    { Message.error "Uncaught exception" with cause := some ("unknown " ++ tree.text) }

/-- The histories that a label may have. -/
inductive History (m : Model) (l : Label) : List Event → Prop
  | unknown : History m l []
  | fresh {relation : String} {args : List Value} : relation = "compilations" ∨
      relation = "params" → History m l [.wrote (.fresh l), rowEvent relation l args]
  | begun (slot : Slot) (en : Entity) : History m l (beginning slot en l)
  | described (slot : Slot) {en : Entity} {relation : String} (args : List Value)
      (reports : List Message) :
      m.strayTree? en = none → en.relation? = some relation →
      History m l (beginning slot en l ++ .populating en l :: rowEvent relation l args ::
        reports.map (.sent · (some (.failure l))))
  | givenUp (slot : Slot) {en : Entity} {tree : TreeId} : m.strayTree? en = some tree →
      History m l (beginning slot en l ++ [.sent (m.strayReport tree en) (some (.failure l))])

/-- How a history begins tells the entity. -/
theorem beginning_inj {slot' : Slot} {en' : Entity}
    (h : beginning slot en l = beginning slot' en' l) : slot = slot' ∧ en = en' := by
  simp only [beginning, List.cons.injEq, Event.created.injEq, Created.mk.injEq] at h
  exact ⟨h.2.1.1, h.2.1.2.2⟩

theorem subject?_row (h : relation ∈ describing) :
    (rowEvent relation l args).subject? = some l := by
  simp [rowEvent, Event.subject?, Record.subject?, Tuple.subject?, h, Value.label?]

theorem Entity.relation_describing (h : en.relation? = some relation) : relation ∈ describing := by
  cases en <;> simp_all [Entity.relation?, describing]

theorem fresh_describing (h : relation = "compilations" ∨ relation = "params") :
    relation ∈ describing := by
  rcases h with rfl | rfl <;> simp [describing]

namespace Context

theorem history_append (he : cx'.events = cx.events ++ es) :
    cx'.history l = cx.history l ++ es.filter (·.subject? = some l) := by
  simp [history, he]

/-- Events about one label leave the histories of others alone. -/
theorem history_other (he : cx'.events = cx.events ++ es)
    (hes : ∀ e ∈ es, ∀ l', e.subject? = some l' → l' = l) (hne : l' ≠ l) :
    cx'.history l' = cx.history l' := by
  have hnone : es.filter (·.subject? = some l') = [] := by
    rw [List.filter_eq_nil_iff]
    intro e hm hs
    exact hne (hes e hm l' (by simpa using hs))
  rw [history_append he, hnone, List.append_nil]

/-- All events about a label go down in its history. -/
theorem history_same (he : cx'.events = cx.events ++ es) (hes : ∀ e ∈ es, e.subject? = some l) :
    cx'.history l = cx.history l ++ es := by
  rw [history_append he, List.filter_eq_self.2 fun e hm => by simpa using hes e hm]

theorem filter_subject_none (h : ∀ e ∈ es, e.subject? = none) :
    es.filter (·.subject? = some l) = [] := by
  rw [List.filter_eq_nil_iff]
  intro e hm
  simp [h e hm]

theorem subject?_collision (t : String) : ∀ e ∈ cx.collision t, e.subject? = none := by
  intro e he
  obtain ⟨message, rfl⟩ := cx.sent_of_mem_collision e he
  rfl

theorem events_beginning (cx : Context) (slot : Slot) (en : Entity) :
    (cx.introduce slot en).2.events =
      cx.events ++ (cx.collision en.key.render ++ beginning slot en cx.nextLabel) := by
  simp [beginning]

/-- A new entity's label has just begun. -/
theorem history_introduce (cx : Context) (slot : Slot) (en : Entity) :
    (cx.introduce slot en).2.history cx.nextLabel =
      cx.history cx.nextLabel ++ beginning slot en cx.nextLabel := by
  rw [history_append (cx.events_beginning slot en), List.filter_append,
    filter_subject_none (subject?_collision _)]
  simp [beginning, Event.subject?, Record.subject?]

/-- A new entity has no part in the history of others. -/
theorem history_introduce_other (cx : Context) (h : l ≠ cx.nextLabel) :
    (cx.introduce slot en).2.history l = cx.history l := by
  refine history_other (cx.events_beginning slot en) (fun e hm l' hs => ?_) h
  rcases List.mem_append.1 hm with hm | hm
  · rw [subject?_collision _ e hm] at hs
    cases hs
  · have hbeginning : e.subject? = some cx.nextLabel := by
      simp only [beginning, List.mem_cons, List.not_mem_nil, or_false] at hm
      rcases hm with rfl | rfl <;> rfl
    exact Option.some.inj (hs.symm.trans hbeginning)

theorem mem_history (h : e ∈ cx.events) (hs : e.subject? = some l) : e ∈ cx.history l :=
  List.mem_filter.2 ⟨h, by simpa using hs⟩

end Context

/-- Each label has a history, and those that have only begun are owed a description each. If some
descriptions were dropped, not all of them are. -/
structure Histories (m : Model) (dropped : Bool) (owed : List Due) (cx : Context) : Prop where
  history : ∀ l, History m l (cx.history l)
  ahead : ∀ l, cx.labels < l.number → cx.history l = []
  once : ((owed ++ cx.dues).map Prod.snd).Nodup
  begun : ∀ en l, (en, l) ∈ owed ++ cx.dues → ∃ slot, cx.history l = beginning slot en l
  settled : dropped = false → ∀ slot en l, cx.history l = beginning slot en l →
    (en, l) ∈ owed ++ cx.dues

theorem histories_fresh (x : Extractor) : Histories m false [] { extractor := x } where
  history _ := .unknown
  ahead _ _ := rfl
  once := .nil
  begun := by simp [Context.dues]
  settled _ slot en l h := by cases h

namespace Histories

/-- Events that have no subject. -/
theorem quiet (h : Histories m b owed cx) (he : cx'.events = cx.events ++ es)
    (hes : ∀ e ∈ es, e.subject? = none) (hl : cx.labels ≤ cx'.labels)
    (hd : (owed' ++ cx'.dues).Perm (owed ++ cx.dues)) : Histories m b owed' cx' := by
  have hsame : cx'.history = cx.history := by
    funext l
    rw [Context.history_append he, Context.filter_subject_none hes, List.append_nil]
  refine ⟨hsame ▸ h.history, fun l hn => ?_, (hd.map _).nodup_iff.2 h.once, ?_, ?_⟩
  · rw [hsame]
    exact h.ahead l (Nat.lt_of_le_of_lt hl hn)
  · intro en l hm
    rw [hsame]
    exact h.begun en l (hd.mem_iff.1 hm)
  · intro hb slot en l hh
    rw [hsame] at hh
    exact hd.mem_iff.2 (h.settled hb slot en l hh)

theorem event (h : Histories m b owed cx) (he : cx'.events = cx.events ++ [e])
    (hs : e.subject? = none) (hl : cx'.labels = cx.labels) (hd : cx'.dues = cx.dues) :
    Histories m b owed cx' := by
  refine h.quiet he ?_ (Nat.le_of_eq hl.symm) (.of_eq (by rw [hd]))
  intro e' hm
  rw [List.mem_singleton.1 hm, hs]

/-- A change of what no event tells of. -/
theorem still (h : Histories m b owed cx) (he : cx'.events = cx.events)
    (hl : cx'.labels = cx.labels) (hd : cx'.dues = cx.dues) : Histories m b owed cx' := by
  have hnil : cx'.events = cx.events ++ [] := by rw [he, List.append_nil]
  exact h.quiet hnil (by simp) (Nat.le_of_eq hl.symm) (.of_eq (by rw [hd]))

theorem log (h : Histories m b owed cx) (hs : e.subject? = none) : Histories m b owed (cx.log e) :=
  h.event (cx.events_log e) hs rfl rfl

theorem send (h : Histories m b owed cx) (message : Message) : Histories m b owed
    (cx.send message none) :=
  h.event (cx.events_send message none) rfl rfl rfl

theorem openGuard (h : Histories m b owed cx) (key : Key) : Histories m b owed (cx.openGuard key) :=
  h.event (cx.events_openGuard key) rfl rfl rfl

theorem closeGuard (h : Histories m b owed cx) : Histories m b owed cx.closeGuard :=
  h.event cx.events_closeGuard rfl rfl rfl

/-- What is owed may be dropped. -/
theorem drop (h : Histories m b (o ++ owed) cx) : Histories m true owed cx where
  history := h.history
  ahead := h.ahead
  once := by
    have hsub : (owed ++ cx.dues).Sublist (o ++ owed ++ cx.dues) := by
      rw [List.append_assoc]
      exact List.sublist_append_right o _
    exact h.once.sublist (hsub.map _)
  begun en l hm := h.begun en l (by
    rw [List.append_assoc]
    exact List.mem_append_right o hm)
  settled := by rintro ⟨⟩

theorem take {a : Pending} {rest : List Pending} (h : Histories m b owed cx)
    (hq : cx.queue = a :: rest) : Histories m b (a.work.dues ++ owed) (cx.take a rest) := by
  have hdues : cx.dues = a.work.dues ++ (cx.take a rest).dues := by
    simp [Context.dues, hq, Context.take, Context.log]
  refine h.quiet (cx.events_take a rest) (by simp [Event.subject?]) (Nat.le_refl _) ?_
  rw [hdues, List.append_assoc, ← List.append_assoc owed]
  exact List.perm_append_comm_assoc _ _ _ |>.trans (.of_eq (by simp))

theorem deferred {body : Prog Unit} (h : Histories m b ((en, l) :: owed) cx) :
    Histories m b owed (cx.enqueue (.population en l body)) := by
  have hdues : (cx.enqueue (.population en l body)).dues = cx.dues ++ [(en, l)] := by
    simp [Context.dues, Context.enqueue, Context.log, Work.dues]
  refine h.quiet (cx.events_enqueue _) (by simp [Event.subject?]) (Nat.le_refl _) ?_
  rw [hdues, ← List.append_assoc]
  exact List.perm_append_singleton _ _

/-- Events about one label, which is not owed a description any more, or never was. -/
theorem turn (h : Histories m b owed cx) (he : cx'.events = cx.events ++ es)
    (hes : ∀ e ∈ es, e.subject? = some l) (hl : cx.labels ≤ cx'.labels)
    (hb : l.number ≤ cx'.labels) (hh : History m l (cx.history l ++ es))
    (hn : ∀ slot en, cx.history l ++ es ≠ beginning slot en l)
    (hsub : (owed' ++ cx'.dues).Sublist (owed ++ cx.dues))
    (hd : ∀ d, d ∈ owed' ++ cx'.dues ↔ d ∈ owed ++ cx.dues ∧ d.2 ≠ l) :
    Histories m b owed' cx' := by
  have hsame : cx'.history l = cx.history l ++ es := Context.history_same he hes
  have hother : ∀ l', l' ≠ l → cx'.history l' = cx.history l' := fun l' hne =>
    Context.history_other he (fun e hm l'' hs => Option.some.inj (hs.symm.trans (hes e hm))) hne
  refine ⟨fun l' => ?_, fun l' hl' => ?_, h.once.sublist (hsub.map _), fun en l' hm => ?_, ?_⟩
  · by_cases hne : l' = l
    · rw [hne, hsame]
      exact hh
    · rw [hother l' hne]
      exact h.history l'
  · have hne : l' ≠ l := by
      rintro rfl
      omega
    rw [hother l' hne]
    exact h.ahead l' (by omega)
  · obtain ⟨hm, hne⟩ := (hd _).1 hm
    rw [hother l' hne]
    exact h.begun en l' hm
  · intro hf slot en l' hb'
    by_cases hne : l' = l
    · rw [hne, hsame] at hb'
      exact absurd hb' (hn slot en)
    · rw [hother l' hne] at hb'
      exact (hd _).2 ⟨h.settled hf slot en l' hb', hne⟩

/-- Only labels whose histories have just begun are owed descriptions. -/
theorem not_owed (h : Histories m b owed cx) (hl : ∀ slot en, cx.history l ≠ beginning slot en l) :
    ∀ d ∈ owed ++ cx.dues, d.2 ≠ l := by
  rintro ⟨en, l'⟩ hm rfl
  obtain ⟨slot, hh⟩ := h.begun en l' hm
  exact hl slot en hh

theorem history_next (h : Histories m b owed cx) : cx.history cx.nextLabel = [] :=
  h.ahead _ (Nat.lt_succ_self _)

theorem fresh (h : Histories m b owed cx) (hr : relation = "compilations" ∨ relation = "params") :
    Histories m b owed ((cx.allocate.write (.fresh cx.nextLabel)).write
      (.tuple ⟨relation, .label cx.nextLabel :: args⟩)) := by
  have hnone := h.history_next
  have hes : ∀ e ∈ [Event.wrote (.fresh cx.nextLabel), rowEvent relation cx.nextLabel args],
      e.subject? = some cx.nextLabel := by
    simp only [List.forall_mem_cons, List.not_mem_nil, false_imp_iff, implies_true, and_true]
    exact ⟨rfl, subject?_row (fresh_describing hr)⟩
  refine h.turn (by simp [rowEvent]) hes (Nat.le_succ _) (Nat.le_refl _) ?_ ?_ (.refl _) ?_
  · rw [hnone]
    exact .fresh hr
  · rw [hnone]
    intro slot en hh
    cases hh
  · intro d
    refine ⟨fun hm => ⟨hm, h.not_owed ?_ d hm⟩, And.left⟩
    rw [hnone]
    intro slot en hh
    cases hh

/-- The history of a new label begins with its definition. -/
theorem introduce (h : Histories m b owed cx) (hp : en.needsPopulation = true) :
    Histories m b ((cx.introduce slot en).1.dues ++ owed) (cx.introduce slot en).2 := by
  have hdues : (cx.introduce slot en).1.dues ++ owed ++ (cx.introduce slot en).2.dues =
      (en, cx.nextLabel) :: (owed ++ cx.dues) := by
    have hown : (cx.introduce slot en).1.dues = [(en, cx.nextLabel)] := if_pos hp
    rw [hown, Context.dues, Context.queue_introduce]
    rfl
  have hnext := cx.history_introduce slot en
  rw [h.history_next, List.nil_append] at hnext
  have hfresh : ∀ d ∈ owed ++ cx.dues, d.2 ≠ cx.nextLabel := by
    refine h.not_owed fun slot en hh => ?_
    rw [h.history_next] at hh
    cases hh
  refine ⟨fun l => ?_, fun l hl => ?_, ?_, fun en' l hm => ?_, fun hf slot' en' l hh => ?_⟩
  · by_cases hne : l = cx.nextLabel
    · rw [hne, hnext]
      exact .begun slot en
    · rw [cx.history_introduce_other hne]
      exact h.history l
  · rw [Context.labels_introduce] at hl
    have hne : l ≠ cx.nextLabel := by
      rintro rfl
      exact absurd hl (Nat.lt_irrefl _)
    rw [cx.history_introduce_other hne]
    exact h.ahead l (by omega)
  · rw [hdues]
    refine List.nodup_cons.2 ⟨fun hm => ?_, h.once⟩
    obtain ⟨d, hd, hl⟩ := List.mem_map.1 hm
    exact hfresh d hd hl
  · rw [hdues] at hm
    rcases List.mem_cons.1 hm with hm | hm
    · cases hm
      exact ⟨slot, hnext⟩
    · rw [cx.history_introduce_other (hfresh _ hm)]
      exact h.begun en' l hm
  · rw [hdues]
    by_cases hne : l = cx.nextLabel
    · rw [hne, hnext] at hh
      obtain ⟨-, rfl⟩ := beginning_inj hh
      exact hne ▸ List.mem_cons_self
    · rw [cx.history_introduce_other hne] at hh
      exact List.mem_cons_of_mem _ (h.settled hf slot' en' l hh)

/-- A label that is owed its description gets on. -/
theorem spend (h : Histories m b ((en, l) :: owed) cx) (he : cx'.events = cx.events ++ es)
    (hes : ∀ e ∈ es, e.subject? = some l) (hl : cx'.labels = cx.labels) (hd : cx'.dues = cx.dues)
    (hn : es ≠ []) (hh : ∀ slot, History m l (beginning slot en l ++ es)) :
    Histories m b owed cx' := by
  obtain ⟨slot, hbegun⟩ := h.begun en l List.mem_cons_self
  have honce := h.once
  simp only [List.cons_append, List.map_cons, List.nodup_cons] at honce
  have hbound : l.number ≤ cx.labels := by
    by_contra hlt
    rw [h.ahead l (Nat.lt_of_not_le hlt)] at hbegun
    cases hbegun
  refine h.turn he hes (Nat.le_of_eq hl.symm) (hl ▸ hbound) (hbegun ▸ hh slot) ?_ ?_ ?_
  · intro slot' en' heq
    have hlength := congrArg List.length heq
    rw [hbegun, List.length_append] at hlength
    exact hn (List.length_eq_zero_iff.1 (Nat.add_left_cancel hlength))
  · rw [hd]
    exact List.sublist_cons_self _ _
  · intro d
    rw [hd, List.cons_append, List.mem_cons]
    refine ⟨fun hm => ⟨.inr hm, fun heq => ?_⟩, fun ⟨hm, hne⟩ => ?_⟩
    · exact honce.1 (heq ▸ List.mem_map_of_mem hm)
    · rcases hm with rfl | hm
      · exact absurd rfl hne
      · exact hm

/-- A description adds its first row to the history of its own label. -/
theorem describe (h : Histories m b ((en, l) :: owed) cx) (hp : m.strayTree? en = none)
    (ho : Opening en l (cx.populating en l) cx') : Histories m b owed cx' := by
  obtain ⟨relation, args, hrel, _, rfl⟩ := ho
  have hes : ∀ e ∈ [Event.populating en l, rowEvent relation l args], e.subject? = some l := by
    simp only [List.forall_mem_cons, List.not_mem_nil, false_imp_iff, implies_true, and_true]
    exact ⟨rfl, subject?_row (Entity.relation_describing hrel)⟩
  refine h.spend (by simp [rowEvent]) hes rfl rfl (List.cons_ne_nil _ _) fun slot => ?_
  exact .described slot args [] hp hrel

/-- Where the tree of an entity is missing, the history has a report in place of a description. -/
theorem excused {tree : TreeId} (h : Histories m b ((en, l) :: owed) cx)
    (hp : m.strayTree? en = some tree) :
    Histories m b owed (cx.send (m.strayReport tree en) (some (.failure l))) := by
  refine h.spend (cx.events_send _ _) (by simp [Event.subject?, Concern.label]) rfl rfl
    (List.cons_ne_nil _ _) ?_
  exact fun slot => .givenUp slot hp

/-- What goes wrong in a description is reported after its row. -/
theorem reported (h : Histories m b owed cx) (hp : .populating en l ∈ cx.events) :
    Histories m b owed (cx.send message (some (.failure l))) := by
  have hm : .populating en l ∈ cx.history l := Context.mem_history hp rfl
  have hn : ∀ slot en', cx.history l ≠ beginning slot en' l := by
    intro slot en' heq
    rw [heq] at hm
    simp [beginning] at hm
  have hbound : l.number ≤ cx.labels := by
    by_contra hlt
    rw [h.ahead l (Nat.lt_of_not_le hlt)] at hm
    cases hm
  refine h.turn (cx.events_send _ _) (by simp [Event.subject?, Concern.label]) (Nat.le_refl _)
    hbound ?_ ?_
    (.refl _) fun d => ⟨fun hd => ⟨hd, h.not_owed hn d hd⟩, And.left⟩
  · have hh := h.history l
    generalize cx.history l = es at hh hm
    cases hh with
    | described slot args reports hp hrel =>
      simpa using History.described slot args (reports ++ [message]) hp hrel
    | unknown | fresh | begun | givenUp => simp [beginning, rowEvent] at hm
  · intro slot en' heq
    have hsent : Event.populating en l ∈ beginning slot en' l :=
      heq ▸ List.mem_append_left _ hm
    simp [beginning] at hsent

/-- What a program does on its own account begins no history. -/
theorem ownStep (h : Histories m b owed cx) (ht : OwnStep cx cx') : Histories m b owed cx' := by
  cases ht with
  | fact hr =>
    exact h.event (cx.events_write _)
      (by simp [Event.subject?, Record.subject?, Tuple.subject?, hr]) rfl rfl
  | fresh hr => exact h.fresh hr
  | missingType => exact h.event (cx.events_missingType _) rfl rfl rfl
  | openGenerics l =>
    exact h.still (cx.events_openGenerics l) rfl rfl

end Histories

theorem Model.Fits.needsPopulation (h : m.Fits en) : en.needsPopulation = true := by
  cases en with
  | custom => cases h
  | _ => rfl

theorem Model.Fits.behavior (h : m.Fits en) : en.behavior ≠ .needsScope := by
  cases en with
  | custom => cases h
  | _ => simp [Entity.behavior]

theorem Model.strayReport_eq (m : Model) (tree : TreeId) (en : Entity) :
    m.failureMessage (.unknownTree tree) none en.symbol? = m.strayReport tree en := by
  change m.attributed (en.symbol?.or none) _ = _
  rw [Option.or_none]
  rfl

/-- The trails of a unit describe each label once, unless they drop what is owed. -/
theorem Trail.histories (h : Trail (.ofModel m scope) (.ofModel m scope) o b cx cx')
    (ht : Histories m false (o ++ owed) cx) : Histories m b owed cx' := by
  induction h generalizing owed with
  | refl => exact ht
  | trans _ _ ih ih' => exact ih' (ih (by rwa [List.append_assoc] at ht))
  | stop _ _ ih => exact (ih ht).drop
  | caught hc => exact hc.elim
  | deed h => exact ht.ownStep h
  | sent => exact ht.send _
  | limit => exact (ht.log rfl).drop
  | served => exact ht.log rfl
  | guarded _ hg => exact hg.elim
  | nested _ _ _ ih =>
    have hinner := ih (ht.event (Context.events_enter _ _) rfl rfl rfl)
    exact hinner.still (Context.events_leave _) rfl rfl
  | introduced _ he _ ih => exact ih (ht.introduce he.1.needsPopulation)
  | complaint _ hbody hneeds => exact absurd hneeds hbody.1.behavior
  | deferred => exact ht.deferred
  | described _ hplace hopen _ _ ih => exact ih (ht.describe hplace hopen)
  | describedGuarded _ _ hplace _ _ hopen _ _ ih =>
    exact (ih ((ht.openGuard _).describe hplace hopen)).closeGuard
  | excused he =>
    obtain ⟨tree, hp, rfl⟩ := he
    rw [Model.strayReport_eq]
    exact ht.excused hp
  | reported _ hp => exact ht.reported hp
  | taken hq _ ih => exact ih ((ht.take hq).log rfl)
  | takenGuarded _ _ hg => exact hg.elim

end TrapFacts
