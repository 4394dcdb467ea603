import Mathlib.Data.List.Induction
import TrapFacts.Proofs.Unit.ContextInvariant

/-! Whoever wants to know of keys that are defined again is told of each, and of nothing else. -/

namespace TrapFacts

variable {m : Model} {scope : Scope} {x : Extractor} {cx cx' : Context} {en : Entity} {slot : Slot}

/-- The entries that stand earlier in the list as well, in order. -/
def repeats (keys : List String) : List String :=
  (keys.zipIdx.filter fun (key, index) => key ∈ keys.take index).map Prod.fst

theorem repeats_concat (keys : List String) (key : String) :
    repeats (keys ++ [key]) = repeats keys ++ if key ∈ keys then [key] else [] := by
  have hbefore : ∀ entry ∈ keys.zipIdx,
      decide (entry.1 ∈ (keys ++ [key]).take entry.2) = decide (entry.1 ∈ keys.take entry.2) := by
    intro entry hentry
    have hlt : entry.2 < keys.length := by
      simpa using (List.mem_zipIdx hentry).2.1
    rw [List.take_append_of_le_length (Nat.le_of_lt hlt)]
  rw [repeats, List.zipIdx_append, List.filter_append, List.map_append, repeats,
    List.filter_congr hbefore]
  by_cases hk : key ∈ keys <;> simp [hk]

/-- Nothing is repeated where no key is defined twice. -/
theorem repeats_eq_nil (keys : List String) : repeats keys = [] ↔ keys.Nodup := by
  induction keys using List.reverseRecOn with
  | nil => simp [repeats]
  | append_singleton keys key ih =>
    rw [repeats_concat, List.append_eq_nil_iff, ih, List.nodup_append]
    refine and_congr_right fun _ => ?_
    have hnew : (∀ a ∈ keys, ∀ b ∈ [key], a ≠ b) ↔ key ∉ keys := by
      simp only [List.mem_singleton, forall_eq]
      exact List.forall_mem_ne'
    rw [hnew]
    simp

/-- The key that a record defines a label for, rendered. -/
def Record.defined? : Record → Option String
  | .define _ key => some key.render
  | _ => none

def collisionWarning (key : String) : Message :=
  .warning ("Label collision for " ++ key)

namespace Context

def definedKeys (cx : Context) : List String :=
  cx.trap.filterMap Record.defined?

def warnings (cx : Context) : List Message :=
  cx.sent.filter fun message => message.severity = .warning

/-- The registry has the keys of the trap, and a warning was sent for each that came again. -/
structure Warned (check : Bool) (cx : Context) : Prop where
  config : cx.extractor.config.checkLabelCollisions = check
  keys : check = true → ∀ key, key ∈ cx.keys ↔ key ∈ cx.definedKeys
  warnings : cx.warnings = if check then (repeats cx.definedKeys).map collisionWarning else []

theorem keys_introduce (cx : Context) (slot : Slot) (en : Entity) :
    (cx.introduce slot en).2.keys =
      if cx.extractor.config.checkLabelCollisions && !cx.keys.contains en.key.render then
        cx.keys.insert en.key.render
      else cx.keys := by
  have hkeys : ∀ cx : Context, ∀ rendered, (cx.register rendered).keys =
      if cx.extractor.config.checkLabelCollisions && !cx.keys.contains rendered then
        cx.keys.insert rendered
      else cx.keys := by
    intro cx rendered
    unfold Context.register
    cases cx.extractor.config.checkLabelCollisions <;> cases cx.keys.contains rendered <;> rfl
  cases slot <;> exact hkeys _ _

theorem definedKeys_introduce (cx : Context) (slot : Slot) (en : Entity) :
    (cx.introduce slot en).2.definedKeys = cx.definedKeys ++ [en.key.render] := by
  rw [definedKeys, trap_introduce, List.filterMap_append, definedKeys]
  rfl

/-- A new entity is warned of if its key was defined before, and warnings are asked for. -/
theorem warnings_introduce (cx : Context) (slot : Slot) (en : Entity) :
    (cx.introduce slot en).2.warnings = cx.warnings ++
      if cx.extractor.config.checkLabelCollisions && cx.keys.contains en.key.render then
        [collisionWarning en.key.render]
      else [] := by
  rw [warnings, sent_eq, events_introduce, List.filterMap_append, List.filterMap_append,
    ← sent_eq, List.filter_append, List.filter_append, ← warnings, collision]
  split <;> simp [Event.message?, collisionWarning, Message.warning]

/-- Events of neither definitions nor warnings. -/
theorem Warned.more {check : Bool} {es : List Event} (h : cx.Warned check)
    (he : cx'.events = cx.events ++ es)
    (hd : ∀ e ∈ es, ∀ record, e.record? = some record → record.defined? = none)
    (hw : ∀ e ∈ es, ∀ message, e.message? = some message → message.severity ≠ .warning)
    (hk : cx'.keys = cx.keys) (hc : cx'.extractor.config = cx.extractor.config) :
    cx'.Warned check := by
  have hdefined : cx'.definedKeys = cx.definedKeys := by
    rw [definedKeys, trap_eq, he, List.filterMap_append, ← trap_eq, List.filterMap_append,
      definedKeys, List.append_right_eq_self, List.filterMap_eq_nil_iff]
    intro record hrecord
    obtain ⟨e, he, hr⟩ := List.mem_filterMap.1 hrecord
    exact hd e he record hr
  have hwarnings : cx'.warnings = cx.warnings := by
    rw [Context.warnings, sent_eq, he, List.filterMap_append, ← sent_eq, List.filter_append,
      Context.warnings, List.append_right_eq_self, List.filter_eq_nil_iff]
    intro message hmessage
    obtain ⟨e, he, hm⟩ := List.mem_filterMap.1 hmessage
    simpa using hw e he message hm
  exact ⟨hc ▸ h.config, by rw [hk, hdefined]; exact h.keys,
    by rw [hwarnings, hdefined]; exact h.warnings⟩

/-- A new entity adds its key, and the warning if there is one, in step. -/
theorem Warned.introduce {check : Bool} (h : cx.Warned check) (hs : cx.same? slot en = none) :
    (cx.introduce slot en).2.Warned check where
  config := (Frame.introduce hs).config ▸ h.config
  keys hcheck key := by
    rw [keys_introduce, definedKeys_introduce, h.config, hcheck, List.mem_append,
      List.mem_singleton, ← h.keys hcheck]
    split
    · rw [Std.HashSet.mem_insert, beq_iff_eq, eq_comm, or_comm]
    · next hknown =>
      have hknown : en.key.render ∈ cx.keys := by simpa using hknown
      refine ⟨.inl, ?_⟩
      rintro (hk | rfl)
      · exact hk
      · exact hknown
  warnings := by
    rw [warnings_introduce, definedKeys_introduce, h.warnings, h.config, repeats_concat]
    cases hcheck : check with
    | false => rfl
    | true =>
      have hknown : cx.keys.contains en.key.render = decide (en.key.render ∈ cx.definedKeys) := by
        rw [Bool.eq_iff_iff, decide_eq_true_iff, ← h.keys hcheck]
        exact Std.HashSet.contains_iff_mem
      rw [hknown]
      by_cases hd : en.key.render ∈ cx.definedKeys <;> simp [hd]

/-- Programs make no definitions themselves, and they warn of nothing. -/
theorem Warned.act {check : Bool} (h : cx.Warned check) (a : Act) :
    (a.perform cx).Warned check := by
  cases a with
  | opens l =>
    have hstill : (cx.openGenerics l).events = cx.events ++ [] := by simp
    exact h.more hstill (by simp) (by simp) rfl rfl
  | states | labels | misses =>
    refine h.more (Context.events_log _ _) ?_ ?_ rfl rfl <;>
      simp [Event.record?, Event.message?, Record.defined?]

/-- What the engine says of itself are errors. -/
theorem Warned.step {check : Bool} (h : cx.Warned check) (hs : cx.Steps cx') :
    cx'.Warned check := by
  obtain ⟨es, he, hplain⟩ := hs.events
  refine h.more he (fun e hm record hr => ?_) (fun e hm message hr => ?_) hs.keys hs.config
  · have hp := hplain e hm
    cases e with
    | wrote =>
      cases hr
      rcases hp with rfl | ⟨key, rfl⟩ <;> rfl
    | _ => cases hr
  · have hp := hplain e hm
    cases e with
    | sent =>
      cases hr
      rw [show message.severity = .error from hp]
      decide
    | _ => cases hr

end Context

/-- Descriptions define no keys and warn of none. -/
theorem warned_descriptionsKeep (m : Model) (scope : Scope) (check : Bool) :
    m.DescriptionsKeep scope (Context.Warned check) := by
  have hengine : m.EngineKeeps (Context.Warned check) :=
    ⟨fun h hs => h.step hs, fun h hs _ => h.introduce hs⟩
  refine { hengine with body := fun hdeeper hcx _ => ?_ }
  refine hengine.body hdeeper hcx ?_ (facts_acts _ _) fun a cx₁ _ _ h => h.act a
  refine hcx.holds.more (Context.events_populating _ _ _) ?_ ?_ rfl rfl <;>
    simp [Event.record?, Event.message?]

/-- The warnings of a unit are about the keys that are defined more than once in its trap: one for
each time that such a key comes again, in order. -/
theorem TrapUnit.finish_collisions (unit : TrapUnit) (m : Model) (scope : Scope) (x : Extractor)
    (budget : Nat) :
    let cx := (unit.finish m scope x budget).2
    cx.warnings = (if x.config.checkLabelCollisions then
      (repeats cx.definedKeys).map collisionWarning else []) ∧
    (cx.warnings = [] ↔ x.config.checkLabelCollisions = false ∨ cx.definedKeys.Nodup) := by
  intro cx
  have hfresh : Context.Warned x.config.checkLabelCollisions { extractor := x } :=
    ⟨rfl, by simp [Context.definedKeys, Context.trap], by
      simp [Context.warnings, Context.sent, Context.definedKeys, Context.trap, repeats]⟩
  have hwarned : cx.Warned x.config.checkLabelCollisions :=
    finish_holds (warned_descriptionsKeep m scope _) unit (fun a _ _ _ h => h.act a) hfresh budget
  refine ⟨hwarned.warnings, ?_⟩
  rw [hwarned.warnings]
  cases x.config.checkLabelCollisions <;> simp [repeats_eq_nil]

end TrapFacts
