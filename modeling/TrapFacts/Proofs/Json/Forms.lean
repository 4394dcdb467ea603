import Mathlib.Data.List.Forall2
import TrapFacts.Json.Schema

/-! Writing a record as an object: its fields in any order, some left out, others added. -/

namespace TrapFacts.Json

/-- A field as it may be written: the forms of its value, and whether it may be left out. -/
structure Field where
  name : String
  form : Json → Prop
  omissible : Prop := False

namespace Field

/-- What a reader finds at the field's name. -/
def Takes (f : Field) : Option Json → Prop
  | some v => f.form v
  | none => f.omissible

end Field

/-- The fields of an object that writes a record down: the record's own in their order, each once
or left out, and between them others under names that are not `known`, with values that are `ok`. -/
inductive Written (ok : Json → Prop) (known : List String) :
    List Field → List (Option String × Json) → Prop where
  | done : Written ok known [] []
  | field {f fs v fields} (hform : f.form v) (h : Written ok known fs fields) :
      Written ok known (f :: fs) ((some f.name, v) :: fields)
  | omitted {f fs fields} (homit : f.omissible) (h : Written ok known fs fields) :
      Written ok known (f :: fs) fields
  | extra {name fs v fields} (hname : name ∉ known) (hok : ok v) (h : Written ok known fs fields) :
      Written ok known fs ((some name, v) :: fields)

/-- An object that writes a record down, its fields in any order. -/
def Writes (ok : Json → Prop) (record : List Field) : Json → Prop
  | .object fields => ∃ ordered, fields.Perm ordered ∧
      Written ok (record.map Field.name) record ordered
  | _ => False

variable {α : Type} {ok : Json → Prop} {known : List String} {name : String} {f : Field}
  {fs : List Field} {fields : List (Option String × Json)} {slot : Option Json}

namespace Written

/-- Every name is a text, and a name that the record does not know has a value that is `ok`. -/
theorem names (h : Written ok known fs fields) (hknown : ∀ f ∈ fs, f.name ∈ known) :
    ∀ entry ∈ fields, ∃ name, entry.1 = some name ∧ (name ∈ known ∨ ok entry.2) := by
  induction h with
  | done => simp
  | @field f fs v fields _ _ ih =>
    intro entry hentry
    rcases List.mem_cons.mp hentry with rfl | hentry
    · exact ⟨f.name, rfl, .inl (hknown f List.mem_cons_self)⟩
    · exact ih (fun g hg => hknown g (List.mem_cons_of_mem f hg)) entry hentry
  | omitted _ _ ih => exact ih fun g hg => hknown g (List.mem_cons_of_mem _ hg)
  | @extra name fs v fields _ hok _ ih =>
    intro entry hentry
    rcases List.mem_cons.mp hentry with rfl | hentry
    · exact ⟨name, rfl, .inr hok⟩
    · exact ih hknown entry hentry

theorem valuesOf_other (h : Written ok known fs fields) (hname : name ∈ known)
    (hother : name ∉ fs.map Field.name) : valuesOf name fields = [] := by
  induction h with
  | done => rfl
  | @field f fs v fields _ _ ih =>
    rw [List.map_cons, List.mem_cons, not_or] at hother
    have hrest := ih hother.2
    simpa [valuesOf, Ne.symm hother.1] using hrest
  | omitted _ _ ih =>
    rw [List.map_cons, List.mem_cons, not_or] at hother
    exact ih hother.2
  | @extra added fs v fields hadded _ _ ih =>
    have hne : added ≠ name := by
      rintro rfl
      exact hadded hname
    have hrest := ih hother
    simpa [valuesOf, hne] using hrest

/-- A field's name is given once or not at all. -/
theorem valuesOf_field (h : Written ok known fs fields) (hknown : ∀ f ∈ fs, f.name ∈ known)
    (hnodup : (fs.map Field.name).Nodup) (hf : f ∈ fs) :
    ∃ slot : Option Json, f.Takes slot ∧ valuesOf f.name fields = slot.toList := by
  induction h with
  | done => cases hf
  | @field g fs v fields hform h ih =>
    rw [List.map_cons, List.nodup_cons] at hnodup
    rcases List.mem_cons.mp hf with rfl | hf
    · refine ⟨some v, hform, ?_⟩
      have hrest := h.valuesOf_other (hknown f List.mem_cons_self) hnodup.1
      simpa [valuesOf] using hrest
    · have hne : g.name ≠ f.name := by
        intro heq
        exact hnodup.1 (heq ▸ List.mem_map_of_mem hf)
      obtain ⟨slot, htakes, hvalues⟩ :=
        ih (fun k hk => hknown k (List.mem_cons_of_mem g hk)) hnodup.2 hf
      exact ⟨slot, htakes, by simpa [valuesOf, hne] using hvalues⟩
  | @omitted g fs fields homit h ih =>
    rw [List.map_cons, List.nodup_cons] at hnodup
    rcases List.mem_cons.mp hf with rfl | hf
    · exact ⟨none, homit, h.valuesOf_other (hknown f List.mem_cons_self) hnodup.1⟩
    · exact ih (fun k hk => hknown k (List.mem_cons_of_mem g hk)) hnodup.2 hf
  | @extra added fs v fields hadded _ _ ih =>
    obtain ⟨slot, htakes, hvalues⟩ := ih hknown hnodup hf
    have hne : added ≠ f.name := by
      rintro rfl
      exact hadded (hknown f hf)
    exact ⟨slot, htakes, by simpa [valuesOf, hne] using hvalues⟩

end Written

/-- The order of the fields does not matter where a name is given at most once. -/
theorem slot?_of_perm {ordered : List (Option String × Json)} (hperm : fields.Perm ordered)
    (h : valuesOf name ordered = slot.toList) : slot? fields name = some slot := by
  have hvalues : (valuesOf name fields).Perm slot.toList := by
    rw [← h]
    exact (hperm.filter _).map _
  cases slot with
  | none => rw [slot?, List.perm_nil.mp hvalues]
  | some v => rw [slot?, List.perm_singleton.mp hvalues]

/-- What a reader of the record's object finds. -/
structure Found (ok : Json → Prop) (record : List Field) (fields : List (Option String × Json)) :
    Prop where
  names : ∀ entry ∈ fields, ∃ name, entry.1 = some name ∧
    (name ∈ record.map Field.name ∨ ok entry.2)
  slots : ∀ f ∈ record, ∃ slot, slot? fields f.name = some slot ∧ f.Takes slot

/-- In an object that writes distinct fields, each of them is found. -/
theorem Writes.found {j : Json} (h : Writes ok fs j) (hnodup : (fs.map Field.name).Nodup) :
    ∃ fields, j = .object fields ∧ Found ok fs fields := by
  cases j with
  | object fields =>
    obtain ⟨ordered, hperm, hwritten⟩ := h
    have hknown : ∀ f ∈ fs, f.name ∈ fs.map Field.name := fun f => List.mem_map_of_mem
    refine ⟨fields, rfl, fun entry hentry => ?_, fun f hf => ?_⟩
    · exact hwritten.names hknown entry (hperm.subset hentry)
    · obtain ⟨slot, htakes, hvalues⟩ := hwritten.valuesOf_field hknown hnodup hf
      exact ⟨slot, slot?_of_perm hperm hvalues, htakes⟩
  | _ => cases h

/-- A record is read from every object that writes it down. -/
theorem record?_of_writes {j : Json} (h : Writes ok fs j) (hnodup : (fs.map Field.name).Nodup) :
    ∃ slots, record? (fs.map Field.name) j = some slots ∧ List.Forall₂ Field.Takes fs slots := by
  obtain ⟨fields, rfl, hfound⟩ := h.found hnodup
  have hnames : fields.all (·.1.isSome) = true := by
    rw [List.all_eq_true]
    intro entry hentry
    obtain ⟨name, hname, -⟩ := hfound.names entry hentry
    simp [hname]
  -- By induction on a part of the record, as each field is looked up in the whole object.
  have hslots : ∀ gs : List Field, (∀ f ∈ gs, f ∈ fs) →
      ∃ slots, (gs.map Field.name).mapM (slot? fields) = some slots ∧
        List.Forall₂ Field.Takes gs slots := by
    intro gs hgs
    induction gs with
    | nil => exact ⟨[], rfl, .nil⟩
    | cons g gs ih =>
      obtain ⟨slot, hslot, htakes⟩ := hfound.slots g (hgs g List.mem_cons_self)
      obtain ⟨slots, hrest, hall⟩ := ih fun f hf => hgs f (List.mem_cons_of_mem g hf)
      exact ⟨slot :: slots, by simp [hslot, hrest], .cons htakes hall⟩
  simpa [record?, hnames] using hslots fs fun f hf => hf

/-- The object with every field written out, and no other. -/
theorem writes_ofFields (values : List (Field × Json)) (h : ∀ f ∈ values, f.1.form f.2) :
    Writes ok (values.map (·.1)) (ofFields (values.map fun f => (f.1.name, f.2))) := by
  refine ⟨_, .refl _, ?_⟩
  generalize (values.map (·.1)).map Field.name = known
  induction values with
  | nil => exact .done
  | cons f values ih =>
    exact .field (h f List.mem_cons_self) (ih fun g hg => h g (List.mem_cons_of_mem f hg))

/-! The values of fields -/

/-- The one form that a writer gives a value. -/
def Exactly (encode : α → Json) (a : α) (v : Json) : Prop :=
  v = encode a

/-- The forms of an optional value: none is written as null. -/
def WritesOption (spells : α → Json → Prop) : Option α → Json → Prop
  | none, v => v = .null
  | some a, v => spells a v

/-- The forms of a list: those of its items, in order. -/
def WritesList (spells : α → Json → Prop) (as : List α) : Json → Prop
  | .array items => List.Forall₂ spells as items
  | _ => False

namespace Field

def required (name : String) (spells : α → Json → Prop) (a : α) : Field where
  name
  form := spells a

def defaulted (name : String) (spells : α → Json → Prop) (fallback a : α) : Field where
  name
  form := spells a
  omissible := a = fallback

def optional (name : String) (spells : α → Json → Prop) (a : Option α) : Field :=
  .defaulted name (WritesOption spells) none a

def list (name : String) (spells : α → Json → Prop) (as : List α) : Field :=
  .defaulted name (WritesList spells) [] as

end Field

/-- Every form of the value is read as the value. -/
def Reads (decode : Decoder α) (spells : α → Json → Prop) (a : α) : Prop :=
  ∀ v, spells a v → decode v = some a

variable {spells : α → Json → Prop} {encode : α → Json} {decode : Decoder α} {a fallback : α}

theorem Reads.exactly (h : decode (encode a) = some a) : Reads decode (Exactly encode) a := by
  rintro _ rfl
  exact h

/-- A list is read item by item. -/
theorem Reads.list {as : List α} (h : ∀ a ∈ as, Reads decode spells a) :
    Reads (list? decode) (WritesList spells) as := by
  intro v hv
  cases v with
  | array items =>
    change items.mapM decode = some as
    induction hv with
    | nil => rfl
    | @cons a v as items hv _ ih =>
      have hrest := ih fun a ha => h a (List.mem_cons_of_mem _ ha)
      simp [h a List.mem_cons_self v hv, hrest]
  | _ => cases hv

/-- A reader that builds its value from what it finds of a record. -/
theorem Reads.record {build : List (Option Json) → Option α} {names : List String}
    (record : α → List Field) (hnames : (record a).map Field.name = names) (hnodup : names.Nodup)
    (hdecode : ∀ v, decode v = (record? names v).bind build)
    (hbuild : ∀ slots, List.Forall₂ Field.Takes (record a) slots → build slots = some a) :
    Reads decode (fun a => Writes ok (record a)) a := by
  subst hnames
  intro v hv
  obtain ⟨slots, hslots, htakes⟩ := record?_of_writes hv hnodup
  rw [hdecode, hslots, Option.bind_some, hbuild slots htakes]

namespace Field.Takes

/-- A required field is read from the one place where it is written. -/
theorem required (h : (Field.required name spells a).Takes slot) (hread : Reads decode spells a) :
    Json.required decode slot = some a := by
  cases slot with
  | none => exact h.elim
  | some v => exact hread v h

/-- A field that was left out is read as its default. -/
theorem defaulted (h : (Field.defaulted name spells fallback a).Takes slot)
    (hread : Reads decode spells a) : Json.defaulted fallback decode slot = some a := by
  cases slot with
  | none => exact congrArg some (Eq.symm h)
  | some v => exact hread v h

/-- Null is no form of a value that is there. -/
theorem optional {a : Option α} (h : (Field.optional name spells a).Takes slot)
    (hnull : decode .null = none) (hread : ∀ x ∈ a, Reads decode spells x) :
    Json.optional decode slot = some a := by
  cases slot with
  | none => exact congrArg some (Eq.symm h)
  | some v =>
    cases a with
    | none =>
      obtain rfl : v = .null := h
      rfl
    | some x =>
      have hx := hread x rfl v h
      cases v with
      | null => rw [hnull] at hx; cases hx
      | _ => simp [Json.optional, hx]

theorem list {as : List α} (h : (Field.list name spells as).Takes slot)
    (hread : ∀ a ∈ as, Reads decode spells a) :
    Json.defaulted [] (list? decode) slot = some as :=
  defaulted h (.list hread)

end Field.Takes

theorem writesOption_exactly (encode : α → Json) (a : Option α) :
    WritesOption (Exactly encode) a (ofOption encode a) := by
  cases a <;> rfl

theorem writesList_ofList (h : ∀ a, spells a (encode a)) (as : List α) :
    WritesList spells as (ofList encode as) := by
  change List.Forall₂ spells as (as.map encode)
  rw [List.forall₂_map_right_iff, List.forall₂_same]
  exact fun a _ => h a

theorem writesList_exactly (encode : α → Json) (as : List α) :
    WritesList (Exactly encode) as (ofList encode as) :=
  writesList_ofList (fun a => show Exactly encode a (encode a) from rfl) as

end TrapFacts.Json
