import TrapFacts.Proofs.Report.Delivered
import TrapFacts.Proofs.Unit.Independent

/-! A run delivers one unit after the other, and each finds what those before it have left. -/

namespace TrapFacts

variable {m : Model} {l : Layout} {overwrite : Bool} {unit : TrapUnit} {units : List TrapUnit}
  {x y : Extractor} {t t' : FileTree} {r : (Report × Extractor) × FileTree} {p : Place}
  {c : Content} {e : Failure} {i : Nat}

namespace FileTree

theorem contains_of_leadsTo {path : Path} (h : t.LeadsTo path p) (hp : t.kind? p ≠ none) :
    t.contains path = true := by
  obtain ⟨node, hnode⟩ := Option.ne_none_iff_exists'.1 (mt kind?_none.2 hp)
  rw [contains, find_ok.2 ⟨p, h, hnode⟩]
  rfl

end FileTree

namespace TrapUnit

theorem names_target_directory (unit : TrapUnit) (m : Model) (l : Layout) : ∃ name names,
    (unit.target m l).names = (unit.target m l).directory.names ++ name :: names := by
  obtain ⟨name, hnames⟩ := Path.names_directory (unit.names_target_ne_nil m l)
  exact ⟨name, [], hnames⟩

theorem ending_target (unit : TrapUnit) (m : Model) (l : Layout) :
    (unit.target m l).ending = .name :=
  l.ending_pathFor _

/-- What a unit comes to does not depend on the units before it. -/
theorem extract_alike (unit : TrapUnit) (m : Model) (hc : y.config = x.config)
    (hf : y.assemblyFile? = x.assemblyFile?) :
    (∃ e, unit.extract y m = .error e ∧ unit.extract x m = .error e) ∨
      ∃ extraction y' x', unit.extract y m = .ok (extraction, y') ∧
        unit.extract x m = .ok (extraction, x') := by
  have hresult := unit.result_congr m m.drainBudget
    (congrArg ExtractionConfig.maxRecursionDepth hc) hf
  unfold result at hresult
  rcases hy : unit.extract y m with e | ⟨extraction, y'⟩ <;>
    rcases hx : unit.extract x m with e' | ⟨extraction', x'⟩ <;> rw [hy, hx] at hresult
  · exact .inl ⟨e, rfl, congrArg Except.error (Except.error.inj hresult).symm⟩
  · cases hresult
  · cases hresult
  · obtain rfl : extraction = extraction' := Except.ok.inj hresult
    exact .inr ⟨extraction, y', x', rfl, rfl⟩

/-- Extraction changes no settings. -/
theorem extract_settings {extraction : Extraction} (h : unit.extract x m = .ok (extraction, y)) :
    y.config = x.config ∧ y.assemblyFile? = x.assemblyFile? := by
  have hleft : unit.left x m m.drainBudget = y := by
    unfold left
    rw [h]
    rfl
  rw [unit.left_eq m m.drainBudget rfl rfl] at hleft
  rw [← hleft]
  exact Extractor.tally_keeps _ x

theorem Fails.settings (hf : unit.Fails m l x t e y) :
    y.config = x.config ∧ y.assemblyFile? = x.assemblyFile? := by
  cases hf with
  | create | scope => exact ⟨rfl, rfl⟩
  | finish _ hx => exact extract_settings hx

namespace Delivered

variable (hd : Delivered overwrite unit m l x t r)

include hd

/-- A delivery takes no directory away. -/
theorem retains : t.Retains r.2 := by
  cases hd with
  | skipped => exact .refl t
  | failed =>
    dsimp only
    exact (t.prepared_made _).retains
  | written _ _ _ hv => exact (t.prepared_made _).retains.trans (hv.retains _)

/-- A unit changes no file but its own. -/
theorem file_iff (hp : ¬ r.2.LeadsTo (unit.target m l) p) :
    r.2.kind? p = some (.file c) ↔ t.kind? p = some (.file c) := by
  cases hd with
  | skipped => rfl
  | failed =>
    dsimp only
    exact (t.prepared_made _).file
  | @written extraction y place _ _ hplace hv =>
    have hne : p ≠ place := by
      rintro rfl
      exact hp ((hv.retains _).leadsTo hplace)
    rw [hv.kind?_put, if_neg hne]
    exact (t.prepared_made _).file

theorem settings : r.1.2.config = x.config ∧ r.1.2.assemblyFile? = x.assemblyFile? := by
  cases hd with
  | skipped => exact ⟨rfl, rfl⟩
  | failed _ hf => exact hf.settings
  | written _ hx => exact extract_settings hx

end Delivered

end TrapUnit

/-- What a unit finds when it is delivered, and how that ends. -/
structure Delivery where
  unit : TrapUnit
  extractor : Extractor
  found : FileTree
  result : (Report × Extractor) × FileTree

namespace Delivery

def report (d : Delivery) : Report :=
  d.result.1.1

/-- The tree that the next unit finds. -/
def left (d : Delivery) : FileTree :=
  d.result.2

end Delivery

/-- The deliveries of a run. -/
def deliveries (m : Model) (l : Layout) (overwrite : Bool) :
    List TrapUnit → Extractor → FileTree → List Delivery
  | [], _, _ => []
  | unit :: units, x, t =>
    let result := (unit.deliver (m := StateM FileTree) m l overwrite x).run t
    ⟨unit, x, t, result⟩ :: deliveries m l overwrite units result.1.2 result.2

def finalTree (m : Model) (l : Layout) (overwrite : Bool) (units : List TrapUnit) (x : Extractor)
    (t : FileTree) : FileTree :=
  ((deliverAll (m := StateM FileTree) m l overwrite units x).run t).2

theorem deliverAll_cons (unit : TrapUnit) (units : List TrapUnit) (x : Extractor) (t : FileTree) :
    let r := (unit.deliver (m := StateM FileTree) m l overwrite x).run t
    let s := (deliverAll (m := StateM FileTree) m l overwrite units r.1.2).run r.2
    (deliverAll (m := StateM FileTree) m l overwrite (unit :: units) x).run t =
      ((r.1.1 :: s.1.1, s.1.2), s.2) := by
  rfl

theorem finalTree_cons (m : Model) (l : Layout) (overwrite : Bool) (unit : TrapUnit)
    (units : List TrapUnit) (x : Extractor) (t : FileTree) :
    let r := (unit.deliver (m := StateM FileTree) m l overwrite x).run t
    finalTree m l overwrite (unit :: units) x t = finalTree m l overwrite units r.1.2 r.2 := by
  intro r
  rw [finalTree, deliverAll_cons, finalTree]

theorem reports_eq (units : List TrapUnit) (x : Extractor) (t : FileTree) :
    ((deliverAll (m := StateM FileTree) m l overwrite units x).run t).1.1 =
      (deliveries m l overwrite units x t).map Delivery.report := by
  induction units generalizing x t with
  | nil => rfl
  | cons unit units ih => rw [deliverAll_cons, deliveries, List.map_cons, ← ih, Delivery.report]

/-- A run takes no directory away. -/
theorem final_retains (units : List TrapUnit) (x : Extractor) (t : FileTree) :
    t.Retains (finalTree m l overwrite units x t) := by
  induction units generalizing x t with
  | nil => exact .refl t
  | cons unit units ih =>
    rw [finalTree_cons]
    exact (unit.deliver_delivered overwrite m l x t).retains.trans (ih _ _)

/-- A file at no unit's target is after a run what it was before. -/
theorem final_file_iff (h : ∀ unit ∈ units,
      ¬ (finalTree m l overwrite units x t).LeadsTo (unit.target m l) p) :
    (finalTree m l overwrite units x t).kind? p = some (.file c) ↔ t.kind? p = some (.file c) := by
  induction units generalizing x t with
  | nil => rfl
  | cons unit units ih =>
    rw [finalTree_cons] at h ⊢
    have hd := unit.deliver_delivered overwrite m l x t
    have hrest := ih fun other hother => h other (List.mem_cons_of_mem unit hother)
    have hleft := fun hp => h unit List.mem_cons_self ((final_retains units _ _).leadsTo hp)
    exact hrest.trans (hd.file_iff hleft)

/-- A delivery stands between what the units before it have left and what those after it make of
it. -/
structure Delivery.IsIn (m : Model) (l : Layout) (overwrite : Bool) (units : List TrapUnit)
    (x : Extractor) (t : FileTree) (i : Nat) (d : Delivery) : Prop where
  unit : units[i]? = some d.unit
  result : d.result =
    (d.unit.deliver (m := StateM FileTree) m l overwrite d.extractor).run d.found
  found : t.Retains d.found
  settings : d.extractor.config = x.config ∧ d.extractor.assemblyFile? = x.assemblyFile?
  rest : finalTree m l overwrite (units.drop (i + 1)) d.result.1.2 d.left =
    finalTree m l overwrite units x t

/-- Each delivery of a run finds what the ones before it have left. -/
theorem isIn_of_getElem? {d : Delivery} (h : (deliveries m l overwrite units x t)[i]? = some d) :
    d.IsIn m l overwrite units x t i := by
  induction units generalizing x t i with
  | nil => cases h
  | cons unit units ih =>
    have hd := unit.deliver_delivered overwrite m l x t
    have hcons := finalTree_cons m l overwrite unit units x t
    rw [deliveries] at h
    cases i with
    | zero =>
      obtain rfl := Option.some.inj h
      exact ⟨rfl, rfl, .refl t, ⟨rfl, rfl⟩, hcons.symm⟩
    | succ i =>
      have hrest := ih h
      obtain ⟨hconfig, hfiles⟩ := hrest.settings
      obtain ⟨hconfig', hfiles'⟩ := hd.settings
      exact ⟨hrest.unit, hrest.result, hd.retains.trans hrest.found,
        ⟨hconfig.trans hconfig', hfiles.trans hfiles'⟩, hrest.rest.trans hcons.symm⟩

namespace Delivery.IsIn

variable {d : Delivery} (h : d.IsIn m l overwrite units x t i)

include h

theorem delivered : d.unit.Delivered overwrite m l d.extractor d.found d.result := by
  rw [h.result]
  exact d.unit.deliver_delivered overwrite m l d.extractor d.found

theorem left_retains : d.left.Retains (finalTree m l overwrite units x t) := by
  rw [← h.rest]
  exact final_retains _ _ _

end Delivery.IsIn

end TrapFacts
