import TrapFacts.Proofs.Report.Deliveries

/-! What was extracted is in its file at the end of a run, unless a later unit has the same path. -/

namespace TrapFacts

variable {m : Model} {l : Layout} {overwrite : Bool} {unit : TrapUnit} {units : List TrapUnit}
  {x y : Extractor} {t : FileTree} {r : (Report × Extractor) × FileTree} {d : Delivery} {i : Nat}
  {e : Extraction}

namespace TrapUnit

theorem extraction_name (h : unit.extract x m = .ok (e, y)) : e.name = unit.name m := by
  unfold extract at h
  split at h
  · cases h
  · obtain ⟨rfl, -⟩ := Prod.mk.inj (Except.ok.inj h)
    rfl

namespace Delivered

variable (hd : Delivered overwrite unit m l x t r)

include hd

theorem name_eq : r.1.1.name = unit.name m := by
  cases hd with
  | skipped | failed => rfl
  | written _ hx => exact extraction_name hx

theorem path_eq : r.1.1.path = l.pathFor (unit.name m) := by
  cases hd with
  | skipped | failed | written => rfl

/-- The trap of an extracted unit is in place. -/
theorem extracted (h : r.1.1.status = .extracted) : ∃ e y place,
    unit.extract x m = .ok (e, y) ∧ r.1.1 = Report.ofExtraction e (l.pathFor (unit.name m)) ∧
      r.2.LeadsTo (unit.target m l) place ∧
      r.2.kind? place = some (.file (.pack l.compression (trapText e.trap))) := by
  cases hd with
  | skipped => cases h
  | failed => cases h
  | @written e y place _ hx hplace hv =>
    exact ⟨e, y, place, hx, rfl, (hv.retains _).leadsTo hplace,
      by rw [hv.kind?_put, if_pos rfl]⟩

end Delivered

end TrapUnit

/-- A trap stays in place as long as no later unit has its path. -/
theorem Delivery.IsIn.kept (h : d.IsIn m l overwrite units x t i)
    (hstatus : d.report.status = .extracted)
    (hlater : ∀ later ∈ units.drop (i + 1), l.pathFor (later.name m) ≠ d.report.path) :
    ∃ e y, d.unit.extract x m = .ok (e, y) ∧
      (finalTree m l overwrite units x t).find (Path.ofString d.report.path) =
        .ok (.file (.pack l.compression (trapText e.trap))) ∧
      d.report.labels = e.stats.labels ∧ d.report.records = e.stats.records := by
  obtain ⟨e, y, place, hx, hreport, hplace, hkind⟩ := h.delivered.extracted hstatus
  obtain ⟨hc, hf⟩ := h.settings
  obtain ⟨y', hy'⟩ : ∃ y', d.unit.extract x m = .ok (e, y') := by
    rcases d.unit.extract_alike m hc hf with ⟨e', he, -⟩ | ⟨e', y', x', he, hx'⟩
    · cases he.symm.trans hx
    · obtain ⟨rfl, -⟩ := Prod.mk.inj (Except.ok.inj (he.symm.trans hx))
      exact ⟨x', hx'⟩
  have hfinal := h.left_retains.leadsTo hplace
  have hkept : (finalTree m l overwrite units x t).kind? place =
      some (.file (.pack l.compression (trapText e.trap))) := by
    rw [← h.rest]
    refine (final_file_iff fun later hmem hleads => hlater later hmem ?_).2 hkind
    rw [h.rest] at hleads
    exact (TrapUnit.pathFor_eq_of_leadsTo hleads hfinal).trans h.delivered.path_eq.symm
  refine ⟨e, y', hy', ?_, ?_, ?_⟩
  · exact FileTree.find_ok.2
      ⟨place, h.delivered.path_eq ▸ hfinal, FileTree.kind?_file.1 hkept⟩
  · exact congrArg Report.labels hreport
  · exact congrArg Report.records hreport

theorem map_reports {α : Type} {f : Report → α} {g : TrapUnit → α}
    (h : ∀ {unit x t r}, unit.Delivered overwrite m l x t r → f r.1.1 = g unit)
    (units : List TrapUnit) (x : Extractor) (t : FileTree) :
    ((deliveries m l overwrite units x t).map Delivery.report).map f = units.map g := by
  induction units generalizing x t with
  | nil => rfl
  | cons unit units ih =>
    rw [deliveries, List.map_cons, List.map_cons, List.map_cons, ih]
    exact congrArg (· :: units.map g) (h (unit.deliver_delivered overwrite m l x t))

/-- Each unit gets a report, in order, and a unit that is reported as extracted has its trap in its
file at the end, if no later unit has the same path. -/
theorem extractAll_kept (x : Extractor) (m : Model) (units : List TrapUnit) (l : Layout)
    (output : OutputConfig) (t : FileTree) :
    let run := (extractAll (m := StateM FileTree) x m units l output).run t
    run.1.1.map Report.name = units.map (·.name m) ∧
      run.1.1.map Report.path = units.map (fun unit => l.pathFor (unit.name m)) ∧
      ∀ (i : Nat) (unit : TrapUnit) (report : Report), units[i]? = some unit →
        run.1.1[i]? = some report → report.status = .extracted →
        (∀ later ∈ units.drop (i + 1), l.pathFor (later.name m) ≠ report.path) →
        ∃ e y, unit.extract (x.register m.assemblies) m = .ok (e, y) ∧
          run.2.find (Path.ofString report.path) =
            .ok (.file (.pack l.compression (trapText e.trap))) ∧
          report.labels = e.stats.labels ∧ report.records = e.stats.records := by
  intro run
  have hreports : run.1.1 =
      (deliveries m l output.overwrite units (x.register m.assemblies) t).map Delivery.report := by
    rw [← reports_eq, ← extractAll]
  refine ⟨?_, ?_, ?_⟩
  · rw [hreports]
    exact map_reports TrapUnit.Delivered.name_eq units _ t
  · rw [hreports]
    exact map_reports TrapUnit.Delivered.path_eq units _ t
  · intro i unit report hunit hreport hstatus hlater
    rw [hreports, List.getElem?_map] at hreport
    obtain ⟨d, hmem, rfl⟩ := Option.map_eq_some_iff.1 hreport
    have hin := isIn_of_getElem? hmem
    obtain rfl := Option.some.inj (hunit.symm.trans hin.unit)
    exact hin.kept hstatus hlater

section

-- Evaluation compares texts by their literals, not byte by byte.
attribute [local irreducible] String.decEq

/-- Two files whose traps have one path. -/
def Model.clashing : Model where
  trees := [{ path := "a.cs" }, { path := "../a.cs" }]

def clashingRun : (List Report × Extractor) × FileTree :=
  (extractAll (m := StateM FileTree) {} .clashing (TrapUnit.all .clashing)
    { directory := "out", compression := .none } {}).run {}

/-- The second of two files with one path. -/
theorem extractAll_kept_second :
    clashingRun.1.1[1]? = some ⟨"../a.cs", "out/a.cs.trap", .extracted, 1, 3⟩ ∧
      (∀ later ∈ (TrapUnit.all .clashing).drop 2,
        Layout.pathFor { directory := "out", compression := .none } (later.name .clashing) ≠
          "out/a.cs.trap") ∧
      ∃ e y, (TrapUnit.source ⟨1⟩).extract {} .clashing = .ok (e, y) ∧
        clashingRun.2.find (Path.ofString "out/a.cs.trap") =
          .ok (.file (.text (trapText e.trap))) ∧
        1 = e.stats.labels ∧ 3 = e.stats.records := by
  have hreport : clashingRun.1.1[1]? =
      some ⟨"../a.cs", "out/a.cs.trap", .extracted, 1, 3⟩ := by
    cbv
  have hlater : ∀ later ∈ (TrapUnit.all .clashing).drop 2,
      Layout.pathFor { directory := "out", compression := .none } (later.name .clashing) ≠
        "out/a.cs.trap" := by
    intro later hlater
    obtain rfl : later = .compilation := List.mem_singleton.1 hlater
    have hpath : Layout.pathFor { directory := "out", compression := .none }
        (TrapUnit.compilation.name .clashing) = "out/compilation.trap" := by
      cbv
    rw [hpath]
    simp
  obtain ⟨-, -, hkept⟩ := extractAll_kept {} .clashing (TrapUnit.all .clashing)
    { directory := "out", compression := .none } {} {}
  have hregister : ({} : Extractor).register Model.clashing.assemblies = {} := rfl
  rw [← clashingRun, hregister] at hkept
  have hsecond := hkept 1 (.source ⟨1⟩) _ rfl hreport rfl hlater
  simp only [Content.pack] at hsecond
  exact ⟨hreport, hlater, hsecond⟩

/-- The first of two files with one path is reported as extracted, but its trap is not there. -/
theorem extractAll_overwritten :
    ((TrapUnit.all .clashing).map (·.name .clashing)).Nodup ∧
      clashingRun.1.1[0]? = some ⟨"a.cs", "out/a.cs.trap", .extracted, 1, 3⟩ ∧
      ((TrapUnit.source ⟨0⟩).extract {} .clashing).map (fun r => trapText r.1.trap) =
        .ok "#1=@\"a.cs;sourcefile\"\nfiles(#1,\"a.cs\")\nnumlines(#1,0)\n" ∧
      clashingRun.2.find (Path.ofString "out/a.cs.trap") = .ok (.file (.text
        "#1=@\"../a.cs;sourcefile\"\nfiles(#1,\"../a.cs\")\nnumlines(#1,0)\n")) := by
  refine ⟨?_, by cbv, by cbv, by cbv⟩
  cbv
  simp

end

end TrapFacts
