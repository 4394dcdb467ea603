import TrapFacts.Proofs.Pool.Careful
import TrapFacts.Proofs.Pool.Solo

/-! A run changes nothing but the files of its own units, in whatever order they take turns. -/

namespace TrapFacts

variable {m : Model} {l : Layout} {overwrite : Bool} {x : Extractor} {units : List TrapUnit}
  {t : FileTree} {stages : Nat → Stage} {s : Pool Report} {i : Nat} {p : Place} {c : Content}
  {unit : TrapUnit} {reports : List Report} {report : Report}

namespace Pool.Invariant

variable (h : Invariant m l overwrite x units t stages s) (hresults : s.results? = some reports)

include h hresults

theorem ends (hunit : units[i]? = some unit) : ∃ w report, s.workers[i]? = some w ∧
    reports[i]? = some report ∧ w.task = .done report ∧ unit.Ends m l x (stages i) report := by
  obtain ⟨hi, -⟩ := List.getElem?_eq_some_iff.1 hunit
  obtain ⟨w, hw⟩ : ∃ w, s.workers[i]? = some w := ⟨_, List.getElem?_eq_getElem (h.length ▸ hi)⟩
  obtain ⟨report, hreport, htask⟩ := done_of_results hresults hw
  have hconforms := h.conforms i unit _ hunit hw
  rw [htask] at hconforms
  exact ⟨_, report, hw, hreport, htask, hconforms⟩

theorem length_reports : reports.length = units.length := by
  have hlength := congrArg List.length (results?_eq_some.1 hresults)
  rw [List.length_map, List.length_map] at hlength
  exact hlength.symm.trans h.length

/-- Units that are done have left no drafts. -/
theorem no_drafts (i : Nat) : (stages i).draft? = none := by
  cases hunit : units[i]? with
  | none =>
    rw [h.beyond i hunit]
    rfl
  | some unit =>
    obtain ⟨w, report, -, -, -, hends⟩ := h.ends hresults hunit
    generalize stages i = stage at hends
    cases hends with
    | skipped | unwritten | unscoped | placed => rfl

theorem file_iff (hp : ∀ unit ∈ units, ¬ s.tree.LeadsTo (unit.target m l) p) :
    s.tree.kind? p = some (.file c) ↔ t.kind? p = some (.file c) :=
  h.files p hp (fun i hd => by
    rw [h.no_drafts hresults i] at hd
    cases hd) c

/-- No target leads to a temporary file. -/
theorem temporary_iff (k : Nat) (above : Place) (c : Content) :
    s.tree.kind? (FileTree.temporaryName k :: above) = some (.file c) ↔
      t.kind? (FileTree.temporaryName k :: above) = some (.file c) :=
  h.file_iff hresults fun unit _ => unit.not_leadsTo_temporary k above

end Pool.Invariant

namespace Pool.Invariant

variable {threads : Nat} {schedule : List Nat} (h : Invariant m l overwrite x units t stages s)

include h

/-- A unit puts its trap in place in one of its turns, or it does not and leaves its target
alone. -/
theorem run_target (hstages : ∀ i c, stages i ≠ .placed c)
    (hs : t.Settles (Path.ofString l.directory))
    (hresults : (s.run threads schedule).results? = some reports) (hunit : units[i]? = some unit)
    (hreport : reports[i]? = some report) :
    (∃ extraction y before after place, unit.extract x m = .ok (extraction, y) ∧
      report = Report.ofExtraction extraction (l.pathFor (unit.name m)) ∧
      schedule = before ++ i :: after ∧
      (s.run threads (before ++ [i])).tree.LeadsTo (unit.target m l) place ∧
      (s.run threads (before ++ [i])).tree.kind? place =
        some (.file (.pack l.compression (trapText extraction.trap)))) ∨
    unit.Ends m l x .empty report ∧ ∀ before after, schedule = before ++ i :: after →
      ∀ p, (s.run threads schedule).tree.LeadsTo (unit.target m l) p → ∀ above,
        (s.run threads (before ++ [i])).tree.kind? (above ++ p) =
          (s.run threads before).tree.kind? (above ++ p) := by
  obtain ⟨stages', h', -, -, hnew⟩ := h.run_placed threads schedule
  obtain ⟨w, report', hw, hreport', htask, hends⟩ := h'.ends hresults hunit
  obtain rfl := Option.some.inj (hreport.symm.trans hreport')
  rw [or_iff_not_imp_left]
  intro hnever
  refine ⟨?_, fun before after hschedule p hp above => ?_⟩
  · cases hstage : stages' i with
    | empty => rwa [hstage] at hends
    | drafted draft c =>
      rw [hstage] at hends
      cases hends
    | placed c =>
      obtain ⟨before, after, place, hplace⟩ :=
        (hnew i unit c hunit hstage).resolve_left (hstages i c)
      rw [hstage] at hends
      cases hends with
      | placed hx => exact absurd ⟨_, _, before, after, place, hx, rfl, hplace⟩ hnever
  · obtain ⟨stages₁, h₁, -⟩ := h.run_placed threads before
    have hturn : s.run threads (before ++ [i]) = (s.run threads before).advance threads i :=
      run_append before [i] s
    rw [hschedule, run_append, run_cons] at hw hp
    rw [hturn]
    rcases h₁.turn hunit (unit.settles_target hs m) hw htask with
      ⟨c, place, hends', hplace⟩ | hsame
    · cases hends' with
      | placed hx =>
        exact absurd ⟨_, _, before, after, place, hx, rfl, hschedule, hturn ▸ hplace⟩ hnever
    · exact hsame p hp above

end Pool.Invariant

/-- While a file is in place that must stay, units that have not begun are skipped. -/
theorem Pool.Invariant.run_skips {threads : Nat} {schedule : List Nat}
    (h : Invariant m l false x units t stages s) (hs : t.Settles (Path.ofString l.directory))
    (hresults : (s.run threads schedule).results? = some reports)
    (hname : ∀ k above, p ≠ FileTree.temporaryName k :: above)
    (hp : s.tree.kind? p = some (.file c))
    (hnone : NonePending m l units (s.run threads schedule).tree p stages s) :
    (s.run threads schedule).tree.kind? p = some (.file c) ∧
      ∀ (i : Nat) (unit : TrapUnit) (w : Worker Report) (report : Report),
        units[i]? = some unit → s.workers[i]? = some w → w.begun = false →
        reports[i]? = some report →
        (s.run threads schedule).tree.LeadsTo (unit.target m l) p → report.status = .skipped := by
  obtain ⟨hstays, hpassive⟩ := h.run_stays threads schedule hs (.refl _) hname hp hnone
  refine ⟨hstays, fun i unit w report hunit hw hbegun hreport hlead => ?_⟩
  obtain ⟨w', hw', hpassive'⟩ := hpassive i unit w hunit hw (.inl hbegun) hlead
  obtain ⟨stages', h', -⟩ := h.run_placed threads schedule
  obtain ⟨w'', report', hw'', hreport', htask, -⟩ := h'.ends hresults hunit
  obtain rfl := Option.some.inj (hw'.symm.trans hw'')
  obtain rfl := Option.some.inj (hreport.symm.trans hreport')
  rcases hpassive' with hwaits | ⟨report', htask', hskipped⟩
  · -- A unit that has not begun is not done.
    obtain ⟨ask, hask, -⟩ := unit.deliveryTask_eq m l false x
    rw [h'.fresh i unit w' hunit hw' hwaits, hask] at htask
    cases htask
  · rw [htask] at htask'
    cases htask'
    exact hskipped

/-- A file that must stay stays from any moment on at which no unit is about to replace it. With one
thread there is no such unit at any moment. -/
theorem Pool.start_skips {threads : Nat} (before after : List Nat)
    (hs : t.Settles (Path.ofString l.directory)) :
    let s := Pool.start (units.map fun unit => unit.deliveryTask m l false x) t
    let last := s.run threads (before ++ after)
    last.results? = some reports → (∀ k above, p ≠ FileTree.temporaryName k :: above) →
    (s.run threads before).tree.kind? p = some (.file c) →
    (threads = 1 ∨ ∀ (i : Nat) (unit : TrapUnit) (w : Worker Report), units[i]? = some unit →
      (s.run threads before).workers[i]? = some w → w.isBusy = true →
      ¬ last.tree.LeadsTo (unit.target m l) p) →
    last.tree.kind? p = some (.file c) ∧
      ∀ (i : Nat) (unit : TrapUnit) (w : Worker Report) (report : Report),
        units[i]? = some unit → (s.run threads before).workers[i]? = some w → w.begun = false →
        reports[i]? = some report → last.tree.LeadsTo (unit.target m l) p →
        report.status = .skipped := by
  intro s last hresults hname hp hfree
  have hstart := Invariant.start m l false x units t
  have hlast : last = (s.run threads before).run threads after := run_append before after s
  clear_value last
  subst hlast
  obtain ⟨stages, h, -⟩ := hstart.run_placed threads before
  obtain ⟨-, -, hretains, -⟩ := h.run_placed threads after
  rcases hfree with rfl | hfree
  · obtain ⟨stages', h', hone⟩ := hstart.run_oneByOne before hs hretains (.start _)
    exact h'.run_skips hs hresults hname hp (hone.nonePending hp)
  · exact h.run_skips hs hresults hname hp fun i unit w hunit hw hbusy hlead =>
      absurd hlead (hfree i unit w hunit hw hbusy)

/-- At the start of a run no unit is at work yet, so the files from before stay. -/
theorem Pool.start_skips_earlier {threads : Nat} (schedule : List Nat)
    (hs : t.Settles (Path.ofString l.directory)) :
    let last := (Pool.start (units.map fun unit => unit.deliveryTask m l false x) t).run threads
      schedule
    last.results? = some reports → t.kind? p = some (.file c) →
    last.tree.kind? p = some (.file c) ∧
      ∀ (i : Nat) (unit : TrapUnit) (report : Report), units[i]? = some unit →
        reports[i]? = some report → last.tree.LeadsTo (unit.target m l) p →
        report.status = .skipped := by
  intro last hresults hp
  obtain ⟨stages, hlast, -⟩ := (Invariant.start m l false x units t).run_placed threads schedule
  by_cases hname : ∃ k above, p = FileTree.temporaryName k :: above
  · obtain ⟨k, above, rfl⟩ := hname
    exact ⟨(hlast.temporary_iff hresults k above c).2 hp, fun i unit report _ _ hlead =>
      absurd hlead (unit.not_leadsTo_temporary k above)⟩
  · obtain ⟨hstays, hskips⟩ := Pool.start_skips [] schedule hs hresults
      (fun k above heq => hname ⟨k, above, heq⟩) hp
      (.inr fun i unit w _ hw hbusy _ => by
        rw [Pool.isBusy_of_begun (Pool.start_begun hw)] at hbusy
        cases hbusy)
    refine ⟨hstays, fun i unit report hunit hreport hlead => ?_⟩
    exact hskips i unit ⟨unit.deliveryTask m l false x, false⟩ report hunit
      (by simp [Pool.run, Pool.start, hunit]) rfl hreport hlead

/-- What a run over units leaves as it was. The run is seen as the pool after any number of turns.
-/
structure Untouched (m : Model) (units : List TrapUnit) (l : Layout) (output : OutputConfig)
    (x : Extractor) (t : FileTree) (pool : List Nat → Pool Report) (schedule : List Nat)
    (reports : List Report) : Prop where
  length : reports.length = units.length
  /-- Files that no target leads to. -/
  others : ∀ p, (∀ unit ∈ units, ¬ (pool schedule).tree.LeadsTo (unit.target m l) p) →
    ∀ c, (pool schedule).tree.at? p = some (.file c) ↔ t.at? p = some (.file c)
  /-- No temporary file is left, and none from elsewhere is lost. -/
  temporary : ∀ k above c,
    (pool schedule).tree.at? (FileTree.temporaryName k :: above) = some (.file c) ↔
      t.at? (FileTree.temporaryName k :: above) = some (.file c)
  /-- A unit puts its trap in place, or it is skipped or fails, and then none of its turns changes
  what is at its target or below it. -/
  targets : t.Settles (Path.ofString l.directory) → ∀ (i : Nat) (unit : TrapUnit) (report : Report),
    units[i]? = some unit → reports[i]? = some report →
    (∃ extraction y before after place, unit.extract x m = .ok (extraction, y) ∧
      report = Report.ofExtraction extraction (l.pathFor (unit.name m)) ∧
      schedule = before ++ i :: after ∧
      (pool (before ++ [i])).tree.LeadsTo (unit.target m l) place ∧
      (pool (before ++ [i])).tree.at? place =
        some (.file (.pack l.compression (trapText extraction.trap)))) ∨
    unit.Ends m l x .empty report ∧ ∀ before after, schedule = before ++ i :: after →
      ∀ p, (pool schedule).tree.LeadsTo (unit.target m l) p → ∀ above,
        (pool (before ++ [i])).tree.kind? (above ++ p) = (pool before).tree.kind? (above ++ p)
  /-- What must not be overwritten and was there before the run. -/
  earlier : t.Settles (Path.ofString l.directory) → output.overwrite = false →
    ∀ p c, t.at? p = some (.file c) → (pool schedule).tree.at? p = some (.file c) ∧
      ∀ (i : Nat) (unit : TrapUnit) (report : Report), units[i]? = some unit →
        reports[i]? = some report → (pool schedule).tree.LeadsTo (unit.target m l) p →
        report.status = .skipped
  /-- What must not be overwritten and is there at some moment of the run, if there is one thread
  only or no unit at work then has its target there. -/
  present : t.Settles (Path.ofString l.directory) → output.overwrite = false →
    ∀ before after, schedule = before ++ after →
    ∀ p c, (∀ k above, p ≠ FileTree.temporaryName k :: above) →
      (pool before).tree.at? p = some (.file c) →
      (output.threads = 1 ∨ ∀ (i : Nat) (unit : TrapUnit) (w : Worker Report),
        units[i]? = some unit → (pool before).workers[i]? = some w → w.isBusy = true →
        ¬ (pool schedule).tree.LeadsTo (unit.target m l) p) →
      (pool schedule).tree.at? p = some (.file c) ∧
      ∀ (i : Nat) (unit : TrapUnit) (w : Worker Report) (report : Report),
        units[i]? = some unit → (pool before).workers[i]? = some w → w.begun = false →
        reports[i]? = some report → (pool schedule).tree.LeadsTo (unit.target m l) p →
        report.status = .skipped

/-- In whatever order the units of a run take turns, it can be brought to an end, and then it has
changed no files but those that its targets lead to, and it leaves no temporary file behind. If the
output directory leads upwards only from what is there, a unit that is skipped or fails leaves its
target alone, and what must not be overwritten stays, unless it came between the question of a unit
for its target and the move to there. -/
theorem extractInPool_untouched (x : Extractor) (m : Model) (units : List TrapUnit) (l : Layout)
    (output : OutputConfig) (t : FileTree) (schedule : List Nat) :
    let pool := fun turns => extractInPool x m units l output turns t
    (∃ more reports, (pool (schedule ++ more)).results? = some reports) ∧
      ∀ reports, (pool schedule).results? = some reports →
        Untouched m units l output (x.register m.assemblies) t pool schedule reports := by
  intro pool
  refine ⟨?_, fun reports hresults => ?_⟩
  · obtain ⟨more, reports, hmore⟩ := Pool.exists_results output.threads (pool schedule)
    exact ⟨more, reports, (congrArg Pool.results? (Pool.run_append schedule more _)).trans hmore⟩
  · have hstart := Pool.Invariant.start m l output.overwrite (x.register m.assemblies) units t
    obtain ⟨stages, hlast, -⟩ := hstart.run_placed output.threads schedule
    have hpool : output.overwrite = false → ∀ turns, pool turns =
        (Pool.start (units.map fun unit => unit.deliveryTask m l false (x.register m.assemblies))
          t).run output.threads turns := by
      intro ho turns
      simp only [pool, extractInPool, ho]
    refine {
      length := ?_
      others := ?_
      temporary := ?_
      targets := ?_
      earlier := ?_
      present := ?_ }
    · exact hlast.length_reports hresults
    · simp only [← FileTree.kind?_file]
      exact fun p hp c => hlast.file_iff hresults hp
    · simp only [← FileTree.kind?_file]
      exact hlast.temporary_iff hresults
    · intro hs i unit report hunit hreport
      simp only [← FileTree.kind?_file]
      exact hstart.run_target (fun _ _ => by rintro ⟨⟩) hs hresults hunit hreport
    · intro hs ho p c hp
      rw [← FileTree.kind?_file] at hp ⊢
      rw [hpool ho] at hresults ⊢
      exact Pool.start_skips_earlier schedule hs hresults hp
    · intro hs ho before after hschedule p c hname hp hfree
      simp only [← FileTree.kind?_file] at hp ⊢
      subst hschedule
      rw [hpool ho] at hresults hp hfree ⊢
      rw [hpool ho] at hfree ⊢
      exact Pool.start_skips before after hs hresults hname hp hfree

section

-- Evaluation compares texts by their literals, not byte by byte.
attribute [local irreducible] String.decEq

/-- A tree with a trap from before. -/
def FileTree.earlier : FileTree where
  root := .directory [("compilation.trap", .file (.text "old"))]

/-- Two units beside a trap from before that must stay. One of them has no scope. -/
def poolBeside (turns : List Nat) : Pool Report :=
  extractInPool {} {} [.compilation, .source ⟨5⟩] { directory := ".", compression := .none }
    { overwrite := false } turns .earlier

/-- A trap from before stays and its unit is skipped, and a unit without a scope is aborted. -/
theorem extractInPool_untouched_earlier :
    FileTree.earlier.Settles (Path.ofString ".") ∧
      (poolBeside [1, 0, 1, 1]).results? = some
        [{ name := "compilation", path := "./compilation.trap", status := .skipped },
          { name := "tree 5", path := "./tree 5.trap", status := .aborted "unknown tree 5" }] ∧
      (poolBeside [1, 0, 1, 1]).tree.at? ["compilation.trap"] = some (.file (.text "old")) := by
  have hsettles : FileTree.earlier.Settles (Path.ofString ".") := by
    have hnames : (Path.ofString ".").names = [] := by cbv
    apply FileTree.settles_of_notMem
    simp [hnames]
  have hold : FileTree.earlier.at? ["compilation.trap"] = some (.file (.text "old")) := by
    cbv
  have hresults : (poolBeside [1, 0, 1, 1]).results? = some
      [{ name := "compilation", path := "./compilation.trap", status := .skipped },
        { name := "tree 5", path := "./tree 5.trap", status := .aborted "unknown tree 5" }] := by
    decide +kernel
  obtain ⟨-, hall⟩ := extractInPool_untouched {} {} [.compilation, .source ⟨5⟩]
    { directory := ".", compression := .none } { overwrite := false } .earlier [1, 0, 1, 1]
  have huntouched := hall _ hresults
  exact ⟨hsettles, hresults, (huntouched.earlier hsettles rfl _ _ hold).1⟩

/-- Two units that ask for the same target before either has put its trap there are both extracted,
though nothing must be overwritten. -/
example : (extractInPool {} {} [.compilation, .compilation]
    { directory := ".", compression := .none } { overwrite := false }
    [0, 1, 0, 0, 0, 1, 1, 1] {}).results?.map (·.map Report.status) =
      some [.extracted, .extracted] := by
  cbv

/-- The run of one unit beside a trap from before. -/
def runBeside (unit : TrapUnit) (directory : String) (overwrite : Bool) :
    (List Report × Extractor) × FileTree :=
  (extractAll (m := StateM FileTree) {} {} [unit] { directory, compression := .none }
    { overwrite }).run .earlier

/-- The trap from before is overwritten when the output directory leads upwards from a directory
that is made only now. -/
theorem extractAll_replaced :
    FileTree.earlier.at? ["compilation.trap"] = some (.file (.text "old")) ∧
      (runBeside .compilation "n/.." false).1.1[0]? =
        some ⟨"compilation", "n/../compilation.trap", .extracted, 1, 2⟩ ∧
      (runBeside .compilation "n/.." false).2.at? ["compilation.trap"] =
        some (.file (.text "#1=*\ncompilations(#1,\"\")\n")) := by
  refine ⟨by cbv, by cbv, by cbv⟩

end

end TrapFacts
