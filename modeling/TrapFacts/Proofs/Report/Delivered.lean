import TrapFacts.Proofs.File.Drafting
import TrapFacts.Proofs.Report.Targets
import TrapFacts.Report

/-! What becomes of a unit: it is skipped, or it fails, or its trap is in place. -/

namespace TrapFacts

variable {m : Model} {l : Layout} {overwrite : Bool} {unit : TrapUnit} {x y : Extractor}
  {t t' : FileTree} {r : (Report × Extractor) × FileTree} {p q : Place} {c : Content} {e : Failure}

namespace TrapUnit

/-- Why the trap of a unit does not get into place, and what units share by then. -/
inductive Fails (unit : TrapUnit) (m : Model) (l : Layout) (x : Extractor) (t : FileTree) :
    Failure → Extractor → Prop where
  /-- The file cannot be started. -/
  | create {e : IoError} {t' : FileTree}
      (h : (TrapFile.create (m := StateM FileTree) (unit.target m l) l.compression).run t =
        (.error e, t')) : Fails unit m l x t (.io e) x
  /-- The file is started, but the unit has no scope. -/
  | scope {file : TrapFile (StateM FileTree)} {t' : FileTree} {e : Failure}
      (h : (TrapFile.create (m := StateM FileTree) (unit.target m l) l.compression).run t =
        (.ok file, t')) (hs : unit.scope x m = .error e) : Fails unit m l x t e x
  /-- The unit is extracted, but the file cannot be finished. -/
  | finish {file : TrapFile (StateM FileTree)} {t' t'' : FileTree} {extraction : Extraction}
      {y : Extractor} {e : IoError}
      (h : (TrapFile.create (m := StateM FileTree) (unit.target m l) l.compression).run t =
        (.ok file, t')) (hx : unit.extract x m = .ok (extraction, y))
      (hf : (file.finish extraction.trap).run t' = (.error e, t'')) : Fails unit m l x t (.io e) y

/-- Whether a unit is delivered at all. -/
def IsDue (overwrite : Bool) (unit : TrapUnit) (m : Model) (l : Layout) (t : FileTree) : Prop :=
  overwrite = true ∨ t.contains (unit.target m l) = false

/-- How a unit can end, with its report and the tree it leaves. -/
inductive Delivered (overwrite : Bool) (unit : TrapUnit) (m : Model) (l : Layout) (x : Extractor)
    (t : FileTree) : (Report × Extractor) × FileTree → Prop where
  | skipped (h : ¬ IsDue overwrite unit m l t) : Delivered overwrite unit m l x t
      (({ name := unit.name m, path := l.pathFor (unit.name m), status := .skipped }, x), t)
  | failed {e : Failure} {y : Extractor} (h : IsDue overwrite unit m l t)
      (hf : unit.Fails m l x t e y) : Delivered overwrite unit m l x t
        (Report.failed y (unit.name m) (l.pathFor (unit.name m)) e, t.prepared (unit.target m l))
  | written {extraction : Extraction} {y : Extractor} {place : Place}
      (h : IsDue overwrite unit m l t) (hx : unit.extract x m = .ok (extraction, y))
      (hp : (t.prepared (unit.target m l)).LeadsTo (unit.target m l) place)
      (hv : (t.prepared (unit.target m l)).Vacant place) : Delivered overwrite unit m l x t
        ((Report.ofExtraction extraction (l.pathFor (unit.name m)), y),
          (t.prepared (unit.target m l)).put place
            (.file (.pack l.compression (trapText extraction.trap))))

theorem deliver_skipped (h : ¬ IsDue overwrite unit m l t) :
    (unit.deliver (m := StateM FileTree) m l overwrite x).run t =
      (({ name := unit.name m, path := l.pathFor (unit.name m), status := .skipped }, x), t) := by
  obtain ⟨hkeep, hfree⟩ := not_or.1 h
  have hcontains : (FileStore.contains (m := StateM FileTree) (unit.target m l)).run t =
      (true, t) := congrArg (·, t) (Bool.not_eq_false _ ▸ hfree)
  obtain rfl : overwrite = false := by simpa using hkeep
  exact run_bind hcontains

/-- A unit that is due gets a file, if one can be started. -/
theorem deliver_due (h : IsDue overwrite unit m l t) :
    (unit.deliver (m := StateM FileTree) m l overwrite x).run t =
      match (TrapFile.create (m := StateM FileTree) (unit.target m l) l.compression).run t with
      | (.error e, t') => (Report.failed x (unit.name m) (l.pathFor (unit.name m)) (.io e), t')
      | (.ok file, t') => (unit.extractInto m (l.pathFor (unit.name m)) file x).run t' := by
  have hcontains : (FileStore.contains (m := StateM FileTree) (unit.target m l)).run t =
      (t.contains (unit.target m l), t) := rfl
  have hskip : ¬ (!overwrite && t.contains (unit.target m l)) = true := by
    rcases h with rfl | hfree
    · simp
    · simp [hfree]
  unfold deliver
  refine (run_bind hcontains).trans ?_
  rw [if_neg hskip]
  rcases hcreate : (TrapFile.create (m := StateM FileTree) (unit.target m l) l.compression).run t
    with ⟨_ | file, t'⟩
  · exact run_bind hcreate
  · exact run_bind hcreate

/-- A unit that is extracted into a draft has no scope, or its draft is finished or not. -/
theorem extractInto_eq {path : String} {file : TrapFile (StateM FileTree)}
    (hd : t.Drafted file.draft t') : (unit.extractInto m path file x).run t' =
      match unit.extract x m with
      | .error e => (Report.failed x (unit.name m) path e, t)
      | .ok (extraction, y) =>
        match (file.finish extraction.trap).run t' with
        | (.ok (), t'') => ((Report.ofExtraction extraction path, y), t'')
        | (.error e, t'') => (Report.failed y (unit.name m) path (.io e), t'') := by
  unfold extractInto
  cases unit.extract x m with
  | error e => exact run_bind (file.abandon_eq hd)
  | ok r =>
    obtain ⟨extraction, y⟩ := r
    rcases hfinish : (file.finish extraction.trap).run t' with ⟨e | ⟨⟩, t''⟩
    · simp only [hfinish]
      exact run_bind hfinish
    · simp only [hfinish]
      exact run_bind hfinish

theorem extract_error (h : unit.scope x m = .error e) : unit.extract x m = .error e := by
  unfold extract
  rw [h]

theorem scope_error (h : unit.extract x m = .error e) : unit.scope x m = .error e := by
  unfold extract at h
  split at h
  · next hscope => rw [hscope, Except.error.inj h]
  · cases h

/-- A unit that fails leaves directories at most. -/
theorem deliver_fails (h : IsDue overwrite unit m l t) (hf : unit.Fails m l x t e y) :
    (unit.deliver (m := StateM FileTree) m l overwrite x).run t =
      (Report.failed y (unit.name m) (l.pathFor (unit.name m)) e,
        t.prepared (unit.target m l)) := by
  rw [deliver_due h]
  rcases TrapFile.create_cases t (unit.target m l) l.compression with
    ⟨e', hcreate⟩ | ⟨file, t', hcreate, htarget, hcompression, hd⟩
  · cases hf with
    | create hc =>
      obtain ⟨⟨⟩, rfl⟩ := Prod.mk.inj (hcreate.symm.trans hc)
      rw [hcreate]
    | scope hc | finish hc =>
      cases hcreate.symm.trans hc
  · rw [hcreate]
    simp only
    cases hf with
    | create hc => cases hcreate.symm.trans hc
    | scope hc hs =>
      rw [extractInto_eq hd, extract_error hs]
    | finish hc hx hfinish =>
      obtain ⟨⟨⟩, rfl⟩ := Prod.mk.inj (hcreate.symm.trans hc)
      rw [extractInto_eq hd, hx]
      rcases TrapFile.finish_cases hd _ with
        ⟨e', hfinished⟩ | ⟨place, -, -, hfinished⟩
      · obtain ⟨⟨⟩, rfl⟩ := Prod.mk.inj (hfinished.symm.trans hfinish)
        simp only [hfinish]
      · cases hfinished.symm.trans hfinish

/-- A delivery skips the unit, or fails, or puts its trap in place. -/
theorem deliver_delivered (overwrite : Bool) (unit : TrapUnit) (m : Model) (l : Layout)
    (x : Extractor) (t : FileTree) : Delivered overwrite unit m l x t
      ((unit.deliver (m := StateM FileTree) m l overwrite x).run t) := by
  by_cases h : IsDue overwrite unit m l t
  · rcases TrapFile.create_cases t (unit.target m l) l.compression with
      ⟨e, hcreate⟩ | ⟨file, t', hcreate, htarget, hcompression, hd⟩
    · have hf : unit.Fails m l x t (.io e) x := .create hcreate
      rw [deliver_fails h hf]
      exact .failed h hf
    · cases hx : unit.extract x m with
      | error e =>
        have hf : unit.Fails m l x t e x := .scope hcreate (scope_error hx)
        rw [deliver_fails h hf]
        exact .failed h hf
      | ok r =>
        obtain ⟨extraction, y⟩ := r
        rcases TrapFile.finish_cases hd extraction.trap with
          ⟨e, hfinish⟩ | ⟨place, hplace, hvacant, hfinish⟩
        · have hf : unit.Fails m l x t (.io e) y := .finish hcreate hx hfinish
          rw [deliver_fails h hf]
          exact .failed h hf
        · rw [htarget] at hplace
          rw [deliver_due h, hcreate]
          simp only [extractInto_eq hd, hx, hfinish, hcompression]
          exact .written h hx hplace hvacant
  · rw [deliver_skipped h]
    exact .skipped h

end TrapUnit

end TrapFacts
