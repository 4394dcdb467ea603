import TrapFacts.Proofs.Pool.Runs

/-! A unit in a pool that runs on its own does what it does outside of one. So no pool is stuck, and
the run over the units one after the other is among the runs of the pool. -/

namespace TrapFacts

variable {α β : Type} {m : Model} {l : Layout} {overwrite : Bool} {unit : TrapUnit}
  {x y : Extractor} {t t' : FileTree} {threads i : Nat}

namespace Task

/-- A task with no others between its operations. -/
def solo : Task α → StateM FileTree α
  | .done a => fun t => (a, t)
  | .call operation next => fun t =>
    let (answer, t) := operation.run.run t
    (next answer).solo.run t

theorem solo_bind (task : Task α) (f : α → Task β) :
    (task >>= f).solo = task.solo >>= fun a => (f a).solo := by
  funext t
  change (task.bind f).solo.run t = _
  induction task generalizing t with
  | done a => rfl
  | call operation next ih => exact ih _ _

theorem solo_bind_run (task : Task α) (f : α → Task β) (t : FileTree) :
    (task >>= f).solo.run t = (f (task.solo.run t).1).solo.run (task.solo.run t).2 := by
  rw [solo_bind]
  rfl

theorem solo_orExisting (directory : Path) (r : Except IoError FileTree) (t : FileTree) :
    (orExisting directory (FileCall.settle t r).1).solo.run (FileCall.settle t r).2 =
      t.orExisting directory r := by
  cases r with
  | ok t' => rfl
  | error e =>
    change (if t.containsDirectory directory then none else some e, t) = _
    rw [FileTree.orExisting]
    split <;> rfl

theorem solo_makeDirectory (path : Path) (t : FileTree) :
    (makeDirectory path).solo.run t = FileCall.settle t (t.makeDirectory path) :=
  rfl

theorem solo_makeDirectories (path : Path) (n : Nat) (t : FileTree) :
    (makeDirectories path n).solo.run t = t.makeDirectories path n := by
  induction n generalizing t with
  | zero => rfl
  | succ n ih =>
    rw [FileTree.makeDirectories, makeDirectories, solo_bind_run, solo_makeDirectory]
    cases hmake : t.makeDirectory (path.take (n + 1)) with
    | ok t' => rfl
    | error e =>
      by_cases he : e = .notFound
      · subst he
        refine (solo_bind_run _ _ t).trans ?_
        rw [ih]
        rcases t.makeDirectories path n with ⟨_ | e, t'⟩
        · refine (solo_bind_run _ _ t').trans ?_
          rw [solo_makeDirectory, solo_orExisting]
        · rfl
      · have hexisting := solo_orExisting (path.take (n + 1)) (.error e) t
        cases e with
        | notFound => exact absurd rfl he
        | _ => exact hexisting

end Task

/-- A file at work, seen from within a pool. -/
def TrapFile.pooled (f : TrapFile (StateM FileTree)) : TrapFile Task where
  target := f.target
  compression := f.compression
  draft := f.draft

theorem TrapFile.solo_create (target : Path) (c : Compression) :
    (create (m := Task) target c).solo =
      Except.map pooled <$> create (m := StateM FileTree) target c := by
  unfold create
  rw [Task.solo_bind, map_bind]
  have hmake : (FileStore.makeDirectories (m := Task) target.directory).solo =
      FileStore.makeDirectories (m := StateM FileTree) target.directory := by
    funext t
    exact Task.solo_makeDirectories _ _ t
  rw [hmake]
  refine bind_congr fun e => ?_
  cases e with
  | some e => rfl
  | none =>
    simp only
    rw [Task.solo_bind, map_bind]
    refine bind_congr fun r => ?_
    cases r with
    | error e => rfl
    | ok draft => rfl

theorem TrapFile.solo_finish (f : TrapFile (StateM FileTree)) (records : List Record) :
    (f.pooled.finish records).solo = f.finish records := by
  unfold finish
  rw [Task.solo_bind]
  refine bind_congr fun e => ?_
  cases e with
  | some e => rfl
  | none =>
    simp only
    rw [Task.solo_bind]
    refine bind_congr fun e => ?_
    cases e with
    | some e => rfl
    | none => rfl

theorem TrapUnit.solo_extractInto (unit : TrapUnit) (m : Model) (path : String)
    (f : TrapFile (StateM FileTree)) (x : Extractor) :
    (unit.extractInto m path f.pooled x).solo = unit.extractInto m path f x := by
  unfold extractInto
  cases unit.extract x m with
  | error e => rfl
  | ok r =>
    simp only
    rw [Task.solo_bind, f.solo_finish]
    refine bind_congr fun r => ?_
    cases r with
    | error e => rfl
    | ok _ => rfl

theorem TrapUnit.solo_deliver (unit : TrapUnit) (m : Model) (l : Layout) (overwrite : Bool)
    (x : Extractor) : (unit.deliver (m := Task) m l overwrite x).solo =
      unit.deliver (m := StateM FileTree) m l overwrite x := by
  unfold deliver
  rw [Task.solo_bind]
  refine bind_congr fun (found : Bool) => ?_
  split
  · rfl
  · rw [Task.solo_bind, TrapFile.solo_create, bind_map_left]
    refine bind_congr fun r => ?_
    cases r with
    | error e => rfl
    | ok f => exact unit.solo_extractInto m _ f x

/-- The messages of other units do not matter for what a unit does. -/
theorem TrapUnit.deliver_congr {f : Type → Type} [Monad f] [LawfulMonad f] [FileStore f]
    (unit : TrapUnit) (m : Model) (l : Layout) (overwrite : Bool) (hc : y.config = x.config)
    (hf : y.assemblyFile? = x.assemblyFile?) :
    Prod.fst <$> unit.deliver (m := f) m l overwrite y =
      Prod.fst <$> unit.deliver (m := f) m l overwrite x := by
  unfold deliver
  rw [map_bind, map_bind]
  refine bind_congr fun found => ?_
  split
  · simp only [map_pure]
  · rw [map_bind, map_bind]
    refine bind_congr fun r => ?_
    cases r with
    | error e =>
      simp only [map_pure]
      rfl
    | ok file =>
      unfold extractInto
      rcases unit.extract_alike m hc hf with
        ⟨e, hy, hx⟩ | ⟨extraction, y', x', hy, hx⟩
      · rw [hy, hx]
        simp only [map_bind, map_pure]
        rfl
      · rw [hy, hx]
        simp only [map_bind]
        refine bind_congr fun r => ?_
        cases r with
        | error e =>
          simp only [map_pure]
          rfl
        | ok _ => simp only [map_pure]

theorem TrapUnit.solo_deliveryTask (unit : TrapUnit) (m : Model) (l : Layout) (overwrite : Bool)
    (x : Extractor) : (unit.deliveryTask m l overwrite x).solo =
      Prod.fst <$> unit.deliver (m := StateM FileTree) m l overwrite x := by
  unfold deliveryTask
  rw [Task.solo_bind, unit.solo_deliver, map_eq_pure_bind]
  rfl

namespace Pool

variable {s : Pool α} {task : Task α} {begun : Bool}

/-- A unit that is given turn after turn gets done, and the others stay as they are. -/
theorem run_solo (hw : s.workers[i]? = some ⟨task, begun⟩)
    (hfree : begun = true ∨ s.hasThread threads = true) : ∃ turns begun',
      s.run threads (List.replicate turns i) =
        { workers := s.workers.set i ⟨.done (task.solo.run s.tree).1, begun'⟩
          tree := (task.solo.run s.tree).2 } := by
  induction task generalizing s begun with
  | done a =>
    obtain ⟨_, heq⟩ := List.getElem?_eq_some_iff.1 hw
    refine ⟨0, begun, ?_⟩
    change s = { workers := s.workers.set i ⟨.done a, begun⟩, tree := s.tree }
    rw [← heq, List.set_getElem_self]
  | call operation next ih =>
    have hi : i < s.workers.length := (List.getElem?_eq_some_iff.1 hw).1
    have hadvance : s.advance threads i =
        { workers := s.workers.set i ⟨next (operation.run.run s.tree).1, true⟩
          tree := (operation.run.run s.tree).2 } := by
      unfold advance
      rw [hw]
      simp only [Bool.or_eq_true, hfree, if_true]
      rfl
    obtain ⟨turns, begun', hrun⟩ := ih (operation.run.run s.tree).1
      (s := s.advance threads i) (by rw [hadvance, List.getElem?_set_self hi]) (.inl rfl)
    refine ⟨turns + 1, begun', ?_⟩
    rw [List.replicate_succ, run_cons, hrun, hadvance, List.set_set]
    rfl

/-- While not all units are done, one of them can go on. -/
theorem exists_free {w : Worker α} (hmem : w ∈ s.workers) (hw : w.task.result? = none) :
    ∃ (i : Nat) (task : Task α) (begun : Bool), s.workers[i]? = some ⟨task, begun⟩ ∧
      task.result? = none ∧ (begun = true ∨ s.hasThread threads = true) := by
  by_cases hbusy : ∃ w ∈ s.workers, w.isBusy = true
  · obtain ⟨w, hmem, hbusy⟩ := hbusy
    obtain ⟨i, hi⟩ := List.mem_iff_getElem?.1 hmem
    simp only [Worker.isBusy, Bool.and_eq_true, Option.isNone_iff_eq_none] at hbusy
    exact ⟨i, w.task, w.begun, hi, hbusy.2, .inl hbusy.1⟩
  · -- Nobody holds a thread.
    have hcount : s.workers.countP (·.isBusy) = 0 :=
      List.countP_eq_zero.2 fun w hmem hw => hbusy ⟨w, hmem, hw⟩
    obtain ⟨i, hi⟩ := List.mem_iff_getElem?.1 hmem
    refine ⟨i, w.task, w.begun, hi, hw, .inr ?_⟩
    simp [hasThread, hcount, Nat.pos_iff_ne_zero]

/-- Whatever the units have done so far, all can be brought to an end. -/
theorem exists_results (threads : Nat) (s : Pool α) :
    ∃ schedule rs, (s.run threads schedule).results? = some rs := by
  induction hn : s.workers.countP (·.task.result?.isNone) using Nat.strongRecOn generalizing s with
  | ind n ih =>
    by_cases hdone : ∃ w ∈ s.workers, w.task.result? = none
    · obtain ⟨w, hmem, hw⟩ := hdone
      obtain ⟨i, task, begun, hi, htask, hfree⟩ := exists_free hmem hw
      obtain ⟨turns, begun', hrun⟩ := run_solo hi hfree
      obtain ⟨hlt, heq⟩ := List.getElem?_eq_some_iff.1 hi
      have hpos : 0 < s.workers.countP (·.task.result?.isNone) :=
        List.countP_pos_iff.2 ⟨_, List.mem_of_getElem? hi, by simp [htask]⟩
      have hcount : (s.run threads (List.replicate turns i)).workers.countP
          (·.task.result?.isNone) = n - 1 := by
        rw [hrun, List.countP_set hlt, heq]
        simp [htask, hn]
      obtain ⟨schedule, rs, hrs⟩ := ih (n - 1) (by omega) _ hcount
      refine ⟨List.replicate turns i ++ schedule, rs, ?_⟩
      rw [run_append, hrs]
    · have hall : ∀ w ∈ s.workers, ∃ r, w.task.result? = some r := fun w hmem =>
        Option.ne_none_iff_exists'.1 fun hw => hdone ⟨w, hmem, hw⟩
      choose r hr using hall
      refine ⟨[], s.workers.pmap r fun _ => id, results?_eq_some.2 ?_⟩
      rw [List.map_pmap, ← List.pmap_eq_map (fun _ => id)]
      exact List.pmap_congr_left _ fun w _ hmem _ => hr w hmem

end Pool

/-- Units that are done leave a thread to the next one. -/
theorem Pool.hasThread_of_done {ws : List (Worker Report)} {rs : List Report}
    {tasks : List (Task Report)} (hws : ws.map Worker.task = rs.map Task.done) :
    hasThread threads { start tasks t with workers := ws ++ (start tasks t).workers } = true := by
  have hcount : (ws ++ (start tasks t).workers).countP (·.isBusy) = 0 := by
    rw [List.countP_eq_zero]
    intro w hmem hbusy
    rcases List.mem_append.1 hmem with hmem | hmem
    · obtain ⟨r, -, hr⟩ := List.mem_map.1 (hws ▸ List.mem_map_of_mem (f := Worker.task) hmem)
      simp [Worker.isBusy, ← hr] at hbusy
    · obtain ⟨task, -, rfl⟩ := List.mem_map.1 hmem
      cases hbusy
  simp [hasThread, hcount, Nat.pos_iff_ne_zero]

/-- Units take their turns one after the other, when those before them are done. -/
theorem Pool.run_inOrder (threads : Nat) (units : List TrapUnit) (ws : List (Worker Report))
    (rs : List Report) (hws : ws.map Worker.task = rs.map Task.done) (hc : y.config = x.config)
    (hf : y.assemblyFile? = x.assemblyFile?) (t : FileTree) : ∃ schedule,
    let waiting := start (units.map fun unit => unit.deliveryTask m l overwrite x) t
    let s := run threads schedule { waiting with workers := ws ++ waiting.workers }
    let r := (deliverAll (m := StateM FileTree) m l overwrite units y).run t
    s.results? = some (rs ++ r.1.1) ∧ s.tree = r.2 := by
  induction units generalizing ws rs y t with
  | nil =>
    have hresults := congrArg (List.map Task.result?) hws
    rw [List.map_map, List.map_map] at hresults
    refine ⟨[], results?_eq_some.2 ?_, rfl⟩
    change (ws ++ []).map (Task.result? ∘ Worker.task) = (rs ++ []).map (Task.result? ∘ .done)
    rw [List.append_nil, List.append_nil, hresults]
  | cons unit units ih =>
    let r := (unit.deliver (m := StateM FileTree) m l overwrite y).run t
    have hsolo : (unit.deliveryTask m l overwrite x).solo.run t = (r.1.1, r.2) := by
      rw [unit.solo_deliveryTask, ← unit.deliver_congr m l overwrite hc hf]
      rfl
    obtain ⟨hc', hf'⟩ := (unit.deliver_delivered overwrite m l y t).settings
    let waiting := start ((unit :: units).map fun unit => unit.deliveryTask m l overwrite x) t
    have hw : (ws ++ waiting.workers)[ws.length]? =
        some ⟨unit.deliveryTask m l overwrite x, false⟩ := by
      simp [waiting, start]
    obtain ⟨turns, begun, hrun⟩ :=
      run_solo (s := { waiting with workers := ws ++ waiting.workers }) hw
        (.inr (hasThread_of_done hws))
    have hfirst : run threads (List.replicate turns ws.length)
          { waiting with workers := ws ++ waiting.workers } =
        let rest := start (units.map fun unit => unit.deliveryTask m l overwrite x) r.2
        { rest with workers := ws ++ [⟨.done r.1.1, begun⟩] ++ rest.workers } := by
      rw [hrun]
      dsimp only
      rw [show waiting.tree = t from rfl, hsolo]
      simp [waiting, start]
    obtain ⟨schedule, hresults, htree⟩ := ih (ws ++ [⟨.done r.1.1, begun⟩]) (rs ++ [r.1.1])
      (by simp [hws]) (hc'.trans hc) (hf'.trans hf) r.2
    refine ⟨List.replicate turns ws.length ++ schedule, ?_⟩
    intro _ s
    have hs : s = run threads schedule _ := (run_append _ _ _).trans (congrArg _ hfirst)
    rw [List.append_assoc rs] at hresults
    rw [hs]
    exact ⟨hresults, htree⟩

/-- The run over the units one after the other is one of the runs of a pool. -/
theorem extractAll_inPool (x : Extractor) (m : Model) (units : List TrapUnit) (l : Layout)
    (output : OutputConfig) (t : FileTree) : ∃ schedule,
      let s := extractInPool x m units l output schedule t
      let run := (extractAll (m := StateM FileTree) x m units l output).run t
      s.results? = some run.1.1 ∧ s.tree = run.2 := by
  exact Pool.run_inOrder output.threads units [] [] rfl rfl rfl t

end TrapFacts
