import Mathlib.Data.List.Infix
import TrapFacts.File.Tree

/-! What is at the places of a tree, and what a change at one place leaves as it was. -/

namespace TrapFacts

variable {f g : Option FileNode → Option FileNode} {name other : String} {dir ns ms : List String}
  {es : List (String × FileNode)} {node node' root : FileNode} {t t' : FileTree} {p q : Place}
  {e : Kind} {c : Content}

/-- What there can be at a place. Of a directory it is left open what it holds. -/
inductive Kind where
  | directory
  | file (content : Content)

namespace FileNode

def kind : FileNode → Kind
  | directory _ => .directory
  | file content => .file content

theorem lookup_cons_ne (h : other ≠ name) :
    ((name, node) :: es).lookup other = es.lookup other := by
  have hne : (other == name) = false := by simpa using h
  rw [List.lookup_cons, hne]

theorem lookup_filter_ne (h : other ≠ name) :
    (es.filter (·.1 ≠ name)).lookup other = es.lookup other := by
  induction es with
  | nil => rfl
  | cons e es ih =>
    obtain ⟨name', node⟩ := e
    by_cases heq : name' = name
    · rw [List.filter_cons_of_neg (by simp [heq]), ih, lookup_cons_ne (heq ▸ h)]
    · rw [List.filter_cons_of_pos (by simp [heq])]
      by_cases hother : other = name'
      · subst hother
        simp only [List.lookup_cons_self]
      · rw [lookup_cons_ne hother, lookup_cons_ne hother, ih]

theorem lookup_alterEntry_ne (h : other ≠ name) :
    (alterEntry f name es).lookup other = es.lookup other := by
  induction es with
  | nil =>
    rw [alterEntry]
    cases f none with
    | none => rfl
    | some node => exact lookup_cons_ne h
  | cons e es ih =>
    obtain ⟨name', node⟩ := e
    rw [alterEntry]
    split
    · next heq =>
      subst heq
      rw [lookup_cons_ne h]
      split
      · exact lookup_cons_ne h
      · exact lookup_filter_ne h
    · by_cases heq : other = name'
      · subst heq
        simp only [List.lookup_cons_self]
      · rw [lookup_cons_ne heq, lookup_cons_ne heq, ih]

/-- What a name stands for after a change. -/
theorem lookup_alterEntry (f : Option FileNode → Option FileNode) (name : String)
    (es : List (String × FileNode)) :
    (alterEntry f name es).lookup name = f (es.lookup name) := by
  induction es with
  | nil => cases h : f none <;> simp [alterEntry, h]
  | cons e es ih =>
    obtain ⟨name', node⟩ := e
    by_cases heq : name' = name
    · subst heq
      rw [alterEntry, if_pos rfl, List.lookup_cons_self]
      split
      · next h => rw [List.lookup_cons_self, h]
      · next h =>
        rw [h, List.lookup_eq_none_iff]
        intro e he
        have hne : e.1 ≠ name' := by simpa using (List.mem_filter.1 he).2
        simpa using hne.symm
    · rw [alterEntry, if_neg heq, lookup_cons_ne (Ne.symm heq), lookup_cons_ne (Ne.symm heq), ih]

theorem alterEntry_self (h : f (es.lookup name) = es.lookup name) : alterEntry f name es = es := by
  induction es with
  | nil =>
    rw [List.lookup_nil] at h
    simp [alterEntry, h]
  | cons e es ih =>
    obtain ⟨name', node'⟩ := e
    by_cases heq : name' = name
    · subst heq
      rw [List.lookup_cons_self] at h
      simp [alterEntry, h]
    · rw [lookup_cons_ne (Ne.symm heq)] at h
      rw [alterEntry, if_neg heq, ih h]

theorem alterEntry_alterEntry (hg : ∀ node, (g (some node)).isSome) :
    alterEntry f name (alterEntry g name es) = alterEntry (fun node? => f (g node?)) name es := by
  induction es with
  | nil =>
    cases hnone : g none with
    | none => simp [alterEntry, hnone]
    | some node => cases hf : f (some node) <;> simp [alterEntry, hnone, hf]
  | cons e es ih =>
    obtain ⟨name', node'⟩ := e
    by_cases heq : name' = name
    · subst heq
      obtain ⟨node, hnode⟩ := Option.isSome_iff_exists.1 (hg node')
      simp [alterEntry, hnode]
    · simp [alterEntry, heq, ih]

theorem alter_cons (h : ns ≠ []) :
    alter f (name :: ns) (directory es) =
      directory (alterEntry (Option.map (alter f ns)) name es) := by
  obtain ⟨n, ns, rfl⟩ := List.exists_cons_of_ne_nil h
  rfl

theorem find?_append : find? (ns ++ ms) node = (find? ns node).bind (find? ms) := by
  induction ns generalizing node with
  | nil => simp [find?]
  | cons name ns ih =>
    cases node with
    | file c => rfl
    | directory es =>
      cases h : es.lookup name with
      | none => simp [find?, h]
      | some child => simp [find?, h, ih]

/-- What is at a changed place and below it. -/
theorem find?_alter (f : Option FileNode → Option FileNode)
    (h : find? dir root = some (directory es)) (name : String) (ms : List String) :
    find? (dir ++ name :: ms) (alter f (dir ++ [name]) root) =
      (f (es.lookup name)).bind (find? ms) := by
  induction dir generalizing root with
  | nil =>
    obtain rfl := Option.some.inj h
    simp [alter, find?, lookup_alterEntry]
  | cons d dir ih =>
    cases root with
    | file c => cases h
    | directory es' =>
      rw [find?] at h
      obtain ⟨child, hchild, hdir⟩ := Option.bind_eq_some_iff.1 h
      rw [List.cons_append, List.cons_append, alter_cons (by simp), find?, lookup_alterEntry,
        hchild]
      exact ih hdir

/-- A change somewhere does not show at places that are not below. -/
theorem kind_alter (h : ¬ ns <+: ms) :
    (find? ms (alter f ns node)).map kind = (find? ms node).map kind := by
  induction ns generalizing ms node with
  | nil => exact absurd List.nil_prefix h
  | cons name ns ih =>
    cases node with
    | file c => cases ns <;> rfl
    | directory es =>
      cases ms with
      | nil => cases ns <;> rfl
      | cons m ms =>
        by_cases heq : m = name
        · subst heq
          have hrest : ¬ ns <+: ms := fun hp => h (List.cons_prefix_cons.2 ⟨rfl, hp⟩)
          have hns : ns ≠ [] := by
            rintro rfl
            exact hrest List.nil_prefix
          rw [alter_cons hns]
          cases hlook : es.lookup m with
          | none =>
            rw [alterEntry_self (by rw [hlook]; rfl)]
          | some child =>
            simp only [find?, lookup_alterEntry, hlook, Option.map_some, Option.bind_some, ih hrest]
        · cases ns with
          | nil => simp only [alter, find?, lookup_alterEntry_ne heq]
          | cons n ns =>
            simp only [alter_cons (List.cons_ne_nil n ns), find?, lookup_alterEntry_ne heq]

/-- A change that makes nothing of nothing has no effect where nothing is. -/
theorem alter_of_none (h : find? ns node = none) (hf : f none = none) : alter f ns node = node := by
  induction ns generalizing node with
  | nil => cases h
  | cons name ns ih =>
    cases node with
    | file c => cases ns <;> rfl
    | directory es =>
      cases ns with
      | nil =>
        have hnone : es.lookup name = none := by simpa [find?] using h
        rw [alter, alterEntry_self (by rw [hnone, hf])]
      | cons n ns =>
        rw [alter_cons (List.cons_ne_nil n ns), alterEntry_self]
        cases hlook : es.lookup name with
        | none => rfl
        | some child =>
          rw [find?, hlook] at h
          rw [Option.map_some, ih h]

/-- A change after something was put in place is a change of what was put there. -/
theorem alter_alter (node' : FileNode) :
    alter f ns (alter (fun _ => some node') ns node) = alter (fun _ => f (some node')) ns node := by
  induction ns generalizing node with
  | nil => rfl
  | cons name ns ih =>
    cases node with
    | file c => cases ns <;> rfl
    | directory es =>
      cases ns with
      | nil =>
        rw [alter, alter, alter, alterEntry_alterEntry fun _ => rfl]
      | cons n ns =>
        have hne : n :: ns ≠ [] := List.cons_ne_nil n ns
        rw [alter_cons hne, alter_cons hne, alter_cons hne, alterEntry_alterEntry fun _ => rfl]
        congr 2
        funext node?
        cases node? with
        | none => rfl
        | some child => exact congrArg some ih

end FileNode

namespace FileTree

/-- What is at a place, of a directory only that it is one. -/
def kind? (t : FileTree) (p : Place) : Option Kind :=
  (t.at? p).map FileNode.kind

theorem kind?_file : t.kind? p = some (.file c) ↔ t.at? p = some (.file c) := by
  rw [kind?, Option.map_eq_some_iff]
  constructor
  · rintro ⟨node, hnode, hkind⟩
    cases node with
    | directory es => cases hkind
    | file c' =>
      cases hkind
      exact hnode
  · intro h
    exact ⟨_, h, rfl⟩

theorem kind?_directory : t.kind? p = some .directory ↔ ∃ es, t.at? p = some (.directory es) := by
  rw [kind?, Option.map_eq_some_iff]
  constructor
  · rintro ⟨node, hnode, hkind⟩
    cases node with
    | directory es => exact ⟨es, hnode⟩
    | file c => cases hkind
  · rintro ⟨es, h⟩
    exact ⟨_, h, rfl⟩

theorem kind?_none : t.kind? p = none ↔ t.at? p = none :=
  Option.map_eq_none_iff

/-- A place below another is looked up from there. -/
theorem at?_append (p q : Place) : t.at? (q ++ p) = (t.at? p).bind (FileNode.find? q.reverse) := by
  rw [at?, at?, List.reverse_append, FileNode.find?_append]

/-- Whatever there is, is in a directory. -/
theorem kind?_parent (h : t.kind? (name :: p) = some e) : t.kind? p = some .directory := by
  obtain ⟨node, hnode, -⟩ := Option.map_eq_some_iff.1 h
  have happ := t.at?_append p [name]
  rw [List.singleton_append, hnode] at happ
  obtain ⟨parent, hparent, hfind⟩ := Option.bind_eq_some_iff.1 happ.symm
  cases parent with
  | file c => cases hfind
  | directory es => exact kind?_directory.2 ⟨es, hparent⟩

/-- Below what is no directory there is nothing. -/
theorem kind?_below {n : String} (h : t.kind? p ≠ some .directory) (q : Place) :
    t.kind? (q ++ n :: p) = none := by
  induction q with
  | nil =>
    cases hn : t.kind? (n :: p) with
    | none => exact hn
    | some e => exact absurd (kind?_parent hn) h
  | cons m q ih =>
    cases hm : t.kind? (m :: q ++ n :: p) with
    | none => rfl
    | some e =>
      cases ih.symm.trans (kind?_parent hm)

theorem put_put (p : Place) (node node' : FileNode) :
    (t.put p node).put p node' = t.put p node' := by
  simp only [put, FileNode.alter_alter]

/-- What was put where nothing was is erased without a trace. -/
theorem erase_put (h : t.at? p = none) (node : FileNode) : (t.put p node).erase p = t := by
  simp only [put, erase, FileNode.alter_alter, FileNode.alter_of_none h]

theorem at?_put (h : t.kind? p = some .directory) (name : String) (node : FileNode) (q : Place) :
    (t.put (name :: p) node).at? (q ++ name :: p) = node.find? q.reverse := by
  obtain ⟨es, hes⟩ := kind?_directory.1 h
  simp only [at?, put, List.reverse_append, List.reverse_cons, List.append_assoc,
    List.singleton_append]
  exact FileNode.find?_alter (fun _ => some node) hes name q.reverse

/-- What is put at a place changes nothing beside it. -/
theorem kind?_put_other (h : ¬ p <:+ q) (node : FileNode) :
    (t.put p node).kind? q = t.kind? q :=
  FileNode.kind_alter fun hp => h (List.reverse_prefix.1 hp)

/-- Nothing changes but what is at the place where a file, or an empty directory, is put. -/
theorem kind?_put (h : t.kind? p = some .directory) (hn : t.kind? (name :: p) ≠ some .directory)
    (hleaf : ∀ n ns, node.find? (n :: ns) = none) :
    (t.put (name :: p) node).kind? q =
      if q = name :: p then some node.kind else t.kind? q := by
  by_cases hq : name :: p <:+ q
  · obtain ⟨above, rfl⟩ := hq
    rcases List.eq_nil_or_concat above with rfl | ⟨above, n, rfl⟩
    · rw [List.nil_append, if_pos rfl, kind?]
      have hput := at?_put h name node []
      rw [List.nil_append] at hput
      rw [hput]
      rfl
    · have hne : above ++ [n] ++ name :: p ≠ name :: p := by
        intro heq
        have hlength := congrArg List.length heq
        simp at hlength
        omega
      rw [List.concat_eq_append, if_neg hne, kind?, at?_put h name node, List.reverse_append,
        List.append_assoc, List.singleton_append, kind?_below hn]
      exact congrArg _ (hleaf _ _)
  · rw [kind?_put_other hq, if_neg]
    rintro rfl
    exact hq (List.suffix_refl _)

/-- Nothing changes but that a file is not there any more. -/
theorem kind?_erase (h : t.kind? (name :: p) = some (.file c)) (q : Place) :
    (t.erase (name :: p)).kind? q = if q = name :: p then none else t.kind? q := by
  by_cases hq : name :: p <:+ q
  · obtain ⟨above, rfl⟩ := hq
    obtain ⟨es, hes⟩ := kind?_directory.1 (kind?_parent h)
    have hgone : (t.erase (name :: p)).kind? (above ++ name :: p) = none := by
      rw [kind?_none]
      simp only [at?, erase, List.reverse_append, List.reverse_cons, List.append_assoc,
        List.singleton_append]
      exact FileNode.find?_alter (fun _ => none) hes name above.reverse
    rw [hgone]
    split
    · rfl
    · next hne =>
      rcases List.eq_nil_or_concat above with rfl | ⟨above, n, rfl⟩
      · exact absurd rfl hne
      · rw [List.concat_eq_append, List.append_assoc, List.singleton_append]
        exact (kind?_below (by rw [h]; rintro ⟨⟩) above).symm
  · have hne : q ≠ name :: p := by
      rintro rfl
      exact hq (List.suffix_refl _)
    rw [if_neg hne]
    exact FileNode.kind_alter fun hp => hq (List.reverse_prefix.1 hp)

end FileTree

end TrapFacts
