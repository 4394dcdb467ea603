import Mathlib.Data.List.Induction
import TrapFacts.Proofs.Engine.Numbered
import TrapFacts.Proofs.Unit.Labelled

/-! Expanded keys: what a label of a trap says once its own labels are spelled out. -/

namespace TrapFacts

variable {m : Model} {scope : Scope} {cx : Context} {key : Key} {l : Label} {f g : Label → Key}
  {rs rs' : List Record}

namespace Key

/-- The key with each label replaced by the key that it stands for. -/
def expand (f : Label → Key) : Key → Key
  | nil => nil
  | text s r => text s (r.expand f)
  | int n r => int n (r.expand f)
  | label l r => nest (f l) (r.expand f)
  | nest k r => nest (k.expand f) (r.expand f)

/-- An expansion depends on the labels of the key alone. -/
theorem expand_congr (h : ∀ l ∈ key.labels, f l = g l) : key.expand f = key.expand g := by
  induction key with
  | nil => rfl
  | text _ _ ih | int _ _ ih => simp only [expand, ih h]
  | label l r ih =>
    simp only [expand, h l List.mem_cons_self, ih fun l hl => h l (List.mem_cons_of_mem _ hl)]
  | nest k r ihk ihr =>
    simp only [expand, ihk fun l hl => h l (List.mem_append_left _ hl),
      ihr fun l hl => h l (List.mem_append_right _ hl)]

/-- A key is expanded part by part. -/
theorem expand_append (f : Label → Key) (k k' : Key) :
    (k ++ k').expand f = k.expand f ++ k'.expand f := by
  change (k.append k').expand f = (k.expand f).append (k'.expand f)
  induction k with
  | nil => rfl
  | _ => simp_all [append, expand]

theorem expand_join (f : Label → Key) (sep : String) (ks : List Key) :
    (join sep ks).expand f = join sep (ks.map (expand f)) := by
  fun_induction join sep ks with
  | case1 => rfl
  | case2 => rfl
  | case3 k ks hne ih =>
    obtain ⟨k', ks, rfl⟩ := List.exists_cons_of_ne_nil hne
    rw [expand_append]
    simp only [expand, ih]
    rfl

end Key

theorem Span.expand_key (f : Label → Key) (s : Span) : s.key.expand f = s.key := by
  simp [key, Key.expand_join, numbers, Key.expand]

/-- What a record adds to what is known of the labels before it. -/
def Record.learn (known : Label → Key) : Record → Label → Key
  | define l key => fun l' => if l' = l then key.expand known else known l'
  | _ => known

/-- What the labels of a trap say: the key of each, with the labels in it spelled out in turn. -/
def expandedKey (trap : List Record) : Label → Key :=
  trap.foldl Record.learn fun _ => .nil

@[simp] theorem expandedKey_snoc (rs : List Record) (r : Record) :
    expandedKey (rs ++ [r]) = r.learn (expandedKey rs) :=
  List.foldl_append

theorem Record.learn_of_ne {r : Record} (h : r.introduced? ≠ some l) : r.learn f l = f l := by
  cases r with
  | define l' key => exact if_neg fun heq => h (congrArg some heq.symm)
  | _ => rfl

/-- What is said later does not change what a label says. -/
theorem expandedKey_append (h : ∀ r ∈ rs', r.introduced? ≠ some l) :
    expandedKey (rs ++ rs') l = expandedKey rs l := by
  induction rs' using List.reverseRecOn with
  | nil => rw [List.append_nil]
  | append_singleton rs' r ih =>
    rw [← List.append_assoc, expandedKey_snoc, Record.learn_of_ne (h r (by simp))]
    exact ih fun r hr => h r (by simp [hr])

/-- Where labels are introduced once, and mentioned only after that, what a label says is its key
with every label in it replaced by what that one says. -/
theorem expandedKey_define (hs : Scoped rs) (hn : (rs.filterMap Record.introduced?).Nodup)
    (h : .define l key ∈ rs) : expandedKey rs l = key.expand (expandedKey rs) := by
  obtain ⟨before, after, rfl⟩ := List.append_of_mem h
  rw [List.filterMap_append, List.nodup_append] at hn
  obtain ⟨-, hafter, hapart⟩ := hn
  have hlater : ∀ r ∈ after, r.introduced? ≠ some l := by
    intro r hr hi
    refine (List.nodup_cons.1 hafter).1 ?_
    exact List.mem_filterMap.2 ⟨r, hr, hi⟩
  have hearlier : ∀ l' ∈ key.labels,
      expandedKey before l' = expandedKey (before ++ .define l key :: after) l' := by
    intro l' hl'
    obtain ⟨key', hk'⟩ := (hs before _ after rfl).1 l' hl'
    refine (expandedKey_append fun r hr hi => ?_).symm
    exact hapart l' (List.mem_filterMap.2 ⟨_, hk', rfl⟩) l' (List.mem_filterMap.2 ⟨r, hr, hi⟩) rfl
  calc expandedKey (before ++ .define l key :: after) l
      = expandedKey ((before ++ [.define l key]) ++ after) l := by rw [List.append_assoc]; rfl
    _ = expandedKey (before ++ [.define l key]) l := expandedKey_append hlater
    _ = key.expand (expandedKey before) := by rw [expandedKey_snoc]; exact if_pos rfl
    _ = key.expand (expandedKey (before ++ .define l key :: after)) := Key.expand_congr hearlier

namespace Numbered

/-- A label is introduced after the labels in its key. -/
theorem label_lt {l' : Label} (h : Numbered cx) (hs : Scoped cx.trap) (hd : .define l key ∈ cx.trap)
    (hl' : l' ∈ key.labels) : l'.number < l.number := by
  obtain ⟨before, after, hsplit⟩ := List.append_of_mem hd
  obtain ⟨key', hk'⟩ := (hs before _ after hsplit).1 l' hl'
  have hsorted : (cx.trap.filterMap Record.introduced?).Pairwise
      fun a b => a.number < b.number := by
    rw [h.labels, List.pairwise_map]
    exact List.pairwise_lt_range.imp fun hlt => Nat.succ_lt_succ hlt
  rw [hsplit, List.filterMap_append, List.pairwise_append] at hsorted
  exact hsorted.2.2 l' (List.mem_filterMap.2 ⟨_, hk', rfl⟩) l List.mem_cons_self

end Numbered

end TrapFacts
