import TrapFacts.Proofs.Unit.Keys

/-! What identifies an entity, and that its key tells just that. -/

namespace List

variable {α : Type} {a : α} {xs xs' ys ys' zs sep : List α}

/-- A separator that does not occur behind tells what stands before it and what behind. -/
theorem append_cons_inj_right (h : xs ++ a :: ys = xs' ++ a :: ys') (hy : a ∉ ys) (hy' : a ∉ ys') :
    xs = xs' ∧ ys = ys' := by
  have hreverse : ys.reverse ++ a :: xs.reverse = ys'.reverse ++ a :: xs'.reverse := by
    simpa using congrArg reverse h
  obtain ⟨hys, hxs⟩ := append_cons_inj_left hreverse (by simpa using hy) (by simpa using hy')
  exact ⟨reverse_inj.1 hxs, reverse_inj.1 hys⟩

/-- A separating text whose first element comes back nowhere in it cannot overlap itself. -/
theorem eq_nil_of_separator (ha : a ∉ sep) (h : a :: sep ++ ys = zs ++ (a :: sep ++ ys'))
    (hz : ¬ a :: sep <:+: zs) : zs = [] := by
  cases zs with
  | nil => rfl
  | cons z zs =>
    obtain ⟨rfl, htail⟩ := cons.inj h
    rcases append_eq_append_iff.1 htail with ⟨w, rfl, -⟩ | ⟨w, rfl, hw⟩
    · exact absurd ⟨[], w, rfl⟩ hz
    · cases w with
      | nil => exact absurd ⟨[], [], by simp⟩ hz
      | cons b w =>
        obtain ⟨rfl, -⟩ := cons.inj hw
        exact absurd (by simp) ha

/-- So what stands before its first occurrence is told, and what behind. -/
theorem append_separator_inj (ha : a ∉ sep)
    (h : xs ++ (a :: sep ++ ys) = xs' ++ (a :: sep ++ ys')) (hx : ¬ a :: sep <:+: xs)
    (hx' : ¬ a :: sep <:+: xs') : xs = xs' ∧ ys = ys' := by
  rcases append_eq_append_iff.1 h with ⟨zs, rfl, hz⟩ | ⟨zs, rfl, hz⟩
  · obtain rfl := eq_nil_of_separator ha hz fun h => hx' (h.trans (suffix_append xs zs).isInfix)
    exact ⟨(append_nil xs).symm, append_cancel_left hz⟩
  · obtain rfl := eq_nil_of_separator ha hz fun h => hx (h.trans (suffix_append xs' zs).isInfix)
    exact ⟨append_nil xs', (append_cancel_left hz).symm⟩

end List

namespace TrapFacts

variable {en en' : Entity} {l l' : Label} {ls ls' : List Label} {s s' : List Char}

/-- What tells an entity from the others of a trap. -/
inductive Identity where
  | file (path : String)
  | place (file : Label) (span : Span)
  /-- The place of what was generated. -/
  | generated (file : Label)
  | assembly (name path : String)
  | space (parent : Option Label) (name : String)
  | constructed (definition : Label) (arguments : List Label)
  | type (parent : Option Label) (name : String)
  | pointer (pointee : Label)
  | method (declaring : Label) (name : String) (parameters : List Label)
  deriving DecidableEq

namespace Entity

/-- What identifies an entity. Of one of which only the outward features are known, nothing is. -/
def identity? : Entity → Option Identity
  | file path => some (.file path)
  | location f (some span) => some (.place f span)
  | location f none => some (.generated f)
  | assembly name path _ => some (.assembly name (trimSlashes path))
  | space _ name parent => some (.space parent name)
  | namedType t =>
    match t.definition with
    | some definition => some (.constructed definition t.arguments)
    | none => some (.type t.parent? t.name)
  | pointer _ pointee => some (.pointer pointee)
  | method m => some (.method m.declaring m.name m.parameters)
  | custom _ => none

end Entity

namespace Key

@[simp] theorem render_append (k k' : Key) : (k ++ k').render = k.render ++ k'.render := by
  change (k.append k').render = k.render ++ k'.render
  induction k with
  | nil => simp [append, render]
  | _ => simp_all [append, render, String.append_assoc]

end Key

namespace Label

/-- A label as it stands in keys. -/
def braced (l : Label) : List Char :=
  '\x7b' :: (l.text.toList ++ ['\x7d'])

theorem braced_inj (h : l.braced ++ s = l'.braced ++ s') : l = l' ∧ s = s' := by
  have htext : l.text.toList ++ '\x7d' :: s = l'.text.toList ++ '\x7d' :: s' := by
    simpa [braced] using h
  obtain ⟨hl, hs⟩ := List.append_cons_inj_left htext l.brace_notMem_text l'.brace_notMem_text
  exact ⟨text_inj (String.toList_inj.1 hl), hs⟩

theorem braced_eq (l : Label) : ∃ cs, l.braced = '\x7b' :: '#' :: cs :=
  ⟨_, by rw [braced, text, String.toList_append]; rfl⟩

/-- What does not begin like a label in braces is not taken for one, whatever follows it. -/
theorem braced_ne (h : ¬ ['\x7b', '#'] <+: s) (cs cs' : List Char) :
    l.braced ++ cs ≠ s ++ ';' :: cs' := by
  obtain ⟨ds, hl⟩ := l.braced_eq
  rw [hl]
  intro heq
  rcases s with _ | ⟨c, _ | ⟨d, s⟩⟩
  · cases (List.cons.inj heq).1
  · cases (List.cons.inj (List.cons.inj heq).2).1
  · obtain ⟨rfl, htail⟩ := List.cons.inj heq
    obtain ⟨rfl, -⟩ := List.cons.inj htail
    exact h ⟨s, rfl⟩

/-- Labels with a comma before each. -/
def following (ls : List Label) : List Char :=
  ls.flatMap fun l => ',' :: l.braced

/-- Lists of labels are told apart by their text, as no label's text has a brace in it. -/
theorem following_inj (h : following ls = following ls') : ls = ls' := by
  induction ls generalizing ls' with
  | nil =>
    cases ls' with
    | nil => rfl
    | cons l' ls' => cases h
  | cons l ls ih =>
    cases ls' with
    | nil => cases h
    | cons l' ls' =>
      have htail : l.braced ++ following ls = l'.braced ++ following ls' := (List.cons.inj h).2
      obtain ⟨rfl, hls⟩ := braced_inj htail
      rw [ih hls]

def listed : List Label → List Char
  | [] => []
  | l :: ls => l.braced ++ following ls

theorem listed_inj (h : listed ls = listed ls') : ls = ls' := by
  cases ls with
  | nil =>
    cases ls' with
    | nil => rfl
    | cons l' ls' => cases h
  | cons l ls =>
    cases ls' with
    | nil => cases h
    | cons l' ls' =>
      obtain ⟨rfl, hls⟩ := braced_inj h
      rw [following_inj hls]

theorem listed_cons_cons (l l' : Label) (ls : List Label) :
    listed (l :: l' :: ls) = l.braced ++ ',' :: listed (l' :: ls) :=
  rfl

theorem toList_join (ls : List Label) :
    (Key.join "," (ls.map Key.ofLabel)).render.toList = listed ls := by
  induction ls with
  | nil => rfl
  | cons l ls ih =>
    cases ls with
    | nil => simp [Key.join, Key.ofLabel, Key.render, listed, following, braced]
    | cons l' ls =>
      rw [listed_cons_cons, ← ih]
      simp [Key.join, Key.ofLabel, Key.render, braced]

theorem bracket_notMem_braced (l : Label) : '(' ∉ l.braced := by
  intro h
  have htext : '(' ∈ l.text.toList := by simpa [braced] using h
  rw [text, String.toList_append, List.mem_append, Nat.toString_eq_repr, Nat.toList_repr] at htext
  rcases htext with h | h
  · exact absurd h (by decide)
  · exact absurd (Nat.isDigit_of_mem_toDigits (by decide) (by decide) h) (by decide)

theorem bracket_notMem_listed (ls : List Label) : '(' ∉ listed ls := by
  cases ls with
  | nil => exact List.not_mem_nil
  | cons l ls =>
    intro h
    rcases List.mem_append.1 h with h | h
    · exact l.bracket_notMem_braced h
    · obtain ⟨l', -, h⟩ := List.mem_flatMap.1 h
      rcases List.mem_cons.1 h with h | h
      · cases h
      · exact l'.bracket_notMem_braced h

/-- A name behind the label of what it is in, if it is in something, as keys have it. -/
def above (parent : Option Label) (name : String) : List Char :=
  match parent with
  | some parent => parent.braced ++ '.' :: name.toList
  | none => name.toList

/-- The name of what is in nothing does not begin like a label. -/
def Clear (parent : Option Label) (name : String) : Prop :=
  parent = none → ¬ ['\x7b', '#'] <+: name.toList

/-- A parent and a name are told apart where the name does not begin like a label. -/
theorem above_inj {parent parent' : Option Label} {name name' : String}
    (h : above parent name ++ ';' :: s = above parent' name' ++ ';' :: s) (hc : Clear parent name)
    (hc' : Clear parent' name') : parent = parent' ∧ name = name' := by
  cases parent with
  | none =>
    cases parent' with
    | none => exact ⟨rfl, String.toList_inj.1 (List.append_cancel_right h)⟩
    | some p' =>
      rw [above, List.append_assoc] at h
      exact absurd h.symm (braced_ne (hc rfl) _ s)
  | some p =>
    cases parent' with
    | none =>
      rw [above, List.append_assoc] at h
      exact absurd h (braced_ne (hc' rfl) _ s)
    | some p' =>
      obtain ⟨rfl, hname⟩ := braced_inj (List.append_cancel_right h)
      exact ⟨rfl, String.toList_inj.1 (List.cons.inj hname).2⟩

/-- What goes on behind a label in another way than a name in it does. -/
theorem braced_ne_above {parent : Option Label} {name : String} {d : Char}
    (hc : Clear parent name) (hd : d ≠ '.') (cs cs' : List Char) :
    l.braced ++ d :: cs ≠ above parent name ++ ';' :: cs' := by
  intro h
  cases parent with
  | none => exact braced_ne (hc rfl) _ _ h
  | some p =>
    rw [above, List.append_assoc] at h
    obtain ⟨-, h⟩ := braced_inj h
    exact hd (List.cons.inj h).1

end Label

namespace Span

/-- The numbers of a span with commas between them, as they stand in keys. -/
def listed (s : Span) : List Char :=
  Nat.toDigits 10 s.startLine ++ ',' :: (Nat.toDigits 10 s.startColumn ++ ',' ::
    (Nat.toDigits 10 s.endLine ++ ',' :: Nat.toDigits 10 s.endColumn))

theorem toList_key (s : Span) : s.key.render.toList = s.listed := by
  simp [key, numbers, Key.join, Key.render, listed, Int.toString_eq_repr, Int.repr]

theorem toDigits_inj {n n' : Nat} (h : Nat.toDigits 10 n = Nat.toDigits 10 n') : n = n' :=
  Nat.repr_inj.1 (String.toList_inj.1 (by rw [Nat.toList_repr, Nat.toList_repr, h]))

theorem listed_inj {s s' : Span} (h : s.listed = s'.listed) : s = s' := by
  have hcomma : ∀ n : Nat, ',' ∉ Nat.toDigits 10 n := by
    intro n hn
    exact absurd (Nat.isDigit_of_mem_toDigits (by decide) (by decide) hn) (by decide)
  obtain ⟨h₁, h⟩ := List.append_cons_inj_left h (hcomma _) (hcomma _)
  obtain ⟨h₂, h⟩ := List.append_cons_inj_left h (hcomma _) (hcomma _)
  obtain ⟨h₃, h₄⟩ := List.append_cons_inj_left h (hcomma _) (hcomma _)
  obtain ⟨sl, sc, el, ec⟩ := s
  obtain ⟨sl', sc', el', ec'⟩ := s'
  obtain rfl : sl = sl' := toDigits_inj h₁
  obtain rfl : sc = sc' := toDigits_inj h₂
  obtain rfl : el = el' := toDigits_inj h₃
  obtain rfl : ec = ec' := toDigits_inj h₄
  rfl

end Span

namespace Identity

/-- What the rendered keys say, but for the last two characters. -/
def front : Identity → List Char
  | file path => path.toList ++ ";sourcefi".toList
  | place f span => f.braced ++ ',' :: (span.listed ++ ";sourcelocati".toList)
  | generated f => "loc,".toList ++ (f.braced ++ ",0,0,0".toList)
  | assembly name path => name.toList ++ ("#file:///".toList ++ (path.toList ++ ";assemb".toList))
  | space parent name => Label.above parent name ++ ";namespa".toList
  | constructed definition args =>
    definition.braced ++ '<' :: (Label.listed args ++ ">;ty".toList)
  | type parent name => Label.above parent name ++ ";ty".toList
  | pointer pointee => pointee.braced ++ "*;ty".toList
  | method declaring name params =>
    declaring.braced ++ '.' :: (name.toList ++ '(' :: (Label.listed params ++ ");meth".toList))

def ending : Identity → List Char
  | file _ => ['l', 'e']
  | place _ _ => ['o', 'n']
  | generated _ => [',', '0']
  | assembly _ _ => ['l', 'y']
  | space _ _ => ['c', 'e']
  | constructed _ _ => ['p', 'e']
  | type _ _ => ['p', 'e']
  | pointer _ => ['p', 'e']
  | method _ _ _ => ['o', 'd']

/-- The free text in a key is not taken for what stands around it: what is in nothing is not named
like something behind a label, and no assembly is named like one with a path behind. -/
def IsClear : Identity → Prop
  | assembly name _ => ¬ "#file:///".toList <:+: name.toList
  | space parent name => Label.Clear parent name
  | type parent name => Label.Clear parent name
  | _ => True

end Identity

namespace Entity

/-- The text of a key is a front and an ending, and the ending tells the kind. -/
theorem toList_key {i : Identity} (h : en.identity? = some i) :
    en.key.render.toList = i.front ++ i.ending := by
  cases en with
  | file path =>
    obtain rfl := Option.some.inj h
    simp [key, Key.render, Key.literal, Identity.front, Identity.ending]
  | location f span =>
    cases span with
    | none =>
      obtain rfl := Option.some.inj h
      simp [key, Key.render, Span.toList_key, Span.listed, Span.zero, Identity.front,
        Identity.ending, Label.braced]
    | some span =>
      obtain rfl := Option.some.inj h
      simp [key, Key.render, Key.literal, Span.toList_key, Identity.front, Identity.ending,
        Label.braced]
  | assembly name path f =>
    obtain rfl := Option.some.inj h
    simp [key, Key.render, Key.literal, Identity.front, Identity.ending]
  | space id name parent =>
    obtain rfl := Option.some.inj h
    rw [render_space]
    cases parent <;>
      simp [spaceText, Label.inside, Identity.front, Identity.ending, Label.above, Label.braced]
  | namedType t =>
    unfold identity? at h
    cases hd : t.definition with
    | some definition =>
      simp only [hd] at h
      obtain rfl := Option.some.inj h
      simp [key, NamedType.key, hd, Key.render, Key.literal, Label.toList_join, Identity.front,
        Identity.ending, Label.braced]
    | none =>
      simp only [hd] at h
      obtain rfl := Option.some.inj h
      cases hp : t.parent? <;>
        simp [key, NamedType.key, hd, hp, Key.render, Key.literal, Identity.front, Identity.ending,
          Label.above, Label.braced]
  | pointer id pointee =>
    obtain rfl := Option.some.inj h
    simp [key, Key.render, Key.literal, Identity.front, Identity.ending, Label.braced]
  | method m =>
    obtain rfl := Option.some.inj h
    simp [key, Method.key, Key.render, Key.literal, Identity.front, Identity.ending, Label.braced,
      Label.toList_join]
  | custom c => cases h

end Entity

namespace Identity

variable {i i' : Identity}

theorem length_ending (i : Identity) : i.ending.length = 2 := by
  cases i <;> rfl

/-- Types are told by what goes on behind the label, if there is one. -/
theorem front_type_inj (h : i.front = i'.front) (he : i.ending = ['p', 'e'])
    (he' : i'.ending = ['p', 'e']) (hc : i.IsClear) (hc' : i'.IsClear) : i = i' := by
  cases i with
  | constructed definition args =>
    cases i' with
    | constructed definition' args' =>
      obtain ⟨rfl, hargs⟩ := Label.braced_inj h
      rw [Label.listed_inj (List.append_cancel_right (List.cons.inj hargs).2)]
    | type parent' name' => exact absurd h (Label.braced_ne_above hc' (by decide) _ _)
    | pointer pointee' =>
      obtain ⟨-, h⟩ := Label.braced_inj h
      cases (List.cons.inj h).1
    | _ => cases he'
  | type parent name =>
    cases i' with
    | constructed definition' args' =>
      exact absurd h.symm (Label.braced_ne_above hc (by decide) _ _)
    | type parent' name' =>
      obtain ⟨rfl, rfl⟩ := Label.above_inj h hc hc'
      rfl
    | pointer pointee' => exact absurd h.symm (Label.braced_ne_above hc (by decide) _ _)
    | _ => cases he'
  | pointer pointee =>
    cases i' with
    | constructed definition' args' =>
      obtain ⟨-, h⟩ := Label.braced_inj h
      cases (List.cons.inj h).1
    | type parent' name' => exact absurd h (Label.braced_ne_above hc' (by decide) _ _)
    | pointer pointee' =>
      obtain ⟨rfl, -⟩ := Label.braced_inj h
      rfl
    | _ => cases he'
  | _ => cases he

/-- Keys that end alike are told apart by what comes before. -/
theorem front_inj (h : i.front = i'.front) (he : i.ending = i'.ending) (hc : i.IsClear)
    (hc' : i'.IsClear) : i = i' := by
  cases i with
  | file path =>
    cases i' with
    | file path' => rw [String.toList_inj.1 (List.append_cancel_right h)]
    | _ => cases he
  | place f span =>
    cases i' with
    | place f' span' =>
      obtain ⟨rfl, hspan⟩ := Label.braced_inj h
      rw [Span.listed_inj (List.append_cancel_right (List.cons.inj hspan).2)]
    | _ => cases he
  | generated f =>
    cases i' with
    | generated f' =>
      obtain ⟨rfl, -⟩ := Label.braced_inj (List.append_cancel_left h)
      rfl
    | _ => cases he
  | assembly name path =>
    cases i' with
    | assembly name' path' =>
      obtain ⟨hname, hpath⟩ := List.append_separator_inj (by decide) h hc hc'
      rw [String.toList_inj.1 hname, String.toList_inj.1 (List.append_cancel_right hpath)]
    | _ => cases he
  | space parent name =>
    cases i' with
    | space parent' name' =>
      obtain ⟨rfl, rfl⟩ := Label.above_inj h hc hc'
      rfl
    | _ => cases he
  | method declaring name params =>
    cases i' with
    | method declaring' name' params' =>
      obtain ⟨rfl, htail⟩ := Label.braced_inj h
      have hbehind : (name.toList ++ '(' :: Label.listed params) ++ ");meth".toList =
          (name'.toList ++ '(' :: Label.listed params') ++ ");meth".toList := by
        simpa using (List.cons.inj htail).2
      obtain ⟨hname, hparams⟩ := List.append_cons_inj_right (List.append_cancel_right hbehind)
        (Label.bracket_notMem_listed _) (Label.bracket_notMem_listed _)
      rw [String.toList_inj.1 hname, Label.listed_inj hparams]
    | _ => cases he
  | constructed _ _ | type _ _ | pointer _ => exact front_type_inj h rfl he.symm hc hc'

end Identity

/-- The key of an entity renders to the same text as another one's if and only if the same
identifies both. -/
theorem Entity.render_eq_iff {i i' : Identity} (h : en.identity? = some i)
    (h' : en'.identity? = some i') (hc : i.IsClear) (hc' : i'.IsClear) :
    en.key.render = en'.key.render ↔ i = i' := by
  rw [← String.toList_inj, toList_key h, toList_key h']
  constructor
  · intro htext
    obtain ⟨hfront, hending⟩ := List.append_inj' htext
      (i.length_ending.trans i'.length_ending.symm)
    exact Identity.front_inj hfront hending hc hc'
  · rintro rfl
    rfl

/-- Slashes in front of a path make no difference, nor does a path that looks like a name with
another path behind it. -/
theorem Entity.render_eq_iff_slashes :
    let en : Entity := .assembly "App" "//bin/App#file:///lib" ⟨1⟩
    let en' : Entity := .assembly "App" "bin/App#file:///lib" ⟨2⟩
    let i : Identity := .assembly "App" "bin/App#file:///lib"
    (en.identity? = some i ∧ en'.identity? = some i ∧ i.IsClear) ∧
      (en.key.render = en'.key.render ↔ i = i) := by
  intro en en' i
  have h : en.identity? = some i := by decide
  have h' : en'.identity? = some i := by decide
  have hc : i.IsClear := by
    change ¬ "#file:///".toList <:+: "App".toList
    decide
  exact ⟨⟨h, h', hc⟩, render_eq_iff h h' hc hc⟩

end TrapFacts
