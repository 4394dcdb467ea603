import Std.Data.String.ToNat
import TrapFacts.Entity.Basic

/-! What the key of an entity without an object tells of the entity. -/

/-- A separator that does not occur before tells what stands before it and what behind. -/
theorem List.append_cons_inj_left {α : Type} {a : α} {xs xs' ys ys' : List α}
    (h : xs ++ a :: ys = xs' ++ a :: ys') (hx : a ∉ xs) (hx' : a ∉ xs') : xs = xs' ∧ ys = ys' := by
  rcases List.append_eq_append_iff.1 h with ⟨zs, rfl, hz⟩ | ⟨zs, rfl, hz⟩
  · cases zs <;> simp_all
  · cases zs <;> simp_all

namespace TrapFacts

variable {en en' : Entity} {ending : String} {l l' : Label} {name name' : String}

namespace Label

/-- Labels are told apart by their text. -/
theorem text_inj (h : l.text = l'.text) : l = l' := by
  have hnumber : toString l.number = toString l'.number := (String.append_right_inj _).1 h
  rw [Nat.toString_eq_repr, Nat.toString_eq_repr] at hnumber
  exact congrArg mk (Nat.repr_inj.1 hnumber)

theorem brace_notMem_text (l : Label) : '\x7d' ∉ l.text.toList := by
  intro h
  rw [text, String.toList_append, List.mem_append, Nat.toString_eq_repr, Nat.toList_repr] at h
  rcases h with h | h
  · exact absurd h (by decide)
  · exact absurd (Nat.isDigit_of_mem_toDigits (by decide) (by decide) h) (by decide)

/-- A name behind a label in braces, as the keys of nested namespaces have it. -/
def inside (l : Label) (name : String) : String :=
  "\x7b" ++ l.text ++ "\x7d" ++ "." ++ name

/-- A label in braces tells where the name behind it begins. -/
theorem inside_inj (h : l.inside name = l'.inside name') : l = l' ∧ name = name' := by
  have htext := congrArg String.toList h
  simp only [inside, String.append_assoc, String.toList_append] at htext
  obtain ⟨hl, hname⟩ := List.append_cons_inj_left (List.append_cancel_left htext)
    l.brace_notMem_text l'.brace_notMem_text
  exact ⟨text_inj (String.toList_inj.1 hl), String.toList_inj.1 (List.cons.inj hname).2⟩

end Label

namespace Entity

/-- How the rendered keys end, of each kind of entities without an object. -/
def ending? : Entity → Option String
  | .file _ => some "le"
  | .location _ (some _) => some "on"
  | .location _ none => some ",0"
  | .assembly _ _ _ => some "ly"
  | .space _ _ _ => some "ce"
  | _ => none

/-- A rendered key ends as those of its kind do. -/
theorem render_ending (h : en.ending? = some ending) :
    ∃ front, en.key.render = front ++ ending := by
  cases en with
  | file path =>
    obtain rfl := Option.some.inj h
    exact ⟨path ++ ";sourcefi", by simp [key, Key.render, Key.literal, String.append_assoc]⟩
  | location f span =>
    cases span with
    | none =>
      obtain rfl := Option.some.inj h
      refine ⟨"loc,\x7b" ++ f.text ++ "\x7d,0,0,0", ?_⟩
      simp [key, Key.render, Span.key, Span.zero, Span.numbers, Key.join, String.append_assoc]
      rfl
    | some span =>
      obtain rfl := Option.some.inj h
      refine ⟨"\x7b" ++ (f.text ++ ("\x7d" ++ ("," ++ (span.key.render ++ ";sourcelocati")))), ?_⟩
      simp [key, Key.render, Key.literal, String.append_assoc]
  | assembly name path f =>
    obtain rfl := Option.some.inj h
    refine ⟨name ++ "#file:///" ++ trimSlashes path ++ ";assemb", ?_⟩
    simp [key, Key.render, Key.literal, String.append_assoc]
  | space id name parent =>
    obtain rfl := Option.some.inj h
    cases parent with
    | none =>
      by_cases hn : name.isEmpty
      · exact ⟨";namespa", by simp [key, Key.render, Key.literal, hn]⟩
      · exact ⟨name ++ ";namespa", by simp [key, Key.render, Key.literal, hn, String.append_assoc]⟩
    | some parent =>
      refine ⟨"\x7b" ++ (parent.text ++ ("\x7d" ++ ("." ++ (name ++ ";namespa")))), ?_⟩
      simp [key, Key.render, Key.literal, String.append_assoc]
  | _ => cases h

theorem length_ending (h : en.ending? = some ending) : ending.toList.length = 2 := by
  cases en with
  | location f span => cases span <;> cases h <;> rfl
  | _ => cases h <;> rfl

/-- Keys of different kinds render to different texts. -/
theorem ending_eq {ending' : String} (hr : en.key.render = en'.key.render)
    (h : en.ending? = some ending) (h' : en'.ending? = some ending') : ending = ending' := by
  obtain ⟨front, hfront⟩ := render_ending h
  obtain ⟨front', hfront'⟩ := render_ending h'
  have htext : (front ++ ending).toList = (front' ++ ending').toList := by
    rw [← hfront, hr, hfront']
  rw [String.toList_append, String.toList_append] at htext
  exact String.toList_inj.1 (List.append_inj' htext
    ((length_ending h).trans (length_ending h').symm)).2

theorem eq_file (h : en.ending? = some "le") : ∃ path, en = .file path := by
  cases en with
  | file path => exact ⟨path, rfl⟩
  | location f span => cases span <;> simp [ending?] at h
  | _ => simp [ending?] at h

theorem eq_assembly (h : en.ending? = some "ly") : ∃ name path f, en = .assembly name path f := by
  cases en with
  | assembly name path f => exact ⟨name, path, f, rfl⟩
  | location f span => cases span <;> simp [ending?] at h
  | _ => simp [ending?] at h

theorem eq_space (h : en.ending? = some "ce") : ∃ id name parent, en = .space id name parent := by
  cases en with
  | space id name parent => exact ⟨id, name, parent, rfl⟩
  | location f span => cases span <;> simp [ending?] at h
  | _ => simp [ending?] at h

theorem file_inj {path path' : String} (h : (file path).key.render = (file path').key.render) :
    path = path' :=
  (String.append_left_inj _).1 h

/-- The name of a namespace, behind the label of its parent if it has one. -/
def spaceText (name : String) : Option Label → String
  | some parent => parent.inside name
  | none => name

theorem render_space (id : SymbolId) (name : String) (parent : Option Label) :
    (space id name parent).key.render = spaceText name parent ++ ";namespace" := by
  cases parent with
  | none =>
    by_cases hn : name.isEmpty
    · simp [key, Key.render, Key.literal, spaceText, String.isEmpty_iff.1 hn]
    · simp [key, Key.render, Key.literal, hn, spaceText]
  | some parent =>
    simp only [key, Key.render, Key.literal, spaceText, Label.inside, String.append_assoc,
      String.append_empty]

/-- Namespaces whose keys render alike have the same name in the same parent. -/
theorem spaceText_inj {id id' : SymbolId} {parent parent' : Option Label}
    (h : (space id name parent).key.render = (space id' name' parent').key.render) :
    spaceText name parent = spaceText name' parent' := by
  rw [render_space, render_space] at h
  exact (String.append_left_inj _).1 h

end Entity

end TrapFacts
