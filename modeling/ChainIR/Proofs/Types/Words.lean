import Mathlib
import ChainIR.Proofs.Types.Suffixes

/-! # The words of type names

The name of a function type with several parameters falls apart into words, since there is a space
behind each comma. The word in front of the first space ends with a comma, and such a word names no
type (`Program.Interned.typeByName_comma`).

* `TypeTree.listed_name`: in a name every space stands behind a comma, and there is no other blank.
* `TypeTree.exists_first_word`: the word in front of the first space. -/

namespace ChainIR

namespace TypeTree

/-- A text in which every space stands behind a comma, without tabs and line feeds. -/
structure Listed (text : List Char) : Prop where
  /-- In front of a space stands a comma. -/
  comma : ∀ front back, text = front ++ ' ' :: back → front.getLast? = some ','
  /-- There are no tabs. -/
  tab : '\t' ∉ text
  /-- There are no line feeds. -/
  feed : '\n' ∉ text

namespace Listed

variable {left right : List Char}

/-- A text without blanks. -/
theorem flat {text : List Char} (noSpace : ' ' ∉ text) (noTab : '\t' ∉ text)
    (noFeed : '\n' ∉ text) : Listed text where
  comma _ _ h := absurd (h ▸ List.mem_append_right _ (.head _)) noSpace
  tab := noTab
  feed := noFeed

/-- Texts that may stand in a list may stand there one behind the other. -/
theorem append (hleft : Listed left) (hright : Listed right) : Listed (left ++ right) where
  comma front back h := by
    rcases List.append_eq_append_iff.1 h with ⟨middle, rfl, hmiddle⟩ | ⟨middle, hmiddle, hback⟩
    · rw [List.getLast?_append, hright.comma middle back hmiddle]
      rfl
    · cases middle with
      | nil =>
        -- the space would be the first character behind the left text
        have hfirst := hright.comma [] back hback.symm
        cases hfirst
      | cons c middle =>
        obtain ⟨rfl, -⟩ : ' ' = c ∧ back = middle ++ right := by simpa using hback
        exact hleft.comma front middle hmiddle
  tab h := (List.mem_append.1 h).elim hleft.tab hright.tab
  feed h := (List.mem_append.1 h).elim hleft.feed hright.feed

/-- Texts with commas and spaces between them. -/
theorem intercalate {names : List (List Char)} (h : ∀ name ∈ names, Listed name) :
    Listed ([',', ' '].intercalate names) := by
  induction names with
  | nil => exact .flat (by simp) (by simp) (by simp)
  | cons first rest ih =>
    have hfirst := h first (.head _)
    cases rest with
    | nil => simpa using hfirst
    | cons second rest =>
      have hseparator : Listed [',', ' '] := by
        refine ⟨fun front back hparts => ?_, by decide, by decide⟩
        rcases List.cons_eq_append_iff.1 hparts with ⟨rfl, hspace⟩ | ⟨front, rfl, hrest⟩
        · cases hspace
        · rcases List.cons_eq_append_iff.1 hrest with ⟨rfl, -⟩ | ⟨front, rfl, hnil⟩
          · rfl
          · simp at hnil
      rw [List.intercalate_cons_cons]
      exact (hfirst.append hseparator).append (ih fun name hmem => h name (.tail _ hmem))

end Listed

/-- There are no blanks among digits. -/
theorem Listed.digits (number : Nat) : Listed (Nat.toDigits 10 number) := by
  have hdigit : ∀ c, c.isDigit = false → c ∉ Nat.toDigits 10 number := by
    intro c hc hmem
    rw [Nat.isDigit_of_mem_toDigits (by decide) (by decide) hmem] at hc
    cases hc
  exact .flat (hdigit _ (by decide)) (hdigit _ (by decide)) (hdigit _ (by decide))

/-- **Blanks in names**: in a name every space stands behind a comma, and there is no other blank.
-/
theorem listed_name (tree : TypeTree) : Listed tree.name.toList := by
  induction tree using TypeTree.induct with
  | void | num | chr | str =>
    rw [name]
    exact .flat (by decide) (by decide) (by decide)
  | array element size ih =>
    rw [name, toList_array]
    have hopen : Listed ['['] := .flat (by decide) (by decide) (by decide)
    have hclose : Listed [']'] := .flat (by decide) (by decide) (by decide)
    exact ih.append (hopen.append ((Listed.digits _).append hclose))
  | function result params variadic hresult hparams =>
    rw [name, toList_function]
    have hopen : Listed ['('] := .flat (by decide) (by decide) (by decide)
    have hclose : Listed [')'] := .flat (by decide) (by decide) (by decide)
    have hmark : Listed (if variadic then ['?'] else []) := by
      cases variadic <;> exact .flat (by decide) (by decide) (by decide)
    have hnames : Listed ([',', ' '].intercalate ((params.map name).map String.toList)) := by
      refine .intercalate fun text htext => ?_
      obtain ⟨param, hparam, rfl⟩ : ∃ param ∈ params, param.name.toList = text := by
        simpa using htext
      exact hparams param hparam
    exact hresult.append ((hopen.append (hnames.append hclose)).append hmark)

/-- A name starts with a letter. -/
theorem exists_head_name (tree : TypeTree) :
    ∃ first rest, tree.name.toList = first :: rest ∧ first.isAlpha := by
  induction tree using TypeTree.induct with
  | void | num | chr | str =>
    rw [name]
    exact ⟨_, _, rfl, by decide⟩
  | array element size ih =>
    obtain ⟨first, rest, hname, hletter⟩ := ih
    rw [name, toList_array, hname]
    exact ⟨first, _, rfl, hletter⟩
  | function result params variadic hresult _ =>
    obtain ⟨first, rest, hname, hletter⟩ := hresult
    rw [name, toList_function, hname]
    exact ⟨first, _, rfl, hletter⟩

/-- The word in front of the first space of a name starts with a letter and ends with a comma. -/
theorem exists_first_word {tree : TypeTree} (h : ' ' ∈ tree.name.toList) :
    ∃ first behind rest, tree.name.toList = first :: behind ++ ' ' :: rest ∧ first.isAlpha ∧
      ' ' ∉ first :: behind ∧ (first :: behind).getLast? = some ',' := by
  obtain ⟨word, rest, hname, hword⟩ := List.eq_append_cons_of_mem h
  have hcomma := tree.listed_name.comma word rest hname
  obtain ⟨first, others, hfirst, hletter⟩ := tree.exists_head_name
  cases word with
  | nil => cases hcomma
  | cons c behind =>
    obtain ⟨rfl, -⟩ := List.cons.inj (hname.symm.trans hfirst)
    exact ⟨c, behind, rest, hname, hletter, hword, hcomma⟩

/-- No type ends with a comma. -/
theorem getLast?_name_ne (tree : TypeTree) : tree.name.toList.getLast? ≠ some ',' := by
  rw [getLast?_name]
  cases tree with
  | function result params variadic => cases variadic <;> simp [ending]
  | _ => simp [ending]

end TypeTree

/-- A word that ends with a comma names no type. -/
theorem Program.Interned.typeByName_comma {program after : Program} (h : program.Interned)
    {name : String} (hcomma : name.toList.getLast? = some ',') (ref : TypeRef) :
    Edit.typeByName name program ≠ .ok (.ok (some ref), after) := by
  intro hrun
  obtain ⟨answer, other, hother, hresolved, -⟩ := h.exists_typeByName name
  obtain ⟨rfl, -⟩ := Prod.mk.inj (Except.ok.inj (hother.symm.trans hrun))
  obtain ⟨base, sizes, hknows, hsuffixed⟩ := hresolved.1 ⟨ref, rfl⟩
  cases hsuffixed with
  | base =>
    obtain ⟨tree, rfl⟩ := h.exists_tree hknows
    exact tree.getLast?_name_ne hcomma
  | suffix => simp [List.getLast?_append, List.getLast?_cons] at hcomma

end ChainIR
