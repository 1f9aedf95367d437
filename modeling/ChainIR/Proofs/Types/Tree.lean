import Mathlib
import ChainIR.Program.TypeName

/-! # Canonical type names

Types are interned by name, so a program is only as good as its type names: two types of one name
would be one type. `TypeTree` is a type without references, and `TypeTree.name` its canonical
name. A name is read off from its end: the last character tells the outermost constructor, and the
brackets inside it are balanced (`Nested`), which tells where its parts end.

* `nested_name`: the brackets of a name are balanced and its commas stand inside of them.
* `name_injective`: two types of one name are one type. -/

namespace ChainIR

/-- **Type trees**: a type as a tree over the primitive types. -/
inductive TypeTree
  | void
  | num
  | chr
  | str
  | array (element : TypeTree) (size : UInt64)
  | function (result : TypeTree) (params : List TypeTree) (variadic : Bool)

namespace TypeTree

/-- The canonical name of a type. -/
def name : TypeTree → String
  | void => "void"
  | num => "num"
  | chr => "chr"
  | str => "str"
  | array element size => TypeName.array element.name size
  | function result params variadic =>
    TypeName.function result.name (params.map name) variadic
decreasing_by
  all_goals simp_wf
  all_goals first | omega | (have hlt := List.sizeOf_lt_of_mem ‹_›; omega)

/-! ## Balanced brackets -/

/-- The round brackets that a text opens, less those that it closes. -/
def nesting (text : List Char) : Int := text.count '(' - text.count ')'

@[simp] theorem nesting_nil : nesting [] = 0 := rfl

/-- The depth of nesting adds up. -/
@[simp] theorem nesting_append (left right : List Char) :
    nesting (left ++ right) = nesting left + nesting right := by
  simp only [nesting, List.count_append]
  omega

@[simp] theorem nesting_open (text : List Char) : nesting ('(' :: text) = nesting text + 1 := by
  simp only [nesting, List.count_cons]
  simp
  omega

@[simp] theorem nesting_close (text : List Char) : nesting (')' :: text) = nesting text - 1 := by
  simp only [nesting, List.count_cons]
  simp
  omega

/-- A text without brackets has nesting zero. -/
theorem nesting_flat {text : List Char} (noOpen : '(' ∉ text) (noClose : ')' ∉ text) :
    nesting text = 0 := by
  simp [nesting, List.count_eq_zero.2 noOpen, List.count_eq_zero.2 noClose]

/-- A text whose brackets are balanced. -/
structure Balanced (text : List Char) : Prop where
  /-- Every bracket is closed. -/
  level : nesting text = 0
  /-- No bracket is closed that is not open. -/
  inside : ∀ front back, text = front ++ back → 0 ≤ nesting front

/-- A text whose brackets are balanced and whose commas stand in brackets. -/
structure Nested (text : List Char) : Prop extends Balanced text where
  /-- A comma stands inside of a bracket. -/
  comma : ∀ front back, text = front ++ ',' :: back → 0 < nesting front

/-- Texts without brackets are balanced. -/
theorem Balanced.flat {text : List Char} (noOpen : '(' ∉ text) (noClose : ')' ∉ text) :
    Balanced text where
  level := nesting_flat noOpen noClose
  inside front back h := by
    subst h
    rw [nesting_flat (by simp_all) (by simp_all)]

/-- Texts without brackets and commas are nested. -/
theorem Nested.flat {text : List Char} (noOpen : '(' ∉ text) (noClose : ')' ∉ text)
    (noComma : ',' ∉ text) : Nested text where
  toBalanced := .flat noOpen noClose
  comma front back h := by simp [h] at noComma

/-- A balanced text behind a balanced text is balanced. -/
theorem Balanced.append {left right : List Char} (hl : Balanced left) (hr : Balanced right) :
    Balanced (left ++ right) where
  level := by rw [nesting_append, hl.level, hr.level, add_zero]
  inside front back h := by
    rcases List.append_eq_append_iff.1 h with ⟨middle, rfl, hm⟩ | ⟨middle, hm, -⟩
    · rw [nesting_append, hl.level, zero_add]
      exact hr.inside middle back hm
    · exact hl.inside front middle hm

/-- A nested text behind a nested text is nested. -/
theorem Nested.append {left right : List Char} (hl : Nested left) (hr : Nested right) :
    Nested (left ++ right) where
  toBalanced := hl.toBalanced.append hr.toBalanced
  comma front back h := by
    rcases List.append_eq_append_iff.1 h with ⟨middle, rfl, hm⟩ | ⟨middle, hm, hback⟩
    · rw [nesting_append, hl.level, zero_add]
      exact hr.comma middle back hm
    · cases middle with
      | nil =>
        rw [List.append_nil] at hm
        rw [← hm, hl.level]
        have := hr.comma [] back hback.symm
        simp at this
      | cons c middle =>
        obtain ⟨rfl, -⟩ : ',' = c ∧ back = middle ++ right := by simpa using hback
        exact hl.comma front middle hm

/-- A balanced text in brackets is nested. -/
theorem Balanced.bracketed {text : List Char} (h : Balanced text) :
    Nested ('(' :: (text ++ [')'])) where
  level := by
    rw [nesting_open, nesting_append, h.level, nesting_close]
    rfl
  inside front back hf := by
    cases front with
    | nil => simp
    | cons c front =>
      obtain ⟨rfl, hrest⟩ : '(' = c ∧ text ++ [')'] = front ++ back := by simpa using hf
      rw [nesting_open]
      -- the cut is inside the text or behind its closing parenthesis
      rcases List.append_eq_append_iff.1 hrest with ⟨middle, rfl, hm⟩ | ⟨middle, hm, -⟩
      · rw [nesting_append, h.level, zero_add]
        rcases List.cons_eq_append_iff.1 hm with ⟨rfl, -⟩ | ⟨rest, rfl, hnil⟩
        · simp
        · obtain ⟨rfl, -⟩ := List.append_eq_nil_iff.1 hnil.symm
          simp
      · have := h.inside front middle hm
        omega
  comma front back hf := by
    cases front with
    | nil => simp at hf
    | cons c front =>
      obtain ⟨rfl, hrest⟩ : '(' = c ∧ text ++ [')'] = front ++ ',' :: back := by simpa using hf
      rw [nesting_open]
      rcases List.append_eq_append_iff.1 hrest with ⟨middle, rfl, hm⟩ | ⟨middle, hm, -⟩
      · cases middle <;> simp at hm
      · have := h.inside front middle hm
        omega

/-- Nested texts with commas between them are balanced. -/
theorem balanced_intercalate {names : List (List Char)} (h : ∀ name ∈ names, Nested name) :
    Balanced ([',', ' '].intercalate names) := by
  induction names with
  | nil => exact .flat (by simp) (by simp)
  | cons first rest ih =>
    have hfirst := (h first (by simp)).toBalanced
    cases rest with
    | nil => simpa using hfirst
    | cons second rest =>
      rw [List.intercalate_cons_cons]
      have separator : Balanced [',', ' '] := .flat (by decide) (by decide)
      exact (hfirst.append separator).append (ih fun name hn => h name (by simp [hn]))

/-! ## The brackets of names -/

/-- The characters of an array name. -/
theorem toList_array (element : String) (size : UInt64) :
    (TypeName.array element size).toList =
      element.toList ++ '[' :: (Nat.toDigits 10 size.toNat ++ [']']) := by
  simp [TypeName.array]

/-- The characters of a function name. -/
theorem toList_function (result : String) (params : List String) (variadic : Bool) :
    (TypeName.function result params variadic).toList =
      result.toList ++
        ('(' :: ([',', ' '].intercalate (params.map String.toList) ++ [')']) ++
          if variadic then ['?'] else []) := by
  cases variadic <;> simp [TypeName.function]

/-- **Names are nested**: the brackets of a name are balanced and its commas stand inside of them.
-/
theorem nested_name : ∀ tree : TypeTree, Nested tree.name.toList
  | void | num | chr | str => by
    rw [name]
    exact .flat (by decide) (by decide) (by decide)
  | array element size => by
    rw [name, toList_array]
    refine (nested_name element).append (.flat ?_ ?_ ?_) <;>
      simpa using fun h => by simpa using Nat.isDigit_of_mem_toDigits (by decide) (by decide) h
  | function result params variadic => by
    rw [name, toList_function]
    have hparams : Balanced ([',', ' '].intercalate ((params.map name).map String.toList)) := by
      refine balanced_intercalate fun text ht => ?_
      obtain ⟨param, hparam, rfl⟩ : ∃ param ∈ params, param.name.toList = text := by simpa using ht
      exact nested_name param
    refine (nested_name result).append (hparams.bracketed.append ?_)
    cases variadic
    · exact .flat (by decide) (by decide) (by decide)
    · exact .flat (by decide) (by decide) (by decide)
decreasing_by
  all_goals simp_wf
  all_goals first | omega | (have hlt := List.sizeOf_lt_of_mem hparam; omega)

/-! ## Reading a name from its end -/

/-- The last character of a name. -/
def ending : TypeTree → Char
  | void => 'd'
  | num => 'm'
  | chr => 'r'
  | str => 'r'
  | array _ _ => ']'
  | function _ _ variadic => if variadic then '?' else ')'

/-- The last character of a name tells the shape of its type. -/
theorem getLast?_name (tree : TypeTree) : tree.name.toList.getLast? = some tree.ending := by
  cases tree with
  | array element size =>
    rw [name, toList_array]
    simp [ending, List.getLast?_cons]
  | function result params variadic =>
    rw [name, toList_function]
    cases variadic <;> simp [ending, List.getLast?_cons]
  | _ => rw [name]; rfl

/-- Types of one name have one last character. -/
theorem ending_eq_of_name {left right : TypeTree} (h : left.name = right.name) :
    left.ending = right.ending := by
  have := getLast?_name left
  rw [h, getLast?_name] at this
  exact (Option.some.inj this).symm

/-- The part behind the last `c` tells where a text is to be cut. -/
theorem cut_at_last {α : Type} {c : α} {front back front' back' : List α} (hb : c ∉ back)
    (hb' : c ∉ back') (h : front ++ c :: back = front' ++ c :: back') :
    front = front' ∧ back = back' := by
  rcases List.append_eq_append_iff.1 h with ⟨middle, rfl, hm⟩ | ⟨middle, rfl, hm⟩ <;>
    cases middle <;> simp_all

/-- What stands in balanced brackets at the end tells where they are opened. -/
theorem cut_at_open {front inner front' inner' : List Char} (hf : Balanced front)
    (hi : Balanced inner) (hf' : Balanced front') (hi' : Balanced inner')
    (h : front ++ '(' :: inner = front' ++ '(' :: inner') : front = front' ∧ inner = inner' := by
  -- a longer front would take in an open bracket that nothing in it closes
  rcases List.append_eq_append_iff.1 h with ⟨middle, rfl, hm⟩ | ⟨middle, rfl, hm⟩
  · cases middle with
    | nil => simpa using hm
    | cons c middle =>
      obtain ⟨rfl, hinner⟩ : '(' = c ∧ inner = middle ++ '(' :: inner' := by simpa using hm
      have hlevel := hf'.level
      rw [nesting_append, nesting_open, hf.level] at hlevel
      have := hi.inside middle _ hinner
      omega
  · cases middle with
    | nil => simpa [eq_comm] using hm
    | cons c middle =>
      obtain ⟨rfl, hinner⟩ : '(' = c ∧ inner' = middle ++ '(' :: inner := by simpa using hm
      have hlevel := hf.level
      rw [nesting_append, nesting_open, hf'.level] at hlevel
      have := hi'.inside middle _ hinner
      omega

/-- The first comma outside of brackets tells where the first of several names ends. -/
theorem cut_at_comma {front back front' back' : List Char} (hf : Nested front)
    (hf' : Nested front') (h : front ++ ',' :: back = front' ++ ',' :: back') :
    front = front' ∧ back = back' := by
  rcases List.append_eq_append_iff.1 h with ⟨middle, rfl, hm⟩ | ⟨middle, rfl, hm⟩
  · cases middle with
    | nil => simpa using hm
    | cons c middle =>
      obtain ⟨rfl, -⟩ : ',' = c ∧ back = middle ++ ',' :: back' := by simpa using hm
      have := hf'.comma front middle rfl
      rw [hf.level] at this
      exact absurd this (lt_irrefl 0)
  · cases middle with
    | nil => simpa [eq_comm] using hm
    | cons c middle =>
      obtain ⟨rfl, -⟩ : ',' = c ∧ back' = middle ++ ',' :: back := by simpa using hm
      have := hf.comma front' middle rfl
      rw [hf'.level] at this
      exact absurd this (lt_irrefl 0)

/-- Names with commas between them tell the names apart. -/
theorem intercalate_injective {names names' : List (List Char)}
    (h : ∀ name ∈ names, Nested name ∧ name ≠ []) (h' : ∀ name ∈ names', Nested name ∧ name ≠ [])
    (equal : [',', ' '].intercalate names = [',', ' '].intercalate names') : names = names' := by
  induction names generalizing names' with
  | nil =>
    rcases names' with _ | ⟨first, _ | ⟨second, rest⟩⟩
    · rfl
    · exact absurd (by simpa using equal.symm) (h' first (by simp)).2
    · rw [List.intercalate_cons_cons] at equal
      simp at equal
  | cons first rest ih =>
    -- one name against several: the nesting of the single one is zero at its end alone
    rcases rest with _ | ⟨second, rest⟩ <;> rcases names' with _ | ⟨first', _ | ⟨second', rest'⟩⟩
    · exact absurd (by simpa using equal) (h first (by simp)).2
    · simpa using equal
    · rw [List.intercalate_cons_cons] at equal
      have := (h first (by simp)).1.comma first'
        (' ' :: [',', ' '].intercalate (second' :: rest')) (by simpa using equal)
      rw [(h' first' (by simp)).1.level] at this
      exact absurd this (lt_irrefl 0)
    · rw [List.intercalate_cons_cons] at equal
      simp at equal
    · rw [List.intercalate_cons_cons] at equal
      have := (h' first' (by simp)).1.comma first
        (' ' :: [',', ' '].intercalate (second :: rest)) (by simpa using equal.symm)
      rw [(h first (by simp)).1.level] at this
      exact absurd this (lt_irrefl 0)
    · rw [List.intercalate_cons_cons, List.intercalate_cons_cons] at equal
      obtain ⟨rfl, hrest⟩ := cut_at_comma (h first (by simp)).1 (h' first' (by simp)).1
        (by simpa using equal)
      rw [ih (fun name hn => h name (.tail _ hn)) (fun name hn => h' name (.tail _ hn))
        (by simpa using hrest)]

/-- The size of an array and its closing bracket hold no opening one. -/
theorem not_mem_suffix (n : Nat) : '[' ∉ Nat.toDigits 10 n ++ [']'] := by
  simpa using fun h => by simpa using Nat.isDigit_of_mem_toDigits (by decide) (by decide) h

/-- Two array names tell their parts. -/
theorem array_name_injective {element element' : String} {size size' : UInt64}
    (h : TypeName.array element size = TypeName.array element' size') :
    element = element' ∧ size = size' := by
  have htext := congrArg String.toList h
  rw [toList_array, toList_array] at htext
  obtain ⟨helement, hsize⟩ := cut_at_last (not_mem_suffix _) (not_mem_suffix _) htext
  have hnat : size.toNat = size'.toNat := by
    rw [← Nat.ofDigitChars_ten_toDigits (n := size.toNat), List.append_cancel_right hsize,
      Nat.ofDigitChars_ten_toDigits]
  exact ⟨String.toList_injective helement, UInt64.toNat_inj.1 hnat⟩

/-- A name is not empty. -/
theorem toList_name_ne_nil (tree : TypeTree) : tree.name.toList ≠ [] := by
  intro h
  have := getLast?_name tree
  rw [h] at this
  simp at this

/-- Two function names tell the names in them. -/
theorem function_name_injective {result result' : TypeTree} {params params' : List TypeTree}
    {variadic variadic' : Bool}
    (h : (function result params variadic).name = (function result' params' variadic').name) :
    result.name = result'.name ∧ params.map name = params'.map name ∧ variadic = variadic' := by
  have hvariadic : variadic = variadic' := by
    have := ending_eq_of_name h
    cases variadic <;> cases variadic' <;> simp_all [ending]
  subst hvariadic
  have htext := congrArg String.toList h
  rw [name, name, toList_function, toList_function, ← List.append_assoc,
    ← List.append_assoc, List.append_cancel_right_eq, ← List.cons_append, ← List.cons_append,
    ← List.append_assoc, ← List.append_assoc, List.append_cancel_right_eq] at htext
  have hnames : ∀ trees : List TypeTree, ∀ text ∈ (trees.map name).map String.toList,
      Nested text ∧ text ≠ [] := by
    intro trees text ht
    obtain ⟨tree, -, rfl⟩ : ∃ tree ∈ trees, tree.name.toList = text := by simpa using ht
    exact ⟨nested_name tree, toList_name_ne_nil tree⟩
  obtain ⟨hresult, hparams⟩ := cut_at_open (nested_name result).toBalanced
    (balanced_intercalate fun text ht => (hnames params text ht).1)
    (nested_name result').toBalanced
    (balanced_intercalate fun text ht => (hnames params' text ht).1) htext
  have hlists := intercalate_injective (hnames params) (hnames params') hparams
  exact ⟨String.toList_injective hresult,
    List.map_injective_iff.2 (fun _ _ => String.toList_injective) hlists, rfl⟩

/-- **Canonical names are injective**: two types of one name are one type. -/
theorem name_injective : ∀ {left right : TypeTree}, left.name = right.name → left = right
  | void, right, h | num, right, h | chr, right, h | str, right, h => by
    -- names of different kinds end differently
    have hend := ending_eq_of_name h
    cases right with
    | array => simp [ending] at hend
    | function _ _ variadic => cases variadic <;> simp [ending] at hend
    | _ => first | rfl | simp [name] at h
  | array element size, right, h => by
    have hend := ending_eq_of_name h
    cases right with
    | array element' size' =>
      rw [name, name] at h
      obtain ⟨helement, rfl⟩ := array_name_injective h
      rw [name_injective helement]
    | function _ _ variadic => cases variadic <;> simp [ending] at hend
    | _ => simp [ending] at hend
  | function result params variadic, right, h => by
    have hend := ending_eq_of_name h
    cases right with
    | function result' params' variadic' =>
      obtain ⟨hresult, hparams, rfl⟩ := function_name_injective h
      rw [name_injective hresult]
      congr 1
      refine List.ext_getElem (by simpa using congrArg List.length hparams) fun i hi hi' => ?_
      have hmem : params[i] ∈ params := List.getElem_mem hi
      have hname := congrArg (fun names => names[i]?) hparams
      exact name_injective (by simpa [hi, hi'] using hname)
    | _ => cases variadic <;> simp [ending] at hend
decreasing_by
  all_goals simp_wf
  all_goals first | omega | (have hlt := List.sizeOf_lt_of_mem hmem; omega)

end TypeTree
end ChainIR
