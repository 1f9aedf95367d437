import Mathlib
import ChainIR.Proofs.Outline.Steps

/-! # The outline of the initial program

The initial program holds the builtin functions, declared in order, and nothing else
(`Program.shownBy_initial`). -/

namespace ChainIR

/-! ## The builtin functions -/

/-- The prototypes of the builtin functions, in order of declaration. -/
def builtinPrototypes : List Prototype :=
  [⟨"+", "num", ["num", "num"], false⟩, ⟨"-", "num", ["num", "num"], false⟩,
    ⟨"*", "num", ["num", "num"], false⟩, ⟨"/", "num", ["num", "num"], false⟩,
    ⟨"==", "num", ["num", "num"], false⟩, ⟨"&&", "num", ["num", "num"], false⟩,
    ⟨"!=", "num", ["str", "str"], false⟩, ⟨"?", "num", ["num", "num", "num"], false⟩,
    ⟨"random", "num", [], false⟩, ⟨"floor", "num", ["num"], false⟩,
    ⟨"num", "num", ["str"], false⟩, ⟨"printf", "void", ["str"], true⟩,
    ⟨"readf", "str", ["str"], true⟩]

/-- There are thirteen builtin functions. -/
theorem length_builtinPrototypes : builtinPrototypes.length = Program.builtinCount := rfl

namespace Outline

variable {σ : Type}

/-- Functions that are declared and nothing else. -/
def ofPrototypes (prototypes : List Prototype) : Outline σ :=
  ⟨[], prototypes.map Routine.declared⟩

/-- An outline of declarations alone declares just these. -/
@[simp] theorem prototypes_ofPrototypes (prototypes : List Prototype) :
    (ofPrototypes prototypes : Outline σ).prototypes = prototypes := by
  simp [ofPrototypes, Outline.prototypes, Routine.declared, Function.comp_def]

/-- One more declaration gives an outline of declarations alone. -/
@[simp] theorem declare_ofPrototypes (prototypes : List Prototype) (prototype : Prototype) :
    (ofPrototypes prototypes : Outline σ).declare prototype =
      ofPrototypes (prototypes ++ [prototype]) := by
  simp [ofPrototypes, Outline.declare]

end Outline

/-! ## Declaring them -/

namespace Program

/-- The empty program has an empty outline. -/
theorem shownBy_empty : ShownBy {} (.ofPrototypes []) := by
  refine ⟨.ofPrototypes [], ⟨⟨interned_empty, rfl, rfl, ?_, ?_, fun _ => rfl, ?_, ?_, ?_, ?_⟩, ?_, ?_⟩,
    rfl, .nil⟩
  all_goals simp [Arena.get?, Outline.ofPrototypes, Outline.prototypes, globalNamed?, Outline.Filled]

/-- Functions of several names and one type. -/
def prototypesOf (names : List String) (result : String) (params : List String)
    (variadic : Bool) : List Prototype :=
  names.map fun name => ⟨name, result, params, variadic⟩

/-- Declaring functions of a type one after the other. -/
theorem declareEach_yields {program : Program} {prototypes : List Prototype}
    (h : program.ShownBy (.ofPrototypes prototypes)) {names : List String} {type : TypeRef}
    {result : String} {params : List String} {variadic : Bool}
    (htype : ∀ name, program.PrototypeIs type ⟨name, result, params, variadic⟩)
    (hnodup : (prototypes ++ prototypesOf names result params variadic).Nodup) :
    Step.Yields (forIn names PUnit.unit fun name _ => do
        let _ ← Edit.declareFunction name type
        pure (ForInStep.yield PUnit.unit) : Edit PUnit) program fun _ after =>
      after.ShownBy (.ofPrototypes (prototypes ++ prototypesOf names result params variadic)) ∧
        program.Extends after := by
  -- the induction moves one name at a time behind the prototypes that are there
  induction names generalizing program prototypes with
  | nil => exact ⟨⟨⟩, program, rfl, by simpa [prototypesOf] using h, .refl program⟩
  | cons name names ih =>
    have hmove : prototypes ++ prototypesOf (name :: names) result params variadic =
        prototypes ++ [⟨name, result, params, variadic⟩] ++
          prototypesOf names result params variadic := by simp [prototypesOf]
    rw [hmove] at hnodup ⊢
    have hnew : (⟨name, result, params, variadic⟩ : Prototype) ∉
        (Outline.ofPrototypes prototypes : Outline (Statement Callee)).prototypes := by
      rw [Outline.prototypes_ofPrototypes]
      intro hmem
      exact (List.nodup_append.1 hnodup.of_append_left).2.2 _ hmem _ (.head _) rfl
    obtain ⟨ref, declared, hrun, -, hdeclared, hextends⟩ :=
      h.declareFunction_yields (htype name) hnew
    rw [Outline.declare_ofPrototypes] at hdeclared
    rw [List.forIn_cons]
    obtain ⟨⟨⟩, after, hrest, hafter, hextends'⟩ :=
      ih hdeclared (fun name => (htype name).mono hextends) hnodup
    have hfirst : (do
        let _ ← Edit.declareFunction name type
        pure (ForInStep.yield PUnit.unit) : Edit (ForInStep PUnit)) program =
        .ok (.yield ⟨⟩, declared) := by
      rw [Step.bind_of_ok hrun]
      rfl
    refine ⟨⟨⟩, after, ?_, hafter, hextends.trans hextends'⟩
    rw [← hrest]
    exact Step.bind_of_ok hfirst

/-- Declaring functions of one signature. -/
theorem declareAll_yields {program : Program} {prototypes : List Prototype}
    (h : program.ShownBy (.ofPrototypes prototypes)) {names : List String} {signature : Signature}
    {result : String} {params : List String}
    (hresult : program.typeName signature.result = .ok result)
    (hparams : List.Forall₂ (fun param name => program.typeName param = .ok name)
      signature.params params)
    (hnodup : (prototypes ++ prototypesOf names result params signature.variadic).Nodup) :
    Step.Yields (Edit.declareAll names signature) program fun _ after =>
      after.ShownBy (.ofPrototypes (prototypes ++
        prototypesOf names result params signature.variadic)) ∧ program.Extends after := by
  have htyped : Step.Yields (Edit.functionType signature) program fun ref after =>
      program.Grows after ∧ after.PrototypeIs ref ⟨"", result, params, signature.variadic⟩ :=
    Edit.functionType_prototype h.interned hresult hparams rfl
  obtain ⟨type, typed, hrun, hgrows, htype⟩ := htyped
  obtain ⟨⟨⟩, after, hrest, hafter, hextends⟩ := declareEach_yields (h.grows hgrows)
    (fun _ => htype) hnodup
  refine ⟨⟨⟩, after, ?_, hafter, hgrows.toExtends.trans hextends⟩
  rw [Edit.declareAll, Step.bind_of_ok hrun, Step.bind_of_ok hrest]
  rfl

/-- Asking for a primitive type. -/
theorem primitiveType_yields {program : Program} (h : program.Interned) {shape : TypeShape}
    {tree : TypeTree} (hshape : program.HasShape shape tree) :
    Step.Yields (Edit.intern tree.name shape) program fun ref after =>
      program.Grows after ∧ after.typeName ref = .ok tree.name := by
  refine (Edit.intern_yields h hshape).mono fun ref after hafter => ?_
  obtain ⟨hadds, hinterned, hentry⟩ := hafter
  exact ⟨.of_addsTypes hadds hinterned, typeName_eq_ok.2 ⟨_, hentry, rfl⟩⟩

/-- Where the types of the builtin functions are. -/
structure HasBuiltinTypes (program : Program) (void num str : TypeRef) : Prop where
  /-- The type of functions that return nothing. -/
  void : program.typeName void = .ok "void"
  /-- The type of numbers. -/
  num : program.typeName num = .ok "num"
  /-- The type of strings. -/
  str : program.typeName str = .ok "str"

/-- Types stay where they are. -/
theorem HasBuiltinTypes.mono {program after : Program} {void num str : TypeRef}
    (h : program.HasBuiltinTypes void num str) (hextends : program.Extends after) :
    after.HasBuiltinTypes void num str :=
  ⟨hextends.typeName h.void, hextends.typeName h.num, hextends.typeName h.str⟩

/-- Declaring builtin functions of one signature behind those that have been declared. -/
theorem declareAll_builtin {program : Program} {void num str : TypeRef}
    {prototypes : List Prototype} (h : program.ShownBy (.ofPrototypes prototypes))
    (htypes : program.HasBuiltinTypes void num str) {names : List String} {type : TypeRef}
    {types : List TypeRef} {variadic : Bool} (result : String) (params : List String)
    (hfront : prototypes ++ prototypesOf names result params variadic <+: builtinPrototypes)
    (hresult : program.typeName type = .ok result)
    (hparams : List.Forall₂ (fun param name => program.typeName param = .ok name) types params) :
    Step.Yields (Edit.declareAll names ⟨type, types, variadic⟩) program fun _ after =>
      after.ShownBy (.ofPrototypes (prototypes ++ prototypesOf names result params variadic)) ∧
        after.HasBuiltinTypes void num str := by
  have hnodup : builtinPrototypes.Nodup := by decide
  have hdeclare : Step.Yields (Edit.declareAll names ⟨type, types, variadic⟩) program
      fun _ after => after.ShownBy (.ofPrototypes
        (prototypes ++ prototypesOf names result params variadic)) ∧ program.Extends after :=
    declareAll_yields h hresult hparams (hfront.sublist.nodup hnodup)
  exact hdeclare.mono fun _ after hafter => ⟨hafter.1, htypes.mono hafter.2⟩

/-- The types of the builtin functions can be asked for. -/
theorem builtinTypes_yields {program : Program} {prototypes : List Prototype}
    (h : program.ShownBy (.ofPrototypes prototypes)) {β : Type}
    {next : TypeRef → TypeRef → TypeRef → Edit β} {post : β → Program → Prop}
    (hnext : ∀ void num str after, after.ShownBy (.ofPrototypes prototypes) →
      after.HasBuiltinTypes void num str → Step.Yields (next void num str) after post) :
    Step.Yields (do
      let void ← Edit.voidType
      let num ← Edit.numType
      let str ← Edit.strType
      next void num str) program post := by
  have hvoid : TypeTree.void.name = "void" := by rw [TypeTree.name]
  have hnum : TypeTree.num.name = "num" := by rw [TypeTree.name]
  have hstr : TypeTree.str.name = "str" := by rw [TypeTree.name]
  have hvoidShape : ∀ program : Program, program.HasShape .void .void := fun _ => trivial
  have hnumShape : ∀ program : Program, program.HasShape .num .num := fun _ => trivial
  have hstrShape : ∀ program : Program, program.HasShape .str .str := fun _ => trivial
  -- interning is proved for the names of trees, so each name is written as one
  rw [Edit.voidType, Edit.numType, Edit.strType, ← hvoid, ← hnum, ← hstr]
  refine (primitiveType_yields h.interned (hvoidShape _)).bind fun void p hp => ?_
  obtain ⟨hgrows, hvoidName⟩ := hp
  have hshown := h.grows hgrows
  refine (primitiveType_yields hshown.interned (hnumShape _)).bind fun num p hp => ?_
  obtain ⟨hgrows, hnumName⟩ := hp
  replace hshown := hshown.grows hgrows
  replace hvoidName := hgrows.toExtends.typeName hvoidName
  refine (primitiveType_yields hshown.interned (hstrShape _)).bind fun str p hp => ?_
  obtain ⟨hgrows, hstrName⟩ := hp
  refine hnext void num str p (hshown.grows hgrows) ⟨?_, ?_, ?_⟩
  · exact hvoid ▸ hgrows.toExtends.typeName hvoidName
  · exact hnum ▸ hgrows.toExtends.typeName hnumName
  · exact hstr ▸ hstrName

/-- The builtin functions can be declared. -/
theorem declareBuiltins_yields : Step.Yields Edit.declareBuiltins {} fun _ after =>
    after.ShownBy (.ofPrototypes builtinPrototypes) := by
  refine builtinTypes_yields shownBy_empty fun void num str p hshown htypes => ?_
  -- the groups of one function type, in the order in which they are declared
  refine (declareAll_builtin hshown htypes "num" ["num", "num"] (by decide) htypes.num
    (by simp [htypes.num])).bind fun _ p h => ?_
  obtain ⟨hshown, htypes⟩ := h
  refine (declareAll_builtin hshown htypes "num" ["str", "str"] (by decide) htypes.num
    (by simp [htypes.str])).bind fun _ p h => ?_
  obtain ⟨hshown, htypes⟩ := h
  refine (declareAll_builtin hshown htypes "num" ["num", "num", "num"] (by decide) htypes.num
    (by simp [htypes.num])).bind fun _ p h => ?_
  obtain ⟨hshown, htypes⟩ := h
  refine (declareAll_builtin hshown htypes "num" [] (by decide) htypes.num .nil).bind
    fun _ p h => ?_
  obtain ⟨hshown, htypes⟩ := h
  refine (declareAll_builtin hshown htypes "num" ["num"] (by decide) htypes.num
    (by simp [htypes.num])).bind fun _ p h => ?_
  obtain ⟨hshown, htypes⟩ := h
  refine (declareAll_builtin hshown htypes "num" ["str"] (by decide) htypes.num
    (by simp [htypes.str])).bind fun _ p h => ?_
  obtain ⟨hshown, htypes⟩ := h
  refine (declareAll_builtin hshown htypes "void" ["str"] (by decide) htypes.void
    (by simp [htypes.str])).bind fun _ p h => ?_
  obtain ⟨hshown, htypes⟩ := h
  exact (declareAll_builtin hshown htypes "str" ["str"] (by decide) htypes.str
    (by simp [htypes.str])).mono fun _ p h => h.1

/-- **The initial program** holds the builtin functions and nothing else. -/
theorem shownBy_initial : initial.ShownBy (.ofPrototypes builtinPrototypes) := by
  obtain ⟨⟨⟩, after, hrun, hafter⟩ := declareBuiltins_yields
  have hrun' : Edit.declareBuiltins.run {} = .ok (⟨⟩, after) := hrun
  rw [initial, hrun']
  exact hafter

end Program

end ChainIR
