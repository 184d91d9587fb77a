/-!
# Type names

A type name is a tree: a simple name, the type it is nested in, and the generic
arguments declared on it. The namespace sits on the outermost type of a chain,
and generic arguments on the declaration that owns them, from where nested
types see them.
-/

set_option autoImplicit false

namespace ClrNames

inductive ParamKind where
  | type
  | method
  deriving DecidableEq, Repr

structure GenericParam where
  index : UInt32
  kind : ParamKind
  deriving DecidableEq, Repr

def GenericParam.text (p : GenericParam) : String :=
  match p.kind with
  | .type => "!" ++ toString p.index.toNat
  | .method => "!!" ++ toString p.index.toNat

structure TypeName where
  nspace : String
  name : String
  enclosing : Option TypeName := none
  args : List TypeName := []
  isArray : Bool := false
  param : Option GenericParam := none
  deriving Inhabited, Repr

namespace TypeName

mutual

def decEqNode (a b : TypeName) : Decidable (a = b) :=
  match a, b with
  | ⟨ns, n, e, as, arr, p⟩, ⟨ns', n', e', as', arr', p'⟩ =>
    match decEqEnclosing e e', decEqArgs as as' with
    | isTrue he, isTrue has =>
      if h : ns = ns' ∧ n = n' ∧ arr = arr' ∧ p = p' then
        isTrue (by obtain ⟨rfl, rfl, rfl, rfl⟩ := h; rw [he, has])
      else isFalse (by rintro ⟨⟩; exact h ⟨rfl, rfl, rfl, rfl⟩)
    | isFalse he, _ => isFalse (by rintro ⟨⟩; exact he rfl)
    | _, isFalse has => isFalse (by rintro ⟨⟩; exact has rfl)

def decEqEnclosing (a b : Option TypeName) : Decidable (a = b) :=
  match a, b with
  | none, none => isTrue rfl
  | some x, some y =>
    match decEqNode x y with
    | isTrue h => isTrue (by rw [h])
    | isFalse h => isFalse (by rintro ⟨⟩; exact h rfl)
  | none, some _ => isFalse nofun
  | some _, none => isFalse nofun

def decEqArgs (a b : List TypeName) : Decidable (a = b) :=
  match a, b with
  | [], [] => isTrue rfl
  | x :: xs, y :: ys =>
    match decEqNode x y, decEqArgs xs ys with
    | isTrue h, isTrue hs => isTrue (by rw [h, hs])
    | isFalse h, _ => isFalse (by rintro ⟨⟩; exact h rfl)
    | _, isFalse hs => isFalse (by rintro ⟨⟩; exact hs rfl)
  | [], _ :: _ => isFalse nofun
  | _ :: _, [] => isFalse nofun

end

instance : DecidableEq TypeName := decEqNode

def topLevel (nspace name : String) : TypeName := { nspace, name }

def placeholder (p : GenericParam) : TypeName :=
  { nspace := "", name := "T" ++ toString p.index.toNat, param := some p }

def nested (enclosing : TypeName) (name : String) : TypeName :=
  { nspace := "", name, enclosing := some enclosing }

def withArray (t : TypeName) (isArray : Bool) : TypeName :=
  { t with isArray := t.isArray || isArray }

/-- The generic arguments a type sees: its own, else those of the closest
enclosing type that has any. -/
def effectiveArgs : TypeName → List TypeName
  | ⟨_, _, enclosing, args, _, _⟩ =>
    match args, enclosing with
    | [], some outer => outer.effectiveArgs
    | args, _ => args

def enclosingChain : TypeName → List TypeName
  | ⟨_, _, none, _, _, _⟩ => []
  | ⟨_, _, some outer, _, _, _⟩ => outer.enclosingChain ++ [outer]

def rootNamespace : TypeName → String
  | ⟨nspace, _, none, _, _, _⟩ => nspace
  | ⟨_, _, some outer, _, _, _⟩ => outer.rootNamespace

def isPlaceholder (t : TypeName) : Bool := t.param.isSome

def isNested (t : TypeName) : Bool := t.enclosing.isSome

def fullname (t : TypeName) : String :=
  (if t.rootNamespace.isEmpty then "" else t.rootNamespace ++ ".") ++
    String.join (t.enclosingChain.map fun outer => outer.name ++ ".") ++ t.name

def fileStem : TypeName → String
  | ⟨_, name, none, _, _, _⟩ => name
  | ⟨_, name, some outer, _, _, _⟩ => outer.fileStem ++ "__" ++ name

def ofChain (nspace : String) (enclosing : List String) (name : String) : TypeName :=
  match enclosing with
  | [] => topLevel nspace name
  | outermost :: inner => (inner.foldl nested (topLevel nspace outermost)).nested name

variable (t : TypeName) (mark : Bool) (name nspace : String) (names : List String)

theorem name_ofChain : (ofChain nspace names name).name = name := by
  cases names <;> rfl

theorem isArray_ofChain : (ofChain nspace names name).isArray = false := by
  cases names <;> rfl

theorem param_ofChain : (ofChain nspace names name).param = none := by
  cases names <;> rfl

@[simp] theorem withArray_name : (t.withArray mark).name = t.name := rfl

@[simp] theorem withArray_nspace : (t.withArray mark).nspace = t.nspace := rfl

@[simp] theorem withArray_enclosing : (t.withArray mark).enclosing = t.enclosing := rfl

@[simp] theorem withArray_args : (t.withArray mark).args = t.args := rfl

@[simp] theorem withArray_param : (t.withArray mark).param = t.param := rfl

@[simp] theorem withArray_isArray : (t.withArray mark).isArray = (t.isArray || mark) := rfl

@[simp] theorem withArray_false : t.withArray false = t := by
  cases t; simp [withArray]

theorem effectiveArgs_withArray : (t.withArray mark).effectiveArgs = t.effectiveArgs := by
  cases t with
  | mk ns n enclosing args arr p => cases enclosing <;> cases args <;> rfl

theorem enclosingChain_withArray : (t.withArray mark).enclosingChain = t.enclosingChain := by
  cases t with
  | mk ns n enclosing args arr p => cases enclosing <;> rfl

theorem enclosingChain_withArgs (args : List TypeName) :
    ({ t with args } : TypeName).enclosingChain = t.enclosingChain := by
  cases t with
  | mk ns n enclosing args arr p => cases enclosing <;> rfl

theorem rootNamespace_withArray : (t.withArray mark).rootNamespace = t.rootNamespace := by
  cases t with
  | mk ns n enclosing args arr p => cases enclosing <;> rfl

theorem rootNamespace_withArgs (args : List TypeName) :
    ({ t with args } : TypeName).rootNamespace = t.rootNamespace := by
  cases t with
  | mk ns n enclosing args arr p => cases enclosing <;> rfl

theorem effectiveArgs_nested : (t.nested name).effectiveArgs = t.effectiveArgs := rfl

theorem enclosingChain_nested : (t.nested name).enclosingChain = t.enclosingChain ++ [t] := rfl

theorem effectiveArgs_foldl_nested :
    (names.foldl nested t).effectiveArgs = t.effectiveArgs := by
  induction names generalizing t with
  | nil => rfl
  | cons name names ih => rw [List.foldl_cons, ih, effectiveArgs_nested]

theorem length_enclosingChain_foldl_nested :
    (names.foldl nested t).enclosingChain.length = t.enclosingChain.length + names.length := by
  induction names generalizing t with
  | nil => rfl
  | cons name names ih =>
    rw [List.foldl_cons, ih, enclosingChain_nested, List.length_append, List.length_cons,
      List.length_cons, List.length_nil]
    omega

theorem effectiveArgs_ofChain (enclosing : List String) :
    (ofChain nspace enclosing name).effectiveArgs = [] := by
  cases enclosing with
  | nil => rfl
  | cons outermost inner =>
    rw [ofChain, effectiveArgs_nested, effectiveArgs_foldl_nested]
    rfl

theorem length_enclosingChain_ofChain (enclosing : List String) :
    (ofChain nspace enclosing name).enclosingChain.length = enclosing.length := by
  cases enclosing with
  | nil => rfl
  | cons outermost inner =>
    rw [ofChain, enclosingChain_nested, List.length_append, length_enclosingChain_foldl_nested]
    simp [topLevel, enclosingChain]

end TypeName

end ClrNames
