import ClrNames.Proofs.NameTables
import ClrNames.Proofs.NodeInvariant

/-!
# What the text of a type tells

The qualified text of a type shows a path: the segments of the namespace, then the
enclosing types from the outermost one on, then the type itself, each with its
arguments, which are shown in the same way. Names without the marks of that text can be
read off it in one way only, so that types with one text have one path. It does not tell
where the namespace ends, which types are placeholders, and what enclosing types hold
besides their names and arguments.
-/

set_option autoImplicit false

namespace ClrNames

mutual

inductive Shown where
  | mk (path : List ShownSegment) (isArray : Bool)

inductive ShownSegment where
  | mk (name : String) (args : List Shown)

end

def namespaceSegments (nspace : String) : List String :=
  if nspace.isEmpty then [] else (Text.segments nspace.toList).map String.ofList

namespace TypeName

mutual

def path : TypeName → List ShownSegment
  | ⟨nspace, name, enclosing, args, _, _⟩ =>
    pathBelow nspace enclosing ++ [.mk name (shownArgs args)]

def pathBelow (nspace : String) : Option TypeName → List ShownSegment
  | none => (namespaceSegments nspace).map (.mk · [])
  | some outer => outer.path

def shownArgs : List TypeName → List Shown
  | [] => []
  | t :: ts => .mk t.path t.isArray :: shownArgs ts

end

theorem path_ne_nil (t : TypeName) : t.path ≠ [] := by
  cases t
  simp [path]

end TypeName

/-! ## The text of a path -/

mutual

def Shown.text : Shown → List Char
  | .mk path isArray => pathText path ++ (Renderer.arrayMark isArray).toList

def ShownSegment.text : ShownSegment → List Char
  | .mk name args => name.toList ++ argumentText args

def pathText : List ShownSegment → List Char
  | [] => []
  | [s] => s.text
  | s :: next :: rest => s.text ++ '.' :: pathText (next :: rest)

def argumentText : List Shown → List Char
  | [] => []
  | a :: rest => '<' :: (a.text ++ restText rest)

def restText : List Shown → List Char
  | [] => ['>']
  | a :: rest => ',' :: ' ' :: (a.text ++ restText rest)

end

theorem pathText_eq_dotted (path : List ShownSegment) :
    pathText path = Text.dotted (path.map ShownSegment.text) := by
  induction path with
  | nil => rfl
  | cons s path ih =>
    cases path with
    | nil => simp [pathText, Text.dotted]
    | cons next rest =>
      rw [pathText, ih]
      simp [Text.dotted, List.intercalate_cons_cons]

theorem pathText_concat {path : List ShownSegment} (hne : path ≠ []) (s : ShownSegment) :
    pathText (path ++ [s]) = pathText path ++ '.' :: s.text := by
  rw [pathText_eq_dotted, pathText_eq_dotted, List.map_append, List.map_singleton,
    Text.dotted_concat (by simpa using hne)]

theorem pathText_namespace {nspace : String} (hne : nspace ≠ "") :
    pathText ((namespaceSegments nspace).map (.mk · [])) = nspace.toList := by
  have htexts : ((namespaceSegments nspace).map (ShownSegment.mk · [])).map ShownSegment.text =
      Text.segments nspace.toList := by
    rw [namespaceSegments, if_neg (by simpa using hne)]
    simp [Function.comp_def, ShownSegment.text, argumentText]
  rw [pathText_eq_dotted, htexts, Text.dotted_segments]

namespace TypeName

def qualified : Renderer := { flags := .qualified }

theorem even_qualified : qualified.Even := ⟨rfl, rfl⟩

theorem display_eq (t : TypeName) : t.display =
    qualified.path t ++ t.name ++ Renderer.argumentSuffix (qualified.renderArgs t.args) ++
      Renderer.arrayMark t.isArray :=
  Renderer.render_of_even t even_qualified

theorem text_of_path {t : TypeName} (h : pathText t.path =
    (qualified.path t ++ t.name ++
      Renderer.argumentSuffix (qualified.renderArgs t.args)).toList) :
    (Shown.mk t.path t.isArray).text = (qualified.render t).toList := by
  rw [Shown.text, h, ← String.toList_append]
  exact congrArg String.toList (display_eq t).symm

open Renderer in
mutual

theorem pathText_path : (t : TypeName) →
    pathText t.path =
      (qualified.path t ++ t.name ++ argumentSuffix (qualified.renderArgs t.args)).toList
  | ⟨nspace, name, none, args, isArray, param⟩ => by
    have hpath : qualified.path ⟨nspace, name, none, args, isArray, param⟩ =
        nspacePrefix nspace := path_topLevel name even_qualified nspace
    simp only [path, pathBelow, hpath, nspacePrefix, String.isEmpty_iff, String.toList_append,
      ← argumentText_args args]
    by_cases hempty : nspace = ""
    · simp [hempty, namespaceSegments, pathText, ShownSegment.text]
    · have hne : (namespaceSegments nspace).map (ShownSegment.mk · []) ≠ [] := by
        simp [namespaceSegments, hempty, Text.segments_ne_nil]
      rw [pathText_concat hne, pathText_namespace hempty]
      simp [hempty, ShownSegment.text]
  | ⟨nspace, name, some outer, args, isArray, param⟩ => by
    have hpath : qualified.path ⟨nspace, name, some outer, args, isArray, param⟩ = _ :=
      path_nested outer name even_qualified
    simp only [path, pathBelow, hpath, String.toList_append, ← argumentText_args args]
    rw [pathText_concat outer.path_ne_nil, pathText_path outer]
    simp [ShownSegment.text, qualified, RenderFlags.qualified]

theorem argumentText_args : (ts : List TypeName) →
    argumentText (shownArgs ts) = (argumentSuffix (qualified.renderArgs ts)).toList
  | [] => rfl
  | t :: ts => by
    have htext := text_of_path (pathText_path t)
    have hrest := restText_args ts (qualified.render t)
    rw [shownArgs, argumentText, htext, hrest]
    simp [argumentSuffix, renderArgs]

/-- The arguments of a list behind one that is known as it is shown. -/
theorem restText_args : (ts : List TypeName) → (first : String) →
    first.toList ++ restText (shownArgs ts) =
      (", ".intercalate (first :: qualified.renderArgs ts) ++ ">").toList
  | [], first => by simp [shownArgs, restText, renderArgs]
  | t :: ts, first => by
    have htext := text_of_path (pathText_path t)
    have hrest := restText_args ts (qualified.render t)
    rw [shownArgs, restText, htext, hrest, renderArgs, String.intercalate_cons_cons]
    simp

end

/-- The path of a type and its array mark are all that its text shows. -/
theorem toList_display (t : TypeName) : t.display.toList = (Shown.mk t.path t.isArray).text :=
  (text_of_path (pathText_path t)).symm

end TypeName

/-! ## Reading the path off its text -/

def displayMarks : List Char := ['.', '<', '>', ',', '[', ']']

def typeEnds : List Char := [',', '>']

def pathEnds : List Char := '[' :: typeEnds

def segmentEnds : List Char := '.' :: pathEnds

def Unmarked (name : String) : Prop := ∀ c ∈ name.toList, c ∉ displayMarks

instance (name : String) : Decidable (Unmarked name) :=
  List.decidableBAll (· ∉ displayMarks) name.toList

mutual

def Shown.Legible : Shown → Prop
  | .mk path _ => path ≠ [] ∧ LegiblePath path

def ShownSegment.Legible : ShownSegment → Prop
  | .mk name args => Unmarked name ∧ LegibleArgs args

def LegiblePath : List ShownSegment → Prop
  | [] => True
  | s :: rest => s.Legible ∧ LegiblePath rest

def LegibleArgs : List Shown → Prop
  | [] => True
  | a :: rest => a.Legible ∧ LegibleArgs rest

end

theorem legiblePath_append {p q : List ShownSegment} (hp : LegiblePath p) (hq : LegiblePath q) :
    LegiblePath (p ++ q) := by
  induction p with
  | nil => exact hq
  | cons s p ih => exact ⟨hp.1, ih hp.2⟩

def GoesOn (marks text : List Char) : Prop := ∀ c, text.head? = some c → c ∈ marks

section
variable {marks x y : List Char}

theorem GoesOn.mono {more : List Char} (h : GoesOn marks x) (hsub : marks ⊆ more) :
    GoesOn more x :=
  fun c hc => hsub (h c hc)

theorem goesOn_cons {c : Char} (h : c ∈ marks) : GoesOn marks (c :: x) := by
  rintro d ⟨⟩
  exact h

theorem GoesOn.mem {c : Char} (h : GoesOn marks (c :: x)) : c ∈ marks := h c rfl

/-- A name ends in front of the first mark. -/
theorem name_unique {a b : String} (ha : Unmarked a) (hb : Unmarked b) (hx : GoesOn displayMarks x)
    (hy : GoesOn displayMarks y) (h : a.toList ++ x = b.toList ++ y) : a = b ∧ x = y := by
  rcases List.append_eq_append_iff.mp h with ⟨more, hmore, hrest⟩ | ⟨more, hmore, hrest⟩
  · cases more with
    | nil => exact ⟨String.toList_inj.mp (by simpa using hmore.symm), by simpa using hrest⟩
    | cons c more =>
      rw [hrest] at hx
      exact absurd hx.mem (hb c (by simp [hmore]))
  · cases more with
    | nil => exact ⟨String.toList_inj.mp (by simpa using hmore), by simpa using hrest.symm⟩
    | cons c more =>
      rw [hrest] at hy
      exact absurd hy.mem (ha c (by simp [hmore]))

theorem arrayMark_unique {m n : Bool} (hx : GoesOn typeEnds x) (hy : GoesOn typeEnds y)
    (h : (Renderer.arrayMark m).toList ++ x = (Renderer.arrayMark n).toList ++ y) :
    m = n ∧ x = y := by
  have hopen {cs ds : List Char} (hcs : GoesOn typeEnds cs) : cs ≠ '[' :: ds := by
    rintro rfl
    exact absurd hcs.mem (by decide)
  cases m <;> cases n
  · exact ⟨rfl, h⟩
  · exact absurd h (hopen hx)
  · exact absurd h.symm (hopen hy)
  · exact ⟨rfl, (List.append_right_inj _).mp h⟩

theorem goesOn_arrayMark (m : Bool) (hx : GoesOn typeEnds x) :
    GoesOn pathEnds ((Renderer.arrayMark m).toList ++ x) := by
  cases m with
  | false => exact hx.mono (by decide)
  | true => exact goesOn_cons (by decide)

theorem goesOn_argumentText (args : List Shown) (hx : GoesOn segmentEnds x) :
    GoesOn displayMarks (argumentText args ++ x) := by
  cases args with
  | nil => exact hx.mono (by decide)
  | cons a rest => exact goesOn_cons (by decide)

theorem goesOn_restText (args : List Shown) : GoesOn typeEnds (restText args ++ x) := by
  cases args with
  | nil => exact goesOn_cons (by decide)
  | cons a rest => exact goesOn_cons (by decide)

mutual

/-- By induction on what is shown in front, one case for each of its constructors: a part
ends where the text goes on with a mark that cannot belong to it. -/
theorem Shown.text_unique : (a b : Shown) → a.Legible → b.Legible → (x y : List Char) →
    GoesOn typeEnds x → GoesOn typeEnds y → a.text ++ x = b.text ++ y → a = b ∧ x = y
  | .mk p m, .mk q n, ha, hb, x, y, hx, hy, h => by
    rw [Shown.text, Shown.text, List.append_assoc, List.append_assoc] at h
    obtain ⟨rfl, hmark⟩ := pathText_unique p q ha.1 hb.1 ha.2 hb.2 _ _ (goesOn_arrayMark m hx)
      (goesOn_arrayMark n hy) h
    obtain ⟨rfl, hrest⟩ := arrayMark_unique hx hy hmark
    exact ⟨rfl, hrest⟩

theorem pathText_unique : (p q : List ShownSegment) → p ≠ [] → q ≠ [] → LegiblePath p →
    LegiblePath q → (x y : List Char) → GoesOn pathEnds x → GoesOn pathEnds y →
    pathText p ++ x = pathText q ++ y → p = q ∧ x = y
  | [], _, hp, _, _, _, _, _, _, _, _ => absurd rfl hp
  | _, [], _, hq, _, _, _, _, _, _, _ => absurd rfl hq
  | [s], [t], _, _, hp, hq, x, y, hx, hy, h => by
    obtain ⟨rfl, hrest⟩ := s.text_unique t hp.1 hq.1 x y (hx.mono (by decide))
      (hy.mono (by decide)) h
    exact ⟨rfl, hrest⟩
  | [s], t :: next :: q, _, _, hp, hq, x, y, hx, _, h => by
    rw [pathText, pathText, List.append_assoc] at h
    obtain ⟨-, rfl⟩ := s.text_unique t hp.1 hq.1 x _ (hx.mono (by decide))
      (goesOn_cons (by decide)) h
    exact absurd hx.mem (by decide)
  | s :: next :: p, [t], _, _, hp, hq, x, y, _, hy, h => by
    rw [pathText, pathText, List.append_assoc] at h
    obtain ⟨-, rfl⟩ := s.text_unique t hp.1 hq.1 _ y (goesOn_cons (by decide))
      (hy.mono (by decide)) h
    exact absurd hy.mem (by decide)
  | s :: next :: p, t :: next' :: q, _, _, hp, hq, x, y, hx, hy, h => by
    rw [pathText, pathText, List.append_assoc, List.append_assoc] at h
    obtain ⟨rfl, hpath⟩ := s.text_unique t hp.1 hq.1 _ _ (goesOn_cons (by decide))
      (goesOn_cons (by decide)) h
    obtain ⟨hsame, hrest⟩ := pathText_unique (next :: p) (next' :: q) (by simp) (by simp) hp.2 hq.2
      x y hx hy (List.cons.inj hpath).2
    exact ⟨by rw [hsame], hrest⟩

theorem ShownSegment.text_unique : (s t : ShownSegment) → s.Legible → t.Legible →
    (x y : List Char) → GoesOn segmentEnds x → GoesOn segmentEnds y →
    s.text ++ x = t.text ++ y → s = t ∧ x = y
  | .mk a as, .mk b bs, hs, ht, x, y, hx, hy, h => by
    rw [ShownSegment.text, ShownSegment.text, List.append_assoc, List.append_assoc] at h
    obtain ⟨rfl, hargs⟩ := name_unique hs.1 ht.1 (goesOn_argumentText as hx)
      (goesOn_argumentText bs hy) h
    obtain ⟨rfl, hrest⟩ := argumentText_unique as bs hs.2 ht.2 x y hx hy hargs
    exact ⟨rfl, hrest⟩

theorem argumentText_unique : (as bs : List Shown) → LegibleArgs as → LegibleArgs bs →
    (x y : List Char) → GoesOn segmentEnds x → GoesOn segmentEnds y →
    argumentText as ++ x = argumentText bs ++ y → as = bs ∧ x = y
  | [], [], _, _, _, _, _, _, h => ⟨rfl, h⟩
  | [], b :: bs, _, _, x, y, hx, _, h => by
    obtain rfl : x = argumentText (b :: bs) ++ y := h
    exact absurd hx.mem (by decide)
  | a :: as, [], _, _, x, y, _, hy, h => by
    obtain rfl : argumentText (a :: as) ++ x = y := h
    exact absurd hy.mem (by decide)
  | a :: as, b :: bs, ha, hb, x, y, _, _, h => by
    simp only [argumentText, List.cons_append, List.append_assoc, List.cons.injEq, true_and] at h
    obtain ⟨rfl, hargs⟩ := a.text_unique b ha.1 hb.1 _ _ (goesOn_restText as)
      (goesOn_restText bs) h
    obtain ⟨rfl, hrest⟩ := restText_unique as bs ha.2 hb.2 x y hargs
    exact ⟨rfl, hrest⟩

theorem restText_unique : (as bs : List Shown) → LegibleArgs as → LegibleArgs bs →
    (x y : List Char) → restText as ++ x = restText bs ++ y → as = bs ∧ x = y
  | [], [], _, _, _, _, h => ⟨rfl, (List.cons.inj h).2⟩
  | [], _ :: _, _, _, _, _, h => absurd (List.cons.inj h).1 (by decide)
  | _ :: _, [], _, _, _, _, h => absurd (List.cons.inj h).1 (by decide)
  | a :: as, b :: bs, ha, hb, x, y, h => by
    simp only [restText, List.cons_append, List.append_assoc, List.cons.injEq, true_and] at h
    obtain ⟨rfl, hargs⟩ := a.text_unique b ha.1 hb.1 _ _ (goesOn_restText as)
      (goesOn_restText bs) h
    obtain ⟨rfl, hrest⟩ := restText_unique as bs ha.2 hb.2 x y hargs
    exact ⟨rfl, hrest⟩

end

end

namespace TypeName

structure PlainlyNamed (n : TypeName) : Prop where
  name : Unmarked n.name
  nspace : ∀ part ∈ namespaceSegments n.nspace, Unmarked part

instance (n : TypeName) : Decidable n.PlainlyNamed :=
  decidable_of_iff (Unmarked n.name ∧ ∀ part ∈ namespaceSegments n.nspace, Unmarked part)
    ⟨fun h => ⟨h.1, h.2⟩, fun h => ⟨h.name, h.nspace⟩⟩

theorem legible_namespace {parts : List String} (h : ∀ part ∈ parts, Unmarked part) :
    LegiblePath (parts.map (.mk · [])) := by
  induction parts with
  | nil => trivial
  | cons part parts ih =>
    exact ⟨⟨h part (by simp), trivial⟩, ih fun p hp => h p (List.mem_cons_of_mem _ hp)⟩

mutual

theorem legible_path : (t : TypeName) → (d : Nat) →
    t.Everywhere (fun _ => PlainlyNamed) d → LegiblePath t.path
  | ⟨nspace, name, enclosing, args, isArray, param⟩, d, h => by
    obtain ⟨hself, henclosing, hargs⟩ := everywhere_iff.mp h
    have hlast : LegiblePath [.mk name (shownArgs args)] :=
      ⟨⟨hself.name, legible_args args (d + 1) hargs⟩, trivial⟩
    cases enclosing with
    | none => exact legiblePath_append (legible_namespace hself.nspace) hlast
    | some outer => exact legiblePath_append (legible_path outer d (henclosing outer rfl)) hlast

theorem legible_args : (ts : List TypeName) → (d : Nat) →
    (∀ t ∈ ts, t.Everywhere (fun _ => PlainlyNamed) d) → LegibleArgs (shownArgs ts)
  | [], _, _ => trivial
  | t :: ts, d, h =>
    ⟨⟨t.path_ne_nil, legible_path t d (h t (by simp))⟩,
      legible_args ts d fun u hu => h u (List.mem_cons_of_mem _ hu)⟩

end

theorem shownArgs_eq_map (ts : List TypeName) :
    shownArgs ts = ts.map fun t => .mk t.path t.isArray := by
  induction ts with
  | nil => rfl
  | cons t ts ih => rw [shownArgs, ih, List.map_cons]

theorem path_eq (t : TypeName) : t.path =
    (namespaceSegments t.rootNamespace).map (.mk · []) ++ (t.enclosingChain ++ [t]).map fun n =>
      .mk n.name (n.args.map fun a => .mk a.path a.isArray) := by
  fun_induction enclosingChain t with
  | case1 nspace name args isArray param =>
    simp [path, pathBelow, rootNamespace, shownArgs_eq_map]
  | case2 nspace name args isArray param outer ih =>
    rw [path, pathBelow, ih, rootNamespace, shownArgs_eq_map]
    simp

end TypeName

/-- Types that are named without marks have one text if and only if both or none of them are
arrays and their paths are the same: the segments of the outermost namespace, the types
around them from the outermost one on, and they themselves, each with arguments that show
the same again. -/
theorem display_tells_path (a b : TypeName)
    (ha : a.Everywhere (fun _ => TypeName.PlainlyNamed) 0)
    (hb : b.Everywhere (fun _ => TypeName.PlainlyNamed) 0) :
    (a.display = b.display ↔ a.isArray = b.isArray ∧ a.path = b.path) ∧
      ∀ t : TypeName, t.path =
        (namespaceSegments t.rootNamespace).map (.mk · []) ++
          (t.enclosingChain ++ [t]).map fun n =>
            .mk n.name (n.args.map fun arg => .mk arg.path arg.isArray) := by
  have hlegible {t : TypeName} (h : t.Everywhere (fun _ => TypeName.PlainlyNamed) 0) :
      (Shown.mk t.path t.isArray).Legible := ⟨t.path_ne_nil, t.legible_path 0 h⟩
  have hend : GoesOn typeEnds [] := nofun
  refine ⟨⟨?_, ?_⟩, TypeName.path_eq⟩
  · intro h
    have htext : (Shown.mk a.path a.isArray).text ++ [] = (Shown.mk b.path b.isArray).text ++ [] := by
      rw [← a.toList_display, ← b.toList_display, h]
    have hshown := (Shown.text_unique _ _ (hlegible ha) (hlegible hb) [] [] hend hend htext).1
    obtain ⟨hpath, harray⟩ := Shown.mk.inj hshown
    exact ⟨harray, hpath⟩
  · rintro ⟨harray, hpath⟩
    rw [← String.toList_inj, a.toList_display, b.toList_display, hpath, harray]

/-- A namespace and a type around another one, a placeholder and a type of its name. -/
theorem display_tells_path_inner :
    let param : TypeName := (TypeName.placeholder ⟨0, .type⟩).withArray true
    let named : TypeName := (TypeName.topLevel "" "T0").withArray true
    let a := ({ TypeName.topLevel "app" "Outer" with args := [param] } : TypeName).nested "Inner"
    let b := ({ (TypeName.topLevel "" "app").nested "Outer" with args := [named] } :
      TypeName).nested "Inner"
    a.Everywhere (fun _ => TypeName.PlainlyNamed) 0 ∧
      b.Everywhere (fun _ => TypeName.PlainlyNamed) 0 ∧
      a.display = b.display ∧ a.isArray = b.isArray ∧ a.path = b.path := by
  intro param named a b
  have hparam : param.Everywhere (fun _ => TypeName.PlainlyNamed) 1 :=
    (TypeName.everywhere_placeholder (by decide)).withArray true (by decide)
  have hnamed : named.Everywhere (fun _ => TypeName.PlainlyNamed) 1 :=
    (TypeName.everywhere_topLevel (by decide)).withArray true (by decide)
  have ha : a.Everywhere (fun _ => TypeName.PlainlyNamed) 0 :=
    (TypeName.Everywhere.withArgs (TypeName.everywhere_topLevel (by decide)) (by decide)
      (by simpa using hparam)).nested (by decide)
  have hb : b.Everywhere (fun _ => TypeName.PlainlyNamed) 0 :=
    (TypeName.Everywhere.withArgs ((TypeName.everywhere_topLevel (by decide)).nested (by decide))
      (by decide) (by simpa using hnamed)).nested (by decide)
  have hdisplay : a.display = b.display := by decide +kernel
  exact ⟨ha, hb, hdisplay, (display_tells_path a b ha hb).1.mp hdisplay⟩

end ClrNames
