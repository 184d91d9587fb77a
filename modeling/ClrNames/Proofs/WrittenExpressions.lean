import ClrNames.Proofs.ExpressionReading
import ClrNames.Proofs.WrittenReading

/-!
# Expressions are written names

Every expression is a written name of the same text, and denotes the same type. So what is
shown of written names holds of the names that the grammar is meant for.
-/

set_option autoImplicit false

namespace ClrNames
open Grammar Text

mutual

def Expr.written {l : Lists} : Expr l → Written.Name
  | .leaf path markers => .simple (path.print ++ markers.print)
  | .reference kind index markers byRefs =>
    .simple (kind.marks ++ index.digits ++ markers.print ++ List.replicate byRefs '&')
  | .generic base arity nested args markers =>
    .generic base.print (.mk arity (nested.map Path.print) args.written markers)

def Args.written {l : Lists} : Args l → Written.ArgList
  | .empty => .unbound
  | .plain items => .plain (items.written 0)
  | .bracketed elements => .bracketed elements.written
  | .skipped text => .skipped text

def Items.written (before : Nat) : Items → Written.Items
  | .last e => .last before e.written 0
  | .more e gap rest => .more before e.written 0 (rest.written gap)

def Elements.written : Elements → Written.Elements
  | .last e assembly => .last e.written assembly.print
  | .more e assembly gap rest => .more e.written assembly.print gap rest.written

end

theorem Items.print_ne_nil (items : Items) : items.print ≠ [] := by
  cases items with
  | last e => exact e.print_ne_nil
  | more e gap rest => simp [print]

theorem nestedText_map (nested : Option Path) :
    Written.nestedText (nested.map Path.print) = nestedPrint nested := by
  cases nested <;> rfl

theorem nestedNames_map (nested : Option Path) :
    Written.nestedNames (nested.map Path.print) = (nestedSegments nested).map String.ofList := by
  cases nested with
  | none => rfl
  | some p => exact congrArg (List.map String.ofList) p.segments_print

mutual

theorem Expr.print_written {l : Lists} : (e : Expr l) → e.written.print = e.print
  | .leaf _ _ => rfl
  | .reference _ _ _ _ => rfl
  | .generic base arity nested args markers => by
    simp [Expr.written, Written.Name.print, Written.Suffix.print, Expr.print, nestedText_map,
      args.print_written]

theorem Args.print_written {l : Lists} : (args : Args l) → args.written.print = args.print
  | .empty => rfl
  | .plain items => by
    simp [Args.written, Written.ArgList.print, Args.print, items.print_written, Written.spaces]
  | .bracketed elements => by
    simp [Args.written, Written.ArgList.print, Args.print, elements.print_written]
  | .skipped _ => rfl

theorem Items.print_written : (items : Items) → (before : Nat) →
    (items.written before).print = Written.spaces before ++ items.print
  | .last e, before => by
    simp [Items.written, Written.Items.print, Items.print, e.print_written, Written.spaces]
  | .more e gap rest, before => by
    simp [Items.written, Written.Items.print, Items.print, e.print_written, rest.print_written,
      Written.spaces]

theorem Elements.print_written : (elements : Elements) → elements.written.print = elements.print
  | .last e assembly => by
    simp [Elements.written, Written.Elements.print, Elements.print, e.print_written]
  | .more e assembly gap rest => by
    simp [Elements.written, Written.Elements.print, Elements.print, e.print_written,
      rest.print_written, Written.spaces]

end

section
variable {l : Lists} (e : Expr l)

theorem Expr.head_written : e.written.head = e.head := by
  cases e <;> rfl

/-- The scan for the end of the name in an element stops behind its head. -/
theorem Expr.head_scans {d : Char} (hd : d = '\x60' ∨ d = ',' ∨ d = ']') : Scans '[' e.head d := by
  obtain ⟨taken, c, after, heq, hscan, hlength⟩ :=
    nameEnd?_eq_some_iff.mp (nameEnd?_head e 0 [] hd)
  have hsplit := (splitBytes?_eq_some_iff _ _ _ _).mpr ⟨heq, rfl⟩
  rw [← Nat.add_left_cancel hlength, (splitBytes?_eq_some_iff _ _ _ _).mpr ⟨rfl, rfl⟩] at hsplit
  obtain ⟨rfl, ⟨⟩⟩ := hsplit
  exact hscan

theorem Expr.written_isElement (assembly : Assembly) : e.written.IsElement assembly.print where
  unclosed := assembly.print_unclosed
  ends := by
    cases e <;> cases assembly <;> simp [written, Written.Name.Ends, Assembly.print]
  scanned := by
    rw [e.head_written]
    apply e.head_scans
    cases e <;> cases assembly <;>
      simp [written, Written.Name.tail, Written.Suffix.print, Assembly.print]

theorem Expr.written_isItem : e.written.IsItem 0 where
  unspaced := by
    obtain ⟨c, cs, hcs⟩ := List.exists_cons_of_ne_nil e.head_ne_nil
    rw [e.head_written, hcs]
    rintro ⟨⟩
    exact e.head_unmarked (c := ' ') (by simp [hcs]) (by decide)
  undelimited := by
    have hstops : ['\x60', ',', '>'] ⊆ ['\x60', '<', '>', ',', ' '] := by decide
    rw [e.head_written]
    exact fun c hc hmem => e.head_unmarked hc (hstops hmem)
  tight _ _ := rfl

end

section
variable {known : String → Bool}

theorem named_path (p : Path) (h : p.enclosingSize known ≤ 64) :
    Named known p.print (p.node known) := fun s => (nameOf_base known p s).1 h

/-- The names behind an arity marker keep the limits if the expression does. -/
theorem nestedNames_path (base : Path) {nested : Option Path}
    (h : base.enclosingSize known + (nestedSegments nested).length ≤ 64) :
    ∀ names, nested.map Path.print = some names → NestedNames (base.node known) names := by
  intro names hnames
  obtain ⟨p, rfl, rfl⟩ := Option.map_eq_some_iff.mp hnames
  have hmarks : ['\x60', '[', '<'] ⊆ ['\x60', '<', '>', '[', ']', ',', '&', ' '] := by decide
  have hchain : (base.node known).enclosingChain.length = base.enclosingSize known := by
    rw [Path.node, TypeName.length_enclosingChain_ofChain, List.length_map, List.length_drop,
      Path.enclosingSize]
  refine ⟨fun c hc hmem => p.print_word hc (hmarks hmem), ?_, ?_⟩
  · rw [p.segments_print]
    exact fun part hpart => (p.mem_segments_unmarked hpart).1
  · rw [p.segments_print, hchain]
    exact h

theorem Args.written_allowed {l : Lists} {context : ListContext} {depth declared : Nat}
    (args : Args l) (hcontext : l = .any → context ≠ .plain) (h : args.Fits known depth declared) :
    args.written.Allowed context depth := by
  cases args with
  | empty => exact ⟨h, fun _ => rfl⟩
  | plain items => exact ⟨h.1, fun _ => rfl⟩
  | bracketed elements => exact ⟨h.1, fun hplain => absurd hplain (hcontext rfl)⟩
  | skipped text => exact ⟨h, fun hplain => absurd hplain (hcontext rfl)⟩

mutual

/-- An expression that keeps the limits denotes its node. -/
theorem Expr.written_denotes {l : Lists} : (e : Expr l) → {context : ListContext} → {depth : Nat} →
    (l = .any → context ≠ .plain) → e.Fits known depth →
    e.written.Denotes known context depth (e.node known)
  | .leaf path markers, _, _, _, h => fun s => (nameOf_path known path markers s).1 h
  | .reference kind index markers byRefs, _, _, _, _ =>
    fun s => (nameOf_reference known kind index markers byRefs s).1 trivial
  | .generic base arity nested args markers, _, _, hcontext, ⟨hbase, harity, hnested, hargs⟩ =>
    ⟨base.node known, named_path base hbase, harity, nestedNames_path base hnested,
      args.written_allowed hcontext hargs, args.nodes known, args.written_denotes hargs, by
        rw [nestedNames_map]
        rfl⟩

theorem Args.written_denotes {l : Lists} : (args : Args l) → {depth declared : Nat} →
    args.Fits known depth declared → args.written.Denotes known (depth + 1) (args.nodes known)
  | .empty, _, _, _ => rfl
  | .plain items, _, _, h =>
    ⟨by
      rw [items.print_written]
      exact items.print_ne_nil, items.written_denotes 0 h.2.1⟩
  | .bracketed elements, _, _, h => elements.written_denotes h.2.1
  | .skipped _, _, _, _ => rfl

theorem Items.written_denotes : (items : Items) → (before : Nat) → {depth : Nat} →
    items.Fits known depth → (items.written before).Denotes known depth (items.nodes known)
  | .last e, _, _, h => ⟨e.written_isItem, _, rfl, .inr (e.written_denotes nofun h)⟩
  | .more e gap rest, _, _, ⟨he, hrest⟩ => ⟨e.written_isItem, _, _, rfl,
      .inr (e.written_denotes nofun he), rest.written_denotes gap hrest⟩

theorem Elements.written_denotes : (elements : Elements) → {depth : Nat} →
    elements.Fits known depth → elements.written.Denotes known depth (elements.nodes known)
  | .last e assembly, _, h =>
    ⟨e.written_isElement assembly, _, rfl, e.written_denotes (fun _ => nofun) h⟩
  | .more e assembly _ rest, _, ⟨he, hrest⟩ =>
    ⟨e.written_isElement assembly, _, _, rfl, e.written_denotes (fun _ => nofun) he,
      rest.written_denotes hrest⟩

end

end

end ClrNames
