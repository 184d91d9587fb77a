import ClrNames.Proofs.OrderlyRoutines
import ClrNames.Proofs.CursorRuns
import ClrNames.Proofs.WrittenHead

/-!
# Calls of the grammar

The routines of the grammar call each other while a text is read. `Calls` has one case
for each place where that happens, and `Reached` collects the calls that some text leads
to. A call is reached only where its routine may be called, so that every one of them ends
in order; and a call is nearer to the end of the text than the one that makes it.
-/

set_option autoImplicit false

namespace ClrNames.Grammar
open Text

inductive Call where
  | name (stop : Nat)
  | arity
  | tail (base : TypeName) (declared : Nat) (context : ListContext)
  | list (owner : TypeName) (declared : Nat) (context : ListContext)
  | bracketed (declared : Nat)
  | plain (owner : TypeName) (declared : Nat)
  | elementRound
  | element
  | argumentRound
  | argument
  | suffix (t : TypeName)

def listsAt (σ : Settings) (depth : Nat) : ListReader := argumentLists σ (maxListDepth - depth)

namespace Call

abbrev Answer : Call → Type
  | .arity => Nat
  | .list _ _ _ | .bracketed _ | .plain _ _ => List TypeName
  | .elementRound | .argumentRound => TypeName × Bool
  | .name _ | .tail _ _ _ | .element | .argument | .suffix _ => TypeName

def run (σ : Settings) : (c : Call) → Reader c.Answer
  | .name stop => baseName σ stop
  | .arity => Grammar.arity
  | .tail base declared context => fun s =>
    genericTail (listsAt σ s.depth) base declared context s
  | .list owner declared context => fun s => listsAt σ s.depth owner declared context s
  | .bracketed declared => fun s =>
    deeper (bracketedList σ (listsAt σ (s.depth + 1)) declared) s
  | .plain owner declared => fun s =>
    deeper (withOwner owner (plainList σ (listsAt σ (s.depth + 1)) declared)) s
  | .elementRound => fun s => Grammar.elementRound σ (listsAt σ s.depth) s
  | .element => fun s => Grammar.element σ (listsAt σ s.depth) s
  | .argumentRound => fun s => Grammar.argumentRound σ (listsAt σ s.depth) s
  | .argument => fun s => plainArgument σ (listsAt σ s.depth) s
  | .suffix t => arraySuffix t

def consumes : Call → Bool
  | .arity | .bracketed _ | .plain _ _ | .elementRound | .element | .argumentRound => true
  | .name _ | .tail _ _ _ | .list _ _ _ | .argument | .suffix _ => false

def Placed (s : State) : Call → Prop
  | .name stop => ∃ taken after, s.cursor.rest = taken ++ after ∧
    stop = s.cursor.pos + byteLength taken
  | .arity => ∃ after, s.cursor.rest = '\x60' :: after
  | .bracketed _ | .element => ∃ after, s.cursor.rest = '[' :: after
  | .plain _ _ => ∃ after, s.cursor.rest = '<' :: after
  | .tail _ _ _ | .list _ _ _ | .elementRound | .argumentRound | .argument | .suffix _ => True

end Call

inductive SuffixCalls (σ : Settings) (base : TypeName) (context : ListContext) (s : State) :
    Call → State → Prop
  | arity : SuffixCalls σ base context s .arity s
  | tail {declared : Nat} {t : State} (harity : arity s = .ok declared t) :
      SuffixCalls σ base context s (.tail base declared context) t
  | suffix {declared : Nat} {node : TypeName} {t u : State} (harity : arity s = .ok declared t)
      (htail : genericTail (listsAt σ t.depth) base declared context t = .ok node u) :
      SuffixCalls σ base context s (.suffix node) u

inductive Calls (σ : Settings) : Call → State → Call → State → Prop
  | nested {base : TypeName} {declared : Nat} {context : ListContext} {s t : State}
      {names : List (List Char)} (hdot : s.cursor.peek = '.')
      (hnames : nestedPath base s = .ok names t) :
      Calls σ (.tail base declared context) s (.list base declared context) t
  | direct {base : TypeName} {declared : Nat} {context : ListContext} {s : State}
      (hdot : s.cursor.peek ≠ '.') :
      Calls σ (.tail base declared context) s (.list base declared context) s
  | bracketed {owner : TypeName} {declared : Nat} {context : ListContext} {s : State}
      (hopen : s.cursor.peek = '[') (hcontext : context ≠ .plain) :
      Calls σ (.list owner declared context) s (.bracketed declared) s
  | plain {owner : TypeName} {declared : Nat} {context : ListContext} {s : State}
      (hopen : s.cursor.peek = '<') (hmode : ¬ (context = .root ∧ σ.definitionsOnly)) :
      Calls σ (.list owner declared context) s (.plain owner declared) s
  | elements {declared : Nat} {s t : State} (hdepth : s.depth < maxListDepth)
      (hopen : s.cursor.startsWith ['[', '['] = true)
      (hrun : advance { s with depth := s.depth + 1 } = .ok () t) :
      Calls σ (.bracketed declared) s .elementRound t
  | element {s : State} (hopen : s.cursor.peek = '[') : Calls σ .elementRound s .element s
  | nextElement {found : TypeName} {s t : State}
      (hround : elementRound σ (listsAt σ s.depth) s = .ok (found, true) t) :
      Calls σ .elementRound s .elementRound t
  | elementName {stop : Nat} {s t u : State} (hopen : advance s = .ok () t)
      (hstop : elementNameEnd t = .ok stop u) : Calls σ .element s (.name stop) u
  | elementSuffix {stop : Nat} {base : TypeName} {s t u v w : State} {c : Call}
      (hopen : advance s = .ok () t) (hstop : elementNameEnd t = .ok stop u)
      (hbase : baseName σ stop u = .ok base v) (htick : v.cursor.peek = '\x60')
      (hcall : SuffixCalls σ base .bracketed v c w) : Calls σ .element s c w
  | arguments {owner : TypeName} {declared : Nat} {s t u : State} (hdepth : s.depth < maxListDepth)
      (hopen : advance (State.owned { s with depth := s.depth + 1 } owner) = .ok () t)
      (hsome : eat ['>'] t = .ok false u) : Calls σ (.plain owner declared) s .argumentRound u
  | argument {s t : State} (hspaces : skipSpaces s = .ok () t) :
      Calls σ .argumentRound s .argument t
  | nextArgument {found : TypeName} {s t : State}
      (hround : argumentRound σ (listsAt σ s.depth) s = .ok (found, true) t) :
      Calls σ .argumentRound s .argumentRound t
  | argumentName {stop : Nat} {s t : State}
      (hstop : expectAny ['\x60', ',', '>'] s = .ok stop t) (hsome : stop ≠ s.cursor.pos) :
      Calls σ .argument s (.name stop) t
  | argumentSuffix {stop : Nat} {base : TypeName} {s t u v : State} {c : Call}
      (hstop : expectAny ['\x60', ',', '>'] s = .ok stop t) (hsome : stop ≠ s.cursor.pos)
      (hbase : baseName σ stop t = .ok base u) (htick : u.cursor.peek = '\x60')
      (hcall : SuffixCalls σ base .plain u c v) : Calls σ .argument s c v

abbrev State.atStart (text : List Char) (containing : Option TypeName) : State :=
  ⟨.start text containing, 0⟩

inductive Reached (σ : Settings) (text : List Char) (containing : Option TypeName) :
    Call → State → Prop
  | unmarked (htick : (Cursor.start text containing).findAny? ['\x60'] = none) :
      Reached σ text containing (.name (byteLength text)) (.atStart text containing)
  | marked {tick : Nat} (htick : (Cursor.start text containing).findAny? ['\x60'] = some tick) :
      Reached σ text containing (.name tick) (.atStart text containing)
  | suffix {tick : Nat} {base : TypeName} {s t : State} {c : Call}
      (htick : (Cursor.start text containing).findAny? ['\x60'] = some tick)
      (hbase : baseName σ tick (.atStart text containing) = .ok base s)
      (hcall : SuffixCalls σ base .root s c t) : Reached σ text containing c t
  | step {c d : Call} {s t : State} (h : Reached σ text containing c s)
      (hcall : Calls σ c s d t) : Reached σ text containing d t

/-! ## Where calls are made -/

structure Underway (text : List Char) (s : State) : Prop where
  text : s.cursor.text = text
  boundary : s.cursor.OnBoundary
  depth : s.depth ≤ maxListDepth

section
variable {σ : Settings} {text : List Char} {s t : State} {c d : Call}

theorem Passes.onBoundary {piece : List Char} (h : Passes s piece t)
    (hs : s.cursor.OnBoundary) : t.cursor.OnBoundary := by
  obtain ⟨passed, htext, hpos⟩ := hs
  rw [h.state]
  refine ⟨passed ++ piece, ?_, by simp [hpos]⟩
  rw [State.pass_text, State.pass_rest, htext, h.rest, List.append_assoc]

theorem Underway.pass {piece : List Char} (hs : Underway text s) (h : Passes s piece t) :
    Underway text t :=
  ⟨by rw [h.state]; exact hs.text, h.onBoundary hs.boundary, h.depth ▸ hs.depth⟩

theorem Underway.deeper (hs : Underway text s) (hdepth : s.depth < maxListDepth) :
    Underway text { s with depth := s.depth + 1 } :=
  ⟨hs.text, hs.boundary, hdepth⟩

theorem Underway.owned (hs : Underway text s) (owner : TypeName) :
    Underway text (s.owned owner) := by
  obtain ⟨passed, htext, hpos⟩ := hs.boundary
  exact ⟨hs.text, ⟨passed, htext, hpos⟩, hs.depth⟩

theorem Underway.atStart (text : List Char) (containing : Option TypeName) :
    Underway text (.atStart text containing) :=
  ⟨rfl, ⟨[], rfl, rfl⟩, Nat.zero_le _⟩

structure Ready (text : List Char) (c : Call) (s : State) : Prop where
  underway : Underway text s
  placed : c.Placed s

theorem listsAt_orderly (depth : Nat) : OrderlyLists (listsAt σ depth) :=
  argumentLists_orderly _

/-- Where a call may be made it ends in order. -/
theorem Call.orderly {c : Call} (h : c.Placed s) :
    Orderly s (c.run σ) fun _ t => c.consumes = true → s.cursor.pos < t.cursor.pos := by
  have hstay {α : Type} {r : EStateM.Result ParseError State α} {c : Call}
      (hc : c.consumes = false) (hended : Ended s Anywhere r) :
      Ended s (fun _ t => c.consumes = true → s.cursor.pos < t.cursor.pos) r :=
    hended.mono fun _ _ _ _ _ hconsumes => absurd (hc.symm.trans hconsumes) Bool.false_ne_true
  have hmove {α : Type} {r : EStateM.Result ParseError State α} {c : Call}
      (hended : Ended s (Further s) r) :
      Ended s (fun _ t => c.consumes = true → s.cursor.pos < t.cursor.pos) r :=
    hended.mono fun _ _ _ _ hlt _ => hlt
  unfold Orderly
  cases c with
  | name stop =>
    obtain ⟨taken, after, split, rfl⟩ := h
    exact hstay rfl (baseName_orderly split).anywhere
  | arity =>
    obtain ⟨after, hrest⟩ := h
    exact hmove (arity_orderly hrest)
  | tail base declared context => exact hstay rfl (genericTail_orderly (listsAt_orderly s.depth))
  | list owner declared context =>
    exact hstay rfl (listsAt_orderly s.depth owner declared context s)
  | bracketed declared =>
    obtain ⟨after, hrest⟩ := h
    exact hmove (bracketedLevel_orderly (listsAt_orderly (s.depth + 1)) hrest)
  | plain owner declared =>
    obtain ⟨after, hrest⟩ := h
    exact hmove (plainLevel_orderly (listsAt_orderly (s.depth + 1)) owner hrest)
  | elementRound => exact hmove (elementRound_orderly (listsAt_orderly s.depth))
  | element =>
    obtain ⟨after, hrest⟩ := h
    exact hmove (element_orderly (listsAt_orderly s.depth) hrest)
  | argumentRound => exact hmove (argumentRound_orderly (listsAt_orderly s.depth))
  | argument => exact hstay rfl (plainArgument_orderly (listsAt_orderly s.depth))
  | suffix node => exact hstay rfl (arraySuffix_orderly node)

/-! ## From call to call -/

/-- How far a call can still lead, where no text is taken up. -/
def Call.rank : Call → Nat
  | .name _ | .arity | .suffix _ => 0
  | .bracketed _ | .plain _ _ => 1
  | .list _ _ _ => 2
  | .tail _ _ _ => 3
  | .element | .argument => 4
  | .elementRound | .argumentRound => 5

def Call.weight (c : Call) (s : State) : Nat := 6 * s.cursor.rest.length + c.rank

theorem weight_lt_of_rank (hlength : t.cursor.rest.length ≤ s.cursor.rest.length)
    (hrank : d.rank < c.rank) : d.weight t < c.weight s := by
  unfold Call.weight
  omega

theorem weight_lt_of_length (hlength : t.cursor.rest.length < s.cursor.rest.length) :
    d.weight t < c.weight s := by
  have hrank : d.rank ≤ 5 := by cases d <;> simp [Call.rank]
  unfold Call.weight
  omega

theorem SuffixCalls.ready {base : TypeName} {context : ListContext} {after : List Char}
    (h : SuffixCalls σ base context s c t) (hs : Underway text s)
    (hrest : s.cursor.rest = '\x60' :: after) :
    Ready text c t ∧ t.cursor.rest.length ≤ s.cursor.rest.length ∧ c.rank < 4 := by
  cases h with
  | arity => exact ⟨⟨hs, after, hrest⟩, Nat.le_refl _, by decide⟩
  | tail harity =>
    obtain ⟨⟨piece, hpass⟩, -⟩ := (arity_orderly hrest).of_ok harity
    exact ⟨⟨hs.pass hpass, trivial⟩, hpass.length_le, Nat.lt_succ_self 3⟩
  | suffix harity htail =>
    obtain ⟨⟨piece, hpass⟩, -⟩ := (arity_orderly hrest).of_ok harity
    obtain ⟨⟨more, hmore⟩, -⟩ := (genericTail_orderly (listsAt_orderly _)).of_ok htail
    have hboth := hpass.trans hmore
    exact ⟨⟨hs.pass hboth, trivial⟩, hboth.length_le, Nat.succ_pos 3⟩

/-- What a call leads to is made where it may be, and has less text or rank left. -/
theorem Calls.ready (h : Calls σ c s d t) (hs : Ready text c s) :
    Ready text d t ∧ d.weight t < c.weight s := by
  obtain ⟨hs, hplaced⟩ := hs
  cases h with
  | nested hdot hnames =>
    obtain ⟨after, hrest⟩ := rest_of_peek (by decide) hdot
    obtain ⟨⟨piece, hpass⟩, hlt⟩ := (nestedPath_orderly _ hrest).of_ok hnames
    exact ⟨⟨hs.pass hpass, trivial⟩, weight_lt_of_length (hpass.length_lt hlt)⟩
  | direct => exact ⟨⟨hs, trivial⟩, Nat.lt_succ_self _⟩
  | bracketed hopen => exact ⟨⟨hs, rest_of_peek (by decide) hopen⟩, Nat.lt_succ_self _⟩
  | plain hopen => exact ⟨⟨hs, rest_of_peek (by decide) hopen⟩, Nat.lt_succ_self _⟩
  | elements hdepth _ hrun =>
    obtain ⟨x, hpass⟩ := advance_ok_iff.mp hrun
    exact ⟨⟨(hs.deeper hdepth).pass hpass, trivial⟩, weight_lt_of_length hpass.length_advance⟩
  | element hopen => exact ⟨⟨hs, rest_of_peek (by decide) hopen⟩, Nat.lt_succ_self _⟩
  | nextElement hround =>
    obtain ⟨⟨piece, hpass⟩, hlt⟩ :=
      (elementRound_orderly (listsAt_orderly _)).of_ok hround
    exact ⟨⟨hs.pass hpass, trivial⟩, weight_lt_of_length (hpass.length_lt hlt)⟩
  | elementName hopen hstop =>
    obtain ⟨x, hpass⟩ := advance_ok_iff.mp hopen
    obtain ⟨rfl, taken, y, after, hrest, -, rfl⟩ := elementNameEnd_ok_iff.mp hstop
    exact ⟨⟨hs.pass hpass, taken, _, hrest, rfl⟩, weight_lt_of_length hpass.length_advance⟩
  | elementSuffix hopen hstop hbase htick hcall =>
    obtain ⟨x, hpass⟩ := advance_ok_iff.mp hopen
    obtain ⟨rfl, taken, y, after, hrest, -, rfl⟩ := elementNameEnd_ok_iff.mp hstop
    obtain ⟨⟨piece, hname⟩, -⟩ := (baseName_orderly hrest).of_ok hbase
    obtain ⟨more, hmore⟩ := rest_of_peek (by decide) htick
    obtain ⟨hready, hlength, -⟩ := hcall.ready ((hs.pass hpass).pass hname) hmore
    have hless := Nat.lt_of_le_of_lt (hlength.trans hname.length_le) hpass.length_advance
    exact ⟨hready, weight_lt_of_length hless⟩
  | arguments hdepth hopen hsome =>
    obtain ⟨x, hpass⟩ := advance_ok_iff.mp hopen
    obtain ⟨hfalse, -⟩ | ⟨-, -, rfl⟩ := eat_ok_iff.mp hsome
    · cases hfalse
    exact ⟨⟨((hs.deeper hdepth).owned _).pass hpass, trivial⟩,
      weight_lt_of_length hpass.length_advance⟩
  | argument hspaces =>
    obtain ⟨count, hpass, -⟩ := skipSpaces_ok_iff.mp hspaces
    exact ⟨⟨hs.pass hpass, trivial⟩, weight_lt_of_rank hpass.length_le (by decide)⟩
  | nextArgument hround =>
    obtain ⟨⟨piece, hpass⟩, hlt⟩ :=
      (argumentRound_orderly (listsAt_orderly _)).of_ok hround
    exact ⟨⟨hs.pass hpass, trivial⟩, weight_lt_of_length (hpass.length_lt hlt)⟩
  | argumentName hstop =>
    obtain ⟨rfl, taken, y, after, hrest, -, -, rfl⟩ := expectAny_eq_ok hstop
    exact ⟨⟨hs, taken, _, hrest, rfl⟩, weight_lt_of_rank (Nat.le_refl _) (Nat.succ_pos 3)⟩
  | argumentSuffix hstop _ hbase htick hcall =>
    obtain ⟨rfl, taken, y, after, hrest, -, -, rfl⟩ := expectAny_eq_ok hstop
    obtain ⟨⟨piece, hname⟩, -⟩ := (baseName_orderly hrest).of_ok hbase
    obtain ⟨more, hmore⟩ := rest_of_peek (by decide) htick
    obtain ⟨hready, hlength, hrank⟩ := hcall.ready (hs.pass hname) hmore
    exact ⟨hready, weight_lt_of_rank (hlength.trans hname.length_le) hrank⟩

/-- Every call that a text leads to is made where it may be. -/
theorem Reached.ready {containing : Option TypeName} (h : Reached σ text containing c s) :
    Ready text c s := by
  have hstart := Underway.atStart text containing
  induction h with
  | unmarked => exact ⟨hstart, text, [], (List.append_nil text).symm, (Nat.zero_add _).symm⟩
  | marked htick =>
    obtain ⟨n, hfind, rfl⟩ := Option.map_eq_some_iff.mp htick
    obtain ⟨taken, x, after, hrest, -, -, rfl⟩ := findOffset?_eq_some _ _ _ hfind
    exact ⟨hstart, taken, _, hrest, rfl⟩
  | suffix htick hbase hcall =>
    obtain ⟨n, hfind, rfl⟩ := Option.map_eq_some_iff.mp htick
    obtain ⟨taken, x, after, hrest, -, hx, rfl⟩ := findOffset?_eq_some _ _ _ hfind
    obtain rfl : x = '\x60' := by simpa using hx
    obtain ⟨⟨piece, hname⟩, rfl⟩ :=
      (baseName_orderly (s := .atStart text containing) hrest).of_ok hbase
    exact (hcall.ready (hstart.pass hname) rfl).1
  | step _ hcall ih => exact (hcall.ready ih).1

/-- The calls that a reached call leads to come to an end. -/
theorem Reached.acc {containing : Option TypeName} (h : Reached σ text containing c s) :
    Acc (fun x y : Call × State => Calls σ y.1 y.2 x.1 x.2) (c, s) := by
  induction hweight : c.weight s using Nat.strongRecOn generalizing c s with
  | ind n ih =>
    refine .intro _ fun ⟨d, t⟩ hcall => ?_
    have hless := (hcall.ready h.ready).2
    exact ih _ (hweight ▸ hless) (h.step hcall) rfl

structure Call.Returns (σ : Settings) (c : Call) (s : State) : Prop where
  depth_le : s.depth ≤ maxListDepth
  passed : ∀ a t, c.run σ s = .ok a t →
    s.cursor.pos ≤ t.cursor.pos ∧ (c.consumes = true → s.cursor.pos < t.cursor.pos) ∧
      t.cursor.inProgress = s.cursor.inProgress ∧ t.depth = s.depth
  refused : ∀ e t, c.run σ s = .error e t →
    s.cursor.pos ≤ t.cursor.pos ∧ t.cursor.inProgress = s.cursor.inProgress ∧
      (t.depth = s.depth ∨ e.cause = .listsTooDeep ∧ t.depth = s.depth + 1)
  loops : ∀ fuel, s.cursor.rest.length < fuel →
    elements σ (listsAt σ s.depth) fuel s =
        rounds (Grammar.elementRound σ (listsAt σ s.depth)) (s.cursor.rest.length + 1) s ∧
      plainArguments σ (listsAt σ s.depth) fuel s =
        rounds (Grammar.argumentRound σ (listsAt σ s.depth)) (s.cursor.rest.length + 1) s
  ends : Acc (fun x y : Call × State => Calls σ y.1 y.2 x.1 x.2) (c, s)

/-- No call that a text leads to moves back, each one that takes up text moves on, and all
of them put back the type in progress, and the depth as well unless the lists nest too
deep. The loops need no more rounds than there is text, and no chain of calls goes on
for ever. -/
theorem reached_returns {containing : Option TypeName} (h : Reached σ text containing c s) :
    c.Returns σ s := by
  have hready := h.ready
  have horderly : Orderly s (c.run σ) _ := Call.orderly hready.placed
  refine ⟨hready.underway.depth, fun a t hrun => ?_, fun e t hrun => ?_, fun fuel hfuel => ?_,
    h.acc⟩
  · obtain ⟨⟨piece, hpass⟩, hconsumes⟩ := horderly.of_ok hrun
    exact ⟨hpass.pos_le, hconsumes, by rw [hpass.state]; rfl, hpass.depth⟩
  · have hleft := horderly.of_error hrun
    exact ⟨hleft.pos_le, hleft.inProgress, hleft.depth⟩
  · rw [elements_eq, plainArguments_eq]
    have hrounds := Nat.lt_succ_self s.cursor.rest.length
    exact ⟨rounds_fuel (fun _ => elementRound_orderly (listsAt_orderly _)) hfuel hrounds,
      rounds_fuel (fun _ => argumentRound_orderly (listsAt_orderly _)) hfuel hrounds⟩

/-- In ``L`1[[M`1<N>]]`` an argument is read two lists deep, for the type that is the
element of the outer one. -/
theorem reached_inner_argument (σ : Settings) :
    Reached σ "L\x601[[M\x601<N>]]".toList none .argument
      ⟨⟨"L\x601[[M\x601<N>]]".toList, 9, "N>]]".toList, none, some (.topLevel "" "M")⟩, 2⟩ := by
  have htail : Reached σ "L\x601[[M\x601<N>]]".toList none (.tail (.topLevel "" "L") 1 .root)
      ⟨⟨"L\x601[[M\x601<N>]]".toList, 3, "[[M\x601<N>]]".toList, none, none⟩, 0⟩ :=
    .suffix rfl rfl (.tail rfl)
  have hbracketed := (htail.step (.direct nofun)).step (.bracketed rfl nofun)
  have helement := (hbracketed.step (.elements (by decide) rfl rfl)).step (.element rfl)
  have hinner := helement.step (.elementSuffix rfl rfl rfl rfl (.tail rfl))
  have hplain := (hinner.step (.direct nofun)).step (.plain rfl (by simp))
  exact (hplain.step (.arguments (by decide) rfl rfl)).step (.argument rfl)

theorem reached_returns_inner_argument :
    let σ : Settings := ⟨fun _ => false, false, false, .nearest⟩
    let s : State :=
      ⟨⟨"L\x601[[M\x601<N>]]".toList, 9, "N>]]".toList, none, some (.topLevel "" "M")⟩, 2⟩
    Reached σ "L\x601[[M\x601<N>]]".toList none .argument s ∧ Call.argument.Returns σ s :=
  ⟨reached_inner_argument _, reached_returns (reached_inner_argument _)⟩

end

end ClrNames.Grammar
