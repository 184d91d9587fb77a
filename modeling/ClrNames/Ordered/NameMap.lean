import ClrNames.Ordered.Search

/-!
# Finite maps and sets of names

A map keeps its bindings strictly increasing in the name, so two maps with the
same bindings are equal and listing one is listing it in order. Names compare
by code point, which is also the order of their UTF-8 bytes.
-/

set_option autoImplicit false

namespace ClrNames

open Ordered (Increasing search)

structure NameMap (α : Type) where
  bindings : Array (String × α)
  increasing : Increasing Prod.fst bindings.toList
  deriving DecidableEq, Repr

namespace NameMap

variable {α : Type}

def empty : NameMap α := ⟨#[], List.Pairwise.nil⟩

instance : Inhabited (NameMap α) := ⟨empty⟩

def toList (m : NameMap α) : List (String × α) := m.bindings.toList

def names (m : NameMap α) : List String := m.toList.map Prod.fst

def size (m : NameMap α) : Nat := m.bindings.size

def isEmpty (m : NameMap α) : Bool := m.bindings.isEmpty

def get? (m : NameMap α) (name : String) : Option α :=
  (search Prod.fst m.bindings name).map Prod.snd

def contains (m : NameMap α) (name : String) : Bool := (m.get? name).isSome

theorem toList_inj {m n : NameMap α} (h : m.toList = n.toList) : m = n := by
  obtain ⟨xs, hx⟩ := m
  obtain ⟨ys, hy⟩ := n
  obtain rfl : xs = ys := Array.toList_inj.mp h
  rfl

theorem toList_increasing (m : NameMap α) : Increasing Prod.fst m.toList := m.increasing

theorem get?_eq_some_iff (m : NameMap α) (name : String) (value : α) :
    m.get? name = some value ↔ (name, value) ∈ m.toList := by
  simp only [get?, Option.map_eq_some_iff, Ordered.search_eq_some_iff _ _ m.increasing]
  constructor
  · rintro ⟨⟨n, v⟩, ⟨hmem, rfl⟩, rfl⟩
    simpa [toList] using hmem
  · intro h
    exact ⟨(name, value), ⟨by simpa [toList] using h, rfl⟩, rfl⟩

theorem contains_iff (m : NameMap α) (name : String) :
    m.contains name = true ↔ name ∈ m.names := by
  rw [contains, Option.isSome_iff_exists]
  simp [get?_eq_some_iff, names]

def put (name : String) (value : α) : List (String × α) → List (String × α)
  | [] => [(name, value)]
  | (n, v) :: rest =>
    if name < n then (name, value) :: (n, v) :: rest
    else if name = n then (name, value) :: rest
    else (n, v) :: put name value rest

theorem mem_put (name : String) (value : α) (l : List (String × α)) (p : String × α)
    (h : p ∈ put name value l) : p = (name, value) ∨ p ∈ l := by
  fun_induction put name value l with
  | case1 => simpa using h
  | case2 => simpa using h
  | case3 =>
    rcases List.mem_cons.mp h with h | h <;> simp [h]
  | case4 n v rest _ _ ih =>
    rcases List.mem_cons.mp h with h | h
    · simp [h]
    · rcases ih h with h | h <;> simp [h]

theorem put_increasing (name : String) (value : α) (l : List (String × α))
    (h : Increasing Prod.fst l) : Increasing Prod.fst (put name value l) := by
  fun_induction put name value l with
  | case1 => exact List.pairwise_singleton ..
  | case2 n v rest hlt =>
    refine List.pairwise_cons.mpr ⟨fun p hp => ?_, h⟩
    rcases List.mem_cons.mp hp with rfl | hp
    · exact hlt
    · exact String.lt_trans hlt ((List.pairwise_cons.mp h).1 p hp)
  | case3 => exact List.pairwise_cons.mpr (List.pairwise_cons.mp h)
  | case4 n v rest hnlt hne ih =>
    obtain ⟨hn, hrest⟩ := List.pairwise_cons.mp h
    refine List.pairwise_cons.mpr ⟨fun p hp => ?_, ih hrest⟩
    rcases mem_put _ _ _ _ hp with rfl | hp
    · rcases Std.lt_trichotomy name n with h | h | h
      · exact absurd h hnlt
      · exact absurd h hne
      · exact h
    · exact hn p hp

def insert (m : NameMap α) (name : String) (value : α) : NameMap α :=
  ⟨(put name value m.toList).toArray, by
    rw [List.toList_toArray]
    exact put_increasing name value _ m.increasing⟩

def keepLast (l : List (String × α)) : List (String × α) :=
  l.foldr (fun p kept =>
    match kept with
    | [] => [p]
    | q :: rest => if p.1 = q.1 then q :: rest else p :: q :: rest) []

theorem mem_keepLast (l : List (String × α)) (p : String × α) (h : p ∈ keepLast l) : p ∈ l := by
  induction l with
  | nil => simp [keepLast] at h
  | cons q l ih =>
    rw [keepLast, List.foldr_cons] at h
    rw [keepLast] at ih
    split at h
    next heq => simp_all
    next r rest heq =>
      split at h
      · exact List.mem_cons_of_mem _ (ih (heq ▸ h))
      · rcases List.mem_cons.mp h with h | h
        · simp [h]
        · exact List.mem_cons_of_mem _ (ih (heq ▸ h))

/-- No name is lost. -/
theorem mem_names_keepLast (l : List (String × α)) (name : String) :
    name ∈ (keepLast l).map Prod.fst ↔ name ∈ l.map Prod.fst := by
  induction l with
  | nil => rfl
  | cons p l ih =>
    rw [keepLast] at ih
    rw [keepLast, List.foldr_cons, List.map_cons, List.mem_cons, ← ih]
    split
    next hkept => simp [hkept]
    next q rest hkept =>
      rw [hkept]
      split
      next heq => simp [heq]
      next => simp

theorem keepLast_increasing (l : List (String × α))
    (h : l.Pairwise fun a b => decide (a.1 ≤ b.1) = true) :
    Increasing Prod.fst (keepLast l) := by
  induction l with
  | nil => exact List.Pairwise.nil
  | cons p l ih =>
    obtain ⟨hp, hl⟩ := List.pairwise_cons.mp h
    have hkept := ih hl
    have hmem := mem_keepLast l
    rw [keepLast] at hkept hmem
    rw [keepLast, List.foldr_cons]
    split
    next heq => exact List.pairwise_singleton ..
    next q rest heq =>
      rw [heq] at hkept hmem
      split
      · exact hkept
      next hne =>
        have hlt : p.1 < q.1 := by
          have hle : p.1 ≤ q.1 := by simpa using hp q (hmem q (by simp))
          rcases Std.lt_trichotomy p.1 q.1 with h | h | h
          · exact h
          · exact absurd h hne
          · exact absurd h (String.not_lt.mpr hle)
        refine List.pairwise_cons.mpr ⟨fun r hr => ?_, hkept⟩
        rcases List.mem_cons.mp hr with rfl | hr
        · exact hlt
        · exact String.lt_trans hlt ((List.pairwise_cons.mp hkept).1 r hr)

theorem keepLast_of_increasing (l : List (String × α)) (h : Increasing Prod.fst l) :
    keepLast l = l := by
  induction l with
  | nil => rfl
  | cons p l ih =>
    obtain ⟨hp, hl⟩ := List.pairwise_cons.mp h
    have hkept := ih hl
    rw [keepLast] at hkept
    rw [keepLast, List.foldr_cons, hkept]
    split
    · rfl
    next q rest =>
      rw [if_neg (String.ne_of_lt (hp q (by simp)))]

def ofList (l : List (String × α)) : NameMap α where
  bindings := (keepLast (l.mergeSort fun a b => decide (a.1 ≤ b.1))).toArray
  increasing := by
    simp only
    apply keepLast_increasing
    apply List.pairwise_mergeSort
    · intro a b c hab hbc
      simp only [decide_eq_true_eq] at hab hbc ⊢
      exact String.le_trans hab hbc
    · intro a b
      simpa using String.le_total a.1 b.1

theorem ofList_toList (m : NameMap α) : ofList m.toList = m := by
  apply toList_inj
  have hle : m.toList.Pairwise fun a b => decide (a.1 ≤ b.1) = true :=
    m.increasing.imp fun h => by simpa using String.not_lt.mp (String.lt_asymm h)
  change (keepLast _).toArray.toList = m.toList
  rw [List.mergeSort_of_pairwise hle, List.toList_toArray]
  exact keepLast_of_increasing _ m.increasing

end NameMap

abbrev NameSet := NameMap Unit

namespace NameSet

def add (s : NameSet) (name : String) : NameSet × Bool :=
  (s.insert name (), !s.contains name)

def ofNames (names : List String) : NameSet := .ofList (names.map fun name => (name, ()))

theorem contains_ofNames (names : List String) (name : String) :
    (ofNames names).contains name = true ↔ name ∈ names := by
  rw [NameMap.contains_iff, ofNames, NameMap.ofList, NameMap.names, NameMap.toList,
    List.toList_toArray, NameMap.mem_names_keepLast]
  simp

def union (s : NameSet) (names : List String) : NameSet := ofNames (s.names ++ names)

end NameSet

end ClrNames
