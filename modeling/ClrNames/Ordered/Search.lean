/-!
# Binary search by name

An array whose elements are strictly increasing in a name holds at most one
element for each name, and `search` finds it by halving. The main statement is
`search_eq_some_iff`: it answers exactly the element with the wanted name.
-/

set_option autoImplicit false

namespace ClrNames.Ordered

variable {β : Type}

def Increasing (name : β → String) (xs : List β) : Prop :=
  xs.Pairwise fun x y => name x < name y

/-- Halves the interval `[low, high)`; its width is fuel enough. -/
def searchWithin (name : β → String) (xs : Array β) (wanted : String) :
    Nat → Nat → Nat → Option β
  | 0, _, _ => none
  | fuel + 1, low, high =>
    if low < high then
      match xs[(low + high) / 2]? with
      | none => none
      | some x =>
        if wanted = name x then some x
        else if wanted < name x then searchWithin name xs wanted fuel low ((low + high) / 2)
        else searchWithin name xs wanted fuel ((low + high) / 2 + 1) high
    else none

def search (name : β → String) (xs : Array β) (wanted : String) : Option β :=
  searchWithin name xs wanted xs.size 0 xs.size

theorem searchWithin_sound (name : β → String) (xs : Array β) (wanted : String)
    (fuel low high : Nat) (x : β) (h : searchWithin name xs wanted fuel low high = some x) :
    x ∈ xs ∧ name x = wanted := by
  fun_induction searchWithin name xs wanted fuel low high with
  | case1 => simp at h
  | case2 fuel low high _ _ => simp at h
  | case3 fuel low high _ y hy heq =>
    obtain rfl : y = x := by simpa using h
    exact ⟨Array.mem_of_getElem? hy, heq.symm⟩
  | case4 fuel low high _ y _ _ _ ih => exact ih h
  | case5 fuel low high _ y _ _ _ ih => exact ih h
  | case6 => simp at h

theorem searchWithin_complete (name : β → String) (xs : Array β) (wanted : String)
    (hsorted : ∀ (i j : Nat) (x y : β), i < j → xs[i]? = some x → xs[j]? = some y → name x < name y)
    (fuel low high i : Nat) (x : β) (hfuel : high - low ≤ fuel) (hhigh : high ≤ xs.size)
    (hlow : low ≤ i) (hi : i < high) (hx : xs[i]? = some x) (hname : name x = wanted) :
    searchWithin name xs wanted fuel low high = some x := by
  fun_induction searchWithin name xs wanted fuel low high with
  | case1 => omega
  | case2 fuel low high hlt hnone =>
    rw [Array.getElem?_eq_none_iff] at hnone
    omega
  | case3 fuel low high _ y hy heq =>
    rcases Nat.lt_trichotomy i ((low + high) / 2) with h | h | h
    · exact absurd (hsorted _ _ _ _ h hx hy) (by rw [hname, heq]; exact String.lt_irrefl _)
    · subst h
      simpa using hy.symm.trans hx
    · exact absurd (hsorted _ _ _ _ h hy hx) (by rw [hname, heq]; exact String.lt_irrefl _)
  | case4 fuel low high _ y hy _ hlt ih =>
    apply ih (by omega) (by omega) hlow
    rcases Nat.lt_or_ge i ((low + high) / 2) with h | h
    · exact h
    · rcases Nat.lt_or_eq_of_le h with h | h
      · exact absurd (hsorted _ _ _ _ h hy hx) (by rw [hname]; exact String.lt_asymm hlt)
      · subst h
        obtain rfl : y = x := by simpa using hy.symm.trans hx
        exact absurd hlt (by rw [hname]; exact String.lt_irrefl _)
  | case5 fuel low high _ y hy hne hnlt ih =>
    apply ih (by omega) (by omega) _ hi
    rcases Nat.lt_trichotomy i ((low + high) / 2) with h | h | h
    · exact absurd (hname ▸ hsorted _ _ _ _ h hx hy) hnlt
    · subst h
      obtain rfl : y = x := by simpa using hy.symm.trans hx
      exact absurd hname.symm hne
    · omega
  | case6 => omega

theorem search_eq_some_iff (name : β → String) (xs : Array β)
    (h : Increasing name xs.toList) (wanted : String) (x : β) :
    search name xs wanted = some x ↔ x ∈ xs ∧ name x = wanted := by
  constructor
  · exact searchWithin_sound name xs wanted _ _ _ x
  · rintro ⟨hx, hname⟩
    obtain ⟨i, hi, rfl⟩ := Array.mem_iff_getElem.mp hx
    apply searchWithin_complete name xs wanted _ _ _ _ i _ (by omega) (Nat.le_refl _)
      (Nat.zero_le _) hi (by simp [hi]) hname
    intro i j x y hij hx hy
    rw [← Array.getElem?_toList] at hx hy
    obtain ⟨hi', rfl⟩ := List.getElem?_eq_some_iff.mp hx
    obtain ⟨hj', rfl⟩ := List.getElem?_eq_some_iff.mp hy
    exact List.pairwise_iff_getElem.mp h i j hi' hj' hij

end ClrNames.Ordered
