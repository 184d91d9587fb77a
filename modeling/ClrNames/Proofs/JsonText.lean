import ClrNames.Json.Reader
import ClrNames.Json.Value
import ClrNames.Proofs.Utf8

/-!
# Reading back compact JSON

`ReadsBack` says that a reader takes the compact text of a value off the bytes in
front of it, if a separator or nothing follows. It is shown for every kind of
value that is written: for strings over all their escapes, for numbers, and for
objects member by member.
-/

set_option autoImplicit false

namespace ClrNames

open Text (encode)

namespace Json

def bytes (j : Json) : Bytes := encode j.compact.toList

theorem bytes_string (s : String) :
    (string s).bytes = 0x22 :: encode (s.toList.flatMap escapeChar) ++ [0x22] := by
  have hquote : String.utf8EncodeChar '"' = [0x22] := by decide
  rw [bytes, compact, quote, String.toList_ofList, Text.encode_append, Text.encode_cons, hquote]
  rfl

theorem bytes_number (n : Nat) : (number n).bytes = encode (Nat.toDigits 10 n) := by
  rw [bytes, compact, Nat.toString_eq_ofList_toDigits, String.toList_ofList]

def membersBytes : Bool → List (String × Json) → Bytes
  | _, [] => [0x7d]
  | first, (name, value) :: members =>
    (if first then [] else [0x2c]) ++ (string name).bytes ++ 0x3a :: value.bytes ++
      membersBytes false members

theorem membersBytes_texts (name : String) (value : Json) (members : List (String × Json)) :
    encode ([','].intercalate ((compactMembers ((name, value) :: members)).map String.toList) ++
      ['\x7d']) = membersBytes true ((name, value) :: members) := by
  have hcolon : encode ":".toList = [0x3a] := by decide
  have hcomma : encode [','] = [0x2c] := by decide
  have hclose : encode ['\x7d'] = [0x7d] := by decide
  have hmember (name : String) (value : Json) :
      encode (quote name ++ ":" ++ value.compact).toList =
        (string name).bytes ++ 0x3a :: value.bytes := by
    rw [String.toList_append, String.toList_append, Text.encode_append, Text.encode_append,
      hcolon, List.append_assoc]
    rfl
  induction members generalizing name value with
  | nil =>
    rw [compactMembers, compactMembers, List.map_cons, List.map_nil, List.intercalate_singleton,
      Text.encode_append, hmember, hclose]
    simp [membersBytes]
  | cons next members ih =>
    obtain ⟨name', value'⟩ := next
    rw [compactMembers, List.map_cons, List.intercalate_cons_of_ne_nil (by simp [compactMembers]),
      List.append_assoc, List.append_assoc, Text.encode_append, Text.encode_append, ih, hmember,
      hcomma]
    simp [membersBytes]

theorem bytes_object (members : List (String × Json)) :
    (object members).bytes = 0x7b :: membersBytes true members := by
  have htext : (object members).compact.toList = '\x7b' ::
      ([','].intercalate ((compactMembers members).map String.toList) ++ ['\x7d']) := by
    have hopen : "\x7b".toList = ['\x7b'] := rfl
    have hcomma : ",".toList = [','] := rfl
    have hclose : "\x7d".toList = ['\x7d'] := rfl
    rw [compact, String.toList_append, String.toList_append, String.toList_intercalate, hopen,
      hcomma, hclose, List.append_assoc, List.singleton_append]
  have hopen : String.utf8EncodeChar '\x7b' = [0x7b] := by decide
  rw [bytes, htext, Text.encode_cons, hopen, List.singleton_append]
  cases members with
  | nil => decide
  | cons first members =>
    obtain ⟨name, value⟩ := first
    rw [membersBytes_texts]

theorem length_lt_membersBytes (first : Bool) (members : List (String × Json)) :
    members.length < (membersBytes first members).length := by
  induction members generalizing first with
  | nil => simp [membersBytes]
  | cons next members ih =>
    have htail := ih false
    simp only [membersBytes, List.length_append, List.length_cons]
    omega

end Json

namespace JsonReader

def Closes (rest : Bytes) : Prop := ∀ b, rest.head? = some b → b = 0x2c ∨ b = 0x7d

def ReadsBack {α : Type} (reader : JsonReader α) (j : Json) (a : α) : Prop :=
  ∀ rest, Closes rest → reader (j.bytes ++ rest) = .ok (a, rest)

section
variable {α β : Type} {bytes rest : Bytes}

theorem bind_ok {p : JsonReader α} {a : α} (h : p bytes = .ok (a, rest)) (k : α → JsonReader β) :
    (p >>= k) bytes = k a rest := by
  show StateT.bind p k bytes = _
  rw [StateT.bind, h]
  rfl

theorem skip_cons (b : UInt8) (bytes : Bytes) : skip (b :: bytes) = .ok ((), bytes) := rfl

theorem next?_cons {b : UInt8} (h : isBlank b = false) (bytes : Bytes) :
    next? (b :: bytes) = .ok (some (symbol b), b :: bytes) := by
  show peek? ((b :: bytes).dropWhile isBlank) = _
  rw [List.dropWhile_cons_of_neg (by simp [h])]
  rfl

theorem colon_cons (bytes : Bytes) : colon (0x3a :: bytes) = .ok ((), bytes) := rfl

theorem null_readsBack (value : JsonReader α) : ReadsBack (optional value) .null none :=
  fun _ _ => rfl

theorem bool_readsBack (value : Bool) : ReadsBack bool (.bool value) value := by
  intro rest _
  cases value <;> rfl

theorem hexDigit?_hexDigit : ∀ d < 16,
    String.utf8EncodeChar (Json.hexDigit d) = [UInt8.ofNat (Json.hexDigit d).toNat] ∧
      hexDigit? (UInt8.ofNat (Json.hexDigit d).toNat) = some d := by
  decide

theorem escape_control {c : Char} (h : c.toNat < 0x20) (more : Bytes) :
    escape (encode ['u', '0', '0', Json.hexDigit (c.toNat / 16), Json.hexDigit (c.toNat % 16)] ++
      more) = .ok (String.utf8EncodeChar c, more) := by
  obtain ⟨hhigh, hhigh'⟩ := hexDigit?_hexDigit (c.toNat / 16) (by omega)
  obtain ⟨hlow, hlow'⟩ := hexDigit?_hexDigit (c.toNat % 16) (by omega)
  have hprefix : encode ['u', '0', '0'] = [0x75, 0x30, 0x30] := by decide
  have hbytes : encode ['u', '0', '0', Json.hexDigit (c.toNat / 16), Json.hexDigit (c.toNat % 16)] =
      [0x75, 0x30, 0x30, UInt8.ofNat (Json.hexDigit (c.toNat / 16)).toNat,
        UInt8.ofNat (Json.hexDigit (c.toNat % 16)).toNat] := by
    show encode (['u', '0', '0'] ++ [_, _]) = _
    rw [Text.encode_append, hprefix, Text.encode_cons, Text.encode_cons, hhigh, hlow]
    rfl
  have hunit : ((0 * 16 + 0) * 16 + c.toNat / 16) * 16 + c.toNat % 16 = c.toNat := by omega
  have hzero : hexDigit? 0x30 = some 0 := by decide
  have hhexUnit : hexUnit (0x30 :: 0x30 :: UInt8.ofNat (Json.hexDigit (c.toNat / 16)).toNat ::
      UInt8.ofNat (Json.hexDigit (c.toNat % 16)).toNat :: more) = .ok (c.toNat, more) := by
    simp only [hexUnit, hzero, hhigh', hlow', hunit]
  have hlowSurrogate : isLowSurrogate c.toNat = false := by
    simp only [isLowSurrogate, Bool.and_eq_false_iff, decide_eq_false_iff_not]
    omega
  have hhighSurrogate : isHighSurrogate c.toNat = false := by
    simp only [isHighSurrogate, Bool.and_eq_false_iff, decide_eq_false_iff_not]
    omega
  have hcode : unicodeEscape (0x30 :: 0x30 :: UInt8.ofNat (Json.hexDigit (c.toNat / 16)).toNat ::
      UInt8.ofNat (Json.hexDigit (c.toNat % 16)).toNat :: more) = .ok (c.toNat, more) := by
    rw [unicodeEscape, hhexUnit]
    simp [bind, Except.bind, hlowSurrogate, hhighSurrogate]
  have hletter : simpleEscape? 0x75 = none := by decide
  rw [hbytes]
  simp only [List.cons_append, List.nil_append, escape, hletter, if_true, hcode]
  show Except.ok (String.utf8EncodeChar (Char.ofNat c.toNat), more) = _
  rw [Char.ofNat_toNat]

/-- A character is written as itself, or behind a backslash as what reads back as it. -/
theorem escapeChar_cases (c : Char) :
    (∃ letters, Json.escapeChar c = '\\' :: letters ∧
      ∀ more, escape (encode letters ++ more) = .ok (String.utf8EncodeChar c, more)) ∨
    (Json.escapeChar c = [c] ∧ c ≠ '"' ∧ c ≠ '\\' ∧ 0x20 ≤ c.toNat) := by
  unfold Json.escapeChar
  split
  next h => exact .inl ⟨_, rfl, fun more => by subst h; rfl⟩
  next hquote =>
    split
    next h => exact .inl ⟨_, rfl, fun more => by subst h; rfl⟩
    next hslash =>
      iterate 5
        split
        next h => exact .inl ⟨_, rfl, fun more => by subst h; rfl⟩
      next =>
        split
        next h => exact .inl ⟨_, rfl, fun more => escape_control h more⟩
        next h => exact .inr ⟨rfl, hquote, hslash, Nat.le_of_not_lt h⟩

/-- The bytes of a character that is written as itself neither close a string nor start
an escape, and none is a control character. -/
theorem utf8EncodeChar_plain {c : Char} (hquote : c ≠ '"') (hslash : c ≠ '\\')
    (hcontrol : 0x20 ≤ c.toNat) :
    ∀ b ∈ String.utf8EncodeChar c, b ≠ 0x22 ∧ b ≠ 0x5c ∧ ¬ b < 0x20 := by
  have hquote' : c.val.toNat ≠ 0x22 := fun h => hquote (Char.toNat_inj.mp h)
  have hslash' : c.val.toNat ≠ 0x5c := fun h => hslash (Char.toNat_inj.mp h)
  have hcontrol' : 0x20 ≤ c.val.toNat := hcontrol
  intro b hb
  have hbyte : b.toNat ≠ 0x22 ∧ b.toNat ≠ 0x5c ∧ ¬ b.toNat < 0x20 := by
    unfold String.utf8EncodeChar at hb
    dsimp only at hb
    -- by the number of bytes; only a single byte is below 128
    repeat' split at hb
    all_goals
      simp only [List.mem_cons, List.not_mem_nil, or_false] at hb
      rcases hb with rfl | rfl | rfl | rfl
    all_goals
      rw [UInt8.toNat_ofNat']
      omega
  rw [ne_eq, ne_eq, ← UInt8.toNat_inj, ← UInt8.toNat_inj, UInt8.lt_iff_toNat_lt]
  exact hbyte

theorem quoted_plain (readEscape : Bytes → Except JsonFault (Bytes × Bytes)) {plain : Bytes}
    (h : ∀ b ∈ plain, b ≠ 0x22 ∧ b ≠ 0x5c ∧ ¬ b < 0x20) {fuel : Bytes} (done rest : Bytes)
    (hfuel : plain.length < fuel.length) :
    quoted readEscape fuel done (plain ++ rest) =
      quoted readEscape (fuel.drop plain.length) (plain.reverse ++ done) rest := by
  induction plain generalizing fuel done with
  | nil => rfl
  | cons b plain ih =>
    obtain ⟨hquote, hslash, hcontrol⟩ := h b (by simp)
    cases fuel with
    | nil => simp at hfuel
    | cons unit fuel =>
      rw [List.cons_append, quoted, if_neg hquote, if_neg hslash, if_neg hcontrol,
        ih (fun d hd => h d (by simp [hd])) _ (by simpa using hfuel)]
      simp

theorem quoted_escaped {readEscape : Bytes → Except JsonFault (Bytes × Bytes)}
    {letters plain more : Bytes} (h : readEscape (letters ++ more) = .ok (plain, more))
    (unit : UInt8) (fuel done : Bytes) :
    quoted readEscape (unit :: fuel) done (0x5c :: letters ++ more) =
      quoted readEscape fuel (plain.reverse ++ done) more := by
  rw [List.cons_append, quoted, if_neg (by decide), if_pos rfl, h]
  rfl

/-- The escapes of a text are read as the text, with any fuel that is longer. -/
theorem quoted_escapes (cs : List Char) (fuel done rest : Bytes)
    (hfuel : (encode (cs.flatMap Json.escapeChar)).length < fuel.length) :
    quoted escape fuel done (encode (cs.flatMap Json.escapeChar) ++ 0x22 :: rest) =
      .ok (done.reverse ++ encode cs, rest) := by
  induction cs generalizing fuel done with
  | nil =>
    cases fuel with
    | nil => simp at hfuel
    | cons unit fuel => simp [quoted]
  | cons c cs ih =>
    rw [List.flatMap_cons, Text.encode_append] at hfuel ⊢
    rw [List.length_append] at hfuel
    rw [List.append_assoc, Text.encode_cons]
    rcases escapeChar_cases c with ⟨letters, hletters, hread⟩ | ⟨hself, hquote, hslash, hcontrol⟩
    · rw [hletters, Text.encode_cons] at hfuel ⊢
      rw [show String.utf8EncodeChar '\\' = [0x5c] by decide] at hfuel ⊢
      cases fuel with
      | nil => simp at hfuel
      | cons unit fuel =>
        rw [List.singleton_append, quoted_escaped (hread _), ih]
        · simp
        · simp only [List.length_append, List.length_cons] at hfuel
          omega
    · rw [hself, Text.encode_cons, Text.encode_nil, List.append_nil] at hfuel ⊢
      rw [quoted_plain escape (utf8EncodeChar_plain hquote hslash hcontrol) _ _ (by omega), ih]
      · simp
      · rw [List.length_drop]
        omega

theorem string_escapes (s : String) (rest : Bytes) :
    string (encode (s.toList.flatMap Json.escapeChar) ++ 0x22 :: rest) = .ok (s, rest) := by
  have hquoted := quoted_escapes s.toList
    (encode (s.toList.flatMap Json.escapeChar) ++ 0x22 :: rest) [] rest (by simp)
  have hcontent : String.fromUTF8? ([].reverse ++ encode s.toList).toByteArray = some s := by
    rw [List.reverse_nil, List.nil_append, Text.fromUTF8?_encode, String.ofList_toList]
  simp only [string, hquoted, bind, Except.bind, hcontent]

theorem text_readsBack (s : String) : ReadsBack text (.string s) s := by
  intro rest _
  rw [Json.bytes_string]
  unfold text
  rw [List.append_assoc, List.cons_append, bind_ok (next?_cons (by decide) _)]
  rw [if_pos (by decide), bind_ok (skip_cons _ _)]
  exact string_escapes s rest

theorem optional_readsBack {value : JsonReader α} {j : Json} {a : α} (h : ReadsBack value j a)
    {b : UInt8} {more : Bytes} (hj : j.bytes = b :: more) (hblank : isBlank b = false)
    (hnull : symbol b ≠ 'n') : ReadsBack (optional value) j (some a) := by
  intro rest hrest
  have hread := h rest hrest
  unfold optional
  rw [hj, List.cons_append] at hread ⊢
  rw [bind_ok (next?_cons hblank _), if_neg (by simpa using hnull), bind_ok hread]
  rfl

theorem ofString?_readsBack (s : Option String) :
    ReadsBack (optional text) (Json.ofString? s) s := by
  cases s with
  | none => exact null_readsBack text
  | some s =>
    exact optional_readsBack (text_readsBack s) (Json.bytes_string s) (by decide) (by decide)

def digitValue (c : Char) : Nat := c.toNat - 0x30

theorem digitValue_ascii {c : Char} (h : c.isDigit = true) :
    c.toNat < 128 ∧ isDigit (UInt8.ofNat c.toNat) = true ∧
      (UInt8.ofNat c.toNat).toNat - 0x30 = digitValue c := by
  simp only [Char.isDigit, Bool.and_eq_true, decide_eq_true_eq] at h
  have hlow : 48 ≤ c.toNat := UInt32.le_iff_toNat_le.mp h.1
  have hhigh : c.toNat ≤ 57 := UInt32.le_iff_toNat_le.mp h.2
  have hbyte : (UInt8.ofNat c.toNat).toNat = c.toNat :=
    UInt8.toNat_ofNat_of_lt' (show _ < 256 by omega)
  refine ⟨by omega, ?_, by rw [hbyte, digitValue]⟩
  rw [isDigit, Bool.and_eq_true, decide_eq_true_eq, decide_eq_true_eq, UInt8.le_iff_toNat_le,
    UInt8.le_iff_toNat_le, hbyte]
  exact ⟨hlow, hhigh⟩

/-- The first digit of a positive number is not zero. -/
theorem head_toDigits {n : Nat} (h : n ≠ 0) :
    ((Nat.toDigits 10 n).map digitValue).head? ≠ some 0 := by
  induction n using Nat.strongRecOn with
  | ind n ih =>
    rw [Nat.toDigits_eq_if (by decide)]
    split
    next hlt =>
      have hvalue : digitValue n.digitChar = n := Nat.toNat_digitChar_sub_48_of_lt_ten hlt
      simpa [hvalue] using h
    next hge =>
      have hhead := ih (n / 10) (by omega) (by omega)
      have hne : Nat.toDigits 10 (n / 10) ≠ [] := Nat.toDigits_ne_nil
      obtain ⟨c, cs, hcs⟩ := List.exists_cons_of_ne_nil hne
      rw [hcs] at hhead ⊢
      exact hhead

theorem foldl_digitValue (n : Nat) :
    ((Nat.toDigits 10 n).map digitValue).foldl (fun n d => n * 10 + d) 0 = n := by
  have hvalue := Nat.ofDigitChars_ten_toDigits (n := n)
  rw [Nat.ofDigitChars_eq_foldl] at hvalue
  rw [List.foldl_map]
  simpa [Nat.mul_comm, digitValue] using hvalue

theorem closes_peek? {rest : Bytes} (h : Closes rest) :
    ∃ mark, peek? rest = .ok (mark, rest) ∧ mark ≠ some '.' ∧ mark ≠ some 'e' ∧
      mark ≠ some 'E' := by
  cases rest with
  | nil => exact ⟨none, rfl, by decide⟩
  | cons b bs =>
    refine ⟨some (symbol b), rfl, ?_⟩
    rcases h b rfl with rfl | rfl <;> decide

theorem closes_digit {rest : Bytes} (h : Closes rest) : rest.takeWhile isDigit = [] := by
  cases rest with
  | nil => rfl
  | cons b bs =>
    have hb : isDigit b = false := by
      rcases h b rfl with rfl | rfl <;> decide
    rw [List.takeWhile_cons_of_neg (by simp [hb])]

/-- The digits of a number, in front of what closes it. -/
theorem digits_encode {cs : List Char} (h : ∀ c ∈ cs, c.isDigit = true) {rest : Bytes}
    (hrest : Closes rest) : digits (encode cs ++ rest) = .ok (cs.map digitValue, rest) := by
  have hbytes : encode cs = cs.map fun c => UInt8.ofNat c.toNat :=
    Text.encode_ascii fun c hc => (digitValue_ascii (h c hc)).1
  have hall : ∀ b ∈ encode cs, isDigit b = true := by
    rw [hbytes]
    simpa using fun c hc => (digitValue_ascii (h c hc)).2.1
  have htake : (encode cs ++ rest).takeWhile isDigit = encode cs := by
    rw [List.takeWhile_append_of_pos hall, closes_digit hrest, List.append_nil]
  have hdrop : (encode cs ++ rest).dropWhile isDigit = rest := by
    have hsplit := List.takeWhile_append_dropWhile (p := isDigit) (l := encode cs ++ rest)
    rw [htake] at hsplit
    exact List.append_cancel_left hsplit
  have hvalues : (encode cs).map (fun b => b.toNat - 0x30) = cs.map digitValue := by
    rw [hbytes, List.map_map]
    exact List.map_congr_left fun c hc => (digitValue_ascii (h c hc)).2.2
  show Except.ok (((encode cs ++ rest).takeWhile isDigit).map (fun b => b.toNat - 0x30),
    (encode cs ++ rest).dropWhile isDigit) = _
  rw [htake, hdrop, hvalues]

theorem le_foldl_digits (ds : List Nat) (n : Nat) : n ≤ ds.foldl (fun n d => n * 10 + d) n := by
  induction ds generalizing n with
  | nil => exact Nat.le_refl n
  | cons d ds ih => exact Nat.le_trans (by omega) (ih (n * 10 + d))

/-- A significand that stays below 2^64 takes every digit. -/
theorem appendDigits_eq (ds : List Nat) (n : Nat)
    (h : ds.foldl (fun n d => n * 10 + d) n < 18446744073709551616) :
    Json.appendDigits n ds = (ds.foldl (fun n d => n * 10 + d) n, ds.length) := by
  induction ds generalizing n with
  | nil => rfl
  | cons d ds ih =>
    have hle := le_foldl_digits ds (n * 10 + d)
    rw [List.foldl_cons] at h ⊢
    rw [Json.appendDigits, if_pos (Nat.lt_of_le_of_lt hle h), ih _ h]
    rfl

theorem number_digits {n : Nat} (hn : n < 18446744073709551616) {rest : Bytes}
    (hrest : Closes rest) : number false ((Json.number n).bytes ++ rest) = .ok (some n, rest) := by
  have hall : ∀ c ∈ Nat.toDigits 10 n, c.isDigit = true :=
    fun c hc => Nat.isDigit_of_mem_toDigits (by decide) (by decide) hc
  have hdigits := digits_encode hall hrest
  have hsome : someDigits .eof (encode (Nat.toDigits 10 n) ++ rest) =
      .ok ((Nat.toDigits 10 n).map digitValue, rest) := by
    rw [someDigits, bind_ok hdigits, if_neg (by simp)]
    rfl
  have hinteger : integerDigits .eof (encode (Nat.toDigits 10 n) ++ rest) =
      .ok ((Nat.toDigits 10 n).map digitValue, rest) := by
    rw [integerDigits, bind_ok hsome, if_neg]
    · rfl
    · rintro ⟨hzero, hlength⟩
      by_cases hn : n = 0
      · subst hn
        simp at hlength
      · exact head_toDigits hn hzero
  have happend : Json.appendDigits 0 ((Nat.toDigits 10 n).map digitValue) =
      (n, ((Nat.toDigits 10 n).map digitValue).length) := by
    rw [appendDigits_eq _ _ (by rwa [foldl_digitValue]), foldl_digitValue]
  obtain ⟨mark, hmark, hdot, hexponent⟩ := closes_peek? hrest
  rw [Json.bytes_number, number, bind_ok hinteger, happend]
  dsimp only
  rw [bind_ok hmark, if_neg hdot, if_neg (by simp [hexponent])]
  rfl

theorem bytes_number_cons (n : Nat) : ∃ b bs, (Json.number n).bytes = b :: bs ∧
    isBlank b = false ∧ (symbol b).isDigit = true := by
  obtain ⟨c, cs, hcs⟩ := List.exists_cons_of_ne_nil (Nat.toDigits_ne_nil (b := 10) (n := n))
  have hc : c.isDigit = true :=
    Nat.isDigit_of_mem_toDigits (b := 10) (n := n) (by decide) (by decide) (by simp [hcs])
  obtain ⟨hascii, hdigit, -⟩ := digitValue_ascii hc
  refine ⟨UInt8.ofNat c.toNat, encode cs, ?_, ?_, ?_⟩
  · rw [Json.bytes_number, hcs, Text.encode_cons, Text.utf8EncodeChar_ascii hascii,
      List.singleton_append]
  · generalize UInt8.ofNat c.toNat = b at hdigit
    cases hblank : isBlank b with
    | false => rfl
    | true =>
      simp only [isBlank, Bool.or_eq_true, beq_iff_eq] at hblank
      rcases hblank with ((rfl | rfl) | rfl) | rfl <;> cases hdigit
  · rw [symbol, UInt8.toNat_ofNat_of_lt' (show _ < 256 by omega), Char.ofNat_toNat]
    exact hc

theorem word32_readsBack (w : UInt32) : ReadsBack word32 (.number w.toNat) w := by
  intro rest hrest
  have hlt : w.toNat < 4294967296 := w.toNat_lt
  have hnumber := number_digits (n := w.toNat) (by omega) hrest
  obtain ⟨b, bs, hbytes, hblank, hdigit⟩ := bytes_number_cons w.toNat
  unfold word32
  rw [hbytes, List.cons_append] at hnumber ⊢
  rw [bind_ok (next?_cons hblank _), if_pos (by simpa using hdigit), bind_ok hnumber]
  dsimp only
  rw [if_pos hlt, UInt32.ofNat_toNat]
  rfl

/-- The form of an optional number, with null for none. -/
theorem word32?_readsBack (w : Option UInt32) :
    ReadsBack (optional word32) ((w.map fun w => Json.number w.toNat).getD .null) w := by
  cases w with
  | none => exact null_readsBack word32
  | some w =>
    obtain ⟨b, bs, hbytes, hblank, hdigit⟩ := bytes_number_cons w.toNat
    refine optional_readsBack (word32_readsBack w) hbytes hblank ?_
    intro hnull
    rw [hnull] at hdigit
    cases hdigit

end

section
variable {σ : Type} {member : String → σ → JsonReader σ}

inductive MembersReadBack (member : String → σ → JsonReader σ) : σ → List (String × Json) → σ → Prop
  | nil (s : σ) : MembersReadBack member s [] s
  | cons {s t u : σ} {name : String} {value : Json} {members : List (String × Json)}
      (first : ∀ rest, Closes rest → member name s (0x3a :: value.bytes ++ rest) = .ok (t, rest))
      (others : MembersReadBack member t members u) :
      MembersReadBack member s ((name, value) :: members) u

theorem closes_membersBytes (members : List (String × Json)) (rest : Bytes) :
    Closes (Json.membersBytes false members ++ rest) := by
  cases members with
  | nil =>
    rintro b ⟨⟩
    exact .inr rfl
  | cons next members =>
    rintro b ⟨⟩
    exact .inl rfl

/-- One round of the loop reads a name and leaves its colon to `member`. -/
theorem members_round {s : σ} {name : String} {value : Json} {ms : List (String × Json)}
    (first : Bool) (unit : UInt8) (fuel rest : Bytes) :
    members member (unit :: fuel) first s
        (Json.membersBytes first ((name, value) :: ms) ++ rest) =
      (member name s >>= members member fuel false)
        (0x3a :: value.bytes ++ (Json.membersBytes false ms ++ rest)) := by
  have hkey := string_escapes name (0x3a :: value.bytes ++ (Json.membersBytes false ms ++ rest))
  have hname : (skip >>= fun _ => string >>= fun key => member key s >>= members member fuel false)
      (0x22 :: (encode (name.toList.flatMap Json.escapeChar) ++
        0x22 :: (0x3a :: value.bytes ++ (Json.membersBytes false ms ++ rest)))) =
      (member name s >>= members member fuel false)
        (0x3a :: value.bytes ++ (Json.membersBytes false ms ++ rest)) := by
    rw [bind_ok (skip_cons _ _), bind_ok hkey]
  cases first with
  | true =>
    have hbytes : Json.membersBytes true ((name, value) :: ms) ++ rest =
        0x22 :: (encode (name.toList.flatMap Json.escapeChar) ++
          0x22 :: (0x3a :: value.bytes ++ (Json.membersBytes false ms ++ rest))) := by
      simp [Json.membersBytes, Json.bytes_string]
    rw [members, hbytes, bind_ok (next?_cons (by decide) _)]
    dsimp only
    rw [if_neg (by decide), if_neg (by decide), pure_bind]
    dsimp only
    rw [if_pos (by decide)]
    exact hname
  | false =>
    have hbytes : Json.membersBytes false ((name, value) :: ms) ++ rest =
        0x2c :: 0x22 :: (encode (name.toList.flatMap Json.escapeChar) ++
          0x22 :: (0x3a :: value.bytes ++ (Json.membersBytes false ms ++ rest))) := by
      simp [Json.membersBytes, Json.bytes_string]
    rw [members, hbytes, bind_ok (next?_cons (by decide) _)]
    dsimp only
    rw [if_neg (by decide), if_pos (by decide), bind_ok (skip_cons _ _),
      bind_ok (next?_cons (by decide) _)]
    dsimp only
    rw [if_pos (by decide)]
    exact hname

theorem members_readBack {s u : σ} {ms : List (String × Json)} (h : MembersReadBack member s ms u)
    (first : Bool) (fuel rest : Bytes) (hfuel : ms.length < fuel.length) :
    members member fuel first s (Json.membersBytes first ms ++ rest) = .ok (u, rest) := by
  induction h generalizing first fuel with
  | nil s =>
    cases fuel with
    | nil => simp at hfuel
    | cons unit fuel => rfl
  | cons hfirst others ih =>
    cases fuel with
    | nil => simp at hfuel
    | cons unit fuel =>
      rw [members_round, bind_ok (hfirst _ (closes_membersBytes _ rest))]
      exact ih false fuel (by simpa using hfuel)

theorem object_readsBack {s u : σ} {ms : List (String × Json)}
    (h : MembersReadBack member s ms u) : ReadsBack (object member s) (.object ms) u := by
  intro rest _
  rw [Json.bytes_object, List.cons_append]
  unfold object
  rw [bind_ok (next?_cons (by decide) _), if_pos (by decide), bind_ok (skip_cons _ _)]
  have hlength := Json.length_lt_membersBytes true ms
  refine members_readBack h true _ rest ?_
  rw [List.length_append]
  omega

end

end JsonReader

end ClrNames
