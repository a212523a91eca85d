import DecisionScore.Json.Reader
import DecisionScore.Proofs.Text

/-! # Reading back what is written

Every character of a text is written within a string so that it can be told where the string ends
and what the text was (`decode_encode`, `stringBody_encode`), and every number so that its digits
end where it does (`number?_toDigits`).  A tree of numbers, strings, arrays and objects that are
written like that is `Legible`: reading its text gives the tree back (`parse?_pretty`). -/

namespace DecisionScore.Json

/-! ### Numbers -/

theorem isDigit_of_mem_toDigits {n : Nat} {c : Char} (h : c ∈ Nat.toDigits 10 n) :
    c.isDigit = true :=
  Nat.isDigit_of_mem_toDigits (by decide) (by decide) h

/-- What holds of the ten digits holds of every character of a number. -/
theorem of_mem_toDigits (p : Char → Prop) (h : ∀ m < 10, p m.digitChar) {n : Nat} {c : Char}
    (hc : c ∈ Nat.toDigits 10 n) : p c := by
  have hrange : 48 ≤ c.toNat ∧ c.toNat ≤ 57 :=
    Char.isDigit_iff_toNat.mp (isDigit_of_mem_toDigits hc)
  have hchar : (c.toNat - 48).digitChar = c := by
    rw [← Char.toNat_inj, Nat.toNat_digitChar_of_lt_ten (by omega)]
    omega
  rw [← hchar]
  exact h _ (by omega)

theorem head?_toDigits_append (n : Nat) (rest : List Char) :
    (Nat.toDigits 10 n ++ rest).head? = (Nat.toDigits 10 n).head? := by
  cases h : Nat.toDigits 10 n with
  | nil => exact absurd h Nat.toDigits_ne_nil
  | cons d ds => rfl

/-- No number but zero is written with a zero in front. -/
theorem eq_zero_of_head?_toDigits {n : Nat} (h : (Nat.toDigits 10 n).head? = some '0') :
    n = 0 := by
  induction n using Nat.strongRecOn with
  | ind n ih =>
      by_cases hn : n < 10
      · rw [Nat.toDigits_of_lt_base hn] at h
        have hzero : ∀ m, m < 10 → [m.digitChar].head? = some '0' → m = 0 := by decide
        exact hzero n hn h
      · rw [Nat.toDigits_of_base_le (by decide) (by omega), head?_toDigits_append] at h
        have := ih (n / 10) (by omega) h
        omega

theorem natOf?_toDigits {n : Nat} (h : n ≤ maxNat) : natOf? (Nat.toDigits 10 n) = some n := by
  have hall : (Nat.toDigits 10 n).all Char.isDigit = true :=
    List.all_eq_true.mpr fun c hc => isDigit_of_mem_toDigits hc
  have hzero : ¬((Nat.toDigits 10 n).head? = some '0' ∧ (Nat.toDigits 10 n).length ≠ 1) := by
    rintro ⟨hhead, hlength⟩
    rw [eq_zero_of_head?_toDigits hhead] at hlength
    exact hlength rfl
  have hvalue : (Nat.toDigits 10 n).foldl (fun n c => n * 10 + (c.toNat - 48)) 0 = n := by
    have hdigits := @Nat.ofDigitChars_ten_toDigits n
    simp only [Nat.ofDigitChars_eq_foldl, Nat.mul_comm 10] at hdigits
    exact hdigits
  unfold natOf?
  rw [if_neg (by simpa [hall, Nat.toDigits_ne_nil] using hzero), hvalue, if_pos h]

/-- A rest that does not go on with a number before it. -/
def EndsNumber (rest : List Char) : Prop :=
  ∀ c ∈ rest.head?, c.isDigit = false ∧ c ≠ '.' ∧ c ≠ 'e' ∧ c ≠ 'E'

theorem EndsNumber.nil : EndsNumber [] := by simp [EndsNumber]

theorem EndsNumber.cons {c : Char} (rest : List Char)
    (h : c.isDigit = false ∧ c ≠ '.' ∧ c ≠ 'e' ∧ c ≠ 'E') : EndsNumber (c :: rest) := by
  simpa [EndsNumber] using h

theorem fraction?_of_endsNumber {rest : List Char} (h : EndsNumber rest) :
    fraction? rest = some ([], rest) := by
  unfold fraction?
  split
  · exact absurd rfl (h '.' rfl).2.1
  · rfl

theorem exponent?_of_endsNumber {rest : List Char} (h : EndsNumber rest) :
    exponent? rest = some ([], rest) := by
  cases rest with
  | nil => rfl
  | cons c rest =>
      obtain ⟨-, -, he, hE⟩ := h c rfl
      simp [exponent?, he, hE]

theorem digits?_append {ds rest : List Char} (hne : ds ≠ []) (hds : ∀ c ∈ ds, c.isDigit = true)
    (h : EndsNumber rest) : digits? (ds ++ rest) = some (ds, rest) := by
  have hrest : rest.head?.any Char.isDigit = false := by
    cases rest with
    | nil => rfl
    | cons c rest => exact (h c rfl).1
  unfold digits?
  rw [Text.takeWhile_append_of_head? hds hrest, Text.dropWhile_append_of_head? hds hrest]
  cases ds with
  | nil => exact absurd rfl hne
  | cons d ds => rfl

theorem whole?_toDigits {rest : List Char} (n : Nat) (h : EndsNumber rest) :
    whole? (Nat.toDigits 10 n ++ rest) = some (Nat.toDigits 10 n, rest) := by
  have hdigits := digits?_append (@Nat.toDigits_ne_nil n 10) (fun _ => isDigit_of_mem_toDigits) h
  unfold whole?
  split
  next tail heq =>
    have hhead : (Nat.toDigits 10 n).head? = some '0' := by
      rw [← head?_toDigits_append n rest, heq]
      rfl
    obtain rfl := eq_zero_of_head?_toDigits hhead
    obtain rfl : rest = tail := by simpa using heq
    cases rest with
    | nil => rfl
    | cons c rest => simp [(h c rfl).1]
  · exact hdigits

/-- A number that is written as digits is read up to where they end. -/
theorem number?_toDigits {rest : List Char} (n : Nat) (h : EndsNumber rest) :
    number? (Nat.toDigits 10 n ++ rest) = some (Nat.toDigits 10 n, rest) := by
  have hunsigned : unsigned? (Nat.toDigits 10 n ++ rest) = some (Nat.toDigits 10 n, rest) := by
    simp [unsigned?, whole?_toDigits n h, fraction?_of_endsNumber h, exponent?_of_endsNumber h]
  unfold number?
  split
  next tail heq =>
    have hmem : '-' ∈ (Nat.toDigits 10 n).head? := by
      rw [← head?_toDigits_append n rest, heq]
      rfl
    have hdigit := isDigit_of_mem_toDigits (List.mem_of_mem_head? hmem)
    cases hdigit
  · exact hunsigned

/-! ### Strings -/

theorem hexValue?_hexDigit : ∀ n < 16, hexValue? (hexDigit n) = some n := by decide

/-- A control character is below 32, so two hexadecimal digits are enough. -/
theorem hexValue?_control {c : Char} (h : c.toNat < 32) :
    hexValue? (hexDigit (c.toNat / 16)) = some (c.toNat / 16) ∧
      hexValue? (hexDigit (c.toNat % 16)) = some (c.toNat % 16) :=
  ⟨hexValue?_hexDigit _ (by omega), hexValue?_hexDigit _ (by omega)⟩

/-- The three ways to write a character: a letter after a backslash, its code after a backslash, and
itself. -/
theorem encodeChar_cases (c : Char) :
    (∃ e, encodeChar c = ['\\', e] ∧ e ≠ 'u' ∧ simpleEscape? e = some c) ∨
      (c.toNat < 32 ∧ encodeChar c =
        ['\\', 'u', '0', '0', hexDigit (c.toNat / 16), hexDigit (c.toNat % 16)]) ∨
      (encodeChar c = [c] ∧ c ≠ '"' ∧ c ≠ '\\' ∧ ¬c.toNat < 32) := by
  unfold encodeChar
  iterate 7
    split
    next h =>
      subst h
      exact .inl ⟨_, rfl, by decide, rfl⟩
  split
  next hcontrol => exact .inr (.inl ⟨hcontrol, rfl⟩)
  next hquote hslash _ _ _ _ _ hcontrol => exact .inr (.inr ⟨rfl, hquote, hslash, hcontrol⟩)

/-- The code of a control character stands for it. -/
theorem unicodeEscape?_control {c : Char} (h : c.toNat < 32) (cs : List Char) :
    unicodeEscape? ('0' :: '0' :: hexDigit (c.toNat / 16) :: hexDigit (c.toNat % 16) :: cs) =
      some (c, cs) := by
  obtain ⟨hhi, hlo⟩ := hexValue?_control h
  have hzero : hexValue? '0' = some 0 := rfl
  have hcode : ((0 * 16 + 0) * 16 + c.toNat / 16) * 16 + c.toNat % 16 = c.toNat := by omega
  have hhex : hex4? ('0' :: '0' :: hexDigit (c.toNat / 16) :: hexDigit (c.toNat % 16) :: cs) =
      some (c.toNat, cs) := by
    simp only [hex4?, hzero, hhi, hlo, Option.bind_eq_bind, Option.bind_some, hcode]
  have hlow : ¬0xD800 ≤ c.toNat ∧ ¬0xDC00 ≤ c.toNat := by omega
  simp [unicodeEscape?, hhex, hlow, Char.ofNat_toNat]

/-- Each character takes one step to read back. -/
theorem decodeFrom_encodeChar (fuel : Nat) (c : Char) (cs : List Char) :
    decodeFrom (fuel + 1) (encodeChar c ++ cs) = (decodeFrom fuel cs).map (c :: ·) := by
  rcases encodeChar_cases c with ⟨e, h, hne, hsimple⟩ | ⟨hlt, h⟩ | ⟨h, -, hslash, -⟩
  · rw [h]
    cases hrest : decodeFrom fuel cs <;> simp [decodeFrom, hsimple, hrest]
  · rw [h]
    cases hrest : decodeFrom fuel cs <;> simp [decodeFrom, unicodeEscape?_control hlt, hrest]
  · rw [h]
    simp [decodeFrom, hslash]

theorem decodeFrom_encode {fuel : Nat} {cs : List Char} (h : cs.length ≤ fuel) :
    decodeFrom fuel (encode cs) = some cs := by
  induction cs generalizing fuel with
  | nil => cases fuel <;> rfl
  | cons c cs ih =>
      cases fuel with
      | zero => cases h
      | succ fuel =>
          rw [encode, List.flatMap_cons, decodeFrom_encodeChar]
          rw [List.length_cons] at h
          have hrest := ih (Nat.le_of_succ_le_succ h)
          rw [encode] at hrest
          rw [hrest]
          rfl

theorem length_le_length_encode (cs : List Char) : cs.length ≤ (encode cs).length := by
  induction cs with
  | nil => exact Nat.le_refl 0
  | cons c cs ih =>
      have hpos : 1 ≤ (encodeChar c).length := by
        rcases encodeChar_cases c with ⟨e, h, -⟩ | ⟨-, h⟩ | ⟨h, -⟩ <;> simp [h]
      rw [encode] at ih ⊢
      rw [List.flatMap_cons, List.length_append, List.length_cons]
      omega

/-- **A text is read back from how it is written.** -/
theorem decode_encode (cs : List Char) : decode (encode cs) = some cs :=
  decodeFrom_encode (length_le_length_encode cs)

theorem stringBody_encodeChar (c : Char) (cs : List Char) :
    stringBody (encodeChar c ++ cs) =
      (stringBody cs).map fun p => (encodeChar c ++ p.1, p.2) := by
  rcases encodeChar_cases c with ⟨e, h, hne, hsimple⟩ | ⟨hlt, h⟩ | ⟨h, hquote, hslash, hlow⟩
  · rw [h]
    simp [stringBody, hne, hsimple]
  · rw [h]
    obtain ⟨hhi, hlo⟩ := hexValue?_control hlt
    have hzero : hexValue? '0' = some 0 := rfl
    simp [stringBody, hhi, hlo, hzero]
  · rw [h]
    simp [stringBody, hslash, hlow]

/-- What is written within a string goes up to the closing quote. -/
theorem stringBody_encode (cs rest : List Char) :
    stringBody (encode cs ++ '"' :: rest) = some (encode cs, rest) := by
  induction cs with
  | nil => rfl
  | cons c cs ih =>
      rw [encode] at ih ⊢
      rw [List.flatMap_cons, List.append_assoc, stringBody_encodeChar, ih]
      rfl

/-- Digits are written as they are. -/
theorem encode_toDigits (n : Nat) : encode (Nat.toDigits 10 n) = Nat.toDigits 10 n := by
  have hself : ∀ c ∈ Nat.toDigits 10 n, encodeChar c = [c] :=
    fun c hc => of_mem_toDigits (fun c => encodeChar c = [c]) (by decide) hc
  rw [encode, List.flatMap, List.map_congr_left hself, ← List.flatMap, List.flatMap_singleton']

/-! ### Trees -/

theorem skipSpace_cons {c : Char} (h : isSpace c = false) (cs : List Char) :
    skipSpace (c :: cs) = c :: cs := by
  rw [skipSpace, List.dropWhile_cons_of_neg (by simp [h])]

theorem skipSpace_margin (level : Nat) (cs : List Char) :
    skipSpace (margin level ++ cs) = skipSpace cs := by
  refine List.dropWhile_append_of_pos fun c hc => ?_
  rcases List.mem_cons.mp hc with rfl | hc
  · rfl
  · rw [List.eq_of_mem_replicate hc]
    rfl

/-- Blank space in front of a value does not matter. -/
theorem value?_congr {cs ds : List Char} (fuel : Nat) (h : skipSpace cs = skipSpace ds) :
    value? fuel cs = value? fuel ds := by
  cases fuel with
  | zero => rfl
  | succ fuel => rw [value?, value?, h]

theorem quoted_append (raw rest : List Char) :
    quoted raw ++ rest = '"' :: (raw ++ '"' :: rest) := by
  simp [quoted]

theorem value?_margin (fuel level : Nat) (cs : List Char) :
    value? fuel (margin level ++ cs) = value? fuel cs :=
  value?_congr fuel (skipSpace_margin level cs)

/-- A tree whose numbers and strings are written as they should be. -/
inductive Legible : Json → Prop where
  | null : Legible .null
  | boolean (b : Bool) : Legible (.boolean b)
  | number (n : Nat) : Legible (.ofNat n)
  | string (cs : List Char) : Legible (.string (encode cs))
  | array {vs : List Json} (h : ∀ v ∈ vs, Legible v) : Legible (.array vs)
  | object {es : List (List Char × Json)} (hkeys : ∀ e ∈ es, ∃ cs, e.1 = encode cs)
      (h : ∀ e ∈ es, Legible e.2) : Legible (.object es)

/-- The text of a tree starts with neither blank space nor a closing bracket. -/
theorem Legible.exists_cons {j : Json} (h : Legible j) (level : Nat) :
    ∃ c cs, prettyAt level j = c :: cs ∧ isSpace c = false ∧ c ≠ ']' := by
  cases h with
  | null => exact ⟨_, _, rfl, rfl, by decide⟩
  | boolean b => cases b <;> exact ⟨_, _, rfl, rfl, by decide⟩
  | number n =>
      obtain ⟨d, ds, hds⟩ := List.exists_cons_of_ne_nil (@Nat.toDigits_ne_nil n 10)
      have hd : d ∈ Nat.toDigits 10 n := hds ▸ List.mem_cons_self
      have hdigit : isSpace d = false ∧ d ≠ ']' :=
        of_mem_toDigits (fun d => isSpace d = false ∧ d ≠ ']') (by decide) hd
      exact ⟨d, ds, hds, hdigit⟩
  | string cs => exact ⟨_, _, rfl, rfl, by decide⟩
  | @array vs h =>
      cases vs with
      | nil => exact ⟨_, _, rfl, rfl, by decide⟩
      | cons v vs => exact ⟨'[', _, by rw [prettyAt]; rfl, rfl, by decide⟩
  | @object es hkeys h =>
      cases es with
      | nil => exact ⟨_, _, rfl, rfl, by decide⟩
      | cons e es => exact ⟨'\x7b', _, by rw [prettyAt]; rfl, rfl, by decide⟩

/-- Reading the text of a tree, with something behind it, gives the tree and what is behind it. -/
def ReadsBack (j : Json) : Prop :=
  ∀ (level fuel : Nat) (rest : List Char), (prettyAt level j).length ≤ fuel → EndsNumber rest →
    value? fuel (prettyAt level j ++ rest) = some (j, rest)

theorem value?_number (n fuel : Nat) {rest : List Char} (h : EndsNumber rest) :
    value? (fuel + 1) (Nat.toDigits 10 n ++ rest) = some (.ofNat n, rest) := by
  obtain ⟨d, ds, hds⟩ := List.exists_cons_of_ne_nil (@Nat.toDigits_ne_nil n 10)
  have hdigit : isSpace d = false ∧ d ∉ ['n', 't', 'f', '"', '[', '\x7b'] :=
    of_mem_toDigits (fun d => isSpace d = false ∧ d ∉ ['n', 't', 'f', '"', '[', '\x7b'])
      (by decide) (hds ▸ List.mem_cons_self)
  obtain ⟨hspace, hother⟩ := hdigit
  have hnumber := number?_toDigits n h
  rw [hds, List.cons_append] at hnumber ⊢
  rw [value?, skipSpace_cons hspace]
  split
  iterate 6
    next heq => simp [List.head_eq_of_cons_eq heq] at hother
  next => rw [hnumber, ofNat, hds, Option.map_some]

theorem EndsNumber.comma (rest : List Char) : EndsNumber (',' :: rest) :=
  .cons rest (by decide)

theorem EndsNumber.margin (level : Nat) (rest : List Char) : EndsNumber (margin level ++ rest) :=
  .cons _ (by decide)

theorem values?_margin (fuel level : Nat) (cs : List Char) :
    values? fuel (margin level ++ cs) = values? fuel cs := by
  cases fuel with
  | zero => rfl
  | succ fuel => rw [values?, values?, value?_margin]

theorem values?_of_comma {fuel : Nat} {v : Json} {cs rest : List Char}
    (hv : value? fuel cs = some (v, ',' :: rest)) :
    values? (fuel + 1) cs = (values? fuel rest).map fun p => (v :: p.1, p.2) := by
  rw [values?, hv]
  simp only [Option.bind_eq_bind, Option.bind_some, skipSpace_cons (c := ',') rfl]
  rw [Option.map_eq_bind]
  rfl

theorem values?_of_close {fuel : Nat} {v : Json} {cs ds rest : List Char}
    (hv : value? fuel cs = some (v, ds)) (hds : skipSpace ds = ']' :: rest) :
    values? (fuel + 1) cs = some ([v], rest) := by
  rw [values?, hv]
  simp only [Option.bind_eq_bind, Option.bind_some, hds]

/-- The values of an array, up to its closing bracket. -/
theorem values?_pretty {level fuel : Nat} (outer : Nat) {v : Json} {vs : List Json}
    (h : ∀ w ∈ v :: vs, ReadsBack w) (rest : List Char)
    (hfuel : (prettyAt level v).length + (prettyRest level vs).length ≤ fuel) :
    values? (fuel + 1)
      (prettyAt level v ++ (prettyRest level vs ++ (margin outer ++ ']' :: rest))) =
        some (v :: vs, rest) := by
  induction vs generalizing v fuel with
  | nil =>
      refine values?_of_close (h v List.mem_cons_self level fuel _ (Nat.le_of_add_right_le hfuel)
        (.margin outer _)) ?_
      rw [prettyRest, List.nil_append, skipSpace_margin, skipSpace_cons rfl]
  | cons w vs ih =>
      have hlength : (prettyRest level (w :: vs)).length = (margin level).length + 1 +
          ((prettyAt level w).length + (prettyRest level vs).length) := by
        simp only [prettyRest, List.length_append, List.length_cons]
        omega
      obtain ⟨fuel, rfl⟩ : ∃ m, fuel = m + 1 := Nat.exists_eq_add_one_of_ne_zero (by omega)
      have hv : ∀ rest, value? (fuel + 1) (prettyAt level v ++ ',' :: rest) =
          some (v, ',' :: rest) := fun rest =>
        h v List.mem_cons_self level _ _ (Nat.le_of_add_right_le hfuel) (.comma rest)
      simp only [prettyRest, List.cons_append, List.append_assoc]
      rw [values?_of_comma (hv _), values?_margin,
        ih (fun u hu => h u (List.mem_cons_of_mem v hu)) (by omega), Option.map_some]

theorem entries?_margin (fuel level : Nat) (cs : List Char) :
    entries? fuel (margin level ++ cs) = entries? fuel cs := by
  cases fuel with
  | zero => rfl
  | succ fuel => rw [entries?, entries?, skipSpace_margin]

section
variable {fuel : Nat} {k : List Char} {v : Json} {cs ds rest : List Char}

theorem entries?_of_comma (hv : value? fuel cs = some (v, ',' :: rest)) :
    entries? (fuel + 1) (quoted (encode k) ++ ':' :: cs) =
      (entries? fuel rest).map fun p => ((encode k, v) :: p.1, p.2) := by
  rw [quoted_append, entries?, skipSpace_cons rfl]
  simp only [stringBody_encode, Option.bind_eq_bind, Option.bind_some, hv,
    skipSpace_cons (c := ':') rfl, skipSpace_cons (c := ',') rfl]
  rw [Option.map_eq_bind]
  rfl

theorem entries?_of_close (hv : value? fuel cs = some (v, ds)) (hds : skipSpace ds = '}' :: rest) :
    entries? (fuel + 1) (quoted (encode k) ++ ':' :: cs) = some ([(encode k, v)], rest) := by
  rw [quoted_append, entries?, skipSpace_cons rfl]
  simp only [stringBody_encode, Option.bind_eq_bind, Option.bind_some, hv, hds,
    skipSpace_cons (c := ':') rfl]

end

/-- The entries of an object, up to its closing brace. -/
theorem entries?_pretty {level fuel : Nat} (outer : Nat) {k : List Char} {v : Json}
    {es : List (List Char × Json)} (hkeys : ∀ e ∈ es, ∃ cs, e.1 = encode cs)
    (h : ∀ e ∈ (encode k, v) :: es, ReadsBack e.2) (rest : List Char)
    (hfuel : (prettyAt level v).length + (prettyEntries level es).length ≤ fuel) :
    entries? (fuel + 1) (quoted (encode k) ++ ':' :: ' ' :: (prettyAt level v ++
      (prettyEntries level es ++ (margin outer ++ '}' :: rest)))) =
        some ((encode k, v) :: es, rest) := by
  have hspace : ∀ m cs, value? m (' ' :: cs) = value? m cs := fun m cs => value?_congr m rfl
  induction es generalizing k v fuel with
  | nil =>
      refine entries?_of_close ((hspace fuel _).trans (h _ List.mem_cons_self level fuel _
        (Nat.le_of_add_right_le hfuel) (.margin outer _))) ?_
      rw [prettyEntries, List.nil_append, skipSpace_margin, skipSpace_cons rfl]
  | cons e es ih =>
      obtain ⟨k', w⟩ := e
      obtain ⟨k', rfl⟩ := hkeys _ List.mem_cons_self
      have hlength : (prettyEntries level ((encode k', w) :: es)).length ≥ 1 +
          ((prettyAt level w).length + (prettyEntries level es).length) := by
        simp only [prettyEntries, List.length_append, List.length_cons]
        omega
      obtain ⟨fuel, rfl⟩ : ∃ m, fuel = m + 1 := Nat.exists_eq_add_one_of_ne_zero (by omega)
      have hv : ∀ rest, value? (fuel + 1) (' ' :: (prettyAt level v ++ ',' :: rest)) =
          some (v, ',' :: rest) := fun rest => (hspace _ _).trans
        (h _ List.mem_cons_self level _ _ (Nat.le_of_add_right_le hfuel) (.comma rest))
      simp only [prettyEntries, List.cons_append, List.append_assoc, List.nil_append]
      rw [entries?_of_comma (hv _), entries?_margin,
        ih (fun e he => hkeys e (List.mem_cons_of_mem _ he))
          (fun e he => h e (List.mem_cons_of_mem _ he)) (by omega), Option.map_some]

theorem value?_array {fuel : Nat} {vs : List Json} {cs ds rest : List Char} {c : Char}
    (hcs : skipSpace cs = c :: ds) (hc : c ≠ ']')
    (h : values? fuel (c :: ds) = some (vs, rest)) :
    value? (fuel + 1) ('[' :: cs) = some (.array vs, rest) := by
  rw [value?, skipSpace_cons rfl]
  simp only [hcs]
  split
  next heq => exact absurd (List.head_eq_of_cons_eq heq) hc
  next => rw [h, Option.map_some]

theorem value?_object {fuel : Nat} {es : List (List Char × Json)} {cs ds rest : List Char}
    (hcs : skipSpace cs = '"' :: ds) (h : entries? fuel ('"' :: ds) = some (es, rest)) :
    value? (fuel + 1) ('\x7b' :: cs) = some (.object es, rest) := by
  rw [value?, skipSpace_cons rfl]
  simp [hcs, h]

/-- Every tree has a text, so there is fuel for a first step. -/
theorem Legible.readsBack_of_succ {j : Json} (hj : Legible j)
    (h : ∀ (level fuel : Nat) (rest : List Char), (prettyAt level j).length ≤ fuel + 1 →
      EndsNumber rest → value? (fuel + 1) (prettyAt level j ++ rest) = some (j, rest)) :
    ReadsBack j := by
  intro level fuel rest hfuel hrest
  obtain ⟨c, cs, hcs, -⟩ := hj.exists_cons level
  cases fuel with
  | zero =>
      rw [hcs] at hfuel
      cases hfuel
  | succ fuel => exact h level fuel rest hfuel hrest

/-- **A tree that is written is read back.** -/
theorem Legible.readsBack {j : Json} (h : Legible j) : ReadsBack j := by
  induction h with
  | null => exact Legible.null.readsBack_of_succ fun level fuel rest _ _ => rfl
  | boolean b =>
      refine (Legible.boolean b).readsBack_of_succ fun level fuel rest _ _ => ?_
      cases b <;> rfl
  | number n =>
      exact (Legible.number n).readsBack_of_succ fun level fuel rest _ hrest =>
        value?_number n fuel hrest
  | string cs =>
      refine (Legible.string cs).readsBack_of_succ fun level fuel rest _ _ => ?_
      rw [prettyAt, quoted_append, value?, skipSpace_cons rfl]
      simp [stringBody_encode]
  | @array vs h ih =>
      refine (Legible.array h).readsBack_of_succ fun level fuel rest hfuel _ => ?_
      cases vs with
      | nil => rfl
      | cons v vs =>
          obtain ⟨c, cs, hcs, hspace, hc⟩ := (h v List.mem_cons_self).exists_cons (level + 1)
          simp only [prettyAt, List.length_append, List.length_cons, List.length_nil] at hfuel
          obtain ⟨fuel, rfl⟩ : ∃ m, fuel = m + 1 := Nat.exists_eq_add_one_of_ne_zero (by omega)
          have hread : (prettyAt (level + 1) v).length + (prettyRest (level + 1) vs).length ≤
              fuel := by omega
          have hvalues := values?_pretty level ih rest hread
          simp only [prettyAt, List.cons_append, List.append_assoc, List.nil_append]
          rw [hcs, List.cons_append] at hvalues ⊢
          exact value?_array (by rw [skipSpace_margin, skipSpace_cons hspace]) hc hvalues
  | @object es hkeys h ih =>
      refine (Legible.object hkeys h).readsBack_of_succ fun level fuel rest hfuel _ => ?_
      cases es with
      | nil => rfl
      | cons e es =>
          obtain ⟨k, v⟩ := e
          obtain ⟨k, rfl⟩ := hkeys _ List.mem_cons_self
          simp only [prettyAt, List.length_append, List.length_cons, List.length_nil] at hfuel
          obtain ⟨fuel, rfl⟩ : ∃ m, fuel = m + 1 := Nat.exists_eq_add_one_of_ne_zero (by omega)
          have hread : (prettyAt (level + 1) v).length + (prettyEntries (level + 1) es).length ≤
              fuel := by omega
          have hentries := entries?_pretty level
            (fun e he => hkeys e (List.mem_cons_of_mem _ he)) ih rest hread
          simp only [prettyAt, List.cons_append, List.append_assoc, List.nil_append]
          rw [quoted_append] at hentries ⊢
          exact value?_object (by rw [skipSpace_margin, skipSpace_cons rfl]) hentries

/-- **Reading the text of a legible tree** gives the tree. -/
theorem parse?_pretty {j : Json} (h : Legible j) : parse? j.pretty.toList = some j := by
  have hread := h.readsBack 0 ((prettyAt 0 j).length + 1) [] (Nat.le_succ _) .nil
  rw [List.append_nil] at hread
  rw [pretty, String.toList_ofList, parse?, hread]
  rfl

end DecisionScore.Json
