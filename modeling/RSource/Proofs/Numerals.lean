import Mathlib.Computability.RegularExpressions
import RSource.Proofs.Respacing

/-!
# Numeric constants as a regular language

The numeric constants are the words of a regular expression, and each of them has its kind.

* `oneOf`, `atLeastOne`, `optional` — the regular expressions of which that one is made.
* `numberPattern` — the regular expression of the numeric constants.
* `numberForm` — the kind of a numeric constant, from its characters alone.
* `IsMantissa`, `IsExponent`, `IsNumeral`, `IsNumber` — the words of its parts, with their kinds.
* `isNumber_iff` — **the numeric constants of a kind are the words of the pattern that have the form
  of the kind**.
* `scan_eq_num_iff` — **a numeric constant is read exactly where no character of a name follows
  one**.
-/

namespace RSource.Lexeme

/-! ## Regular expressions -/

/-- One of some characters. -/
def oneOf (cs : List Char) : RegularExpression Char := cs.foldr (fun c p => .char c + p) 0

/-- A pattern once or more often. -/
def atLeastOne (p : RegularExpression Char) : RegularExpression Char := p * p.star

/-- A pattern at most once. -/
def optional (p : RegularExpression Char) : RegularExpression Char := 1 + p

section Patterns

variable {p q : RegularExpression Char} {cs w : List Char} {c : Char}

theorem mem_mul_iff : w ∈ (p * q).matches' ↔
    ∃ u v, u ∈ p.matches' ∧ v ∈ q.matches' ∧ w = u ++ v := by
  rw [RegularExpression.matches'_mul, Language.mem_mul]
  constructor
  · rintro ⟨u, hu, v, hv, rfl⟩
    exact ⟨u, v, hu, hv, rfl⟩
  · rintro ⟨u, v, hu, hv, rfl⟩
    exact ⟨u, hu, v, hv, rfl⟩

theorem mem_add_iff : w ∈ (p + q).matches' ↔ w ∈ p.matches' ∨ w ∈ q.matches' := by
  rw [RegularExpression.matches'_add, Language.mem_add]

theorem mem_optional_iff : w ∈ (optional p).matches' ↔ w = [] ∨ w ∈ p.matches' := by
  rw [optional, mem_add_iff, RegularExpression.matches'_epsilon, Language.mem_one]

theorem mem_char_iff : w ∈ (RegularExpression.char c).matches' ↔ w = [c] := Iff.rfl

theorem mem_oneOf_iff : w ∈ (oneOf cs).matches' ↔ ∃ c ∈ cs, w = [c] := by
  induction cs with
  | nil => simp [oneOf]
  | cons c cs ih =>
      have hcons : oneOf (c :: cs) = .char c + oneOf cs := rfl
      rw [hcons, mem_add_iff, ih, mem_char_iff]
      simp

theorem mem_char_mul_iff : w ∈ (.char c * p).matches' ↔ ∃ v, v ∈ p.matches' ∧ w = c :: v := by
  rw [mem_mul_iff]
  constructor
  · rintro ⟨u, v, hu, hv, rfl⟩
    rw [mem_char_iff.mp hu]
    exact ⟨v, hv, rfl⟩
  · rintro ⟨v, hv, rfl⟩
    exact ⟨[c], v, mem_char_iff.mpr rfl, hv, rfl⟩

theorem mem_star_oneOf_iff : w ∈ (oneOf cs).star.matches' ↔ ∀ c ∈ w, c ∈ cs := by
  rw [RegularExpression.matches'_star, Language.mem_kstar]
  constructor
  · rintro ⟨ws, rfl, hws⟩ c hc
    obtain ⟨v, hv, hmem⟩ := List.mem_flatten.mp hc
    obtain ⟨d, hd, rfl⟩ := mem_oneOf_iff.mp (hws v hv)
    rwa [List.mem_singleton.mp hmem]
  · intro hw
    refine ⟨w.map fun c => [c], ?_, fun v hv => ?_⟩
    · rw [← List.flatMap_def, List.flatMap_singleton']
    · obtain ⟨c, hc, rfl⟩ := List.mem_map.mp hv
      exact mem_oneOf_iff.mpr ⟨c, hw c hc, rfl⟩

theorem mem_atLeastOne_oneOf_iff :
    w ∈ (atLeastOne (oneOf cs)).matches' ↔ w ≠ [] ∧ ∀ c ∈ w, c ∈ cs := by
  rw [atLeastOne, mem_mul_iff]
  constructor
  · rintro ⟨u, v, hu, hv, rfl⟩
    obtain ⟨c, hc, rfl⟩ := mem_oneOf_iff.mp hu
    exact ⟨by simp, by simpa [hc] using mem_star_oneOf_iff.mp hv⟩
  · rintro ⟨hne, hw⟩
    obtain ⟨c, v, rfl⟩ := List.exists_cons_of_ne_nil hne
    obtain ⟨hc, hv⟩ := List.forall_mem_cons.mp hw
    exact ⟨[c], v, mem_oneOf_iff.mpr ⟨c, hc, rfl⟩, mem_star_oneOf_iff.mpr hv, rfl⟩

end Patterns

/-! ## The pattern of numeric constants -/

def digits : List Char := ['0', '1', '2', '3', '4', '5', '6', '7', '8', '9']

def hexDigits : List Char :=
  digits ++ ['a', 'b', 'c', 'd', 'e', 'f', 'A', 'B', 'C', 'D', 'E', 'F']

/-- Digits with at most one point, which may stand behind the digits, between them or, if there is
one behind it, before them. -/
def mantissaPattern : RegularExpression Char :=
  atLeastOne (oneOf digits) * optional (.char '.' * (oneOf digits).star) +
    .char '.' * atLeastOne (oneOf digits)

/-- A mark, at most one sign and digits. -/
def exponentPattern : RegularExpression Char :=
  oneOf ['e', 'E'] * (optional (oneOf ['+', '-']) * atLeastOne (oneOf digits))

/-- A hexadecimal numeral, or a decimal one with at most one exponent. -/
def numeralPattern : RegularExpression Char :=
  .char '0' * (oneOf ['x', 'X'] * atLeastOne (oneOf hexDigits)) +
    mantissaPattern * optional exponentPattern

/-- A numeral with at most one suffix. -/
def numberPattern : RegularExpression Char := numeralPattern * optional (oneOf ['L', 'i'])

/-- What stands at the front of a hexadecimal numeral. -/
def StartsHex (w : List Char) : Prop := ['0', 'x'] <+: w ∨ ['0', 'X'] <+: w

instance (w : List Char) : Decidable (StartsHex w) := inferInstanceAs (Decidable (_ ∨ _))

/-- The kind of a numeral: hexadecimal by its front, and else a float by a point or an exponent. -/
def numeralForm (w : List Char) : NumKind :=
  if StartsHex w then .hex
  else if '.' ∈ w ∨ 'e' ∈ w ∨ 'E' ∈ w then .float
  else .integer

/-- The kind of a numeric constant: complex by its suffix, and else that of its numeral. -/
def numberForm (w : List Char) : NumKind :=
  if w.getLast? = some 'i' then .complex else numeralForm w

/-! ## Digits -/

theorem isDigit_iff {c : Char} : isDigit c = true ↔ c ∈ digits := by
  have hall : ∀ n ∈ List.range' 0x30 10, Char.ofNat n ∈ digits := by decide
  constructor
  · intro h
    simp only [isDigit, Bool.and_eq_true, decide_eq_true_eq] at h
    have hlo : 0x30 ≤ c.toNat := h.1
    have hhi : c.toNat ≤ 0x39 := h.2
    rw [← Char.ofNat_toNat c]
    exact hall _ (List.mem_range'_1.mpr (by omega))
  · have hall : digits.all isDigit = true := by decide
    exact List.all_eq_true.mp hall c

theorem isHexDigit_iff {c : Char} : isHexDigit c = true ↔ c ∈ hexDigits := by
  have hall : ∀ n ∈ List.range' 0x61 6 ++ List.range' 0x41 6, Char.ofNat n ∈ hexDigits := by decide
  constructor
  · intro h
    simp only [isHexDigit, Bool.or_eq_true, Bool.and_eq_true, decide_eq_true_eq] at h
    rcases h with (h | ⟨hlo, hhi⟩) | ⟨hlo, hhi⟩
    · exact List.mem_append_left _ (isDigit_iff.mp h)
    · have hlo : 0x61 ≤ c.toNat := hlo
      have hhi : c.toNat ≤ 0x66 := hhi
      rw [← Char.ofNat_toNat c]
      exact hall _ (List.mem_append_left _ (List.mem_range'_1.mpr (by omega)))
    · have hlo : 0x41 ≤ c.toNat := hlo
      have hhi : c.toNat ≤ 0x46 := hhi
      rw [← Char.ofNat_toNat c]
      exact hall _ (List.mem_append_right _ (List.mem_range'_1.mpr (by omega)))
  · have hall : hexDigits.all isHexDigit = true := by decide
    exact List.all_eq_true.mp hall c

/-! ## The words of the pattern -/

/-- Digits, with a point if they are those of a float, and at least one of them. -/
inductive IsMantissa : NumKind → List Char → Prop where
  | whole {ds : List Char} (hne : ds ≠ []) (hds : ∀ c ∈ ds, isDigit c = true) :
      IsMantissa .integer ds
  | pointed {ds fs : List Char} (hne : ds ≠ [] ∨ fs ≠ []) (hds : ∀ c ∈ ds, isDigit c = true)
      (hfs : ∀ c ∈ fs, isDigit c = true) : IsMantissa .float (ds ++ '.' :: fs)

/-- A mark, at most one sign and at least one digit. -/
inductive IsExponent : List Char → Prop where
  | mk {mark : Char} {signText ds : List Char} (hmark : mark = 'e' ∨ mark = 'E')
      (hsign : signText = [] ∨ signText = ['+'] ∨ signText = ['-']) (hne : ds ≠ [])
      (hds : ∀ c ∈ ds, isDigit c = true) : IsExponent (mark :: (signText ++ ds))

/-- A mantissa, alone or with an exponent, or a hexadecimal numeral. -/
inductive IsNumeral : NumKind → List Char → Prop where
  | plain {form : NumKind} {w : List Char} (h : IsMantissa form w) : IsNumeral form w
  | scaled {form : NumKind} {w x : List Char} (h : IsMantissa form w) (hx : IsExponent x) :
      IsNumeral .float (w ++ x)
  | hex {x : Char} {ds : List Char} (hx : x = 'x' ∨ x = 'X') (hne : ds ≠ [])
      (hds : ∀ c ∈ ds, isHexDigit c = true) : IsNumeral .hex ('0' :: x :: ds)

/-- A numeral, alone or with one of the suffixes. -/
inductive IsNumber : NumKind → List Char → Prop where
  | plain {form : NumKind} {w : List Char} (h : IsNumeral form w) : IsNumber form w
  | long {form : NumKind} {w : List Char} (h : IsNumeral form w) : IsNumber form (w ++ ['L'])
  | imaginary {form : NumKind} {w : List Char} (h : IsNumeral form w) :
      IsNumber .complex (w ++ ['i'])

variable {form : NumKind} {w x cs r : List Char}

theorem exists_isMantissa_iff : (∃ form, IsMantissa form w) ↔ w ∈ mantissaPattern.matches' := by
  simp only [mantissaPattern, mem_add_iff, mem_char_mul_iff, mem_atLeastOne_oneOf_iff,
    ← isDigit_iff]
  rw [mem_mul_iff]
  simp only [mem_optional_iff, mem_char_mul_iff, mem_atLeastOne_oneOf_iff, mem_star_oneOf_iff,
    ← isDigit_iff]
  constructor
  · rintro ⟨_, ⟨hne, hds⟩ | @⟨ds, fs, hne, hds, hfs⟩⟩
    · exact .inl ⟨w, [], ⟨hne, hds⟩, .inl rfl, (List.append_nil w).symm⟩
    · by_cases hnil : ds = []
      · subst hnil
        exact .inr ⟨fs, ⟨hne.resolve_left (by simp), hfs⟩, rfl⟩
      · exact .inl ⟨ds, _, ⟨hnil, hds⟩, .inr ⟨fs, hfs, rfl⟩, rfl⟩
  · rintro (⟨ds, _, ⟨hne, hds⟩, rfl | ⟨fs, hfs, rfl⟩, rfl⟩ | ⟨fs, ⟨hne, hfs⟩, rfl⟩)
    · exact ⟨_, by simpa using IsMantissa.whole hne hds⟩
    · exact ⟨_, .pointed (.inl hne) hds hfs⟩
    · have h : IsMantissa .float ([] ++ '.' :: fs) := .pointed (.inr hne) (by simp) hfs
      exact ⟨_, h⟩

theorem isExponent_iff : IsExponent w ↔ w ∈ exponentPattern.matches' := by
  rw [exponentPattern, mem_mul_iff]
  simp only [mem_oneOf_iff]
  constructor
  · rintro @⟨mark, signText, ds, hmark, hsign, hne, hds⟩
    refine ⟨[mark], signText ++ ds, ⟨mark, by simpa using hmark, rfl⟩, mem_mul_iff.mpr
      ⟨signText, ds, mem_optional_iff.mpr ?_, mem_atLeastOne_oneOf_iff.mpr ⟨hne, ?_⟩, rfl⟩, rfl⟩
    · exact hsign.imp_right fun h => mem_oneOf_iff.mpr (by simpa using h)
    · exact fun c hc => isDigit_iff.mp (hds c hc)
  · rintro ⟨_, v, ⟨mark, hmark, rfl⟩, hv, rfl⟩
    obtain ⟨signText, ds, hsign, hds, rfl⟩ := mem_mul_iff.mp hv
    rw [List.singleton_append]
    obtain ⟨hne, hds⟩ := mem_atLeastOne_oneOf_iff.mp hds
    have hsign : signText = [] ∨ signText = ['+'] ∨ signText = ['-'] :=
      (mem_optional_iff.mp hsign).imp_right fun h => by simpa using mem_oneOf_iff.mp h
    have hmark : mark = 'e' ∨ mark = 'E' := by simpa using hmark
    exact IsExponent.mk hmark hsign hne fun c hc => isDigit_iff.mpr (hds c hc)

theorem exists_isNumeral_iff : (∃ form, IsNumeral form w) ↔ w ∈ numeralPattern.matches' := by
  rw [numeralPattern, mem_add_iff, mem_char_mul_iff]
  constructor
  · rintro ⟨_, h | ⟨h, hx⟩ | @⟨x, ds, hx, hne, hds⟩⟩
    · refine .inr (mem_mul_iff.mpr ⟨w, [], exists_isMantissa_iff.mp ⟨_, h⟩, ?_, by simp⟩)
      exact mem_optional_iff.mpr (.inl rfl)
    · refine .inr (mem_mul_iff.mpr ⟨_, _, exists_isMantissa_iff.mp ⟨_, h⟩, ?_, rfl⟩)
      exact mem_optional_iff.mpr (.inr (isExponent_iff.mp hx))
    · refine .inl ⟨x :: ds, mem_mul_iff.mpr ⟨[x], ds, mem_oneOf_iff.mpr ⟨x, by simpa using hx, rfl⟩,
        mem_atLeastOne_oneOf_iff.mpr ⟨hne, fun c hc => isHexDigit_iff.mp (hds c hc)⟩, rfl⟩, rfl⟩
  · rintro (⟨v, hv, rfl⟩ | h)
    · obtain ⟨_, ds, hmark, hds, rfl⟩ := mem_mul_iff.mp hv
      obtain ⟨x, hx, rfl⟩ := mem_oneOf_iff.mp hmark
      obtain ⟨hne, hds⟩ := mem_atLeastOne_oneOf_iff.mp hds
      exact ⟨_, .hex (by simpa using hx) hne fun c hc => isHexDigit_iff.mpr (hds c hc)⟩
    · obtain ⟨v, x, hv, hx, rfl⟩ := mem_mul_iff.mp h
      obtain ⟨form, hv⟩ := exists_isMantissa_iff.mpr hv
      rcases mem_optional_iff.mp hx with rfl | hx
      · exact ⟨form, by simpa using IsNumeral.plain hv⟩
      · exact ⟨_, .scaled hv (isExponent_iff.mpr hx)⟩

theorem exists_isNumber_iff : (∃ form, IsNumber form w) ↔ w ∈ numberPattern.matches' := by
  rw [numberPattern, mem_mul_iff]
  simp only [mem_optional_iff, mem_oneOf_iff, ← exists_isNumeral_iff]
  constructor
  · rintro ⟨_, h | h | h⟩
    · exact ⟨w, [], ⟨_, h⟩, .inl rfl, (List.append_nil w).symm⟩
    · exact ⟨_, ['L'], ⟨_, h⟩, .inr ⟨'L', by simp, rfl⟩, rfl⟩
    · exact ⟨_, ['i'], ⟨_, h⟩, .inr ⟨'i', by simp, rfl⟩, rfl⟩
  · rintro ⟨v, _, ⟨form, h⟩, rfl | ⟨c, hc, rfl⟩, rfl⟩
    · exact ⟨form, by simpa using IsNumber.plain h⟩
    · rcases List.mem_pair.mp hc with rfl | rfl
      · exact ⟨form, .long h⟩
      · exact ⟨_, .imaginary h⟩

/-! ## The kinds of the words -/

/-- A mantissa is made of digits and points. -/
theorem IsMantissa.not_mem {c : Char} (h : IsMantissa form w) (hd : isDigit c = false)
    (hp : c ≠ '.') : c ∉ w := by
  have hdigits {ds : List Char} (hds : ∀ c ∈ ds, isDigit c = true) : c ∉ ds := by
    intro hmem
    rw [hds c hmem] at hd
    cases hd
  cases h with
  | whole _ hds => exact hdigits hds
  | pointed _ hds hfs =>
      rw [List.mem_append, List.mem_cons, not_or, not_or]
      exact ⟨hdigits hds, hp, hdigits hfs⟩

/-- An exponent is made of its mark, signs and digits. -/
theorem IsExponent.not_mem {c : Char} (h : IsExponent x) (hd : isDigit c = false)
    (hm : c ∉ ['e', 'E', '+', '-']) : c ∉ x := by
  obtain ⟨hmark, hsign, -, hds⟩ := h
  rw [List.mem_cons, List.mem_append]
  rintro (rfl | hmem | hmem)
  · rcases hmark with rfl | rfl <;> simp at hm
  · rcases hsign with rfl | rfl | rfl <;> simp_all
  · rw [hds c hmem] at hd
    cases hd

theorem IsMantissa.not_mem_scaled {c : Char} (h : IsMantissa form w) (hx : IsExponent x)
    (hd : isDigit c = false) (hc : c ∉ ['.', 'e', 'E', '+', '-']) : c ∉ w ++ x := by
  obtain ⟨hpoint, hmarks⟩ := not_or.mp (mt List.mem_cons.mpr hc)
  rw [List.mem_append, not_or]
  exact ⟨h.not_mem hd hpoint, hx.not_mem hd hmarks⟩

theorem StartsHex.mem (h : StartsHex w) : 'x' ∈ w ∨ 'X' ∈ w :=
  h.imp (fun h => h.subset (by simp)) fun h => h.subset (by simp)

/-- No decimal numeral starts like a hexadecimal one. -/
theorem IsMantissa.not_startsHex (h : IsMantissa form w) : ¬ StartsHex w := fun hhex =>
  hhex.mem.elim (h.not_mem (by decide) (by decide)) (h.not_mem (by decide) (by decide))

theorem IsMantissa.not_startsHex_scaled (h : IsMantissa form w) (hx : IsExponent x) :
    ¬ StartsHex (w ++ x) := fun hhex =>
  hhex.mem.elim (h.not_mem_scaled hx (by decide) (by decide))
    (h.not_mem_scaled hx (by decide) (by decide))

/-- The suffix of a whole number does not make it a hexadecimal numeral. -/
theorem startsHex_append_long : StartsHex (w ++ ['L']) ↔ StartsHex w := by
  have hne {x : Char} (hx : x ≠ 'L') : ['0', x] ≠ w ++ ['L'] := by
    intro h
    have hlast := congrArg List.getLast? h
    rw [List.getLast?_concat] at hlast
    exact hx (Option.some.inj hlast)
  rw [StartsHex, StartsHex, List.prefix_concat_iff, List.prefix_concat_iff,
    or_iff_right (hne (by decide)), or_iff_right (hne (by decide))]

/-- The kind of a numeral is told by its characters. -/
theorem IsNumeral.form_eq (h : IsNumeral form w) : form = numeralForm w := by
  cases h with
  | plain h =>
      rw [numeralForm, if_neg h.not_startsHex]
      cases h with
      | whole _ hds =>
          rw [if_neg]
          rintro (hmem | hmem | hmem) <;> cases hds _ hmem
      | pointed => rw [if_pos (by simp)]
  | @scaled form' v x h hx =>
      have hmem : 'e' ∈ x ∨ 'E' ∈ x := by
        obtain ⟨rfl | rfl, -⟩ := hx <;> simp
      rw [numeralForm, if_neg (h.not_startsHex_scaled hx),
        if_pos (by rcases hmem with he | he <;> simp [he])]
  | @hex x ds hx _ _ =>
      have hhex : StartsHex ('0' :: x :: ds) := by
        rcases hx with rfl | rfl
        · exact .inl ⟨ds, rfl⟩
        · exact .inr ⟨ds, rfl⟩
      rw [numeralForm, if_pos hhex]

/-- No numeral has the suffix of a complex number. -/
theorem IsNumeral.imaginary_not_mem (h : IsNumeral form w) : 'i' ∉ w := by
  cases h with
  | plain h => exact h.not_mem (by decide) (by decide)
  | scaled h hx => exact h.not_mem_scaled hx (by decide) (by decide)
  | hex hx _ hds =>
      rw [List.mem_cons, List.mem_cons]
      rintro (heq | rfl | hmem)
      · cases heq
      · simp at hx
      · cases hds _ hmem

/-- The kind of a numeric constant is told by its characters. -/
theorem IsNumber.form_eq (h : IsNumber form w) : form = numberForm w := by
  cases h with
  | plain h =>
      have hlast : w.getLast? ≠ some 'i' :=
        fun hlast => h.imaginary_not_mem (List.mem_of_getLast? hlast)
      rw [numberForm, if_neg hlast, h.form_eq]
  | @long _ v h =>
      rw [numberForm, List.getLast?_concat, if_neg (by decide), h.form_eq, numeralForm, numeralForm]
      simp only [startsHex_append_long, List.mem_append, List.mem_singleton]
      simp
  | imaginary h => rw [numberForm, List.getLast?_concat, if_pos rfl]

/-- **The numeric constants of a kind are the words of the pattern that have the form of the
kind.** -/
theorem isNumber_iff : IsNumber form w ↔ w ∈ numberPattern.matches' ∧ form = numberForm w := by
  constructor
  · intro h
    exact ⟨exists_isNumber_iff.mp ⟨form, h⟩, h.form_eq⟩
  · rintro ⟨hmem, rfl⟩
    obtain ⟨form, h⟩ := exists_isNumber_iff.mpr hmem
    rwa [← h.form_eq]

/-- The mark of an exponent is a hexadecimal digit too, and needs a digit behind it otherwise. -/
example : "0x1eL".toList ∈ numberPattern.matches' ∧ numberForm "0x1eL".toList = .hex ∧
    "1e+".toList ∉ numberPattern.matches' := by decide +kernel

/-! ## Reading a numeric constant -/

theorem IsMantissa.mantissa_append (h : IsMantissa form w) (hd : ∀ c ∈ r.head?, isDigit c = false)
    (hp : ∀ c ∈ r.head?, c ≠ '.') : mantissa (w ++ r) = ⟨form, w, r⟩ := by
  cases h with
  | whole _ hds =>
      obtain ⟨htake, hdrop⟩ := run_of_all hds hd
      rw [mantissa_plain (by rwa [hdrop]), htake, hdrop]
  | @pointed ds fs _ hds hfs =>
      have hpoint : ∀ c ∈ ('.' :: (fs ++ r)).head?, isDigit c = false := by
        rintro c ⟨⟩
        decide
      obtain ⟨htake, hdrop⟩ := run_of_all hds hpoint
      obtain ⟨hfrac, hrest⟩ := run_of_all hfs hd
      rw [List.append_assoc, List.cons_append, mantissa_point hdrop, htake, hfrac, hrest]

theorem IsExponent.exponent_append (h : IsExponent x) (hd : ∀ c ∈ r.head?, isDigit c = false) :
    exponent (x ++ r) = some (x, r) := by
  obtain @⟨mark, signText, ds, hmark, hsign, hne, hds⟩ := h
  obtain ⟨htake, hdrop⟩ := run_of_all hds hd
  have hs : sign (signText ++ (ds ++ r)) = (signText, ds ++ r) := by
    rcases hsign with rfl | rfl | rfl
    · rw [List.nil_append]
      exact sign_of_digit hne hds
    · rfl
    · rfl
  simp only [List.cons_append, List.append_assoc, exponent, if_pos hmark, hs, htake, hdrop]
  rw [if_neg (by simpa using hne)]

/-- No hexadecimal numeral starts where its mark does not stand. -/
theorem hexMark_eq_none (h : ¬ StartsHex w) : hexMark w = none := by
  unfold hexMark
  split
  · rename_i x rest
    rw [if_neg]
    rintro (rfl | rfl)
    · exact h (.inl ⟨rest, rfl⟩)
    · exact h (.inr ⟨rest, rfl⟩)
  · rfl

theorem IsMantissa.ne_nil (h : IsMantissa form w) : w ≠ [] := by
  cases h with
  | whole hne _ => exact hne
  | pointed => simp

theorem IsNumeral.ne_nil (h : IsNumeral form w) : w ≠ [] := by
  cases h with
  | plain h => exact h.ne_nil
  | scaled h => exact List.append_ne_nil_of_left_ne_nil h.ne_nil _
  | hex => simp

/-- A numeral is read where it may end. -/
theorem IsNumeral.numeral_append (h : IsNumeral form w) (hr : NumeralEnd r) :
    numeral (w ++ r) = .ok ⟨form, w, r⟩ := by
  have hpoint := hr.ne (d := '.') (by decide) (by decide) (by decide)
  cases h with
  | plain h =>
      have hmark : hexMark (w ++ []) = none := by
        rw [List.append_nil]
        exact hexMark_eq_none h.not_startsHex
      rw [numeral, hexMark_none_append h.ne_nil hmark hr]
      simp only [decimal, h.mantissa_append hr.not_digit hpoint, hr.exponent_none]
  | @scaled form' v x h hx =>
      have hhead : ∀ c ∈ (x ++ r).head?, isDigit c = false ∧ c ≠ '.' := by
        obtain ⟨rfl | rfl, -⟩ := hx <;>
        · rintro c ⟨⟩
          decide
      have hmark : hexMark (v ++ x ++ []) = none := by
        rw [List.append_nil]
        exact hexMark_eq_none (h.not_startsHex_scaled hx)
      have hne := (IsNumeral.scaled h hx).ne_nil
      rw [numeral, hexMark_none_append hne hmark hr]
      simp only [decimal, List.append_assoc, h.mantissa_append (fun c hc => (hhead c hc).1)
        (fun c hc => (hhead c hc).2), hx.exponent_append hr.not_digit]
  | @hex x ds hx hne hds =>
      obtain ⟨htake, hdrop⟩ := run_of_all hds hr.not_hexDigit
      have hmark : hexMark ('0' :: x :: (ds ++ r)) = some (['0', x], ds ++ r) := by
        rw [hexMark, if_pos hx]
      simp only [List.cons_append, numeral, hmark, htake, hdrop]
      rw [if_neg (by simpa using hne)]
      rfl

/-- A numeral with its suffix is read where a name may end. -/
theorem IsNumber.number_append (h : IsNumber form w) (hr : NameEnd r) :
    number (w ++ r) = .ok ⟨.num form, w, r⟩ := by
  -- On its own the constant is read to its end, and so it is where a name may end.
  have hread : ∃ cs n, numeral cs = .ok n ∧ n.text ≠ [] ∧ suffix n = .ok ⟨form, w, []⟩ := by
    cases h with
    | plain h =>
        have hend : NumeralEnd [] := fun c hc => by cases hc
        exact ⟨_, _, h.numeral_append hend, h.ne_nil, rfl⟩
    | long h =>
        have hend : NumeralEnd ['L'] := fun c hc => by cases hc; exact .inl rfl
        exact ⟨_, _, h.numeral_append hend, h.ne_nil, rfl⟩
    | imaginary h =>
        have hend : NumeralEnd ['i'] := fun c hc => by cases hc; exact .inr (.inl rfl)
        exact ⟨_, _, h.numeral_append hend, h.ne_nil, rfl⟩
  obtain ⟨cs, n, hn, hne, hm⟩ := hread
  obtain ⟨n', hn', hm'⟩ := suffix_stop hn hne hm hr
  simp only at hn' hm'
  simp only [number, hn', hm', endNumeral, nameRun, (run_stop hr).1]
  rfl

/-! ## Where a numeric constant starts -/

theorem lead_eq_number_iff {c : Char} : lead (c :: cs) = .number ↔
    isDigit c = true ∨ c = '.' ∧ startsWithDigit cs = true := by
  constructor
  · intro h
    have ha := announces_lead c cs
    rw [h] at ha
    cases ha with
    | number hc => exact hc
  · intro h
    have hother : c ≠ '\n' ∧ c ≠ '#' ∧ ¬ (c = '\x22' ∨ c = '\x27') ∧ c ≠ '\x60' ∧ c ≠ '%' := by
      rcases h with h | ⟨rfl, -⟩
      · refine ⟨?_, ?_, ?_, ?_, ?_⟩
        · rintro rfl; cases h
        · rintro rfl; cases h
        · rintro (rfl | rfl) <;> cases h
        · rintro rfl; cases h
        · rintro rfl; cases h
      · decide
    obtain ⟨hnewline, hcomment, hstring, hquoted, hspecial⟩ := hother
    rw [lead, if_neg hnewline, if_neg hcomment, if_neg hstring, if_neg hquoted, if_neg hspecial,
      if_pos h]

theorem IsMantissa.lead (h : IsMantissa form w) (r : List Char) : lead (w ++ r) = .number := by
  cases h with
  | whole hne hds =>
      obtain ⟨d, ds, rfl⟩ := List.exists_cons_of_ne_nil hne
      exact lead_eq_number_iff.mpr (.inl (hds d (List.mem_cons_self ..)))
  | @pointed ds fs hne hds hfs =>
      cases ds with
      | cons d ds => exact lead_eq_number_iff.mpr (.inl (hds d (List.mem_cons_self ..)))
      | nil =>
          obtain ⟨f, fs, rfl⟩ := List.exists_cons_of_ne_nil (hne.resolve_left (by simp))
          exact lead_eq_number_iff.mpr (.inr ⟨rfl, hfs f (List.mem_cons_self ..)⟩)

theorem IsNumeral.lead (h : IsNumeral form w) (r : List Char) : lead (w ++ r) = .number := by
  cases h with
  | plain h => exact h.lead r
  | @scaled form' v x h =>
      rw [List.append_assoc]
      exact h.lead (x ++ r)
  | hex => exact lead_eq_number_iff.mpr (.inl rfl)

theorem IsNumber.lead (h : IsNumber form w) (r : List Char) : lead (w ++ r) = .number := by
  cases h with
  | plain h => exact h.lead r
  | long h =>
      rw [List.append_assoc]
      exact h.lead _
  | imaginary h =>
      rw [List.append_assoc]
      exact h.lead _

/-! ## What is read as a numeric constant -/

/-- Where a numeric constant starts, a mantissa is read. -/
theorem isMantissa_of_lead (hl : lead cs = .number) :
    IsMantissa (mantissa cs).form (mantissa cs).text := by
  obtain ⟨c, cs, rfl⟩ : ∃ c cs', cs = c :: cs' := List.exists_cons_of_ne_nil (by rintro rfl; cases hl)
  have hds : ∀ d ∈ (c :: cs).takeWhile isDigit, isDigit d = true := fun _ => List.mem_takeWhile_imp
  by_cases hpoint : ∃ rest, (c :: cs).dropWhile isDigit = '.' :: rest
  case neg =>
    have hplain : ∀ d ∈ ((c :: cs).dropWhile isDigit).head?, d ≠ '.' := by
      rintro d hd rfl
      exact hpoint (List.head?_eq_some_iff.mp hd)
    have hne := mantissa_text_ne_nil hl
    rw [mantissa_plain hplain] at hne ⊢
    exact .whole hne hds
  case pos =>
    obtain ⟨rest, hrest⟩ := hpoint
    rw [mantissa_point hrest]
    refine .pointed ?_ hds fun _ => List.mem_takeWhile_imp
    rcases lead_eq_number_iff.mp hl with hc | ⟨rfl, hdigit⟩
    · exact .inl (by simp [hc])
    · -- Behind a point in front there is a digit.
      rw [List.dropWhile_cons_of_neg (by decide)] at hrest
      cases hrest
      cases cs with
      | nil => cases hdigit
      | cons d cs =>
          have hd : isDigit d = true := hdigit
          exact .inr (by simp [hd])

theorem isExponent_of_some (h : exponent cs = some (x, r)) : IsExponent x := by
  obtain ⟨mark, cs', -, hmark, hne, rfl, -⟩ := exponent_some h
  refine .mk hmark ?_ hne fun _ => List.mem_takeWhile_imp
  unfold sign
  split <;> simp

theorem isNumeral_of_ok {n : Numeral} (hl : lead cs = .number) (hn : numeral cs = .ok n) :
    IsNumeral n.form n.text := by
  rcases numeral_ok hn with ⟨-, rfl⟩ | ⟨x, cs', -, hx, hne, rfl⟩
  · have hm := isMantissa_of_lead hl
    unfold decimal
    simp only
    split
    · exact .plain hm
    · rename_i hx
      exact .scaled hm (isExponent_of_some hx)
  · exact .hex hx hne fun _ => List.mem_takeWhile_imp

theorem isNumber_of_ok {n m : Numeral} (hl : lead cs = .number) (hn : numeral cs = .ok n)
    (hm : suffix n = .ok m) : IsNumber m.form m.text := by
  have h := isNumeral_of_ok hl hn
  rcases suffix_ok hm with ⟨_, -, rfl⟩ | ⟨_, -, rfl⟩ | ⟨-, rfl⟩
  · exact .long h
  · exact .imaginary h
  · exact .plain h

/-- Words are names or keywords. -/
theorem wordKind_category (v : String) :
    (wordKind v).category = .identifier ∨ (wordKind v).category = .keyword := by
  have hall : ∀ s ∈ reservedWords, s.2.category = .keyword := by decide
  rcases wordKind_cases v with ⟨hv, -⟩ | hv
  · exact .inl (congrArg TokenKind.category hv)
  · exact .inr (hall _ hv)

/-- Symbols are operators or punctuation. -/
theorem symbols_category :
    ∀ s ∈ symbols, s.2.category = .operator ∨ s.2.category = .punctuation := by decide

/-- **A numeric constant is read exactly where no character of a name follows one.** -/
theorem scan_eq_num_iff : scan cs = .ok ⟨.num form, w, r⟩ ↔
    cs = w ++ r ∧ IsNumber form w ∧ NameEnd r := by
  constructor
  · intro h
    refine ⟨(scan_split h).symm, ?_⟩
    have hreading := reading_of_scan h
    generalize hl : (⟨.num form, w, r⟩ : Lexeme) = l at hreading
    cases hreading with
    | eof | newline | comment | string | quotedIdent | special => cases hl
    | number hlead hn hm hend =>
        cases hl
        exact ⟨isNumber_of_ok hlead hn hm, nameEnd_of_run hend⟩
    | @word c cs =>
        have hkind := wordKind_category (String.ofList (nameRun (c :: cs)))
        rw [show wordKind _ = .num form from (congrArg Lexeme.kind hl).symm] at hkind
        rcases hkind with hkind | hkind <;> cases hkind
    | symbol _ hf =>
        have hkind := symbols_category _ (List.mem_of_find?_eq_some hf)
        cases hl
        rcases hkind with hkind | hkind <;> cases hkind
  · rintro ⟨rfl, h, hend⟩
    rw [scan, h.lead r]
    exact h.number_append hend

end RSource.Lexeme
