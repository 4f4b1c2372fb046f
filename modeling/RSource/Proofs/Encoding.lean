import RSource.Text.Utf8

/-!
# Encoded texts

* `Utf8.Pending.next_continuation` — one more byte of an unfinished character.
* `Utf8.first_three`, `Utf8.first_four` — the range of the second byte keeps overlong forms,
  surrogates and what lies above the last character out, and every character in.
* `Utf8.decode_encode` — **what is encoded is decoded**.
* `Utf8.first_ok`, `Utf8.decodeFrom_missing`, `Utf8.decodeFrom_last` — what the bytes of a character
  are.
* `Utf8.encode_decode` — **what is decoded is encoded**.
-/

namespace RSource.Utf8

variable {ended here x n : Nat} {p : Pending} {r : ByteRange} {rest : List ByteRange} {b : UInt8}
  {bytes : List UInt8} {cs : List Char}

/-! ## One byte -/

theorem first_one : ∀ h < 128, Pending.boundary.next (UInt8.ofNat h) = some ⟨h, []⟩ := by decide

theorem first_two : ∀ h < 32, 2 ≤ h →
    Pending.boundary.next (UInt8.ofNat (h + 0xC0)) = some ⟨h, [tail]⟩ := by decide

theorem first_three : ∀ h < 16, Pending.boundary.next (UInt8.ofNat (h + 0xE0)) =
    some ⟨h, [⟨if h = 0 then 0xA0 else 0x80, if h = 13 then 0x9F else 0xBF⟩, tail]⟩ := by decide

theorem first_four : ∀ h < 5, Pending.boundary.next (UInt8.ofNat (h + 0xF0)) =
    some ⟨h, [⟨if h = 0 then 0x90 else 0x80, if h = 4 then 0x8F else 0xBF⟩, tail, tail]⟩ := by
  decide

/-- The six bits of a continuation byte are added to those read so far. -/
theorem Pending.next_continuation (hlo : r.lo.toNat ≤ n % 64 + 128)
    (hhi : n % 64 + 128 ≤ r.hi.toNat) :
    Pending.next ⟨x, r :: rest⟩ (UInt8.ofNat (n % 64 + 128)) = some ⟨x * 64 + n % 64, rest⟩ := by
  have hb : (UInt8.ofNat (n % 64 + 128)).toNat = n % 64 + 128 := by
    rw [UInt8.toNat_ofNat']
    omega
  have hholds : r.holds (UInt8.ofNat (n % 64 + 128)) = true := by
    simp only [ByteRange.holds, UInt8.le_iff_toNat_le, hb, hlo, hhi, decide_true, Bool.and_self]
  unfold Pending.next
  simp only [hholds, if_true, hb, Nat.add_sub_cancel]

theorem Pending.next_tail :
    Pending.next ⟨x, tail :: rest⟩ (UInt8.ofNat (n % 64 + 128)) = some ⟨x * 64 + n % 64, rest⟩ := by
  have hlo : tail.lo.toNat = 128 := rfl
  have hhi : tail.hi.toNat = 191 := rfl
  exact next_continuation (by omega) (by omega)

/-! ## One character -/

theorem decodeFrom_more (h : p.next b = some ⟨x, r :: rest⟩) :
    decodeFrom ended here p (b :: bytes) = decodeFrom ended (here + 1) ⟨x, r :: rest⟩ bytes := by
  rw [decodeFrom, h]
  rfl

theorem decodeFrom_done (h : p.next b = some ⟨x, []⟩)
    (hrest : ∀ k, decodeFrom k k .boundary bytes = .ok cs) :
    decodeFrom ended here p (b :: bytes) = .ok (Char.ofNat x :: cs) := by
  rw [decodeFrom, h]
  simp [hrest]

theorem decodeFrom_encode_char (c : Char) (hrest : ∀ k, decodeFrom k k .boundary bytes = .ok cs) :
    decodeFrom ended here .boundary (String.utf8EncodeChar c ++ bytes) = .ok (c :: cs) := by
  have hc : Char.ofNat c.val.toNat = c := Char.ofNat_toNat c
  have hvalid : c.val.toNat < 0xD800 ∨ 0xDFFF < c.val.toNat ∧ c.val.toNat < 0x110000 := c.valid
  unfold String.utf8EncodeChar
  generalize c.val.toNat = v at hc hvalid ⊢
  simp only
  split
  · rw [List.singleton_append, decodeFrom_done (first_one v (by omega)) hrest, hc]
  · split
    · have hv : v / 64 % 32 * 64 + v % 64 = v := by omega
      simp only [List.cons_append, List.nil_append]
      rw [decodeFrom_more (first_two (v / 64 % 32) (by omega) (by omega)),
        decodeFrom_done Pending.next_tail hrest, hv, hc]
    · split
      · have hv : (v / 4096 % 16 * 64 + v / 64 % 64) * 64 + v % 64 = v := by omega
        simp only [List.cons_append, List.nil_append]
        rw [decodeFrom_more (first_three (v / 4096 % 16) (by omega)),
          decodeFrom_more (Pending.next_continuation ?_ ?_),
          decodeFrom_done Pending.next_tail hrest, hv, hc]
        · simp only [apply_ite UInt8.toNat, UInt8.reduceToNat]
          split <;> omega
        · simp only [apply_ite UInt8.toNat, UInt8.reduceToNat]
          split <;> omega
      · have hv : ((v / 262144 % 8 * 64 + v / 4096 % 64) * 64 + v / 64 % 64) * 64 + v % 64 = v := by
          omega
        simp only [List.cons_append, List.nil_append]
        rw [decodeFrom_more (first_four (v / 262144 % 8) (by omega)),
          decodeFrom_more (Pending.next_continuation ?_ ?_), decodeFrom_more Pending.next_tail,
          decodeFrom_done Pending.next_tail hrest, hv, hc]
        · simp only [apply_ite UInt8.toNat, UInt8.reduceToNat]
          split <;> omega
        · simp only [apply_ite UInt8.toNat, UInt8.reduceToNat]
          split <;> omega

/-! ## A text -/

/-- **What is encoded is decoded.** -/
theorem decode_encode (cs : List Char) : decode (cs.flatMap String.utf8EncodeChar) = .ok cs := by
  have hall : ∀ k, decodeFrom k k .boundary (cs.flatMap String.utf8EncodeChar) = .ok cs := by
    induction cs with
    | nil => exact fun _ => rfl
    | cons c cs ih =>
        intro k
        rw [List.flatMap_cons]
        exact decodeFrom_encode_char c ih
  exact hall 0

/-! ## What is decoded -/

/-- The first byte of a character says how many are missing and in which ranges. -/
theorem first_table : ∀ n < 256, Pending.first (UInt8.ofNat n) =
    if n < 0x80 then some ⟨n, []⟩
    else if n < 0xC2 then none
    else if n < 0xE0 then some ⟨n - 0xC0, [tail]⟩
    else if n < 0xF0 then
      some ⟨n - 0xE0, [⟨if n = 0xE0 then 0xA0 else 0x80, if n = 0xED then 0x9F else 0xBF⟩, tail]⟩
    else if n < 0xF5 then
      some ⟨n - 0xF0,
        [⟨if n = 0xF0 then 0x90 else 0x80, if n = 0xF4 then 0x8F else 0xBF⟩, tail, tail]⟩
    else none := by
  decide +kernel

theorem first_ok {q : Pending} (h : Pending.first b = some q) :
    b.toNat < 0x80 ∧ q = ⟨b.toNat, []⟩ ∨
    (0xC2 ≤ b.toNat ∧ b.toNat < 0xE0) ∧ q = ⟨b.toNat - 0xC0, [tail]⟩ ∨
    (0xE0 ≤ b.toNat ∧ b.toNat < 0xF0) ∧ q = ⟨b.toNat - 0xE0,
      [⟨if b.toNat = 0xE0 then 0xA0 else 0x80, if b.toNat = 0xED then 0x9F else 0xBF⟩, tail]⟩ ∨
    (0xF0 ≤ b.toNat ∧ b.toNat < 0xF5) ∧ q = ⟨b.toNat - 0xF0,
      [⟨if b.toNat = 0xF0 then 0x90 else 0x80, if b.toNat = 0xF4 then 0x8F else 0xBF⟩, tail,
        tail]⟩ := by
  have htable := first_table b.toNat b.toNat_lt
  rw [UInt8.ofNat_toNat, h] at htable
  split at htable
  · rename_i hone
    exact Or.inl ⟨hone, Option.some.inj htable⟩
  split at htable
  · cases htable
  split at htable
  · rename_i hlo htwo
    exact Or.inr (Or.inl ⟨⟨by omega, htwo⟩, Option.some.inj htable⟩)
  split at htable
  · rename_i hlo hthree
    exact Or.inr (Or.inr (Or.inl ⟨⟨by omega, hthree⟩, Option.some.inj htable⟩))
  split at htable
  · rename_i hlo hfour
    exact Or.inr (Or.inr (Or.inr ⟨⟨by omega, hfour⟩, Option.some.inj htable⟩))
  · cases htable

/-- An unfinished character goes on with a byte in the range that it is missing. -/
theorem Pending.next_ok {q : Pending} (h : Pending.next ⟨x, r :: rest⟩ b = some q) :
    r.lo.toNat ≤ b.toNat ∧ b.toNat ≤ r.hi.toNat ∧ q = ⟨x * 64 + (b.toNat - 0x80), rest⟩ := by
  simp only [Pending.next] at h
  split at h
  · rename_i hb
    obtain rfl := Option.some.inj h
    simp only [ByteRange.holds, UInt8.le_iff_toNat_le, Bool.and_eq_true, decide_eq_true_eq] at hb
    exact ⟨hb.1, hb.2, rfl⟩
  · cases h

/-- The last missing byte ends the character. -/
theorem decodeFrom_last (h : decodeFrom ended here ⟨x, [r]⟩ bytes = .ok cs) :
    ∃ b bytes' cs' k, bytes = b :: bytes' ∧ r.lo.toNat ≤ b.toNat ∧ b.toNat ≤ r.hi.toNat ∧
      cs = Char.ofNat (x * 64 + (b.toNat - 0x80)) :: cs' ∧
      decodeFrom k k .boundary bytes' = .ok cs' := by
  cases bytes with
  | nil => cases h
  | cons b bytes' =>
      rw [decodeFrom] at h
      split at h
      · cases h
      · rename_i q hq
        obtain ⟨hlo, hhi, rfl⟩ := Pending.next_ok hq
        simp only [List.isEmpty_nil, if_true] at h
        split at h
        · cases h
        · rename_i cs' hrest
          cases h
          exact ⟨b, bytes', cs', here + 1, rfl, hlo, hhi, rfl, hrest⟩

/-- Another missing byte is added to the character. -/
theorem decodeFrom_missing {r' : ByteRange}
    (h : decodeFrom ended here ⟨x, r :: r' :: rest⟩ bytes = .ok cs) :
    ∃ b bytes', bytes = b :: bytes' ∧ r.lo.toNat ≤ b.toNat ∧ b.toNat ≤ r.hi.toNat ∧
      decodeFrom ended (here + 1) ⟨x * 64 + (b.toNat - 0x80), r' :: rest⟩ bytes' = .ok cs := by
  cases bytes with
  | nil => cases h
  | cons b bytes' =>
      rw [decodeFrom] at h
      split at h
      · cases h
      · rename_i q hq
        obtain ⟨hlo, hhi, rfl⟩ := Pending.next_ok hq
        exact ⟨b, bytes', rfl, hlo, hhi, h⟩

theorem encode_ofNat (h : n.isValidChar) :
    String.utf8EncodeChar (Char.ofNat n) =
      if n ≤ 0x7F then [UInt8.ofNat n]
      else if n ≤ 0x7FF then [UInt8.ofNat (n / 64 % 32 + 0xC0), UInt8.ofNat (n % 64 + 0x80)]
      else if n ≤ 0xFFFF then
        [UInt8.ofNat (n / 4096 % 16 + 0xE0), UInt8.ofNat (n / 64 % 64 + 0x80),
          UInt8.ofNat (n % 64 + 0x80)]
      else
        [UInt8.ofNat (n / 262144 % 8 + 0xF0), UInt8.ofNat (n / 4096 % 64 + 0x80),
          UInt8.ofNat (n / 64 % 64 + 0x80), UInt8.ofNat (n % 64 + 0x80)] := by
  have hv : (Char.ofNat n).val.toNat = n := by
    rw [Char.ofNat, dif_pos h]
    rfl
  rw [String.utf8EncodeChar, hv]

theorem ofNat_eq {m : Nat} (h : m = b.toNat) : UInt8.ofNat m = b := by rw [h, UInt8.ofNat_toNat]

section Bytes

variable {b₁ b₂ b₃ : UInt8}

theorem encode_one (h : b.toNat < 0x80) : String.utf8EncodeChar (Char.ofNat b.toNat) = [b] := by
  rw [encode_ofNat (Or.inl (by omega)), if_pos (by omega), ofNat_eq rfl]

theorem encode_two (h : 0xC2 ≤ b.toNat) (h' : b.toNat < 0xE0) (hlo : 0x80 ≤ b₁.toNat)
    (hhi : b₁.toNat ≤ 0xBF) :
    String.utf8EncodeChar (Char.ofNat ((b.toNat - 0xC0) * 64 + (b₁.toNat - 0x80))) = [b, b₁] := by
  rw [encode_ofNat (Or.inl (by omega)), if_neg (by omega), if_pos (by omega),
    ofNat_eq (b := b) (by omega), ofNat_eq (b := b₁) (by omega)]

theorem encode_three (h : 0xE0 ≤ b.toNat) (h' : b.toNat < 0xF0) (hlo : 0x80 ≤ b₁.toNat)
    (hhi : b₁.toNat ≤ 0xBF) (hE0 : b.toNat = 0xE0 → 0xA0 ≤ b₁.toNat)
    (hED : b.toNat = 0xED → b₁.toNat ≤ 0x9F) (hlo₂ : 0x80 ≤ b₂.toNat) (hhi₂ : b₂.toNat ≤ 0xBF) :
    String.utf8EncodeChar
      (Char.ofNat (((b.toNat - 0xE0) * 64 + (b₁.toNat - 0x80)) * 64 + (b₂.toNat - 0x80))) =
      [b, b₁, b₂] := by
  have hvalid : Nat.isValidChar
      (((b.toNat - 0xE0) * 64 + (b₁.toNat - 0x80)) * 64 + (b₂.toNat - 0x80)) := by
    unfold Nat.isValidChar
    omega
  rw [encode_ofNat hvalid, if_neg (by omega), if_neg (by omega), if_pos (by omega),
    ofNat_eq (b := b) (by omega), ofNat_eq (b := b₁) (by omega), ofNat_eq (b := b₂) (by omega)]

theorem encode_four (h : 0xF0 ≤ b.toNat) (h' : b.toNat < 0xF5) (hlo : 0x80 ≤ b₁.toNat)
    (hhi : b₁.toNat ≤ 0xBF) (hF0 : b.toNat = 0xF0 → 0x90 ≤ b₁.toNat)
    (hF4 : b.toNat = 0xF4 → b₁.toNat ≤ 0x8F) (hlo₂ : 0x80 ≤ b₂.toNat) (hhi₂ : b₂.toNat ≤ 0xBF)
    (hlo₃ : 0x80 ≤ b₃.toNat) (hhi₃ : b₃.toNat ≤ 0xBF) :
    String.utf8EncodeChar
      (Char.ofNat ((((b.toNat - 0xF0) * 64 + (b₁.toNat - 0x80)) * 64 + (b₂.toNat - 0x80)) * 64 +
        (b₃.toNat - 0x80))) = [b, b₁, b₂, b₃] := by
  rw [encode_ofNat (Or.inr (by omega)), if_neg (by omega), if_neg (by omega), if_neg (by omega),
    ofNat_eq (b := b) (by omega), ofNat_eq (b := b₁) (by omega), ofNat_eq (b := b₂) (by omega),
    ofNat_eq (b := b₃) (by omega)]

end Bytes

/-- A character is encoded by the bytes that it is decoded from. -/
theorem decodeFrom_char (h : decodeFrom n n .boundary (b :: bytes) = .ok cs) :
    ∃ c bytes' cs' k, b :: bytes = String.utf8EncodeChar c ++ bytes' ∧ cs = c :: cs' ∧
      decodeFrom k k .boundary bytes' = .ok cs' := by
  rw [decodeFrom] at h
  have htail : tail.lo.toNat = 128 ∧ tail.hi.toNat = 191 := ⟨rfl, rfl⟩
  split at h
  · cases h
  rename_i q hq
  rcases first_ok hq with ⟨hb, rfl⟩ | ⟨hb, rfl⟩ | ⟨hb, rfl⟩ | ⟨hb, rfl⟩
  · simp only [List.isEmpty_nil, if_true] at h
    split at h
    · cases h
    · rename_i cs' hrest
      cases h
      exact ⟨_, bytes, cs', n + 1, by rw [encode_one hb]; rfl, rfl, hrest⟩
  · obtain ⟨b₁, bytes', cs', k, rfl, hlo, hhi, rfl, hrest⟩ := decodeFrom_last h
    refine ⟨_, bytes', cs', k, ?_, rfl, hrest⟩
    rw [encode_two hb.1 hb.2 (by omega) (by omega)]
    rfl
  · obtain ⟨b₁, bytes₁, rfl, hlo, hhi, h⟩ := decodeFrom_missing h
    obtain ⟨b₂, bytes', cs', k, rfl, hlo₂, hhi₂, rfl, hrest⟩ := decodeFrom_last h
    simp only [apply_ite UInt8.toNat, UInt8.reduceToNat] at hlo hhi
    refine ⟨_, bytes', cs', k, ?_, rfl, hrest⟩
    rw [encode_three hb.1 hb.2 _ _ _ _ (by omega) (by omega)]
    · rfl
    all_goals (split at hlo <;> split at hhi <;> omega)
  · obtain ⟨b₁, bytes₁, rfl, hlo, hhi, h⟩ := decodeFrom_missing h
    obtain ⟨b₂, bytes₂, rfl, hlo₂, hhi₂, h⟩ := decodeFrom_missing h
    obtain ⟨b₃, bytes', cs', k, rfl, hlo₃, hhi₃, rfl, hrest⟩ := decodeFrom_last h
    simp only [apply_ite UInt8.toNat, UInt8.reduceToNat] at hlo hhi
    refine ⟨_, bytes', cs', k, ?_, rfl, hrest⟩
    rw [encode_four hb.1 hb.2 _ _ _ _ (by omega) (by omega) (by omega) (by omega)]
    · rfl
    all_goals (split at hlo <;> split at hhi <;> omega)

/-- **What is decoded is encoded** by the bytes that it is decoded from. -/
theorem encode_decode {bytes : List UInt8} {cs : List Char} (h : decode bytes = .ok cs) :
    bytes = cs.flatMap String.utf8EncodeChar := by
  rw [decode] at h
  generalize 0 = k at h
  induction cs generalizing k bytes with
  | nil =>
      cases bytes with
      | nil => rfl
      | cons b bytes =>
          obtain ⟨_, _, _, _, _, hcs, _⟩ := decodeFrom_char h
          cases hcs
  | cons c cs ih =>
      cases bytes with
      | nil => cases h
      | cons b bytes =>
          obtain ⟨_, bytes', _, k', hbytes, hcs, hrest⟩ := decodeFrom_char h
          cases hcs
          rw [hbytes, List.flatMap_cons, ← ih k' hrest]

end RSource.Utf8
