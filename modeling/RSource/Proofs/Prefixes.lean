import RSource.Proofs.Offsets
import RSource.Proofs.Order

/-!
# Places in any bytes

The place of an offset counts the characters of a prefix that may end within a character or hold
none at all. A byte more never lowers that count, and raises it by one at most.

* `Utf8.Tally.total_step`, `Utf8.charCount_le_length` — what a byte more does to the count.
* `Location.Follows` — what a byte more may do to a place.
* `Location.follows_ofOffset` — it does no more to any bytes.
* `Location.lastLine_encode` — the last line of a text is that of its characters.
* `placesInOrder` — **the places of the offsets of any bytes are in order**.
-/

namespace RSource

/-! ## Counting characters of any bytes -/

namespace Utf8

/-- A byte that does not go on with a character is one more. -/
theorem Tally.total_start (n : Nat) (b : UInt8) : (start n b).total = n + 1 := by
  unfold start
  split
  · rfl
  · split
    · rfl
    · rename_i hmissing
      exact if_neg hmissing

/-- A byte that goes on with a character changes no count, and any other one adds one. -/
theorem Tally.total_step (t : Tally) (b : UInt8) :
    (t.step b).total = t.total ∨ (t.step b).total = t.total + 1 := by
  obtain ⟨n, bits, missing⟩ := t
  cases missing with
  | nil => exact .inr (total_start n b)
  | cons r rest =>
    -- The unfinished character has been counted already.
    show _ = n + 1 ∨ _ = n + 1 + 1
    rw [step]
    simp only
    split
    · exact .inr (total_start (n + 1) b)
    · split
      · exact .inl rfl
      · rename_i hmissing
        exact .inl (if_neg hmissing)

theorem charCount_concat (bytes : List UInt8) (b : UInt8) :
    charCount (bytes ++ [b]) = charCount bytes ∨
      charCount (bytes ++ [b]) = charCount bytes + 1 := by
  rw [charCount, List.foldl_append]
  exact Tally.total_step _ b

theorem charCount_le_length (bytes : List UInt8) : charCount bytes ≤ bytes.length := by
  induction bytes using List.reverseRecOn with
  | nil => exact Nat.le_refl 0
  | append_singleton bytes b ih =>
    rw [List.length_append, List.length_singleton]
    rcases charCount_concat bytes b with h | h <;> omega

end Utf8

namespace Location

/-! ## One more byte -/

/-- What a byte more may do to a place: a line feed starts a line, and any other byte adds at most
one column. -/
def Follows (b : UInt8) (l l' : Location) : Prop :=
  if b = 10 then l'.line.toNat = l.line.toNat + 1 ∧ l'.col = 1
  else l'.line = l.line ∧ (l'.col = l.col ∨ l'.col.toNat = l.col.toNat + 1)

theorem Follows.le {b : UInt8} {l l' : Location} (h : Follows b l l') : l ≤ l' := by
  rw [le_def]
  unfold Follows at h
  split at h
  · left
    rw [UInt32.lt_iff_toNat_lt]
    omega
  · obtain ⟨hline, hcol⟩ := h
    refine .inr ⟨hline.symm, ?_⟩
    rw [UInt32.le_iff_toNat_le]
    rcases hcol with hcol | hcol
    · rw [hcol]
    · omega

theorem length_lastLine_le (bytes : List UInt8) : (lastLine bytes).length ≤ bytes.length := by
  rw [lastLine, List.length_reverse]
  exact (List.takeWhile_sublist _).length_le.trans_eq List.length_reverse

variable {bytes : List UInt8}

/-- Neither lines nor columns of so many bytes pass 32 bits. -/
theorem toNat_ofBytes (h : bytes.length < UInt32.size - 1) :
    (ofBytes bytes).line.toNat = bytes.count 10 + 1 ∧
      (ofBytes bytes).col.toNat = Utf8.charCount (lastLine bytes) + 1 := by
  have hsize : UInt32.size = 4294967296 := rfl
  have hsucc {n : Nat} (hn : n ≤ bytes.length) : (UInt32.ofNat n + 1).toNat = n + 1 := by
    rw [UInt32.toNat_add, UInt32.toNat_ofNat_of_lt' (by omega)]
    exact Nat.mod_eq_of_lt (by simp only [UInt32.toNat_one]; omega)
  exact ⟨hsucc List.count_le_length,
    hsucc ((Utf8.charCount_le_length _).trans (length_lastLine_le bytes))⟩

theorem follows_ofBytes (b : UInt8) (h : (bytes ++ [b]).length < UInt32.size - 1) :
    Follows b (ofBytes bytes) (ofBytes (bytes ++ [b])) := by
  have hlength : bytes.length < UInt32.size - 1 := by
    rw [List.length_append] at h
    omega
  obtain ⟨hline, hcol⟩ := toNat_ofBytes hlength
  obtain ⟨hline', hcol'⟩ := toNat_ofBytes h
  unfold Follows
  split
  · rename_i hb
    subst hb
    refine ⟨?_, ?_⟩
    · rw [hline', hline, List.count_append]
      rfl
    · rw [ofBytes, lastLine_newline]
      rfl
  · rename_i hb
    have hmem : 10 ∉ [b] := fun hmem => hb (List.mem_singleton.mp hmem).symm
    rw [← UInt32.toNat_inj, ← UInt32.toNat_inj, hline, hline', hcol, hcol', List.count_append,
      List.count_eq_zero.mpr hmem, lastLine_append _ hmem]
    refine ⟨rfl, ?_⟩
    rcases Utf8.charCount_concat (lastLine bytes) b with hcount | hcount <;> omega

theorem follows_ofOffset (h : bytes.length < UInt32.size - 1) {i : Nat} (hi : i < bytes.length) :
    Follows bytes[i] (ofOffset bytes i) (ofOffset bytes (i + 1)) := by
  have htake : bytes.take (i + 1) = bytes.take i ++ [bytes[i]] :=
    List.take_succ_eq_append_getElem hi
  rw [ofOffset, ofOffset, htake]
  refine follows_ofBytes _ ?_
  rw [← htake, List.length_take]
  omega

/-- All offsets past the end are the end. -/
theorem ofOffset_past_end {i : Nat} (hi : bytes.length ≤ i) :
    ofOffset bytes i = ofOffset bytes bytes.length := by
  rw [ofOffset, ofOffset, List.take_of_length_le hi, List.take_length]

theorem ofOffset_le_succ (h : bytes.length < UInt32.size - 1) (i : Nat) :
    ofOffset bytes i ≤ ofOffset bytes (i + 1) := by
  by_cases hi : i < bytes.length
  · exact (follows_ofOffset h hi).le
  · rw [ofOffset_past_end (Nat.le_of_not_lt hi), ofOffset_past_end (i := i + 1) (by omega)]
    exact le_refl _

theorem ofOffset_le (h : bytes.length < UInt32.size - 1) {i j : Nat} (hij : i ≤ j) :
    ofOffset bytes i ≤ ofOffset bytes j := by
  induction hij with
  | refl => exact le_refl _
  | step _ ih => exact le_trans ih (ofOffset_le_succ h _)

/-! ## Columns of a text -/

/-- The characters after the last line feed. -/
def lastLineOf (text : List Char) : List Char :=
  (text.reverse.takeWhile (· != '\n')).reverse

/-- The last line of a text is that of its characters. -/
theorem lastLine_encode (text : List Char) :
    lastLine (text.flatMap String.utf8EncodeChar) =
      (lastLineOf text).flatMap String.utf8EncodeChar := by
  induction text using List.reverseRecOn with
  | nil => rfl
  | append_singleton text c ih =>
    rw [encode_concat, lastLineOf, List.reverse_concat, List.takeWhile_cons]
    by_cases hc : c = '\n'
    · subst hc
      exact lastLine_newline _
    · rw [lastLine_append _ (Utf8.not_mem_encode hc), ih, if_pos (bne_iff_ne.mpr hc),
        List.reverse_cons, encode_concat, lastLineOf]

end Location

/-- The places of the offsets of some bytes are in order. -/
structure PlacesInOrder (bytes : List UInt8) : Prop where
  monotone : ∀ i j, i ≤ j → Location.ofOffset bytes i ≤ .ofOffset bytes j
  step : ∀ i (hi : i < bytes.length),
    Location.Follows bytes[i] (.ofOffset bytes i) (.ofOffset bytes (i + 1))
  past_end : ∀ i, bytes.length ≤ i → Location.ofOffset bytes i = .ofOffset bytes bytes.length
  column : ∀ before after, decodeSource bytes = .ok (before ++ after) →
    (Location.ofOffset bytes (before.flatMap String.utf8EncodeChar).length).col.toNat =
      1 + (Location.lastLineOf before).length

/-- **The places of the offsets of any bytes are in order.** A line feed starts a line, any other
byte adds a column or none, and between the characters of a text the column counts those since the
last line feed. -/
theorem placesInOrder (bytes : List UInt8) (h : bytes.length < UInt32.size - 1) :
    PlacesInOrder bytes where
  monotone _ _ hij := Location.ofOffset_le h hij
  step _ hi := Location.follows_ofOffset h hi
  past_end _ hi := Location.ofOffset_past_end hi
  column before after hdecode := by
    have hbytes := decodeSource_iff.mp hdecode
    rw [List.flatMap_append] at hbytes
    have htake : bytes.take (before.flatMap String.utf8EncodeChar).length =
        before.flatMap String.utf8EncodeChar := by
      rw [hbytes, List.take_left]
    have hlength : (before.flatMap String.utf8EncodeChar).length < UInt32.size - 1 := by
      rw [hbytes, List.length_append] at h
      omega
    rw [Location.ofOffset, htake, (Location.toNat_ofBytes hlength).2, Location.lastLine_encode,
      Utf8.charCount_encode, Nat.add_comm]

/-- An overlong form, a character and a part of one, behind a line. -/
theorem placesInOrder_of_ill_formed :
    [0x61, 10, 0xE0, 0x80, 0xC3, 0xA9, 0xF0, 0x9F].length < UInt32.size - 1 ∧
      PlacesInOrder [0x61, 10, 0xE0, 0x80, 0xC3, 0xA9, 0xF0, 0x9F] :=
  ⟨by decide, placesInOrder _ (by decide)⟩

end RSource
