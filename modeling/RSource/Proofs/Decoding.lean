import RSource.Proofs.Encoding

/-!
# Decoding part by part

What is decoded up to some byte does not depend on the bytes behind it, and decoding goes on from
there as from the start.

* `Utf8.decodeFrom_append` — what follows a well-formed part is decoded on its own.
* `Utf8.decodeFrom_error` — where decoding stops, all before it is well-formed.
* `Utf8.exists_append_of_encode` — a text that starts with the bytes of another one starts with
  its characters.
* `Utf8.longest_of_decode` — **bytes that are no text are decoded up to their longest
  well-formed part**.
* `Utf8.charCount_encode` — **the count of characters that forgives ill-formed parts is exact
  where there are none**.
-/

namespace RSource.Utf8

variable {ended here n : Nat} {p : Pending} {xs ys : List UInt8} {cs : List Char}

/-! ## What follows a well-formed part -/

/-- What follows a well-formed part is decoded on its own. -/
theorem decodeFrom_append (h : decodeFrom ended here p xs = .ok cs)
    (hnil : xs = [] → ended = here ∧ p = .boundary) :
    decodeFrom ended here p (xs ++ ys) =
      (decodeFrom (here + xs.length) (here + xs.length) .boundary ys).map (cs ++ ·) := by
  induction xs generalizing ended here p cs with
  | nil =>
      obtain ⟨rfl, rfl⟩ := hnil rfl
      cases h
      show decodeFrom ended ended .boundary ys = Except.map id (decodeFrom ended ended .boundary ys)
      cases decodeFrom ended ended .boundary ys <;> rfl
  | cons b xs ih =>
      have hlength : here + (b :: xs).length = here + 1 + xs.length := by
        rw [List.length_cons]
        omega
      rw [decodeFrom] at h
      rw [hlength, List.cons_append, decodeFrom]
      cases hq : p.next b with
      | none =>
          rw [hq] at h
          cases h
      | some q =>
          rw [hq] at h
          simp only at h ⊢
          split at h
          · -- The byte ends a character.
            rename_i hempty
            split at h
            · cases h
            · rename_i ds hds
              cases h
              rw [if_pos hempty, ih hds fun _ => ⟨rfl, rfl⟩]
              cases decodeFrom (here + 1 + xs.length) (here + 1 + xs.length) .boundary ys <;> rfl
          · -- The character goes on, so more bytes follow.
            rename_i hempty
            rw [if_neg hempty]
            refine ih h fun hxs => ?_
            subst hxs
            rw [decodeFrom, if_neg hempty] at h
            cases h

/-- A text and the bytes behind it: the text is decoded first. -/
theorem decode_encode_append (cs : List Char) (ys : List UInt8) :
    decode (cs.flatMap String.utf8EncodeChar ++ ys) =
      (decodeFrom (cs.flatMap String.utf8EncodeChar).length
        (cs.flatMap String.utf8EncodeChar).length .boundary ys).map (cs ++ ·) := by
  have hcs := decode_encode cs
  rw [decode] at hcs ⊢
  rw [decodeFrom_append hcs fun _ => ⟨rfl, rfl⟩, Nat.zero_add]

/-- Two texts of the same bytes have the same characters. -/
theorem encode_inj {cs ds : List Char}
    (h : cs.flatMap String.utf8EncodeChar = ds.flatMap String.utf8EncodeChar) : cs = ds := by
  have hdecode := decode_encode cs
  rw [h, decode_encode] at hdecode
  exact (Except.ok.inj hdecode).symm

/-- A text that starts with the bytes of another one starts with its characters. -/
theorem exists_append_of_encode {cs ds : List Char}
    (h : cs.flatMap String.utf8EncodeChar <+: ds.flatMap String.utf8EncodeChar) :
    ∃ es, ds = cs ++ es := by
  obtain ⟨ys, hys⟩ := h
  have hdecode := decode_encode ds
  rw [← hys, decode_encode_append] at hdecode
  generalize decodeFrom _ _ _ ys = x at hdecode
  cases x with
  | error n => cases hdecode
  | ok es => exact ⟨es, (Except.ok.inj hdecode).symm⟩

/-! ## Where decoding stops -/

/-- Where decoding stops, all before it is well-formed, and nothing is read back. -/
theorem decodeFrom_error (h : decodeFrom ended here p xs = .error n) :
    n = ended ∨ (here < n ∧ n ≤ here + xs.length) ∧
      ∃ cs, decodeFrom ended here p (xs.take (n - here)) = .ok cs := by
  induction xs generalizing ended here p with
  | nil =>
      rw [decodeFrom] at h
      split at h
      · cases h
      · cases h
        exact Or.inl rfl
  | cons b xs ih =>
      rw [decodeFrom] at h
      cases hq : p.next b with
      | none =>
          rw [hq] at h
          cases h
          exact Or.inl rfl
      | some q =>
          rw [hq] at h
          simp only at h
          -- The bytes up to the stop are this one and those that are read behind it.
          have htake (hn : here < n) :
              (b :: xs).take (n - here) = b :: xs.take (n - (here + 1)) := by
            have hsub : n - here = n - (here + 1) + 1 := by omega
            rw [hsub, List.take_succ_cons]
          have hlength : (b :: xs).length = xs.length + 1 := rfl
          split at h
          · rename_i hempty
            split at h
            · rename_i m hrest
              cases h
              have hstop : (here < n ∧ n ≤ here + (b :: xs).length) ∧
                  ∃ cs, decodeFrom (here + 1) (here + 1) .boundary (xs.take (n - (here + 1))) =
                    .ok cs := by
                rcases ih hrest with rfl | ⟨⟨hlt, hle⟩, hcs⟩
                · rw [Nat.sub_self, List.take_zero]
                  exact ⟨by omega, [], rfl⟩
                · exact ⟨by omega, hcs⟩
              obtain ⟨hbounds, cs, hcs⟩ := hstop
              refine Or.inr ⟨hbounds, Char.ofNat q.bits :: cs, ?_⟩
              rw [htake hbounds.1, decodeFrom, hq]
              simp only [hempty, if_true, hcs]
            · cases h
          · rename_i hempty
            rcases ih h with hn | ⟨⟨hlt, hle⟩, cs, hcs⟩
            · exact Or.inl hn
            · have hn : here < n := by omega
              refine Or.inr ⟨by omega, cs, ?_⟩
              rw [htake hn, decodeFrom, hq]
              simp only [if_neg hempty, hcs]

/-- **Bytes that are no text are decoded up to their longest well-formed part**, which ends where
decoding stops. -/
theorem longest_of_decode {bytes : List UInt8} (h : decode bytes = .error n) :
    ∃ cs : List Char, bytes.take n = cs.flatMap String.utf8EncodeChar ∧ n ≤ bytes.length ∧
      ∀ ds : List Char, ds.flatMap String.utf8EncodeChar <+: bytes →
        (ds.flatMap String.utf8EncodeChar).length ≤ n := by
  have hpart : n ≤ bytes.length ∧ ∃ cs, decode (bytes.take n) = .ok cs := by
    rcases decodeFrom_error h with rfl | ⟨hbounds, cs, hcs⟩
    · exact ⟨Nat.zero_le _, [], rfl⟩
    · exact ⟨by omega, cs, hcs⟩
  obtain ⟨hle, cs, hcs⟩ := hpart
  refine ⟨cs, encode_decode hcs, hle, ?_⟩
  rintro ds ⟨ys, rfl⟩
  -- The bytes of `ds` are decoded before decoding stops.
  rw [decode_encode_append] at h
  cases hys : decodeFrom (ds.flatMap String.utf8EncodeChar).length
      (ds.flatMap String.utf8EncodeChar).length .boundary ys with
  | ok es =>
      rw [hys] at h
      cases h
  | error m =>
      rw [hys] at h
      cases h
      rcases decodeFrom_error hys with hn | ⟨hbounds, -⟩
      · omega
      · omega

/-! ## Counting characters -/

/-- A byte that goes on with a text is counted where it ends a character. -/
theorem Tally.step_of_next {q : Pending} {b : UInt8} (h : p.next b = some q) :
    Tally.step ⟨n, p⟩ b = if q.missing.isEmpty then ⟨n + 1, .boundary⟩ else ⟨n, q⟩ := by
  unfold Pending.next at h
  unfold Tally.step
  split at h
  · rename_i hmissing
    simp only [hmissing, Tally.start, h]
  · rename_i r rest hmissing
    simp only [hmissing, Pending.next, h]

/-- Where bytes are decoded, each of their characters is counted once. -/
theorem total_of_decodeFrom (h : decodeFrom ended here p xs = .ok cs) :
    (xs.foldl Tally.step ⟨n, p⟩).total = n + cs.length := by
  induction xs generalizing ended here p cs n with
  | nil =>
      rw [decodeFrom] at h
      split at h
      · rename_i hempty
        cases h
        rw [List.foldl_nil, Tally.total, if_pos hempty]
        rfl
      · cases h
  | cons b xs ih =>
      rw [decodeFrom] at h
      cases hq : p.next b with
      | none =>
          rw [hq] at h
          cases h
      | some q =>
          rw [hq] at h
          rw [List.foldl_cons, Tally.step_of_next hq]
          simp only at h
          split at h
          · rename_i hempty
            split at h
            · cases h
            · rename_i ds hds
              cases h
              rw [if_pos hempty, ih hds, List.length_cons]
              omega
          · rename_i hempty
            rw [if_neg hempty, ih h]

/-- **The count of characters that forgives ill-formed parts is exact where there are none.** -/
theorem charCount_encode (cs : List Char) :
    charCount (cs.flatMap String.utf8EncodeChar) = cs.length := by
  have htotal := total_of_decodeFrom (n := 0) (decode_encode cs)
  rwa [Nat.zero_add] at htotal

end RSource.Utf8
