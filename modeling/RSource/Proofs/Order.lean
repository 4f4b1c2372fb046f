import RSource.Reader
import RSource.Proofs.Scanning

/-!
# The order of places

* `Location.instLE` — by lines and then by columns.
* `Location.Room` — so many characters on, neither lines nor columns pass 32 bits.
* `Location.le_advance` — within its room a place never goes back.
* `length_le_of_decodeSource` — no source has more characters than bytes.
* `lexText_sorted` — **the tokens of a text stand in the order of their places**.
-/

namespace RSource

namespace Location

/-- Places are ordered by lines and then by columns. -/
instance instLE : LE Location where
  le a b := a.line < b.line ∨ a.line = b.line ∧ a.col ≤ b.col

theorem le_def {a b : Location} : a ≤ b ↔ a.line < b.line ∨ a.line = b.line ∧ a.col ≤ b.col :=
  Iff.rfl

instance (a b : Location) : Decidable (a ≤ b) := decidable_of_iff _ le_def.symm

theorem le_refl (a : Location) : a ≤ a := Or.inr ⟨rfl, UInt32.le_refl _⟩

theorem le_trans {a b c : Location} (h : a ≤ b) (h' : b ≤ c) : a ≤ c := by
  rw [le_def] at *
  simp only [UInt32.lt_iff_toNat_lt, UInt32.le_iff_toNat_le, ← UInt32.toNat_inj] at *
  omega

/-- Another `n` characters may follow, and neither lines nor columns pass 32 bits. -/
structure Room (l : Location) (n : Nat) : Prop where
  line : l.line.toNat + n < UInt32.size
  col : l.col.toNat + n < UInt32.size

theorem Room.step {l : Location} {n : Nat} (h : l.Room (n + 1)) (hn : n + 1 < UInt32.size)
    (c : Char) : (l.step c).Room n ∧ l ≤ l.step c := by
  have hsize : UInt32.size = 4294967296 := rfl
  have hline := h.line
  have hcol := h.col
  rw [Location.step, le_def]
  split
  · have hl : (l.line + 1).toNat = l.line.toNat + 1 := by
      rw [UInt32.toNat_add, UInt32.toNat_one, Nat.mod_eq_of_lt (by omega)]
    refine ⟨⟨by simp only [hl]; omega, by simp only [UInt32.toNat_one]; omega⟩, Or.inl ?_⟩
    rw [UInt32.lt_iff_toNat_lt, hl]
    omega
  · have hc : (l.col + 1).toNat = l.col.toNat + 1 := by
      rw [UInt32.toNat_add, UInt32.toNat_one, Nat.mod_eq_of_lt (by omega)]
    refine ⟨⟨by simp only; omega, by simp only [hc]; omega⟩, Or.inr ⟨rfl, ?_⟩⟩
    rw [UInt32.le_iff_toNat_le, hc]
    omega

/-- Within its room a place never goes back, and the room shrinks by what is passed. -/
theorem le_advance {l : Location} {cs : List Char} {n : Nat} (h : l.Room (cs.length + n))
    (hn : cs.length + n < UInt32.size) : (l.advance cs).Room n ∧ l ≤ l.advance cs := by
  induction cs generalizing l with
  | nil => exact ⟨by simpa [advance] using h, le_refl l⟩
  | cons c cs ih =>
      rw [List.length_cons, Nat.add_right_comm] at h hn
      obtain ⟨hroom, hle⟩ := h.step hn c
      obtain ⟨hroom', hle'⟩ := ih hroom (by omega)
      exact ⟨hroom', le_trans hle hle'⟩

end Location

/-! ## Characters and bytes -/

theorem Utf8.length_le_of_decodeFrom {bytes : List UInt8} {ended here : Nat} {p : Pending}
    {cs : List Char} (h : decodeFrom ended here p bytes = .ok cs) : cs.length ≤ bytes.length := by
  induction bytes generalizing ended here p cs with
  | nil =>
      rw [decodeFrom] at h
      split at h
      · cases h
        exact Nat.le_refl _
      · cases h
  | cons b bytes ih =>
      rw [decodeFrom] at h
      split at h
      · cases h
      · split at h
        · split at h
          · cases h
          · rename_i hcs
            cases h
            have := ih hcs
            simp only [List.length_cons]
            omega
        · have := ih h
          simp only [List.length_cons]
          omega

/-- No source has more characters than bytes. -/
theorem length_le_of_decodeSource {bytes : List UInt8} {text : List Char}
    (h : decodeSource bytes = .ok text) : text.length ≤ bytes.length := by
  rw [decodeSource] at h
  split at h
  · rename_i hd
    cases h
    exact Utf8.length_le_of_decodeFrom hd
  · cases h

/-! ## Tokens -/

namespace Reader

/-- Reading a token goes on from a place to a later one, and the token stands between. -/
theorem next_place {r after : Reader} {t : Token} (h : r.next = .ok (t, after))
    (hroom : r.cursor.loc.Room r.rest.length) (hn : r.rest.length < UInt32.size) :
    r.cursor.loc ≤ t.loc ∧ t.loc ≤ after.cursor.loc ∧
      after.cursor.loc.Room after.rest.length ∧ after.rest.length < UInt32.size := by
  rw [next, read] at h
  split at h
  · cases h
  · rename_i l hl
    cases h
    have hblank := congrArg List.length (Lexeme.blanks_append_afterBlanks r.rest)
    have hsplit := congrArg List.length (Lexeme.scan_split hl)
    simp only [List.length_append, skipBlanks] at hblank hsplit ⊢
    rw [← hblank] at hroom hn
    obtain ⟨hroom₁, hle₁⟩ := Location.le_advance hroom hn
    rw [← hsplit] at hroom₁ hn
    obtain ⟨hroom₂, hle₂⟩ := Location.le_advance hroom₁ (by omega)
    simp only [Cursor.loc_advance]
    exact ⟨hle₁, hle₂, hroom₂, by omega⟩

/-- Tokens from a reader on stand in order, none before the reader. -/
theorem tokensWithin_sorted {left : List Char} {r : Reader} {ts : List Token}
    (h : tokensWithin left r = .ok ts) (hroom : r.cursor.loc.Room r.rest.length)
    (hn : r.rest.length < UInt32.size) :
    (∀ t ∈ ts, r.cursor.loc ≤ t.loc) ∧ ts.Pairwise (fun t u => t.loc ≤ u.loc) := by
  induction left generalizing r ts with
  | nil =>
      rw [tokensWithin] at h
      split at h
      · cases h
      · rename_i t after hnext
        cases h
        have hle := (next_place hnext hroom hn).1
        exact ⟨by simpa using hle, List.pairwise_singleton _ _⟩
  | cons c left ih =>
      rw [tokensWithin] at h
      split at h
      · cases h
      · rename_i t after hnext
        obtain ⟨hle, hle', hroom', hn'⟩ := next_place hnext hroom hn
        split at h
        · cases h
          exact ⟨by simpa using hle, List.pairwise_singleton _ _⟩
        · split at h
          · cases h
          · rename_i us hus
            cases h
            obtain ⟨hall, hpair⟩ := ih hus hroom' hn'
            have hlater : ∀ u ∈ us, t.loc ≤ u.loc := fun u hu => Location.le_trans hle' (hall u hu)
            refine ⟨?_, List.pairwise_cons.mpr ⟨hlater, hpair⟩⟩
            intro u hu
            rcases List.mem_cons.mp hu with rfl | hu
            · exact hle
            · exact Location.le_trans hle (hlater u hu)

end Reader

/-- **The tokens of a text stand in the order of their places**, if the text is short enough for
32 bits. -/
theorem lexText_sorted {text : List Char} {ts : List Token} (h : lexText text = .ok ts)
    (hn : text.length < UInt32.size - 1) : ts.Pairwise (fun t u => t.loc ≤ u.loc) := by
  have hroom : Location.start.Room text.length :=
    ⟨by simp only [Location.start, UInt32.toNat_one]; omega,
      by simp only [Location.start, UInt32.toNat_one]; omega⟩
  exact (Reader.tokensWithin_sorted (r := .ofText text) h hroom
    (by simp only [Reader.ofText]; omega)).2

end RSource
