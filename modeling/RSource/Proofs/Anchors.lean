import RSource.Proofs.Faults

/-!
# What an error points at

Every error has a place, and what stands there in the source is what the error is about.

* `Unescaped` — a mark stands in a text, and not behind a backslash.
* `LexFault.Shows`, `LexFault.shows_of_scan` — **what must stand where a fault is found**.
* `Lexeme.RunsOut`, `Lexeme.number_error` — a fault that takes the characters of a name to their end.
* `Reader.standsIn_of_holds` — a token that a parse may come to is read where a reader stands.
* `IsLongestText` — the longest well-formed part of some bytes.
* `Error.Shows`, `Error.shown`, `Error.Anchored` — what must stand where an error is reported.
* `errors_anchored` — **every error points at what it is about**, and so does its diagnostic.
-/

namespace RSource

/-! ## Faults of the characters -/

/-- The mark stands in the text, where a backslash takes the character behind it with it. -/
inductive Unescaped (mark : Char) : List Char → Prop where
  | here (cs : List Char) : Unescaped mark (mark :: cs)
  | plain {c : Char} {cs : List Char} (hc : c ≠ '\\') (h : Unescaped mark cs) :
      Unescaped mark (c :: cs)
  | pair (c : Char) {cs : List Char} (h : Unescaped mark cs) : Unescaped mark ('\\' :: c :: cs)

/-- What must stand in a text where the fault is found. -/
def LexFault.Shows (rest : List Char) : LexFault → Prop
  | unexpectedChar c => rest.head? = some c
  | invalidIdentifier lexeme | invalidNumber lexeme =>
      lexeme ≠ "" ∧ ∃ behind, rest = lexeme.toList ++ behind ∧
        ∀ c ∈ behind.head?, Lexeme.inName c = false
  | unterminatedString =>
      ∃ mark behind, rest = mark :: behind ∧ (mark = '\x22' ∨ mark = '\x27') ∧
        ¬ Unescaped mark behind
  | unterminatedQuotedIdent => ∃ behind, rest = '\x60' :: behind ∧ ¬ Unescaped '\x60' behind
  | unterminatedSpecialOp =>
      ∃ behind, rest = '%' :: behind ∧ '%' ∉ behind.takeWhile (· != '\n')
  | invalidUtf8 => rest = []

namespace Lexeme

/-- A mark that is not behind a backslash is found. -/
theorem untilClose_of_unescaped {mark : Char} {cs : List Char} (h : Unescaped mark cs) :
    untilClose mark false cs ≠ none := by
  induction h with
  | here cs => simp [untilClose]
  | @plain c cs hc h ih =>
      have hb : (c == '\\') = false := by simpa using hc
      rw [untilClose, hb]
      split
      · simp
      · simp only [Bool.not_false, Bool.true_and]
        split
        · rename_i hnone
          exact absurd hnone ih
        · simp
  | @pair c cs h ih =>
      rw [untilClose]
      split
      · simp
      · simp only [Bool.not_false, Bool.true_and, beq_self_eq_true, untilClose, Bool.not_true,
          Bool.false_and, Bool.false_eq_true, if_false]
        generalize untilClose mark false cs = found at ih
        cases found with
        | none => exact absurd rfl ih
        | some p => simp

theorem delimited_error {kind : TokenKind} {fault fault' : LexFault} {mark : Char} {cs : List Char}
    (h : delimited kind fault mark cs = .error fault') : fault' = fault ∧ ¬ Unescaped mark cs := by
  unfold delimited at h
  split at h
  · rename_i hnone
    cases h
    exact ⟨rfl, fun hu => untilClose_of_unescaped hu hnone⟩
  · cases h

/-- A percent sign that stays on its line is found. -/
theorem percent_not_mem {cs : List Char} (h : ∀ rest, cs.dropWhile isSpecialChar ≠ '%' :: rest) :
    '%' ∉ cs.takeWhile (· != '\n') := by
  induction cs with
  | nil => simp
  | cons c cs ih =>
      by_cases hn : c = '\n'
      · simp [hn]
      · by_cases hp : c = '%'
        · subst hp
          exact absurd rfl (h cs)
        · have hc : isSpecialChar c = true := by simp [isSpecialChar, hn, hp]
          have htail := ih (by simpa [hc] using h)
          simp [hn, Ne.symm hp, htail]

theorem specialOp_error {cs : List Char} {fault : LexFault} (h : specialOp cs = .error fault) :
    fault = .unterminatedSpecialOp ∧ '%' ∉ cs.takeWhile (· != '\n') := by
  unfold specialOp at h
  split at h
  · cases h
  · rename_i hne
    cases h
    exact ⟨rfl, percent_not_mem hne⟩

/-- The lexeme stands at the front and goes on to the end of a run of name characters. -/
inductive RunsOut (rest : List Char) : List Char → Prop where
  | mk (front run behind : List Char) (hrest : rest = front ++ (run ++ behind)) (hne : run ≠ [])
      (hrun : ∀ c ∈ run, inName c = true) (hend : NameEnd behind) : RunsOut rest (front ++ run)

/-- The fault is that of a number or a name with the lexeme. -/
def IsWordFault (lexeme : List Char) (fault : LexFault) : Prop :=
  fault = .invalidNumber (String.ofList lexeme) ∨ fault = .invalidIdentifier (String.ofList lexeme)

section WordFaults

variable {c : Char} {cs lexeme : List Char} {fault : LexFault} {n : Numeral}

theorem nameRun_ne_nil (hc : inName c = true) : nameRun (c :: cs) ≠ [] := by
  simp [nameRun, hc]

theorem RunsOut.nameRun (front : List Char) (h : nameRun cs ≠ []) :
    RunsOut (front ++ cs) (front ++ nameRun cs) := by
  refine .mk front (Lexeme.nameRun cs) (afterNameRun cs) ?_ h (fun _ => List.mem_takeWhile_imp)
    (nameEnd_afterNameRun cs)
  rw [nameRun_append_afterNameRun]

/-- Where a lexeme runs out stands what its fault is about. -/
theorem RunsOut.shows (h : RunsOut cs lexeme) (hfault : IsWordFault lexeme fault) :
    fault.Shows cs := by
  obtain ⟨front, run, behind, rfl, hne, -, hend⟩ := h
  have hlexeme : String.ofList (front ++ run) ≠ "" := by
    intro hempty
    exact List.append_ne_nil_of_right_ne_nil front hne (by simpa using congrArg String.toList hempty)
  have hsplit : front ++ (run ++ behind) = (String.ofList (front ++ run)).toList ++ behind := by
    rw [String.toList_ofList, List.append_assoc]
  rcases hfault with rfl | rfl <;> exact ⟨hlexeme, behind, hsplit, hend⟩

/-- A hexadecimal numeral without a digit is a fault that takes the name characters to their end. -/
theorem numeral_error (h : numeral cs = .error fault) :
    ∃ lexeme, RunsOut cs lexeme ∧ IsWordFault lexeme fault := by
  unfold numeral at h
  split at h
  · cases h
  · rename_i mark rest hmark
    simp only at h
    split at h
    · cases h
      unfold hexMark at hmark
      split at hmark
      · rename_i x rest
        split at hmark
        · rename_i hx
          cases hmark
          have hzero : inName '0' = true := rfl
          have hmark : inName x = true := by rcases hx with rfl | rfl <;> rfl
          have hrun : nameRun ('0' :: x :: rest) = ['0', x] ++ nameRun rest := by
            simp [nameRun, hzero, hmark]
          rw [← hrun]
          exact ⟨_, .nameRun [] (nameRun_ne_nil hzero), .inl rfl⟩
        · cases hmark
      · cases hmark
    · cases h

/-- So are two suffixes. -/
theorem suffix_error (h : suffix n = .error fault) :
    ∃ lexeme, RunsOut (n.text ++ n.rest) lexeme ∧ IsWordFault lexeme fault := by
  have hrun {c : Char} {cs : List Char} (hrest : n.rest = c :: cs) (hc : inName c = true) :
      nameRun n.rest ≠ [] := by
    rw [hrest]
    exact nameRun_ne_nil hc
  unfold suffix at h
  split at h
  · rename_i hrest
    cases h
    exact ⟨_, .nameRun n.text (hrun hrest rfl), .inl rfl⟩
  · rename_i hrest
    cases h
    exact ⟨_, .nameRun n.text (hrun hrest rfl), .inl rfl⟩
  · cases h
  · cases h
  · cases h

/-- And so is a numeral that goes on like a name. -/
theorem endNumeral_error (h : endNumeral n = .error fault) :
    ∃ lexeme, RunsOut (n.text ++ n.rest) lexeme ∧ IsWordFault lexeme fault := by
  unfold endNumeral at h
  split at h
  · cases h
  · rename_i hrun
    cases h
    exact ⟨_, .nameRun n.text (by simpa using hrun), .inr rfl⟩

/-- **A faulty number takes the characters of a name to their end.** -/
theorem number_error (h : number cs = .error fault) :
    ∃ lexeme, RunsOut cs lexeme ∧ IsWordFault lexeme fault := by
  unfold number at h
  split at h
  · rename_i hn
    cases h
    exact numeral_error hn
  · rename_i n hn
    rw [← numeral_split hn]
    split at h
    · rename_i hm
      cases h
      exact suffix_error hm
    · rename_i m hm
      rw [← suffix_split hm]
      exact endNumeral_error h

/-- So does a name that starts with an underscore. -/
theorem RunsOut.underscore (cs : List Char) : RunsOut ('_' :: cs) (Lexeme.nameRun ('_' :: cs)) :=
  .nameRun [] (nameRun_ne_nil rfl)

end WordFaults

end Lexeme

/-- **What stands where a token cannot be read is what the fault is about.** -/
theorem LexFault.shows_of_scan {cs : List Char} {fault : LexFault}
    (h : Lexeme.scan cs = .error fault) : fault.Shows cs := by
  unfold Lexeme.scan at h
  cases cs with
  | nil => cases h
  | cons c cs =>
      have hlead := Lexeme.announces_lead c cs
      generalize Lexeme.lead (c :: cs) = l at h hlead
      cases hlead with
      | newline | comment | word => cases h
      | string hc =>
          obtain ⟨rfl, hnot⟩ := Lexeme.delimited_error h
          exact ⟨c, cs, rfl, hc, hnot⟩
      | quotedIdent =>
          obtain ⟨rfl, hnot⟩ := Lexeme.delimited_error h
          exact ⟨cs, rfl, hnot⟩
      | special =>
          obtain ⟨rfl, hnot⟩ := Lexeme.specialOp_error h
          exact ⟨cs, rfl, hnot⟩
      | number =>
          obtain ⟨_, hlexeme, hfault⟩ := Lexeme.number_error h
          exact hlexeme.shows hfault
      | underscore =>
          cases h
          exact (Lexeme.RunsOut.underscore cs).shows (.inr rfl)
      | symbol =>
          simp only at h
          split at h
          · cases h
            rfl
          · cases h

/-! ## Tokens that a parse may come to -/

namespace Reader

/-- A token that a parse may come to is read where a reader stands. -/
theorem standsIn_of_holds {text : List Char} {r : Reader} {t : Token} (hr : r.StandsIn text)
    (ht : t ∈ r.remaining.1 ∨ r.remaining.2 = .ok t) :
    ∃ r' after : Reader, r'.StandsIn text ∧ r'.next = .ok (t, after) := by
  induction r using reading with
  | error r e h => simp [remaining_error h] at ht
  | eof r u after h hk =>
      rw [remaining_eof h hk] at ht
      rcases ht with ht | ht <;> cases ht
      exact ⟨r, after, hr, h⟩
  | step r u after h hk ih =>
      rw [remaining_ok h, if_neg hk] at ht
      split at ht
      · exact ih (hr.next h) ht
      · rcases ht with ht | ht
        · rcases List.mem_cons.mp ht with rfl | ht
          · exact ⟨r, after, hr, h⟩
          · exact ih (hr.next h) (Or.inl ht)
        · exact ih (hr.next h) (Or.inr ht)

/-- A token is read again from where it starts. -/
theorem StandsIn.tokenAt {text : List Char} {r after : Reader} {t : Token} (h : r.StandsIn text)
    (hn : r.next = .ok (t, after)) : tokenAt? text t.cursor = some (.ok (t, after.cursor)) := by
  obtain ⟨hrest, hcursor, -⟩ := next_split hn
  have hafter : Lexeme.afterBlanks r.rest = t.lexeme.toList ++ after.rest :=
    List.append_cancel_left ((Lexeme.blanks_append_afterBlanks r.rest).trans hrest)
  have hskip : (⟨t.cursor, t.lexeme.toList ++ after.rest⟩ : Reader) = r.skipBlanks := by
    rw [Reader.skipBlanks, hafter, hcursor]
  obtain ⟨read, htext, hread⟩ := h.at_token hn
  have hoffset : t.cursor.offset = (read.flatMap String.utf8EncodeChar).length := by
    rw [show t.cursor = Cursor.start.advance read from hread, Cursor.offset_start_advance]
  have hfrom : fromOffset? t.cursor.offset text = some (t.lexeme.toList ++ after.rest) := by
    rw [hoffset, htext]
    exact fromOffset?_append read _
  rw [tokenAt?, hfrom]
  simp only
  rw [hskip, next_skipBlanks, hn]

/-- The end of the input alone has an empty lexeme. -/
theorem lexeme_eq_empty_iff {r after : Reader} {t : Token} (hn : r.next = .ok (t, after)) :
    t.lexeme = "" ↔ t.kind = .eof := by
  constructor
  · intro hempty
    by_contra hk
    have hne := (spells_of_next hn).ne_nil hk
    rw [hempty] at hne
    exact hne rfl
  · intro hk
    obtain ⟨k, rfl, -⟩ := reaches_of_eof hn hk
    rfl

end Reader

/-! ## Errors of a source -/

/-- The lexeme that the fault names, if it names one. -/
def LexFault.shown : LexFault → Option String
  | invalidIdentifier lexeme | invalidNumber lexeme => some lexeme
  | _ => none

/-- The longest well-formed part of some bytes. -/
structure IsLongestText (bytes : List UInt8) (text : List Char) : Prop where
  starts : text.flatMap String.utf8EncodeChar <+: bytes
  longest : ∀ cs : List Char, cs.flatMap String.utf8EncodeChar <+: bytes →
    (cs.flatMap String.utf8EncodeChar).length ≤ (text.flatMap String.utf8EncodeChar).length

namespace Error

/-- What must stand in a text where the error is reported, behind the characters `read`: what its
fault is about, or the token that is read there. -/
def Shows (read rest : List Char) (e : Error) : Prop :=
  match e with
  | lexical e => e.fault.Shows rest
  | unexpected e => ∃ t after,
      tokenAt? (read ++ rest) (Cursor.start.advance read) = some (.ok (t, after)) ∧
        t.cursor = Cursor.start.advance read ∧ t.kind = e.kind ∧ t.lexeme = e.lexeme ∧
        e.lexeme.toList <+: rest ∧ (e.lexeme = "" ↔ e.kind = .eof)
  | tooDeep _ => ∃ t after,
      tokenAt? (read ++ rest) (Cursor.start.advance read) = some (.ok (t, after)) ∧
        t.cursor = Cursor.start.advance read

/-- The lexeme that the error names, if it names one. -/
def shown : Error → Option String
  | lexical e => e.fault.shown
  | unexpected e => some e.lexeme
  | tooDeep _ => none

/-- The error points at an offset in the longest well-formed part of the bytes, behind the
characters `read`, where what it is about stands; and its diagnostic marks that. -/
structure Anchored (bytes : List UInt8) (e : Error) (read rest : List Char) : Prop where
  text : IsLongestText bytes (read ++ rest)
  loc : e.loc = .ofOffset bytes (read.flatMap String.utf8EncodeChar).length
  shows : e.Shows read rest
  line : e.diagnostic.line = e.loc.line
  col : e.diagnostic.col = e.loc.col
  width : e.diagnostic.width.toNat = (e.shown.map fun lexeme => max 1 lexeme.length).getD 1

end Error

/-- A lexeme that stands in a text has no more characters than the text. -/
theorem Error.length_shown_le {e : Error} {read rest : List Char} (h : e.Shows read rest) :
    ∀ lexeme ∈ e.shown, lexeme.length ≤ rest.length := by
  intro lexeme hlexeme
  have hprefix : lexeme.toList <+: rest := by
    cases e with
    | lexical e =>
        obtain ⟨fault, l⟩ := e
        cases fault with
        | invalidIdentifier x | invalidNumber x =>
            cases hlexeme
            obtain ⟨-, behind, hrest, -⟩ := h
            exact ⟨behind, hrest.symm⟩
        | unexpectedChar | unterminatedString | unterminatedQuotedIdent | unterminatedSpecialOp
        | invalidUtf8 => cases hlexeme
    | unexpected e =>
        cases hlexeme
        obtain ⟨t, after, -, -, -, -, hstarts, -⟩ := h
        exact hstarts
    | tooDeep l => cases hlexeme
  rw [← String.length_toList]
  exact hprefix.length_le

/-- The width of a diagnostic is that of the lexeme that the error names. -/
theorem Error.width_diagnostic {e : Error} (h : ∀ lexeme ∈ e.shown, lexeme.length < UInt32.size) :
    e.diagnostic.width.toNat = (e.shown.map fun lexeme => max 1 lexeme.length).getD 1 := by
  have hone : 1 < UInt32.size := by decide
  have hexact {n : Nat} (hn : n < UInt32.size) : (UInt32.ofNat (max n 1)).toNat = max 1 n := by
    rw [Nat.max_comm]
    exact UInt32.toNat_ofNat_of_lt' (by omega)
  cases e with
  | lexical e =>
      obtain ⟨fault, l⟩ := e
      cases fault with
      | invalidIdentifier x | invalidNumber x => exact hexact (h x rfl)
      | unexpectedChar | unterminatedString | unterminatedQuotedIdent | unterminatedSpecialOp
      | invalidUtf8 => rfl
  | unexpected e => exact hexact (h e.lexeme rfl)
  | tooDeep l => rfl

/-- What is reported where it stands is marked there, if the bytes are few enough for 32 bits. -/
theorem Error.anchored {bytes : List UInt8} {e : Error} {read rest : List Char}
    (hn : bytes.length < UInt32.size - 1) (htext : IsLongestText bytes (read ++ rest))
    (hloc : e.loc = .ofOffset bytes (read.flatMap String.utf8EncodeChar).length)
    (hshows : e.Shows read rest) : e.Anchored bytes read rest := by
  refine ⟨htext, hloc, hshows, rfl, rfl, Error.width_diagnostic fun lexeme hlexeme => ?_⟩
  have hshown := Error.length_shown_le hshows lexeme hlexeme
  have hbytes := htext.starts.length_le
  have hchars := length_le_of_decodeSource (decodeSource_iff.mpr (Eq.refl
    ((read ++ rest).flatMap String.utf8EncodeChar)))
  rw [List.length_append] at hchars
  omega

/-- The error of a text points at what it is about. -/
theorem anchored_of_parseText {text : List Char} {e : Error}
    (hn : (text.flatMap String.utf8EncodeChar).length < UInt32.size - 1)
    (h : parseText text = .error e) :
    ∃ read rest, e.Anchored (text.flatMap String.utf8EncodeChar) read rest := by
  have hlongest : IsLongestText (text.flatMap String.utf8EncodeChar) text :=
    ⟨List.prefix_refl _, fun cs hcs => hcs.length_le⟩
  have hstart := Reader.standsIn_ofText text
  rcases parseText_error h with ⟨fault, rfl, hfault⟩ | ⟨-, t, ht, hstands⟩
  · obtain ⟨us, r, hr, hnext⟩ := Reader.reaches_of_lexText_error hfault
    obtain ⟨o, hat, hloc⟩ := (hr.standsIn hstart).fault hnext
    obtain ⟨before, gap, first, behind, rfl, -, rfl, -, -, hscan⟩ := hat
    rw [← List.append_assoc] at hlongest hloc hn ⊢
    exact ⟨before ++ gap, first :: behind,
      Error.anchored hn hlongest hloc (LexFault.shows_of_scan hscan)⟩
  · obtain ⟨r, after, hr, hnext⟩ := Reader.standsIn_of_holds hstart ht
    have htoken := hr.tokenAt hnext
    have hloc := hr.loc_token hnext
    obtain ⟨read, htext, hread⟩ := hr.at_token hnext
    have hoffset : t.offset = (read.flatMap String.utf8EncodeChar).length := by
      rw [← Cursor.offset_start_advance, ← hread]
      rfl
    simp only at htext hread
    rw [hoffset] at hloc
    rw [hread] at htoken
    refine ⟨read, t.lexeme.toList ++ after.rest, ?_⟩
    rw [htext] at hlongest hloc hn htoken ⊢
    refine Error.anchored hn hlongest ?_ ?_
    · rcases hstands with ⟨expected, rfl⟩ | rfl <;> exact hloc
    · rcases hstands with ⟨expected, rfl⟩ | rfl
      · exact ⟨t, after.cursor, htoken, hread, rfl, rfl, List.prefix_append _ _,
          Reader.lexeme_eq_empty_iff hnext⟩
      · exact ⟨t, after.cursor, htoken, hread⟩

/-- **Every error points at what it is about**, and so does its diagnostic: what the source shows at
the place of the error, on a character boundary of its longest well-formed part, is the lexeme or
the mark that is at fault, the token that no rule accepts, or the token that is nested too deeply;
and the diagnostic marks as many characters as the lexeme has that the error names. -/
theorem errors_anchored {bytes : List UInt8} {e : Error} (hn : bytes.length < UInt32.size - 1)
    (h : parse bytes = .error e) : ∃ read rest, e.Anchored bytes read rest := by
  rw [parse] at h
  split at h
  · rename_i fault hdecode
    cases h
    rw [decodeSource] at hdecode
    split at hdecode
    · cases hdecode
    · rename_i n hn'
      cases hdecode
      obtain ⟨cs, hcs, hle, hlongest⟩ := Utf8.longest_of_decode hn'
      have hlength : (cs.flatMap String.utf8EncodeChar).length = n := by
        rw [← hcs, List.length_take, Nat.min_eq_left hle]
      have htext : IsLongestText bytes (cs ++ []) := by
        rw [List.append_nil]
        exact ⟨hcs ▸ List.take_prefix n bytes, fun ds hds => hlength ▸ hlongest ds hds⟩
      have hloc : Location.ofOffset bytes n =
          .ofOffset bytes (cs.flatMap String.utf8EncodeChar).length := by rw [hlength]
      exact ⟨cs, [], Error.anchored hn htext hloc rfl⟩
  · rename_i text hdecode
    obtain rfl := decodeSource_iff.mp hdecode
    exact anchored_of_parseText hn h

/-- The mark that would close the string stands behind a backslash; the line before it has a
character of two bytes. -/
theorem errors_anchored_of_open_string :
    let source := "é(\n 'a\\'".toUTF8.data.toList
    let e : Error := .lexical ⟨.unterminatedString, ⟨2, 2⟩⟩
    source.length < UInt32.size - 1 ∧ parse source = .error e ∧
      ∃ read rest, e.Anchored source read rest := by
  intro source e
  have hsource : parse source = .error e := by rfl
  exact ⟨by decide, hsource, errors_anchored (by decide) hsource⟩

end RSource
