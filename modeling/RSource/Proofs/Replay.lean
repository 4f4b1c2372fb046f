import RSource.Proofs.Precedence
import RSource.Proofs.Written

/-!
# Derivations on rendered text

What was derived from the tokens of a source is derived, but for its places, from any tokens that
write the same items.

* `Replays` — what is asked of the relation of an expression.
* `ReadsName.replay`, `ReadsArguments.replay`, `ReadsGroups.replay`, `ReadsFormals.replay` and the
  like — names and the lists in brackets.
-/

namespace RSource.Grammar

variable {E : ExprReads} {s s' s₂ s₂' : Tape}

/-- The token that writes a leaf. -/
theorem code_of_fits {label : Label} {loc : Location} {k : TokenKind} {text : String} {t : Token}
    (h : Fits [.mark label loc, .token k text] [t]) : t.code = (k, text) := by
  cases h with
  | mark h =>
      cases h with
      | token ht _ => exact ht

theorem ReadsName.replay {i : Identifier} (h : ReadsName s i s') (hw : Written i.items s₂ s₂') :
    ∃ j, ReadsName s₂ j s₂' ∧ j.erase = i.erase ∧ SameFront s s₂ := by
  cases h with
  | @mk t ht hk =>
      have hl := isLayout_of_name hk
      have hfits : Fits (Identifier.ofToken t).items [t] := by
        refine Identifier.fits_ofToken (Tape.spelled_of_front ht hl) ?_
        rcases hk with hk | hk
        · exact Or.inl hk
        · exact Or.inr (Or.inl hk)
      obtain ⟨u, hu, ha, hnil⟩ := hw.unmark.alike (code_of_fits hfits) hl
      rw [hnil.of_nil]
      refine ⟨_, .mk hu.front (by rwa [ha.kind]), ha.identifier ?_, t, u, ht, hu, ha.kind⟩
      rcases hk with hk | hk <;> simp [hk]

/-- The name of an argument is read again. -/
theorem argName_replay {t : Token} {n : ArgName} {is : List Item} (ht : s.front = .ok t)
    (hn : ArgName.ofToken? t = some n) (hw : Written (n.items ++ is) s₂ s₂') :
    ∃ u m, s₂.Faces u ∧ u.kind = t.kind ∧ ArgName.ofToken? u = some m ∧ m.erase = n.erase ∧
      Written is s₂.past s₂' := by
  have hl := isLayout_of_argName hn
  have hfits := ArgName.fits_ofToken? (Tape.spelled_of_front ht hl) hn
  cases n with
  | identifier i | constant i =>
      obtain ⟨u, hu, ha, hrest⟩ := hw.unmark.alike (code_of_fits hfits) hl
      obtain ⟨m, hm, he⟩ := ha.argName hn
      exact ⟨u, m, hu, ha.kind, hm, he, hrest⟩

/-- What is asked of the relation of an expression: it is read again, but for its places, from
whatever tokens write it, if it ends alike. Where its first token may name an argument, what follows
that token is alike too. -/
structure Replays (E : ExprReads) : Prop where
  replay : ∀ {m : Nat} {s s' s₂ s₂' : Tape} {e : Expression}, E m s e s' →
    s₂.layouts = s.layouts → Written e.items s₂ s₂' → Agree s' s₂' →
    (∃ e', E m s₂ e' s₂' ∧ e'.erase = e.erase) ∧ SameFront s s₂ ∧
      ∀ t n, s.front = .ok t → ArgName.ofToken? t = some n → Agree s.past s₂.past
  starts : ∀ {m : Nat} {s s' : Tape} {e : Expression}, E m s e s' →
    ∃ t, s.front = .ok t ∧ startsExpression t.kind = true

section Bracketed

variable {close : TokenKind} (hC : Covers E) (hR : Replays E)

include hC hR

omit hC in
theorem ReadsArgument.replay {a : Argument} (h : ReadsArgument E close s a s')
    (hl : s₂.layouts = s.layouts) (hw : Written a.items s₂ s₂') (hend : SameFront s' s₂') :
    ∃ a', ReadsArgument E close s₂ a' s₂' ∧ a'.erase = a.erase ∧ SameFront s s₂ := by
  cases h with
  | @value s' t e ht hn he =>
      obtain ⟨⟨e', he', herase⟩, hfront, hnext⟩ := hR.replay he hl hw hend.agree
      obtain ⟨u, hu, hk⟩ := hfront.faces ht
      refine ⟨.value e', .value hu.front ?_ he', congrArg Argument.value herase, hfront⟩
      cases hname : ArgName.ofToken? t with
      | none => exact Or.inl (Alike.argName_none hk hname)
      | some n =>
          rcases hn with hn | ⟨v, hv, hne⟩
          · rw [hname] at hn
            cases hn
          · exact Or.inr ((hnext t n ht hname).ne_eqAssign hv hne)
  | @name t u v n ht hn hu hk hv hend' =>
      obtain ⟨t', m, ht', hkt, hm, herase, hrest⟩ := argName_replay ht hn hw
      obtain ⟨u', hu', hku, hnil⟩ := hrest.word (by simp)
      have hs := hnil.of_nil
      subst hs
      obtain ⟨v', hv', hkv⟩ := hend.faces hv
      exact ⟨.name m, .name ht'.front hm hu'.front hku hv'.front (by rwa [hkv]),
        congrArg Argument.name herase, t, t', ht, ht', hkt⟩
  | @named s' t u v n e ht hn hu hk hv hend' he =>
      obtain ⟨t', m, ht', hkt, hm, herase, hrest⟩ := argName_replay ht hn hw
      obtain ⟨u', hu', hku, hvalue⟩ := hrest.word (by simp)
      have hl' : s₂.past.past.layouts = s.past.past.layouts := by simpa using hl
      obtain ⟨⟨e', he', heq⟩, hfront, -⟩ := hR.replay he hl' hvalue hend.agree
      obtain ⟨v', hv', hkv⟩ := hfront.faces hv
      refine ⟨.named m e', .named ht'.front hm hu'.front hku hv'.front (by rwa [hkv]) he', ?_,
        t, t', ht, ht', hkt⟩
      rw [Argument.erase, Argument.erase, herase, heq]

omit hC in
theorem ReadsSlot.replay {a : Argument} (h : ReadsSlot E close s a s')
    (hl : s₂.layouts = s.layouts) (hw : Written a.items s₂ s₂') (hend : SameFront s' s₂') :
    ∃ a', ReadsSlot E close s₂ a' s₂' ∧ a'.erase = a.erase ∧ SameFront s s₂ := by
  cases h with
  | empty ht hk =>
      rw [hw.of_nil] at hend ⊢
      obtain ⟨u, hu, hku⟩ := hend.faces ht
      exact ⟨.empty, .empty hu.front (hku.trans hk), rfl, hend⟩
  | filled ht hk ha =>
      obtain ⟨a', ha', herase, hfront⟩ := ha.replay hR hl hw hend
      obtain ⟨u, hu, hku⟩ := hfront.faces ht
      exact ⟨a', .filled hu.front (by rwa [hku]) ha', herase, hfront⟩

theorem ReadsSlots.replay {as : List Argument} (h : ReadsSlots E close s as s')
    (hl : s₂.layouts = s.layouts) (hw : Written (argumentItems [] as) s₂ s₂')
    (hend : SameFront s' s₂') :
    ∃ as', ReadsSlots E close s₂ as' s₂' ∧ eraseArguments as' = eraseArguments as ∧
      SameFront s s₂ := by
  induction h generalizing s₂ with
  | last ha hu hc hk =>
      simp only [argumentItems, List.nil_append, List.append_nil] at hw
      obtain ⟨a', ha', herase, hfront⟩ := ha.replay hR hl hw hend
      obtain ⟨v, hv, hkv⟩ := hend.faces hu
      refine ⟨[a'], .last ha' hv.front (by rwa [hkv]) (hkv.trans hk), ?_, hfront⟩
      simp only [eraseArguments, herase]
  | @trailing s s₁ u v a ha hu hc hv hk =>
      simp only [argumentItems, Argument.items, List.nil_append, List.append_nil] at hw
      obtain ⟨s₃, hwa, hcomma⟩ := hw.split
      obtain ⟨u', hu', hku, hnil⟩ := hcomma.word (by simp)
      have hs := hnil.of_nil
      subst hs
      have hsame : SameFront _ _ := ⟨u, u', hu, hu', hku.trans hc.symm⟩
      obtain ⟨a', ha', herase, hfront⟩ := ha.replay hR hl hwa hsame
      obtain ⟨v', hv', hkv⟩ := hend.faces hv
      refine ⟨[a', .empty], .trailing ha' hu'.front hku hv'.front (hkv.trans hk), ?_, hfront⟩
      simp only [eraseArguments, herase]
  | @more s s₁ s' u v a as ha hu hc hv hk hs ih =>
      have hcons : argumentItems [] (a :: as) =
          a.items ++ .word .comma :: argumentItems [] as := by
        cases hs <;> simp [argumentItems]
      rw [hcons] at hw
      obtain ⟨s₃, hwa, hcomma⟩ := hw.split
      obtain ⟨u', hu', hku, hrest⟩ := hcomma.word (by simp)
      have hl₁ : s₃.past.layouts = s₁.past.layouts := by
        simpa using hwa.same_layouts (ha.spans hC) hl
      obtain ⟨as', has', heras, hnext⟩ := ih hl₁ hrest hend
      have hsame : SameFront _ _ := ⟨u, u', hu, hu', hku.trans hc.symm⟩
      obtain ⟨a', ha', hera, hfront⟩ := ha.replay hR hl hwa hsame
      obtain ⟨v', hv', hkv⟩ := hnext.faces hv
      refine ⟨a' :: as', .more ha' hu'.front hku hv'.front (by rwa [hkv]) has', ?_, hfront⟩
      simp only [eraseArguments, hera, heras]

theorem ReadsArguments.replay {as : List Argument} (h : ReadsArguments E close s as s')
    (hl : s₂.layouts = s.layouts) (hw : Written (argumentItems [] as) s₂ s₂')
    (hend : SameFront s' s₂') :
    ∃ as', ReadsArguments E close s₂ as' s₂' ∧ eraseArguments as' = eraseArguments as ∧
      SameFront s s₂ := by
  cases h with
  | none ht hk =>
      rw [hw.of_nil] at hend ⊢
      obtain ⟨u, hu, hku⟩ := hend.faces ht
      exact ⟨[], .none hu.front (hku.trans hk), rfl, hend⟩
  | some ht hk hs =>
      obtain ⟨as', has', herase, hfront⟩ := hs.replay hC hR hl hw hend
      obtain ⟨u, hu, hku⟩ := hfront.faces ht
      exact ⟨as', .some hu.front (by rwa [hku]) has', herase, hfront⟩

omit hC hR in
theorem ReadsClosing.replay {kind : Brackets} (h : ReadsClosing kind s s')
    (hw : Written [.close kind] s₂ s₂') : ReadsClosing kind s₂ s₂' ∧ SameFront s s₂ := by
  cases h with
  | single ht hk hne =>
      cases kind with
      | call | index =>
          obtain ⟨u, hu, hku, hnil⟩ := Written.word hw (by simp)
          rw [hnil.of_nil]
          exact ⟨.single hu.front hku hne, _, u, ht, hu, hku.trans hk.symm⟩
      | element => exact absurd rfl hne
  | double ht hk hu hj ho =>
      obtain ⟨t', u', ht', hkt, hu', hku, hoff, hnil⟩ := Written.closeElement hw
      rw [hnil.of_nil]
      exact ⟨.double ht'.front hkt hu'.front hku hoff, _, t', ht, ht', hkt.trans hk.symm⟩

theorem ReadsGroup.replay {g : Group} {around : List Label} (h : ReadsGroup E s g s')
    (hl : s₂.layouts = s.layouts) (hw : Written (g.items around) s₂ s₂') :
    ∃ g', ReadsGroup E s₂ g' s₂' ∧ g'.erase = g.erase ∧ SameFront s s₂ := by
  cases h with
  | @mk s₁ s₃ t u kind as ht hk hu ha hc =>
      have hne : kind.opening ≠ .newline := by cases kind <;> simp [Brackets.opening]
      obtain ⟨t', ht', hkt, hin⟩ := Written.word hw hne
      have hopen : t'.kind = t.kind := hkt.trans (opening_of_brackets hk).symm
      obtain ⟨s₄, hargs, hclose⟩ := (hin.unmarks.enter .free).split
      obtain ⟨hc', hend⟩ := hc.replay hclose
      have hl' : (s₂.past.enter .free).layouts = (s.past.enter .free).layouts := by simp [hl]
      obtain ⟨as', has', herase, hfront⟩ := ha.replay hC hR hl' hargs hend
      obtain ⟨u', hu', -⟩ := hfront.faces hu
      refine ⟨.mk u'.loc kind as', .mk ht'.front (by rwa [hopen]) hu'.front has' hc', ?_,
        t, t', ht, ht', hopen⟩
      rw [Group.erase, Group.erase, herase]

theorem ReadsGroups.replay {gs : List Group} {around : List Label} (h : ReadsGroups E s gs s')
    (hl : s₂.layouts = s.layouts) (hw : Written (groupItems around gs) s₂ s₂')
    (hend : Agree s' s₂') :
    (∃ gs', ReadsGroups E s₂ gs' s₂' ∧ eraseGroups gs' = eraseGroups gs) ∧ Agree s s₂ := by
  induction h generalizing s₂ around with
  | stop ht hk =>
      rw [hw.of_nil] at hend ⊢
      obtain ⟨u, hu, hb, -⟩ := hend.brackets ht hk
      exact ⟨⟨[], .stop hu hb, rfl⟩, hend⟩
  | more hg hs ih =>
      obtain ⟨s₃, hwg, hrest⟩ := hw.split
      have hspan : Spans (Group.items [] _) _ _ := hg.spans hC
      have hl₁ := hwg.same_layouts hspan hl
      obtain ⟨⟨gs', hgs', herases⟩, -⟩ := ih hl₁ hrest hend
      obtain ⟨g', hg', herase, hfront⟩ := hg.replay hC hR hl hwg
      refine ⟨⟨g' :: gs', .more hg' hgs', ?_⟩, hfront.agree⟩
      rw [eraseGroups, eraseGroups, herase, herases]

omit hC in
theorem ReadsFormal.replay {f : Formal} (h : ReadsFormal E s f s')
    (hl : s₂.layouts = s.layouts) (hw : Written f.items s₂ s₂') (hend : SameFront s' s₂') :
    ∃ f', ReadsFormal E s₂ f' s₂' ∧ f'.erase = f.erase ∧ SameFront s s₂ := by
  cases h with
  | required hi ht hk =>
      obtain ⟨j, hj, herase, hfront⟩ := hi.replay hw
      obtain ⟨u, hu, hku⟩ := hend.faces ht
      exact ⟨.required j, .required hj hu.front (by rwa [hku]), congrArg Formal.required herase,
        hfront⟩
  | defaulted hi ht hk he =>
      obtain ⟨s₃, hwi, hrest⟩ := hw.split
      obtain ⟨u, hu, hku, hvalue⟩ := hrest.word (by simp)
      have hl₁ := hwi.same_layouts hi.spans hl
      obtain ⟨j, hj, herase, hfront⟩ := hi.replay hwi
      obtain ⟨⟨e', he', heq⟩, -⟩ := hR.replay he (by simpa using hl₁) hvalue hend.agree
      refine ⟨.defaulted j e', .defaulted hj hu.front hku he', ?_, hfront⟩
      rw [Formal.erase, Formal.erase, herase, heq]

theorem ReadsSomeFormals.replay {fs : List Formal} (h : ReadsSomeFormals E s fs s')
    (hl : s₂.layouts = s.layouts) (hw : Written (formalItems [] fs) s₂ s₂')
    (hend : SameFront s' s₂') :
    ∃ fs', ReadsSomeFormals E s₂ fs' s₂' ∧ eraseFormals fs' = eraseFormals fs ∧
      SameFront s s₂ := by
  induction h generalizing s₂ with
  | last hf ht hk =>
      simp only [formalItems, List.nil_append, List.append_nil] at hw
      obtain ⟨f', hf', herase, hfront⟩ := hf.replay hR hl hw hend
      obtain ⟨u, hu, hku⟩ := hend.faces ht
      refine ⟨[f'], .last hf' hu.front (hku.trans hk), ?_, hfront⟩
      simp only [eraseFormals, herase]
  | @more s s₁ s' t f fs hf ht hk hs ih =>
      have hcons : formalItems [] (f :: fs) = f.items ++ .word .comma :: formalItems [] fs := by
        cases hs <;> simp [formalItems]
      rw [hcons] at hw
      obtain ⟨s₃, hwf, hcomma⟩ := hw.split
      obtain ⟨u, hu, hku, hrest⟩ := hcomma.word (by simp)
      have hl₁ : s₃.past.layouts = s₁.past.layouts := by
        simpa using hwf.same_layouts (hf.spans hC) hl
      obtain ⟨fs', hfs', herases, -⟩ := ih hl₁ hrest hend
      have hsame : SameFront s₁ s₃ := ⟨t, u, ht, hu, hku.trans hk.symm⟩
      obtain ⟨f', hf', herase, hfront⟩ := hf.replay hR hl hwf hsame
      refine ⟨f' :: fs', .more hf' hu.front hku hfs', ?_, hfront⟩
      simp only [eraseFormals, herase, herases]

theorem ReadsFormals.replay {fs : List Formal} (h : ReadsFormals E s fs s')
    (hl : s₂.layouts = s.layouts) (hw : Written (formalItems [] fs) s₂ s₂')
    (hend : SameFront s' s₂') :
    ∃ fs', ReadsFormals E s₂ fs' s₂' ∧ eraseFormals fs' = eraseFormals fs := by
  cases h with
  | none ht hk =>
      rw [hw.of_nil] at hend ⊢
      obtain ⟨u, hu, hku⟩ := hend.faces ht
      exact ⟨[], .none hu.front (hku.trans hk), rfl⟩
  | some ht hk hs =>
      obtain ⟨fs', hfs', herase, hfront⟩ := hs.replay hC hR hl hw hend
      obtain ⟨u, hu, hku⟩ := hfront.faces ht
      exact ⟨fs', .some hu.front (by rwa [hku]) hfs', herase⟩

end Bracketed

end RSource.Grammar
