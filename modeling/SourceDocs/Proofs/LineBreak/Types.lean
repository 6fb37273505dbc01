import SourceDocs.Proofs.ParameterList

namespace SourceDocs

def Role.isTypeName : Role → Bool
  | type | typeQualifier => true
  | _ => false

-- The names of types have no line breaks in them.
def Roles.TypesUnbroken (roles : Roles) (buf : Buffer) : Prop :=
  ∀ k, buf.isLineBreak k = true → (roles.get k).any Role.isTypeName = false

namespace Roles.TypesUnbroken

variable {roles : Roles} {buf : Buffer} {role : Option Role} {i j : Nat}

theorem empty (buf : Buffer) : (Roles.empty buf).TypesUnbroken buf := by
  intro k _
  have hnone : (Roles.empty buf).get k = none := by
    simp only [Roles.empty, get, Array.getElem?_replicate]
    split <;> rfl
  rw [hnone]
  rfl

theorem set (h : roles.TypesUnbroken buf) (i : Nat) (hr : role.any Role.isTypeName = false) :
    (roles.set i role).TypesUnbroken buf := by
  intro k hk
  rw [get_set]
  split
  · exact hr
  · exact h k hk

theorem setRange (h : roles.TypesUnbroken buf) (i j : Nat)
    (hr : role.any Role.isTypeName = false) : (roles.setRange i j role).TypesUnbroken buf := by
  intro k hk
  rw [get_setRange]
  split
  · exact hr
  · exact h k hk

theorem set_name (h : roles.TypesUnbroken buf) (hn : buf.isLineBreak i = false) :
    (roles.set i role).TypesUnbroken buf := by
  intro k hk
  rw [get_set]
  split
  case isTrue hin => simp [hin.1 ▸ hk] at hn
  case isFalse => exact h k hk

theorem foldl {α : Type} {f : Roles → α → Roles} {xs : List α} (h : roles.TypesUnbroken buf)
    (hf : ∀ r : Roles, r.TypesUnbroken buf → ∀ x, (f r x).TypesUnbroken buf) :
    (xs.foldl f roles).TypesUnbroken buf := by
  induction xs generalizing roles
  case nil => exact h
  case cons x xs hi => exact hi (hf roles h x)

end Roles.TypesUnbroken

namespace Prototype

variable (profile : Profile) {buf : Buffer} {roles : Roles}

theorem isLineBreak_of_isIdentifier {i : Nat} (h : isIdentifier buf i = true) :
    buf.isLineBreak i = false := by
  simp only [isIdentifier, Bool.or_eq_true] at h
  rcases h with h | h
  case inl =>
    obtain ⟨t, ht, hk⟩ := Buffer.isText_iff.mp h
    simp [Buffer.isLineBreak, Buffer.kind?, ht, hk]
  case inr => exact Buffer.not_isLineBreak_of_isChar h

theorem IsTypePart.not_isLineBreak {k : Nat} (h : IsTypePart buf k) :
    buf.isLineBreak k = false := by
  rcases h with h | h | h
  case inl => exact isLineBreak_of_isIdentifier h
  case inr.inl => exact Buffer.not_isLineBreak_of_isChar h
  case inr.inr => exact Buffer.not_isLineBreak_of_isChar h

section Marks

variable (h : roles.TypesUnbroken buf)

include h

theorem typesUnbroken_markDefault (i stop : Nat) :
    (markDefault buf roles i stop).TypesUnbroken buf := by
  unfold markDefault
  generalize (if buf.isChar i '=' then i + 1 else i + 2) = afterSign
  dsimp only
  split
  · exact .setRange (.setRange h _ _ rfl) _ _ rfl
  · exact .setRange h _ _ rfl

theorem typesUnbroken_markModifier (w : Word) : (markModifier roles w).TypesUnbroken buf := by
  unfold markModifier
  split
  · exact .set (.set h _ rfl) _ rfl
  · exact .setRange h _ _ rfl

theorem typesUnbroken_markNameSuffix (stop i : Nat) :
    (markNameSuffix profile buf roles stop i).TypesUnbroken buf := by
  fun_induction markNameSuffix profile buf roles stop i
  case case1 ih => exact ih (.set (.set h _ rfl) _ rfl)
  case case2 roles' ih =>
    refine ih ?_
    simp only [roles']
    split
    · exact h
    · exact h.set _ rfl
  case case3 => exact h

theorem typesUnbroken_markName (w : Word) : (markName profile buf roles w).TypesUnbroken buf :=
  typesUnbroken_markNameSuffix profile (.setRange (.setRange h _ _ rfl) _ _ rfl) _ _

theorem typesUnbroken_modifiers (words : List Word) :
    (words.foldl (fun r w => r.setRange w.start w.stop (some .modifier)) roles).TypesUnbroken buf :=
  h.foldl fun _ hr _ => hr.setRange _ _ rfl

theorem typesUnbroken_markModifiersAndName (start stop : Nat) :
    (markModifiersAndName profile buf roles start stop).TypesUnbroken buf := by
  unfold markModifiersAndName
  dsimp only
  split
  · exact typesUnbroken_markName profile (typesUnbroken_modifiers h _) _
  · exact typesUnbroken_modifiers h _

theorem typesUnbroken_markPascalName (n : Nat) (words : List Word) :
    (markPascalName profile buf roles n words).TypesUnbroken buf := by
  fun_induction markPascalName profile buf roles n words
  case case1 => exact h
  case case2 => exact h
  case case3 => exact typesUnbroken_markName profile h _
  case case4 ih => exact ih (typesUnbroken_markModifier h _)

end Marks

theorem TypeRun.typesUnbroken {i stop : Nat} {r r' : Roles} (h : TypeRun profile buf i stop r r')
    (hr : r.TypesUnbroken buf) : r'.TypesUnbroken buf := by
  induction h
  case nil => exact hr
  case token ht _ ih =>
    refine ih ?token
    rcases ht.role with rfl | rfl | ⟨rfl | rfl, hpart⟩
    · exact hr.set _ rfl
    · exact hr.set _ rfl
    · exact hr.set_name hpart.not_isLineBreak
    · exact hr.set_name hpart.not_isLineBreak
  case block list rest => exact rest (list (.set (.set hr _ rfl) _ rfl))
  case bracket rest => exact rest (.set hr _ rfl)

section Declarations

variable (hb : buf.WellFormed) (h : roles.TypesUnbroken buf)

include hb h

theorem typesUnbroken_markType (start stop : Nat) :
    (markType profile buf roles start stop).TypesUnbroken buf :=
  (typeRun_markType profile hb roles start stop).typesUnbroken profile h

theorem typesUnbroken_markModifiersAndType (start stop : Nat) :
    (markModifiersAndType profile buf roles start stop).TypesUnbroken buf :=
  (typeRun_markModifiersAndType profile hb roles start stop).typesUnbroken profile h

theorem typesUnbroken_markDeclaredType (w : Word) :
    (markDeclaredType profile buf roles w).TypesUnbroken buf := by
  unfold markDeclaredType
  dsimp only
  have htype := typesUnbroken_markType profile hb h w.start w.stop
  split
  case isTrue =>
    refine htype.foldl fun r hr i => ?_
    split
    · exact .set hr _ rfl
    · split
      · exact .set hr _ rfl
      · exact hr
  case isFalse => exact htype

theorem typesUnbroken_markWords (words : List Word) :
    (markWords profile buf roles words).TypesUnbroken buf := by
  fun_induction markWords profile buf roles words
  case case1 => exact h
  case case2 => exact typesUnbroken_markName profile h _
  case case3 =>
    exact typesUnbroken_markName profile (typesUnbroken_markDeclaredType profile hb h _) _
  case case4 ih => exact ih (typesUnbroken_markModifier h _)

theorem typesUnbroken_markC (start stop : Nat) :
    (markC profile buf roles start stop).TypesUnbroken buf := by
  refine typesUnbroken_markWords profile hb ?_ _
  split
  · exact typesUnbroken_markDefault h _ _
  · exact h

theorem typesUnbroken_markPascalType (n : Nat) (words : List Word) :
    (markPascalType profile buf roles n words).TypesUnbroken buf := by
  fun_induction markPascalType profile buf roles n words
  case case1 => exact h
  case case2 => exact h
  case case3 => exact typesUnbroken_markType profile hb h _ _
  case case4 ih => exact ih (typesUnbroken_markModifier h _)

end Declarations

theorem typesUnbroken_survey {s : Survey} (h : s.roles.TypesUnbroken buf) (stop i : Nat) :
    (survey profile buf stop s i).roles.TypesUnbroken buf := by
  fun_induction survey profile buf stop s i
  case case1 => exact typesUnbroken_markDefault h _ _
  case case2 ih => exact ih h
  case case3 ih => exact ih (.set h _ rfl)
  case case4 ih => exact ih h
  case case5 ih => exact ih h
  case case6 => exact h

theorem typesUnbroken_mark (hb : buf.WellFormed) (h : roles.TypesUnbroken buf) (style : Style)
    (start stop : Nat) : (mark profile buf style roles start stop).TypesUnbroken buf := by
  cases style
  case c => exact typesUnbroken_markC profile hb h start stop
  case pascal =>
    -- The survey marks the default and the separator, and the words are marked after it.
    have hs := typesUnbroken_survey profile (s := ⟨roles, 0, 0⟩) h stop start
    exact typesUnbroken_markPascalType profile hb (typesUnbroken_markPascalName profile hs _ _) _ _

theorem typesUnbroken_delimited (buf : Buffer) (d : Delimited) :
    (d.mark buf).TypesUnbroken buf := by
  unfold Delimited.mark
  have hlist : (d.separators.foldl (fun r i => r.set i (some .parameterSeparator))
      ((Roles.empty buf).set d.opener (some .startOfParameters))).TypesUnbroken buf :=
    .foldl (.set (.empty buf) _ rfl) fun r hr i => .set hr i rfl
  dsimp only
  split
  · exact .set hlist _ rfl
  · exact hlist

theorem typesUnbroken_markAround (hb : buf.WellFormed) (h : roles.TypesUnbroken buf)
    (d : Delimited) : (markAround profile buf d roles).TypesUnbroken buf := by
  obtain ⟨r, hbehind, hbefore⟩ := exists_of_markAround profile buf d
    (fun r r' => r.TypesUnbroken buf → r'.TypesUnbroken buf)
    (fun r r' => r.TypesUnbroken buf → r'.TypesUnbroken buf) (fun _ => id) (fun _ => id)
    (fun _ _ _ _ hr => typesUnbroken_markModifiersAndType profile hb hr _ _)
    (fun _ hr => typesUnbroken_markModifiersAndName profile hr _ _)
    (fun _ hr => typesUnbroken_markC profile hb hr _ _) roles
  exact hbefore (hbehind h)

theorem typesUnbroken_ofText (cs : List Char) :
    (ofText profile cs).roles.TypesUnbroken (ofText profile cs).buffer := by
  have hb := Buffer.wellFormed_ofChars cs
  unfold ofText
  dsimp only
  split
  case h_1 d _ =>
    have hlist := typesUnbroken_delimited (Buffer.ofChars cs) d
    exact typesUnbroken_markAround profile hb
      (hlist.foldl fun r hr _ => typesUnbroken_mark profile hb hr _ _ _) d
  case h_2 => exact typesUnbroken_mark profile hb (.empty _) _ _ _

end Prototype
end SourceDocs
