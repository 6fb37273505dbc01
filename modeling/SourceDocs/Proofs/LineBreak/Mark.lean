import SourceDocs.Proofs.LineBreak.Skip
import SourceDocs.Proofs.Roles
import SourceDocs.Prototype.Parse

namespace SourceDocs

open Buffer

variable {profile : Profile} {buf buf' : Buffer}

namespace Word

variable (hp : profile.SymbolsOneLine) (h : Alike buf buf')

include hp h

theorem at?_congr (limit i : Nat) : at? profile buf' limit i = at? profile buf limit i := by
  simp only [at?, Skip.name?_congr hp h, Skip.enclosed?_congr hp h]

theorem read_congr (halt : Nat → Bool) (limit i : Nat) :
    read profile buf' halt limit i = read profile buf halt limit i := by
  fun_induction read profile buf halt limit i <;> rw [read]
  all_goals grind [at?_congr hp h]

end Word

namespace Prototype

section Symbols

variable (h : Alike buf buf')

include h

theorem isIdentifier_congr : isIdentifier buf' = isIdentifier buf := by
  funext i
  simp only [isIdentifier, h.isText, h.isChar]

theorem isDefault_congr : isDefault buf' = isDefault buf := by
  funext i
  simp only [isDefault, h.isChar, h.matchesAt (show Unbroken ":=".toList by decide)]

theorem isListSeparator_congr : isListSeparator buf' = isListSeparator buf := by
  funext i
  simp only [isListSeparator, h.isChar]

theorem markDefault_congr (roles : Roles) (i stop : Nat) :
    markDefault buf' roles i stop = markDefault buf roles i stop := by
  simp only [markDefault, h.isChar, h.afterBlanks, h.beforeBlanks]

theorem qualifiedEnd_congr (stop i : Nat) :
    qualifiedEnd buf' stop i = qualifiedEnd buf stop i := by
  have hc : Unbroken "::".toList := by decide
  fun_induction qualifiedEnd buf stop i <;> rw [qualifiedEnd]
  all_goals simp_all [isIdentifier_congr h, h.isChar, h.matchesAt hc]

theorem typeEnds_congr (stop q i : Nat) : typeEnds buf' stop q i = typeEnds buf stop q i := by
  have hc : Unbroken "::".toList := by decide
  fun_induction typeEnds buf stop q i <;> rw [typeEnds]
  all_goals simp_all [isIdentifier_congr h, h.isChar, h.matchesAt hc]

theorem pointerStart_congr (start j : Nat) :
    pointerStart buf' start j = pointerStart buf start j := by
  fun_induction pointerStart buf start j <;> rw [pointerStart]
  all_goals
    simp only [h.isBlank, Skip.isPointer_congr h]
    grind

end Symbols

section Names

variable (hp : profile.SymbolsOneLine) (h : Alike buf buf')

include hp h

theorem hasColon_congr (stop i : Nat) :
    hasColon profile buf' stop i = hasColon profile buf stop i := by
  have hc : Unbroken "::".toList := by decide
  fun_induction hasColon profile buf stop i <;> rw [hasColon]
  all_goals
    simp only [isDefault_congr h, h.isChar, h.matchesAt hc]
    grind [Word.at?_congr hp h]

theorem styleOf_congr (start stop : Nat) :
    styleOf profile buf' start stop = styleOf profile buf start stop := by
  rw [styleOf, hasColon_congr hp h, styleOf]

theorem markNameSuffix_congr (roles : Roles) (stop i : Nat) :
    markNameSuffix profile buf' roles stop i = markNameSuffix profile buf roles stop i := by
  fun_induction markNameSuffix profile buf roles stop i <;> rw [markNameSuffix]
  all_goals
    simp only [h.isBlank]
    grind [Skip.block?_congr hp h]

theorem markName_congr (roles : Roles) (w : Word) :
    markName profile buf' roles w = markName profile buf roles w := by
  simp only [markName, isIdentifier_congr h, qualifiedEnd_congr h, markNameSuffix_congr hp h]

theorem modifiersAndLast_congr (roles : Roles) (start stop : Nat) :
    modifiersAndLast profile buf' roles start stop =
      modifiersAndLast profile buf roles start stop := by
  simp only [modifiersAndLast, Word.read_congr hp h]

theorem markModifiersAndName_congr (roles : Roles) (start stop : Nat) :
    markModifiersAndName profile buf' roles start stop =
      markModifiersAndName profile buf roles start stop := by
  simp only [markModifiersAndName, modifiersAndLast_congr hp h, markName_congr hp h]

-- A type, its suffix and the list in it call each other. The induction is on their calls, with one
-- case for each way in which one of them goes on.
theorem markType_congr_mutual :
    (∀ (roles : Roles) (start stop : Nat),
      markType profile buf' roles start stop = markType profile buf roles start stop) ∧
    (∀ (roles : Roles) (stop i : Nat),
      markTypeSuffix profile buf' roles stop i = markTypeSuffix profile buf roles stop i) ∧
    (∀ (roles : Roles) (stop i : Nat),
      markTypeList profile buf' roles stop i = markTypeList profile buf roles stop i) ∧
    ∀ (roles : Roles) (start stop : Nat),
      markModifiersAndType profile buf' roles start stop =
        markModifiersAndType profile buf roles start stop := by
  apply markType.mutual_induct profile buf
  case case1 =>
    dsimp only
    intro roles start stop ih
    rw [markType, isIdentifier_congr h, typeEnds_congr h, ih, markType]
  case case2 =>
    dsimp only
    intro roles stop i hi j hj ih₁ _ ih₂
    -- The list inside the block is marked before what follows, unless the block is empty.
    have hj' : (Skip.block? profile buf' true i).filter (· ≤ stop) = some j := by
      rw [Skip.block?_congr hp h, hj]
    rw [markTypeSuffix_block profile hi hj', markTypeSuffix_block profile hi hj]
    split
    case isTrue hlt =>
      rw [dif_pos hlt] at ih₂
      rw [ih₁ hlt, ih₂]
    case isFalse hlt =>
      rw [dif_neg hlt] at ih₂
      exact ih₂
  case case3 =>
    intro roles stop i hi hn ih
    have hn' : (Skip.block? profile buf' true i).filter (· ≤ stop) = none := by
      rw [Skip.block?_congr hp h, hn]
    rw [markTypeSuffix_other profile hi hn', markTypeSuffix_other profile hi hn, ih]
  case case4 =>
    intro roles stop i hi
    rw [markTypeSuffix_end profile hi, markTypeSuffix_end profile hi]
  case case5 =>
    dsimp only
    intro roles stop i hi ih₁ _ ih₂
    -- The piece is cut out at the same separator, between the same blanks.
    rw [markTypeList_piece profile hi rfl rfl rfl, markTypeList_piece profile hi rfl rfl rfl]
    simp only [isListSeparator_congr h, Word.read_congr hp h, h.beforeBlanks, h.afterBlanks]
    split
    case isTrue hlt =>
      simp only [dif_pos hlt] at ih₂
      rw [ih₁ hlt, ih₂]
    case isFalse hlt =>
      simp only [dif_neg hlt] at ih₂
      exact ih₂
  case case6 =>
    intro roles stop i hi
    rw [markTypeList_end profile hi, markTypeList_end profile hi]
  case case7 =>
    dsimp only
    intro roles start stop w hw ih
    rw [markModifiersAndType_eq, markModifiersAndType_eq, modifiersAndLast_congr hp h]
    simp only [hw, ih]
  case case8 =>
    dsimp only
    intro roles start stop hw
    rw [markModifiersAndType_eq, markModifiersAndType_eq, modifiersAndLast_congr hp h]
    simp only [hw]

theorem markModifiersAndType_congr (roles : Roles) (start stop : Nat) :
    markModifiersAndType profile buf' roles start stop =
      markModifiersAndType profile buf roles start stop :=
  (markType_congr_mutual hp h).2.2.2 roles start stop

theorem markDeclaredType_congr (roles : Roles) (w : Word) :
    markDeclaredType profile buf' roles w = markDeclaredType profile buf roles w := by
  simp only [markDeclaredType, (markType_congr_mutual hp h).1, pointerStart_congr h,
    Skip.isPointer_congr h, h.isBlank]

end Names

section Declarations

variable (hp : profile.SymbolsOneLine) (h : Alike buf buf')

include hp h

theorem markWords_congr (roles : Roles) (words : List Word) :
    markWords profile buf' roles words = markWords profile buf roles words := by
  fun_induction markWords profile buf roles words <;> rw [markWords]
  all_goals simp_all [markName_congr hp h, markDeclaredType_congr hp h]

theorem markC_congr (roles : Roles) (start stop : Nat) :
    markC profile buf' roles start stop = markC profile buf roles start stop := by
  simp only [markC, isDefault_congr h, Word.read_congr hp h, markDefault_congr h,
    markWords_congr hp h]

theorem survey_congr (stop : Nat) (s : Survey) (i : Nat) :
    survey profile buf' stop s i = survey profile buf stop s i := by
  have hc : Unbroken "::".toList := by decide
  fun_induction survey profile buf stop s i <;> rw [survey]
  all_goals
    simp only [isDefault_congr h, h.isChar, h.matchesAt hc, markDefault_congr h]
    grind [Word.at?_congr hp h]

theorem markPascalName_congr (roles : Roles) (n : Nat) (words : List Word) :
    markPascalName profile buf' roles n words = markPascalName profile buf roles n words := by
  fun_induction markPascalName profile buf roles n words <;> rw [markPascalName]
  all_goals simp_all [markName_congr hp h]

theorem markPascalType_congr (roles : Roles) (n : Nat) (words : List Word) :
    markPascalType profile buf' roles n words = markPascalType profile buf roles n words := by
  fun_induction markPascalType profile buf roles n words <;> rw [markPascalType]
  all_goals simp_all [(markType_congr_mutual hp h).1]

theorem markPascal_congr (roles : Roles) (start stop : Nat) :
    markPascal profile buf' roles start stop = markPascal profile buf roles start stop := by
  simp only [markPascal, survey_congr hp h, Word.read_congr hp h, markPascalName_congr hp h,
    markPascalType_congr hp h]

theorem mark_congr (style : Style) (roles : Roles) (start stop : Nat) :
    mark profile buf' style roles start stop = mark profile buf style roles start stop := by
  cases style
  case c => exact markC_congr hp h ..
  case pascal => exact markPascal_congr hp h ..

end Declarations

section Lists

variable (hp : profile.SymbolsOneLine) (h : Alike buf buf')

include h

theorem emptyRoles_congr : Roles.empty buf' = Roles.empty buf := by
  simp only [Roles.empty, h.size]

theorem ranges_congr (start stop : Nat) (separators : List Nat) :
    Delimited.ranges buf' start stop separators = Delimited.ranges buf start stop separators := by
  induction separators generalizing start
  all_goals simp_all [Delimited.ranges, Delimited.trimmed, h.afterBlanks, h.beforeBlanks]

theorem parameters_congr (d : Delimited) : d.parameters buf' = d.parameters buf := by
  simp only [Delimited.parameters, Delimited.stop, h.size, ranges_congr h]

include hp

theorem listOpening?_congr (i : Nat) :
    listOpening? profile buf' i = listOpening? profile buf i := by
  have ht : Unbroken "this".toList := by decide
  fun_induction listOpening? profile buf i <;> rw [listOpening?]
  all_goals
    simp only [h.isChar, h.isToken ht, h.lastNonBlank, h.size]
    grind [Skip.quoted?_congr hp h]

theorem listSeparators_congr (closer : Char) (i : Nat) :
    listSeparators profile buf' closer i = listSeparators profile buf closer i := by
  fun_induction listSeparators profile buf closer i <;> rw [listSeparators]
  all_goals
    simp only [isListSeparator_congr h, h.isChar, h.size]
    grind [Skip.enclosed?_congr hp h]

theorem delimit?_congr : delimit? profile buf' = delimit? profile buf := by
  simp only [delimit?, listOpening?_congr hp h, listSeparators_congr hp h]

theorem markAround_congr (d : Delimited) (roles : Roles) :
    markAround profile buf' d roles = markAround profile buf d roles := by
  have hstop : d.stop buf' = d.stop buf := by rw [Delimited.stop, h.size, Delimited.stop]
  unfold markAround
  rw [hstop, h.size, h.isChar]
  simp only [h.afterBlanks, h.beforeBlanks, markModifiersAndType_congr hp h,
    markModifiersAndName_congr hp h, markC_congr hp h]

theorem listStyle?_congr (parameters : List (Nat × Nat)) :
    listStyle? profile buf' parameters = listStyle? profile buf parameters := by
  simp only [listStyle?, styleOf_congr hp h]

-- The roles are the same, but they stand at the tokens of another text.
theorem ofDelimited_congr (d : Delimited) :
    ofDelimited profile buf' d = { ofDelimited profile buf d with buffer := buf' } := by
  simp only [ofDelimited, parameters_congr h, listStyle?_congr hp h, mark_congr hp h,
    Delimited.mark, emptyRoles_congr h, markAround_congr hp h, Delimited.stop, h.size]

end Lists

end Prototype
end SourceDocs
