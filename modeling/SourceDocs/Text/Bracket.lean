namespace SourceDocs.Text

def closing? : Char → Option Char
  | '(' => some ')'
  | '[' => some ']'
  | '\x7b' => some '\x7d'
  | '<' => some '>'
  | _ => none

def isClosing (c : Char) : Bool :=
  c = ')' || c = ']' || c = '\x7d' || c = '>'

theorem isClosing_of_closing? {opener closer : Char} (h : closing? opener = some closer) :
    isClosing closer = true ∧ isClosing opener = false := by
  unfold closing? at h
  split at h <;> cases h <;> decide

end SourceDocs.Text
