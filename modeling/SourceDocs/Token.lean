namespace SourceDocs

inductive Token.Kind
  -- A run of ASCII letters and digits and of characters beyond ASCII.
  | text
  | blank
  -- A line feed, a carriage return, or the two together in reverse order.
  | lineBreak
  | symbol
deriving DecidableEq, Repr

def Token.Kind.ofChar (c : Char) : Token.Kind :=
  if c.isAlphanum || 0x7f < c.toNat then .text
  else if c == ' ' || c == '\t' then .blank
  else if c == '\n' || c == '\r' then .lineBreak
  else .symbol

structure Token where
  kind : Token.Kind
  chars : List Char
deriving DecidableEq, Repr

namespace Token

def lead (c : Char) (cs : List Char) : Token × List Char :=
  match Kind.ofChar c with
  | .text =>
    (⟨.text, c :: cs.takeWhile (Kind.ofChar · = .text)⟩, cs.dropWhile (Kind.ofChar · = .text))
  | .blank =>
    (⟨.blank, c :: cs.takeWhile (Kind.ofChar · = .blank)⟩, cs.dropWhile (Kind.ofChar · = .blank))
  | .lineBreak =>
    match cs with
    | '\n' :: rest =>
      if c = '\r' then (⟨.lineBreak, ['\r', '\n']⟩, rest) else (⟨.lineBreak, [c]⟩, cs)
    | _ => (⟨.lineBreak, [c]⟩, cs)
  | .symbol => (⟨.symbol, [c]⟩, cs)

theorem length_lead_le (c : Char) (cs : List Char) : (lead c cs).2.length ≤ cs.length := by
  unfold lead
  split
  case h_1 => exact (List.dropWhile_sublist _).length_le
  case h_2 => exact (List.dropWhile_sublist _).length_le
  case h_3 => split <;> (try split) <;> simp
  case h_4 => simp

def scan : List Char → List Token
  | [] => []
  | c :: cs => (lead c cs).1 :: scan (lead c cs).2
termination_by cs => cs.length
decreasing_by exact Nat.lt_succ_of_le (length_lead_le c cs)

end Token
end SourceDocs
