namespace SourceDocs.CommandLine

-- Characters that a terminal would act on are spelled out, line breaks and other blanks apart.
def logChar (c : Char) : List Char :=
  if c = '\x1b' then "\\x1b".toList
  else if c = '\x07' then "\\x07".toList
  else if c = '\x08' then "\\x08".toList
  else if c = '\x0c' then "\\x0c".toList
  else if c = '\x7f' then "\\x7f".toList
  else if 0x80 ≤ c.toNat && c.toNat < 0xa0 then
    ['\\', 'u', '\x7b'] ++ Nat.toDigits 16 c.toNat ++ ['\x7d']
  else [c]

def logText (message : String) : String :=
  String.ofList (message.toList.flatMap logChar)

end SourceDocs.CommandLine
