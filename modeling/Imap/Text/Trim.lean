namespace Imap.Text

/-- What is left without the blanks at the two ends. -/
def trim (isBlank : Char → Bool) (cs : List Char) : List Char :=
  ((cs.dropWhile isBlank).reverse.dropWhile isBlank).reverse

end Imap.Text
