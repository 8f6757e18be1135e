import Imap.Rule.Lexical
import Imap.SequenceSet.Basic

namespace Imap

def SeqNo.rule : Rule SeqNo := do
  if ← Rule.skip? "*" then return .star
  Rule.ofExcept (SeqNo.ofInt (← Rule.nonZeroNumber))

namespace SeqElement

def rangeRule : Rule SeqElement := do
  let first ← SeqNo.rule
  Rule.expect ":" .rangeColon
  return range first (← SeqNo.rule)

def singleRule : Rule SeqElement := single <$> SeqNo.rule

/-- A range is tried first: a single number would match its first half. -/
def rule : Rule SeqElement := Rule.oneOf rangeRule [singleRule]

end SeqElement

def SequenceSet.rule : Rule SequenceSet := Rule.separated 0x2C SeqElement.rule

end Imap
